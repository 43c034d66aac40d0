import LinuxC.Ipc.Expiry
import Mathlib.Data.List.Perm.Subperm

/-!
# Handlers that manage timings (`ipc_loop`)

The handlers of a pass may register and unregister timings.  When one of them unregisters the
timing `tt` that the loop has fetched already, the loop calls its handler nevertheless, and if that
timing is not cyclic the loop never leaves it (`expireLoop_trapped`).  `timing_pass_iff` says that
nothing else goes wrong: a pass ends and calls no handler of an unregistered timing if and only if
no handler leaves `tt` unregistered while it is due (`CarefulTurn`).

`PassOk` is the invariant of the turns, and the number of expired timings in the list falls.
-/

namespace LinuxC.Ipc

variable {T : Type} [DecidableEq T]

/-! ## Conditions on the turns of a pass -/

/-- The variables and the handlers that are left after some turns. -/
inductive Reached (now : TimeVal) : (ℕ → List (TimingCall T)) → Pass T →
    (ℕ → List (TimingCall T)) → Pass T → Prop
  | refl (script : ℕ → List (TimingCall T)) (s : Pass T) : Reached now script s script s
  | turn {script script' : ℕ → List (TimingCall T)} {s s₁ s' : Pass T} {t : T}
      (hdue : s.due now = some t)
      (hturn : Yields (fun bound => expireTurn bound now (script 0) t s) s₁)
      (hrest : Reached now (fun i => script (i + 1)) s₁ script' s') : Reached now script s script' s'

/-- Every turn of the pass meets the condition on the calls of its handler, the timing of the turn
and the variables before it. -/
def EachTurn (now : TimeVal) (P : List (TimingCall T) → T → Pass T → Prop)
    (script : ℕ → List (TimingCall T)) (s : Pass T) : Prop :=
  ∀ script' s', Reached now script s script' s' → ∀ t, s'.due now = some t → P (script' 0) t s'

/-- The calls register timings only that expire after `now`, and give cyclic timings positive
periods only. -/
def ProperCalls (now : TimeVal) : List (TimingCall T) → (T → IpcTiming) → Prop
  | [], _ => True
  | call :: calls, timing =>
      (∀ t, call.Registers t → now.key < (call.update timing t).expire.key ∧
        ((timing t).cycle = true → 0 < (call.update timing t).tv.usecs)) ∧
      ProperCalls now calls (call.update timing)

/-- The same for the handler of a turn. -/
def ProperTurn (now : TimeVal) (calls : List (TimingCall T)) (t : T) (s : Pass T) : Prop :=
  ProperCalls now calls (expiredTiming now t s.core.timing)

/-- A handler that unregisters the timing `tt`, which the loop has fetched, while that is due
registers it again. -/
def CarefulTurn (now : TimeVal) (calls : List (TimingCall T)) (_ : T) (s : Pass T) : Prop :=
  ∀ m, s.tt = .entry m → s.core.key m ≤ now.key → .unregister m ∈ calls →
    ∃ call ∈ calls, call.Registers m

/-- The timings that were unregistered and not registered again. -/
def PassEvent.mark (gone : T → Bool) : PassEvent T → T → Bool
  | .fire _ => gone
  | .call c => fun t => if c.Registers t then false else if c = .unregister t then true else gone t

/-- No handler is called for a timing that was unregistered and not registered again. -/
def Fresh : (T → Bool) → List (PassEvent T) → Prop
  | _, [] => True
  | gone, e :: es => (∀ t, e = .fire t → gone t = false) ∧ Fresh (e.mark gone) es

variable {now : TimeVal} {P : List (TimingCall T) → T → Pass T → Prop}
  {script : ℕ → List (TimingCall T)} {s s' : Pass T} {t : T}

lemma EachTurn.head (h : EachTurn now P script s) (hdue : s.due now = some t) :
    P (script 0) t s := h _ _ (.refl script s) t hdue

lemma EachTurn.tail (h : EachTurn now P script s) (hdue : s.due now = some t)
    (hturn : Yields (fun bound => expireTurn bound now (script 0) t s) s') :
    EachTurn now P (fun i => script (i + 1)) s' :=
  fun _ _ hreached => h _ _ (.turn hdue hturn hreached)

/-- The first turn meets the condition, and the calls of the later ones meet it in any turn. -/
lemma eachTurn_of_calls (hhead : ∀ t, s.due now = some t → P (script 0) t s)
    (hcalls : ∀ i t s, P (script (i + 1)) t s) : EachTurn now P script s := by
  have hany : ∀ {script script' : ℕ → List (TimingCall T)} {s s' : Pass T},
      Reached now script s script' s' → (∀ i t s, P (script i) t s) → ∀ t, P (script' 0) t s' := by
    intro script script' s s' hreached
    induction hreached with
    | refl script s => exact fun h t => h 0 t s
    | turn _ _ _ ih => exact fun h => ih fun i => h (i + 1)
  intro script' s' hreached t hdue
  cases hreached with
  | refl => exact hhead t hdue
  | turn _ _ hrest => exact hany hrest hcalls t

/-! ## The calls of one handler -/

/-- The timings that are gone after some calls. -/
def goneAfter (gone : T → Bool) (calls : List (TimingCall T)) : T → Bool :=
  calls.foldl (fun gone call => (PassEvent.call call).mark gone) gone

lemma fresh_turn {gone : T → Bool} {calls : List (TimingCall T)}
    {r : TimingCore T × List (PassEvent T)} :
    Fresh gone (logTurn t calls r).2 ↔ gone t = false ∧ Fresh (goneAfter gone calls) r.2 := by
  have hcalls : ∀ (calls : List (TimingCall T)) (gone : T → Bool) (es : List (PassEvent T)),
      Fresh gone (calls.map .call ++ es) ↔ Fresh (goneAfter gone calls) es := by
    intro calls
    induction calls with
    | nil => exact fun gone es => Iff.rfl
    | cons call calls ih =>
        intro gone es
        have hcall : ∀ t, PassEvent.call call = .fire t → gone t = false := by simp
        rw [List.map_cons, List.cons_append, Fresh, ih]
        exact and_iff_right hcall
  change (∀ u, PassEvent.fire t = .fire u → gone u = false) ∧ Fresh gone (calls.map .call ++ r.2) ↔ _
  rw [hcalls]
  simp

/-- A timing that was unregistered, and was not registered by the same handler, is gone. -/
lemma goneAfter_of_unregister {gone : T → Bool} {calls : List (TimingCall T)} {m : T}
    (hmem : .unregister m ∈ calls ∨ gone m = true) (hnot : ∀ call ∈ calls, ¬ call.Registers m) :
    goneAfter gone calls m = true := by
  induction calls generalizing gone with
  | nil => exact hmem.resolve_left List.not_mem_nil
  | cons call calls ih =>
      refine ih ?_ fun c hc => hnot c (by simp [hc])
      simp only [PassEvent.mark, if_neg (hnot call (by simp))]
      rcases hmem with hmem | hgone
      · rcases List.mem_cons.mp hmem with rfl | hmem
        · exact .inr (if_pos rfl)
        · exact .inl hmem
      · right
        split_ifs
        · rfl
        · exact hgone

lemma TimingCall.update_of_not {call : TimingCall T} {u : T} (h : ¬ call.Registers u)
    (timing : T → IpcTiming) : call.update timing u = timing u := by
  cases call with
  | register t clock => exact Function.update_of_ne (fun heq => h heq.symm) ..
  | unregister t => rfl
  | refresh t tv clock => exact Function.update_of_ne (fun heq => h heq.symm) ..

lemma TimingCall.update_cycle (call : TimingCall T) (timing : T → IpcTiming) (u : T) :
    (call.update timing u).cycle = (timing u).cycle := by
  by_cases h : call.Registers u
  · cases call with
    | register t clock =>
        obtain rfl : t = u := h
        simp [TimingCall.update, timingRefresh]
    | unregister t => exact h.elim
    | refresh t tv clock =>
        obtain rfl : t = u := h
        simp [TimingCall.update, timingRefresh]
  · rw [TimingCall.update_of_not h]

/-- All cyclic timings have positive periods. -/
def Periods (timing : T → IpcTiming) : Prop :=
  ∀ t, (timing t).cycle = true → 0 < (timing t).tv.usecs

/-- **What the calls of a handler do.** -/
structure Handled (now : TimeVal) (calls : List (TimingCall T)) (core : TimingCore T) (xs : List T)
    (core' : TimingCore T) (xs' : List T) : Prop where
  timings : Timings core' xs'
  ready : core'.Ready
  periods : Periods core'.timing
  mem : ∀ u ∈ xs', u ∈ xs ∨ ∃ call ∈ calls, call.Registers u
  kept : ∀ u ∈ xs, .unregister u ∉ calls → u ∈ xs'
  later : ∀ u, (now.key < core.key u ∨ ∃ call ∈ calls, call.Registers u) → now.key < core'.key u
  same : ∀ u, (∀ call ∈ calls, ¬ call.Registers u) → core'.timing u = core.timing u
  gone : ∀ gone : T → Bool, (∀ u ∈ xs, gone u = false) → ∀ u ∈ xs', goneAfter gone calls u = false

variable {core core' : TimingCore T} {xs xs' : List T}

lemma Timings.runCalls (h : Timings core xs) (hready : core.Ready) (hperiods : Periods core.timing)
    {calls : List (TimingCall T)} (hproper : ProperCalls now calls core.timing) :
    ∃ core' xs', Yields (fun bound => runCalls bound calls core) core' ∧
      Handled now calls core xs core' xs' := by
  induction calls generalizing core xs with
  | nil =>
      refine ⟨core, xs, Yields.pure core, h, hready, hperiods, fun u hu => .inl hu,
        fun u hu _ => hu, fun u hu => ?_, fun u _ => rfl, fun gone hgone => hgone⟩
      simpa using hu
  | cons call calls ih =>
      obtain ⟨hcall, hcalls⟩ := hproper
      obtain ⟨core₁, xs₁, hexec, hcalled⟩ := h.exec hready call
      rw [← hcalled.timing] at hcalls
      have hperiods₁ : Periods core₁.timing := by
        intro u hu
        rw [hcalled.timing] at hu ⊢
        rw [call.update_cycle] at hu
        by_cases hreg : call.Registers u
        · exact (hcall u hreg).2 hu
        · rw [TimingCall.update_of_not hreg]
          exact hperiods u hu
      obtain ⟨core', xs', hrun, hhandled⟩ := ih hcalled.timings hcalled.ready hperiods₁ hcalls
      have hreturns : Yields (fun bound => runCalls bound (call :: calls) core) core' :=
        hexec.bind (g := fun bound (r : ℤ × TimingCore T) => Ipc.runCalls bound calls r.2) hrun
      refine ⟨core', xs', hreturns,
        hhandled.timings, hhandled.ready, hhandled.periods, fun u hu => ?_, fun u hu hnot => ?_,
        fun u hu => ?_, fun u hu => ?_, fun gone hgone => ?_⟩
      · rcases hhandled.mem u hu with hu | ⟨c, hc, hreg⟩
        · rcases (hcalled.mem u).mp hu with hreg | ⟨hu, -⟩
          · exact .inr ⟨call, by simp, hreg⟩
          · exact .inl hu
        · exact .inr ⟨c, by simp [hc], hreg⟩
      · rw [List.mem_cons, not_or] at hnot
        exact hhandled.kept u ((hcalled.mem u).mpr (.inr ⟨hu, Ne.symm hnot.1⟩)) hnot.2
      · apply hhandled.later
        rw [TimingCore.key, hcalled.timing]
        by_cases hreg : call.Registers u
        · exact .inl (hcall u hreg).1
        · rw [TimingCall.update_of_not hreg]
          rcases hu with hu | ⟨c, hc, hreg'⟩
          · exact .inl hu
          · rcases List.mem_cons.mp hc with rfl | hc
            · exact absurd hreg' hreg
            · exact .inr ⟨c, hc, hreg'⟩
      · rw [hhandled.same u fun c hc => hu c (by simp [hc]), hcalled.timing,
          TimingCall.update_of_not (hu call (by simp))]
      · apply hhandled.gone _
        intro u hu
        simp only [PassEvent.mark]
        rcases (hcalled.mem u).mp hu with hreg | ⟨hu, hne⟩
        · rw [if_pos hreg]
        · rw [if_neg hne, hgone u hu]
          split_ifs <;> rfl

/-! ## Turns -/

/-- No timing of the list is gone. -/
structure PassBase (now : TimeVal) (gone : T → Bool) (s : Pass T) (xs : List T) : Prop where
  timings : Timings s.core xs
  ready : s.core.Ready
  periods : Periods s.core.timing
  tt : s.tt = s.core.links.next s.timing
  gone : ∀ t ∈ xs, gone t = false

/-- **The invariant of the loop.**  The timing of the next turn is in the list. -/
structure PassOk (now : TimeVal) (gone : T → Bool) (s : Pass T) (xs : List T) : Prop
    extends PassBase now gone s xs where
  linked : ∀ t, s.due now = some t → t ∈ xs

omit [DecidableEq T] in
lemma PassOk.next {gone : T → Bool} (h : PassOk now gone s xs) (hdue : s.due now = some t) {m : T}
    (hm : s.tt = .entry m) : m ∈ xs ∧ m ≠ t := by
  have htiming := (due_eq_some.mp hdue).1
  have hmem : TimingNode.entry t ∈ xs.map TimingNode.entry :=
    List.mem_map_of_mem (h.linked t hdue)
  have hnext := (h.timings.ring.neighbours (List.mem_cons_of_mem _ hmem)).1
  have hne := h.timings.ring.next_ne hmem
  rw [← htiming, ← h.tt, hm] at hnext
  rw [← htiming, ← h.tt, hm, htiming] at hne
  exact ⟨entry_mem.mp hnext, fun heq => hne (congrArg TimingNode.entry heq)⟩

/-- The list when the handler is called: the timing of the turn is not due any more. -/
structure Expired (now : TimeVal) (t : T) (core : TimingCore T) (xs : List T)
    (core' : TimingCore T) (xs' : List T) : Prop where
  timings : Timings core' xs'
  ready : core'.Ready
  periods : Periods core'.timing
  timing : core'.timing = expiredTiming now t core.timing
  due : ∀ u ∈ xs', core'.key u ≤ now.key → u ∈ xs ∧ u ≠ t
  mem : ∀ u, u ≠ t → (u ∈ xs' ↔ u ∈ xs)

lemma Timings.expired (h : Timings core xs) (hready : core.Ready) (hperiods : Periods core.timing)
    (hnow : 0 ≤ now.tvUsec) (t : T) :
    ∃ core' xs', Yields (fun bound => expireTiming bound now t core) core' ∧
      Expired now t core xs core' xs' := by
  obtain ⟨core', hreturns, htimings, htiming, hinited, hcontext⟩ := h.expire now t
  have hperiods' : Periods core'.timing := by
    intro u hu
    rw [htiming] at hu ⊢
    rcases eq_or_ne u t with rfl | hut
    · rw [expiredTiming_self] at hu ⊢
      split_ifs at hu ⊢ with hcycle
      · exact hperiods u hcycle
      · exact absurd hu hcycle
    · rw [expiredTiming_of_ne _ hut] at hu ⊢
      exact hperiods u hu
  refine ⟨core', _, hreturns, htimings, ⟨hinited.trans hready.1, hcontext.trans hready.2⟩, hperiods',
    htiming, fun u hu hle => ?_, fun u hut => ?_⟩
  · split_ifs at hu with hcycle
    · have hut : u ≠ t := by
        rintro rfl
        rw [TimingCore.key, htiming, expiredTiming_self, if_pos hcycle] at hle
        exact absurd (key_lt_refresh hnow (hperiods u hcycle)) (not_lt.mpr hle)
      rcases mem_insertLate.mp hu with heq | hu
      · exact absurd heq hut
      · exact ⟨List.mem_of_mem_erase hu, hut⟩
    · have hmem := h.nodup.mem_erase_iff.mp hu
      exact ⟨hmem.2, hmem.1⟩
  · split_ifs
    · rw [mem_insertLate, List.mem_erase_of_ne hut]
      exact or_iff_right hut
    · rw [List.mem_erase_of_ne hut]

/-- **What a turn does.**  The number of timings that are due falls.  The timing of the next turn is
in the list if the handler is careful, and otherwise it is gone. -/
structure Turned (now : TimeVal) (gone : T → Bool) (calls : List (TimingCall T)) (t : T)
    (s : Pass T) (xs : List T) (s' : Pass T) (xs' : List T) : Prop where
  base : PassBase now (goneAfter gone calls) s' xs'
  fewer : (expired now s'.core xs').length < (expired now s.core xs).length
  same : ∀ u, u ≠ t → (∀ call ∈ calls, ¬ call.Registers u) → s'.core.timing u = s.core.timing u
  careful : CarefulTurn now calls t s → PassOk now (goneAfter gone calls) s' xs'
  careless : ¬ CarefulTurn now calls t s →
    ∃ m, s'.due now = some m ∧ goneAfter gone calls m = true

lemma PassOk.turn {gone : T → Bool} {calls : List (TimingCall T)} (h : PassOk now gone s xs)
    (hdue : s.due now = some t) (hnow : 0 ≤ now.tvUsec) (hproper : ProperTurn now calls t s) :
    ∃ s' xs', Yields (fun bound => expireTurn bound now calls t s) s' ∧
      Turned now gone calls t s xs s' xs' := by
  obtain ⟨core₁, xs₁, hexpire, hexpired⟩ := h.timings.expired h.ready h.periods hnow t
  have hproper₁ : ProperCalls now calls core₁.timing := by
    rw [hexpired.timing]
    exact hproper
  obtain ⟨core', xs', hrun, hhandled⟩ :=
    hexpired.timings.runCalls hexpired.ready hexpired.periods hproper₁
  have hkey : ∀ u, u ≠ t → core₁.key u = s.core.key u := fun u hu => by
    rw [TimingCore.key, hexpired.timing, expiredTiming_of_ne _ hu, TimingCore.key]
  -- what is due afterwards was due before, and has not been registered
  have hstill : ∀ u, core'.key u ≤ now.key →
      core₁.key u ≤ now.key ∧ ∀ call ∈ calls, ¬ call.Registers u := by
    intro u hu
    refine ⟨not_lt.mp fun hlt => ?_, fun call hcall hreg => ?_⟩
    · exact absurd (hhandled.later u (.inl hlt)) (not_lt.mpr hu)
    · exact absurd (hhandled.later u (.inr ⟨call, hcall, hreg⟩)) (not_lt.mpr hu)
  have hbase : PassBase now (goneAfter gone calls) ⟨core', s.tt, core'.links.next s.tt⟩ xs' := by
    refine ⟨hhandled.timings, hhandled.ready, hhandled.periods, rfl, hhandled.gone gone ?_⟩
    intro u hu
    rcases eq_or_ne u t with rfl | hut
    · exact h.gone u (h.linked u hdue)
    · exact h.gone u ((hexpired.mem u hut).mp hu)
  refine ⟨⟨core', s.tt, core'.links.next s.tt⟩, xs', ?_, hbase, ?_, fun u hut hnone => ?_,
    fun hcareful => ⟨hbase, ?_⟩, fun hnot => ?_⟩
  · exact hexpire.bind (g := fun bound core => (runCalls bound calls core).map fun core =>
      (⟨core, s.tt, core.links.next s.tt⟩ : Pass T)) (hrun.map _)
  · have hmem : t ∈ expired now s.core xs :=
      mem_expired.mpr ⟨h.linked t hdue, (due_eq_some.mp hdue).2⟩
    have hsub : expired now core' xs' ⊆ (expired now s.core xs).erase t := by
      intro u hu
      obtain ⟨hu, hle⟩ := mem_expired.mp hu
      obtain ⟨hle₁, hnone⟩ := hstill u hle
      have hu₁ : u ∈ xs₁ := by
        rcases hhandled.mem u hu with hu₁ | ⟨call, hcall, hreg⟩
        · exact hu₁
        · exact absurd hreg (hnone call hcall)
      obtain ⟨hxs, hut⟩ := hexpired.due u hu₁ hle₁
      rw [hkey u hut] at hle₁
      exact (List.mem_erase_of_ne hut).mpr (mem_expired.mpr ⟨hxs, hle₁⟩)
    have hnodup : (expired now core' xs').Nodup :=
      hhandled.timings.nodup.sublist List.filter_sublist
    have hlen := (List.subperm_of_subset hnodup hsub).length_le
    rw [List.length_erase_of_mem hmem] at hlen
    have hpos := List.length_pos_of_mem hmem
    dsimp only
    omega
  · dsimp only
    rw [hhandled.same u hnone, hexpired.timing, expiredTiming_of_ne _ hut]
  · intro m hm
    obtain ⟨htt, hle⟩ := due_eq_some.mp hm
    obtain ⟨hxs, hut⟩ := h.next hdue htt
    obtain ⟨hle₁, hnone⟩ := hstill m hle
    rw [hkey m hut] at hle₁
    apply hhandled.kept m ((hexpired.mem m hut).mpr hxs)
    intro hcall
    obtain ⟨c, hc, hreg⟩ := hcareful m htt hle₁ hcall
    exact hnone c hc hreg
  · unfold CarefulTurn at hnot
    push Not at hnot
    obtain ⟨m, htt, hle, hcall, hnone⟩ := hnot
    have hut := (h.next hdue htt).2
    refine ⟨m, due_eq_some.mpr ⟨htt, ?_⟩, goneAfter_of_unregister (.inl hcall) hnone⟩
    dsimp only
    rw [hhandled.same m hnone]
    exact (hkey m hut).trans_le hle

/-! ## Passes -/

/-- **A loop with careful handlers** ends, and calls no handler of a timing that is gone. -/
lemma PassOk.loop {gone : T → Bool} (h : PassOk now gone s xs) (hnow : 0 ≤ now.tvUsec)
    (hproper : EachTurn now (ProperTurn now) script s)
    (hcareful : EachTurn now (CarefulTurn now) script s) :
    ∃ r, Yields (fun bound => expireLoop now bound script s) r ∧ Fresh gone r.2 := by
  -- each turn leaves fewer timings that are due
  induction hn : (expired now s.core xs).length using Nat.strong_induction_on
    generalizing script s xs gone with
  | _ n ih =>
      cases hdue : s.due now with
      | none => exact ⟨_, expireLoop_done hdue, trivial⟩
      | some t =>
          obtain ⟨s', xs', hturn, hturned⟩ := h.turn hdue hnow (hproper.head hdue)
          obtain ⟨r, hr, hfresh⟩ := ih _ (hn ▸ hturned.fewer)
            (hturned.careful (hcareful.head hdue))
            (hproper.tail hdue hturn) (hcareful.tail hdue hturn) rfl
          refine ⟨_, expireLoop_turn script hdue hturn hr, fresh_turn.mpr ⟨?_, hfresh⟩⟩
          exact h.gone t (h.linked t hdue)

/-- A loop that ends calls the handler of the timing that is due. -/
lemma expireLoop_fires {r : TimingCore T × List (PassEvent T)}
    (h : Yields (fun bound => expireLoop now bound script s) r) (hdue : s.due now = some t) :
    ∃ es, r.2 = .fire t :: es := by
  obtain ⟨N, hN⟩ := h
  have hr := hN (N + 1) (Nat.le_succ N)
  simp only [expireLoop, hdue] at hr
  obtain ⟨s', -, hr⟩ := Option.bind_eq_some_iff.mp hr
  obtain ⟨r', -, rfl⟩ := Option.map_eq_some_iff.mp hr
  exact ⟨_, rfl⟩

/-- A handler that is not careful does harm, in the very next turn. -/
lemma PassOk.careful_of_fresh {gone : T → Bool} (h : PassOk now gone s xs)
    (hdue : s.due now = some t) (hnow : 0 ≤ now.tvUsec) (hproper : ProperTurn now (script 0) t s)
    {r : TimingCore T × List (PassEvent T)}
    (hloop : Yields (fun bound => expireLoop now bound script s) r) (hfresh : Fresh gone r.2) :
    CarefulTurn now (script 0) t s := by
  by_contra hnot
  obtain ⟨s', xs', hturn, hturned⟩ := h.turn hdue hnow hproper
  obtain ⟨m, hm, hgone⟩ := hturned.careless hnot
  obtain ⟨r', hr', rfl⟩ := expireLoop_rest hdue hturn hloop
  obtain ⟨es, hes⟩ := expireLoop_fires hr' hm
  have hrest := (fresh_turn.mp hfresh).2
  rw [hes] at hrest
  rw [hrest.1 m rfl] at hgone
  cases hgone

/-- **A loop that ends and does no harm** has careful handlers only. -/
lemma PassOk.careful {gone : T → Bool} (h : PassOk now gone s xs) (hnow : 0 ≤ now.tvUsec)
    (hproper : EachTurn now (ProperTurn now) script s) {r : TimingCore T × List (PassEvent T)}
    (hloop : Yields (fun bound => expireLoop now bound script s) r) (hfresh : Fresh gone r.2) :
    EachTurn now (CarefulTurn now) script s := by
  intro script' s' hreached
  induction hreached generalizing xs gone r with
  | refl script s =>
      intro t hdue
      exact h.careful_of_fresh hdue hnow (hproper.head hdue) hloop hfresh
  | turn hdue hturn _ ih =>
      obtain ⟨s₁, xs₁, hturn', hturned⟩ := h.turn hdue hnow (hproper.head hdue)
      obtain rfl := hturn.unique hturn'
      obtain ⟨r', hr', rfl⟩ := expireLoop_rest hdue hturn hloop
      have hcareful := h.careful_of_fresh hdue hnow (hproper.head hdue) hloop hfresh
      exact ih (hturned.careful hcareful) (hproper.tail hdue hturn) hr' (fresh_turn.mp hfresh).2

/-- **A trap.**  If a timing is due that is a ring of its own and not cyclic, and the handlers make
no calls, the loop never ends. -/
lemma expireLoop_trapped (hdue : s.due now = some t)
    (halone : s.core.links.next (.entry t) = .entry t ∧ s.core.links.prev (.entry t) = .entry t)
    (hcycle : (s.core.timing t).cycle = false) (htt : s.tt = .entry t)
    (hquiet : ∀ i, script i = []) (bound : ℕ) : expireLoop now bound script s = none := by
  induction bound generalizing script s with
  | zero => rfl
  | succ bound ih =>
      have hsame := listDelInit_alone halone.1 halone.2
      have hturn : expireTurn bound now [] t s =
          some ⟨s.core.delInit t, s.tt, (s.core.delInit t).links.next s.tt⟩ := by
        have hexpire : expireTiming bound now t s.core = some (s.core.delInit t) :=
          if_neg (ne_true_of_eq_false hcycle)
        rw [expireTurn, hexpire]
        rfl
      have hnext : (s.core.delInit t).links.next s.tt = .entry t := by
        rw [htt]
        exact (hsame _).1.trans halone.1
      have hrest : expireLoop now bound (fun i => script (i + 1))
          ⟨s.core.delInit t, s.tt, (s.core.delInit t).links.next s.tt⟩ = none :=
        ih (due_eq_some.mpr ⟨htt, (due_eq_some.mp hdue).2⟩)
          ⟨(hsame _).1.trans halone.1, (hsame _).2.trans halone.2⟩ hcycle hnext
          fun i => hquiet (i + 1)
      simp only [expireLoop, hdue, hquiet 0, hturn, Option.bind_some, hrest, Option.map_none]

omit [DecidableEq T] in
lemma passOk_start (h : Timings core xs) (hready : core.Ready) (hperiods : Periods core.timing) :
    PassOk now (fun _ => false) (Pass.start core) xs where
  timings := h
  ready := hready
  periods := hperiods
  tt := rfl
  linked t ht := by
    have hmem := h.ring.seg.next_mem
    have htiming : core.links.next .core = .entry t := (due_eq_some.mp ht).1
    rwa [htiming, entry_mem] at hmem
  gone _ _ := rfl

/-- **When handlers may manage timings.**  Cyclic timings have positive periods, and the handlers
register only timings that expire after `now`.  Then a pass ends, and never calls the handler of a
timing that a handler of the pass unregistered and none registered again, if and only if every
handler that unregisters the timing which the loop has fetched already, while that is due,
registers it again. -/
theorem timing_pass_iff (h : Timings core xs) (hready : core.Ready) (hnow : 0 ≤ now.tvUsec)
    (hperiods : Periods core.timing)
    (hproper : EachTurn now (ProperTurn now) script (Pass.start core)) :
    (∃ r, Yields (fun bound => expirePass bound now script core) r ∧
        Fresh (fun _ => false) r.2) ↔
      EachTurn now (CarefulTurn now) script (Pass.start core) := by
  have hok : PassOk now (fun _ => false) (Pass.start core) xs := passOk_start h hready hperiods
  constructor
  · rintro ⟨r, hr, hfresh⟩
    exact hok.careful hnow hproper ((yields_expirePass h).mp hr) hfresh
  · intro hcareful
    obtain ⟨r, hr, hfresh⟩ := hok.loop hnow hproper hcareful
    exact ⟨r, (yields_expirePass h).mpr hr, hfresh⟩

/-- The first handler of a pass unregisters the timing `t`, the others make no calls. -/
def unregistering (t : ℕ) : ℕ → List (TimingCall ℕ)
  | 0 => [.unregister t]
  | _ + 1 => []

lemma proper_unregistering (t : ℕ) (now : TimeVal) (s : Pass ℕ) :
    EachTurn now (ProperTurn now) (unregistering t) s :=
  eachTurn_of_calls (fun _ _ => ⟨fun _ h => h.elim, trivial⟩) fun _ _ _ => trivial

/-- A cyclic timing stops itself. -/
theorem timing_pass_iff_sample :
    ∃ r, Yields (fun bound => expirePass bound ⟨2, 0⟩ (unregistering 0) threeTimings) r ∧
      Fresh (fun _ => false) r.2 := by
  have hperiods : Periods threeTimings.timing := fun _ _ => by
    show (0 : ℤ) < 2 * 1000000 + 0
    decide
  refine (timing_pass_iff timings_threeTimings ⟨rfl, rfl⟩ (by decide) hperiods
    (proper_unregistering 0 _ _)).mpr (eachTurn_of_calls (fun t _ m hm _ hcall => ?_) ?_)
  · obtain rfl : m = 0 := by simpa [unregistering] using hcall
    have hnext : (Pass.start threeTimings).tt = .entry 1 := by decide
    rw [hnext] at hm
    cases hm
  · intro i t s m _ _ hcall
    exact absurd hcall List.not_mem_nil

/-- **A handler that unregisters the next timing.**  The timings 0, 1 and 2 are due, and the handler
of 0 unregisters 1: the pass never ends. -/
theorem unregistered_timing_traps :
    ¬ ∃ r, Yields (fun bound => expirePass bound ⟨2, 0⟩ (unregistering 1) threeTimings) r := by
  rintro ⟨r, hr⟩
  have hperiods : Periods threeTimings.timing := fun _ _ => by
    show (0 : ℤ) < 2 * 1000000 + 0
    decide
  have hok : PassOk ⟨2, 0⟩ (fun _ => false) (Pass.start threeTimings) [0, 1, 2] :=
    passOk_start timings_threeTimings ⟨rfl, rfl⟩ hperiods
  have hdue : (Pass.start threeTimings).due ⟨2, 0⟩ = some 0 := by decide
  obtain ⟨s, xs, hturn, hturned⟩ := hok.turn hdue (by decide)
    ((proper_unregistering 1 _ _).head hdue)
  have hcareless : ¬ CarefulTurn ⟨2, 0⟩ (unregistering 1 0) 0 (Pass.start threeTimings) := by
    intro hcareful
    obtain ⟨call, hcall, hreg⟩ := hcareful 1 (by decide) (by decide) (by simp [unregistering])
    obtain rfl := List.mem_singleton.mp hcall
    exact hreg
  obtain ⟨m, hm, hgone⟩ := hturned.careless hcareless
  obtain rfl : 1 = m := by
    simpa [goneAfter, unregistering, PassEvent.mark, TimingCall.Registers] using hgone
  have hout : 1 ∉ xs := fun hmem => Bool.noConfusion ((hturned.base.gone 1 hmem).symm.trans hgone)
  have halone := hturned.base.timings.alone 1 hout
  have hcycle : (s.core.timing 1).cycle = false := by
    rw [hturned.same 1 (by decide) (by decide)]
    rfl
  have htt : s.tt = .entry 1 := by
    rw [hturned.base.tt, (due_eq_some.mp hm).1]
    exact halone.1
  obtain ⟨r', ⟨N, hN⟩, -⟩ := expireLoop_rest hdue hturn
    ((yields_expirePass timings_threeTimings).mp hr)
  have hnone : expireLoop ⟨2, 0⟩ N (fun i => unregistering 1 (i + 1)) s = none :=
    expireLoop_trapped hm halone hcycle htt (fun _ => rfl) N
  cases hnone.symm.trans (hN N (le_refl N))

end LinuxC.Ipc
