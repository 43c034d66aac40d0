import LinuxC.Ipc.Timing

/-!
# Timings that expire (`ipc_loop`)

After `select` the server takes the timings that have expired from the front of the list, puts the
cyclic ones back, and calls their handlers.  The loop is a `list_for_each_entry_safe`: it fetches
the next timing `tt` before it takes the current one out.

A handler is the list of the calls that it makes.  `expiry_pass` is about handlers that make none.
-/

namespace LinuxC.Ipc

variable {T : Type}

structure Pass (T : Type) where
  core : TimingCore T
  timing : TimingNode T
  tt : TimingNode T

/-- What a pass does for the outside: it calls a handler, or a handler calls the server. -/
inductive PassEvent (T : Type)
  | fire (t : T)
  | call (call : TimingCall T)
  deriving DecidableEq

/-- The variables before the first turn. -/
def Pass.start (core : TimingCore T) : Pass T :=
  ⟨core, core.links.next .core, core.links.next (core.links.next .core)⟩

/-- The timing of the next turn: none at the end of the list, or when it has not expired. -/
def Pass.due (now : TimeVal) (s : Pass T) : Option T :=
  match s.timing with
  | .core => none
  | .entry t => if !timercmp now (s.core.timing t).expire then some t else none

lemma due_eq_some {now : TimeVal} {s : Pass T} {t : T} : s.due now = some t ↔
    s.timing = .entry t ∧ (s.core.timing t).expire.key ≤ now.key := by
  unfold Pass.due
  cases s.timing with
  | core => simp
  | entry u =>
      rw [← not_lt, ← timercmp_iff]
      constructor
      · intro h
        dsimp only at h
        split_ifs at h with hu
        obtain rfl := Option.some.inj h
        exact ⟨rfl, by simpa using hu⟩
      · rintro ⟨heq, hu⟩
        obtain rfl := TimingNode.entry.inj heq
        simp [hu]

/-- The loop stands at a timing that has not expired, or at the end. -/
lemma due_eq_none {now : TimeVal} {s : Pass T}
    (h : ∀ t, s.timing = .entry t → now.key < s.core.key t) : s.due now = none := by
  rw [Option.eq_none_iff_forall_ne_some]
  intro t ht
  obtain ⟨htiming, hle⟩ := due_eq_some.mp ht
  exact absurd (h t htiming) (not_lt.mpr hle)

variable [DecidableEq T]

/-- The list in a turn, before the handler is called. -/
def expireTiming (bound : ℕ) (now : TimeVal) (t : T) (core : TimingCore T) :
    Option (TimingCore T) :=
  let core := core.delInit t
  if (core.timing t).cycle then
    timingInsert bound t (core.setTiming t (timingRefresh (some now) now (core.timing t)))
  else some core

/-- A turn, in which the handler makes the given calls. -/
def expireTurn (bound : ℕ) (now : TimeVal) (calls : List (TimingCall T)) (t : T) (s : Pass T) :
    Option (Pass T) :=
  (expireTiming bound now t s.core).bind fun core =>
    (runCalls bound calls core).map fun core => ⟨core, s.tt, core.links.next s.tt⟩

/-- A turn in front of a result of the loop. -/
def logTurn (t : T) (calls : List (TimingCall T)) (r : TimingCore T × List (PassEvent T)) :
    TimingCore T × List (PassEvent T) := (r.1, .fire t :: calls.map .call ++ r.2)

/-- The loop, with the calls of its first handler, its second one and so on. -/
def expireLoop (now : TimeVal) :
    ℕ → (ℕ → List (TimingCall T)) → Pass T → Option (TimingCore T × List (PassEvent T))
  | 0, _, _ => none
  | bound + 1, script, s =>
      match s.due now with
      | none => some (s.core, [])
      | some t =>
          (expireTurn bound now (script 0) t s).bind fun s' =>
            (expireLoop now bound (fun i => script (i + 1)) s').map (logTurn t (script 0))

/-- The part of `ipc_loop` about the timings, behind `select`. -/
def expirePass (bound : ℕ) (now : TimeVal) (script : ℕ → List (TimingCall T))
    (core : TimingCore T) : Option (TimingCore T × List (PassEvent T)) :=
  if listEmpty .core core.links then some (core, [])
  else expireLoop now bound script (Pass.start core)

/-! ## Turns -/

variable {core : TimingCore T} {xs : List T} {t : T} {now : TimeVal} {s s' : Pass T}
  {script : ℕ → List (TimingCall T)}

/-- The timings in the memory when the handler of `t` is called. -/
def expiredTiming (now : TimeVal) (t : T) (timing : T → IpcTiming) : T → IpcTiming :=
  if (timing t).cycle then Function.update timing t (timingRefresh (some now) now (timing t))
  else timing

lemma expiredTiming_self (timing : T → IpcTiming) : expiredTiming now t timing t =
    if (timing t).cycle then timingRefresh (some now) now (timing t) else timing t := by
  unfold expiredTiming
  split_ifs
  · exact Function.update_self ..
  · rfl

lemma expiredTiming_of_ne (timing : T → IpcTiming) {u : T} (hu : u ≠ t) :
    expiredTiming now t timing u = timing u := by
  unfold expiredTiming
  split_ifs
  · exact Function.update_of_ne hu ..
  · rfl

lemma Timings.expire (now : TimeVal) (h : Timings core xs) (t : T) :
    ∃ core', Yields (fun bound => expireTiming bound now t core) core' ∧
      Timings core' (if (core.timing t).cycle then insertLate core'.key t (xs.erase t)
        else xs.erase t) ∧
      core'.timing = expiredTiming now t core.timing ∧ core'.inited = core.inited ∧
      core'.context = core.context := by
  have hdel := h.delInit t
  unfold expireTiming expiredTiming
  by_cases hcycle : (core.timing t).cycle = true
  · have hout : t ∉ xs.erase t := h.nodup.not_mem_erase
    obtain ⟨core', hreturns, htimings, htiming, hinited, hcontext⟩ :=
      (hdel.setTiming hout (timingRefresh (some now) now (core.timing t))).insert hout
    refine ⟨core', hreturns.of_eq fun bound => if_pos hcycle, ?_, ?_, hinited, hcontext⟩
    · have hkey : core'.key =
          ((core.delInit t).setTiming t (timingRefresh (some now) now (core.timing t))).key := by
        funext u
        rw [TimingCore.key, htiming]
        rfl
      rw [if_pos hcycle, hkey]
      exact htimings
    · rw [htiming, if_pos hcycle]
      rfl
  · refine ⟨core.delInit t, ?_, ?_, ?_, rfl, rfl⟩
    · exact (Yields.pure _).of_eq fun bound => if_neg hcycle
    · rw [if_neg hcycle]
      exact hdel
    · rw [if_neg hcycle]
      rfl

lemma expireLoop_done (h : s.due now = none) :
    Yields (fun bound => expireLoop now bound script s) (s.core, []) := by
  rw [← Yields.succ_iff]
  refine (Yields.pure _).of_eq fun bound => ?_
  rw [expireLoop, h]

lemma expireLoop_turn (script : ℕ → List (TimingCall T)) (h : s.due now = some t)
    (hturn : Yields (fun bound => expireTurn bound now (script 0) t s) s')
    {r : TimingCore T × List (PassEvent T)}
    (hrest : Yields (fun bound => expireLoop now bound (fun i => script (i + 1)) s') r) :
    Yields (fun bound => expireLoop now bound script s) (logTurn t (script 0) r) := by
  rw [← Yields.succ_iff]
  refine (hturn.bind (g := fun bound s' => (expireLoop now bound (fun i => script (i + 1)) s').map
    (logTurn t (script 0))) (hrest.map _)).of_eq fun bound => ?_
  rw [expireLoop, h]

lemma expireLoop_rest (h : s.due now = some t)
    (hturn : Yields (fun bound => expireTurn bound now (script 0) t s) s')
    {r : TimingCore T × List (PassEvent T)}
    (hloop : Yields (fun bound => expireLoop now bound script s) r) :
    ∃ r', Yields (fun bound => expireLoop now bound (fun i => script (i + 1)) s') r' ∧
      logTurn t (script 0) r' = r := by
  rw [← Yields.succ_iff] at hloop
  have hbind := hturn.of_bind (g := fun bound s' =>
    (expireLoop now bound (fun i => script (i + 1)) s').map (logTurn t (script 0)))
    (hloop.of_eq fun bound => by rw [expireLoop, h])
  apply hbind.of_map
  intro a b hab
  obtain ⟨h1, h2⟩ := Prod.mk.inj hab
  exact Prod.ext h1 (List.append_cancel_left h2)

/-- The test of `ipc_loop` makes no difference: the loop ends at once in an empty list. -/
lemma yields_expirePass (h : Timings core xs) {r : TimingCore T × List (PassEvent T)} :
    Yields (fun bound => expirePass bound now script core) r ↔
      Yields (fun bound => expireLoop now bound script (Pass.start core)) r := by
  have hempty : listEmpty .core core.links = decide (xs.map TimingNode.entry = []) :=
    h.ring.listEmpty
  unfold expirePass
  by_cases hxs : xs = []
  · subst hxs
    have hdue : (Pass.start core).due now = none := by
      apply due_eq_none
      intro t ht
      have hnext : core.links.next .core = .core := h.ring.seg.1
      cases hnext.symm.trans ht
    have hskip : Yields (fun _ => some (core, ([] : List (PassEvent T)))) (core, []) := .pure _
    have hdone : Yields (fun bound => expireLoop now bound script (Pass.start core)) (core, []) :=
      expireLoop_done hdue
    simp only [hempty, List.map_nil, decide_true, if_true]
    constructor
    · intro hr
      rwa [hr.unique hskip]
    · intro hr
      rwa [hr.unique hdone]
  · simp only [hempty, List.map_eq_nil_iff, hxs, decide_false, Bool.false_eq_true, if_false]

/-! ## A pass with handlers that leave the timings alone -/

/-- The timings of the list that have expired. -/
def expired (now : TimeVal) (core : TimingCore T) (xs : List T) : List T :=
  xs.filter fun t => decide (core.key t ≤ now.key)

/-- **A loop that nobody disturbs.**  The timings `ds` at the front of the list have expired, those
behind them have not, and the loop looks at the first one. -/
structure Quiet (now : TimeVal) (s : Pass T) (ds late : List T) : Prop where
  timings : Timings s.core (ds ++ late)
  due : ∀ d ∈ ds, s.core.key d ≤ now.key
  late : ∀ u ∈ late, now.key < s.core.key u
  period : ∀ d ∈ ds, (s.core.timing d).cycle = true →
    now.key < (timingRefresh (some now) now (s.core.timing d)).expire.key
  first : s.timing = s.core.links.next .core ∨ ds = [] ∧ s.due now = none
  tt : s.tt = s.core.links.next s.timing

omit [DecidableEq T] in
lemma Quiet.done {late : List T} (h : Quiet now s [] late) : s.due now = none := by
  rcases h.first with hfirst | ⟨-, hdue⟩
  · refine due_eq_none fun t ht => h.late t ?_
    have hmem := h.timings.ring.seg.next_mem
    rwa [← hfirst, ht, List.nil_append, entry_mem] at hmem
  · exact hdue

lemma Quiet.turn {d : T} {ds late : List T} (h : Quiet now s (d :: ds) late) :
    s.due now = some d ∧ ∃ s', Yields (fun bound => expireTurn bound now [] d s) s' ∧
      Quiet now s' ds (if (s.core.timing d).cycle then insertLate s'.core.key d late else late) ∧
      s'.core.timing = expiredTiming now d s.core.timing := by
  have hseg := h.timings.ring.seg
  rw [List.cons_append, List.map_cons] at hseg
  obtain ⟨hnext, -, hrest⟩ := hseg
  have htiming : s.timing = .entry d := by
    rcases h.first with hfirst | ⟨hnil, -⟩
    · exact hfirst.trans hnext
    · cases hnil
  refine ⟨due_eq_some.mpr ⟨htiming, h.due d (by simp)⟩, ?_⟩
  obtain ⟨core', hexpire, htimings, htiming', -⟩ := h.timings.expire now d
  have hnodup := h.timings.nodup
  rw [List.cons_append, List.nodup_cons, List.mem_append, not_or] at hnodup
  obtain ⟨⟨hdds, hdlate⟩, -⟩ := hnodup
  have hds : ∀ e ∈ ds, e ≠ d := fun e he heq => hdds (heq ▸ he)
  have hlate : ∀ u ∈ late, u ≠ d := fun u hu heq => hdlate (heq ▸ hu)
  have hother : ∀ u, u ≠ d → core'.timing u = s.core.timing u := fun u hu => by
    rw [htiming', expiredTiming_of_ne _ hu]
  have hkey : ∀ u, u ≠ d → core'.key u = s.core.key u := fun u hu => by
    rw [TimingCore.key, hother u hu, TimingCore.key]
  have hself : (s.core.timing d).cycle = true → now.key < core'.key d := by
    intro hcycle
    rw [TimingCore.key, htiming', expiredTiming_self, if_pos hcycle]
    exact h.period d (by simp) hcycle
  have hlist : Timings core' (ds ++
      if (s.core.timing d).cycle then insertLate core'.key d late else late) := by
    rw [List.cons_append, List.erase_cons_head] at htimings
    split_ifs at htimings ⊢ with hcycle
    · rwa [insertLate_append] at htimings
      intro e he
      rw [hkey e (hds e he)]
      exact (h.due e (by simp [he])).trans (hself hcycle).le
    · exact htimings
  have hlater : ∀ u ∈ if (s.core.timing d).cycle then insertLate core'.key d late else late,
      now.key < core'.key u := by
    have hold : ∀ u ∈ late, now.key < core'.key u := fun u hu => by
      rw [hkey u (hlate u hu)]
      exact h.late u hu
    intro u hu
    split_ifs at hu with hcycle
    · rcases mem_insertLate.mp hu with rfl | hu
      · exact hself hcycle
      · exact hold u hu
    · exact hold u hu
  have htt : s.tt = s.core.links.next (.entry d) := by rw [h.tt, htiming]
  refine ⟨⟨core', s.tt, core'.links.next s.tt⟩, ?_, ⟨hlist, ?_, hlater, ?_, ?_, rfl⟩, htiming'⟩
  · exact hexpire.bind (g := fun bound core => (runCalls bound [] core).map fun core =>
      (⟨core, s.tt, core.links.next s.tt⟩ : Pass T)) (Yields.pure _)
  · intro e he
    dsimp only
    rw [hkey e (hds e he)]
    exact h.due e (by simp [he])
  · intro e he
    dsimp only
    rw [hother e (hds e he)]
    exact h.period e (by simp [he])
  · cases ds with
    | nil =>
        refine .inr ⟨rfl, due_eq_none fun u hu => ?_⟩
        have hmem := hrest.next_mem
        rw [← htt, show s.tt = .entry u from hu, List.nil_append, entry_mem] at hmem
        dsimp only
        rw [hkey u (hlate u hmem)]
        exact h.late u hmem
    | cons e es =>
        left
        dsimp only
        rw [htt, hrest.1]
        exact hlist.ring.seg.1.symm

/-- **The loop** calls the handlers of `ds`, and puts the cyclic ones back. -/
lemma Quiet.loop {ds late : List T} (h : Quiet now s ds late) :
    ∃ core', Yields (fun bound => expireLoop now bound (fun _ => []) s)
        (core', ds.map .fire) ∧
      Timings core' (enqueue core'.key (ds.filter fun d => (s.core.timing d).cycle) late) ∧
      ∀ u, core'.timing u =
        if u ∈ ds ∧ (s.core.timing u).cycle = true then
          timingRefresh (some now) now (s.core.timing u)
        else s.core.timing u := by
  induction ds generalizing s late with
  | nil =>
      refine ⟨s.core, expireLoop_done h.done, h.timings, fun u => ?_⟩
      rw [if_neg (by simp)]
  | cons d ds ih =>
      obtain ⟨hdue, s', hturn, hquiet, htiming⟩ := h.turn
      obtain ⟨core', hreturns, htimings, htiming'⟩ := ih hquiet
      have hnodup := h.timings.nodup
      rw [List.cons_append, List.nodup_cons, List.mem_append, not_or] at hnodup
      obtain ⟨⟨hdds, hdlate⟩, hnodup⟩ := hnodup
      have hdisjoint := List.disjoint_of_nodup_append hnodup
      have hself : s'.core.timing d = if (s.core.timing d).cycle then
          timingRefresh (some now) now (s.core.timing d) else s.core.timing d := by
        rw [htiming, expiredTiming_self]
      have hother : ∀ u, u ≠ d → s'.core.timing u = s.core.timing u := fun u hu => by
        rw [htiming, expiredTiming_of_ne _ hu]
      refine ⟨core', expireLoop_turn (fun _ => []) hdue hturn hreturns, ?_, fun u => ?_⟩
      · have hfilter : ds.filter (fun e => (s'.core.timing e).cycle) =
            ds.filter fun e => (s.core.timing e).cycle := by
          apply List.filter_congr
          intro e he
          rw [hother e fun heq => hdds (heq ▸ he)]
        rw [hfilter] at htimings
        rw [List.filter_cons]
        split_ifs at htimings ⊢ with hcycle
        · have hsame : insertLate core'.key d late = insertLate s'.core.key d late := by
            refine insertLate_congr ?_ fun u hu => ?_
            · rw [TimingCore.key, htiming', if_neg fun h => hdds h.1, TimingCore.key]
            · have hds : u ∉ ds := fun hmem => hdisjoint hmem hu
              rw [TimingCore.key, htiming', if_neg fun h => hds h.1, TimingCore.key]
          rw [← hsame] at htimings
          exact htimings
        · exact htimings
      · rw [htiming']
        rcases eq_or_ne u d with rfl | hu
        · rw [if_neg fun h => hdds h.1, hself]
          simp
        · rw [hother u hu]
          simp [hu]

/-- The timings of the list that have not expired. -/
def pending (now : TimeVal) (core : TimingCore T) (xs : List T) : List T :=
  xs.filter fun t => !decide (core.key t ≤ now.key)

omit [DecidableEq T] in
lemma mem_expired {u : T} : u ∈ expired now core xs ↔ u ∈ xs ∧ core.key u ≤ now.key := by
  rw [expired, List.mem_filter, decide_eq_true_iff]

/-- Three timings: the first one is cyclic. -/
def threeTimings : TimingCore ℕ where
  links := listAddTail (.entry 2) .core (listAddTail (.entry 1) .core
    (listAddTail (.entry 0) .core ⟨id, id⟩))
  timing t := ⟨t = 0, ⟨2, 0⟩, ⟨t, 0⟩⟩
  inited := true
  context := true

lemma timings_threeTimings : Timings threeTimings [0, 1, 2] where
  ring := by
    refine ⟨?_, by decide⟩
    simp only [List.map_cons, List.map_nil, Links.Seg]
    decide
  alone t ht := by
    simp only [List.mem_cons, List.not_mem_nil, not_or, or_false] at ht
    simp [threeTimings, listAddTail, listAddBetween, Links.setNext, Links.setPrev, ht]
  queued := by
    unfold Queued
    decide

end LinuxC.Ipc
