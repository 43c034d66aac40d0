import LinuxC.Common.ListHead
import LinuxC.Framework.StableQueue
import LinuxC.Framework.Turns
import Mathlib.Algebra.Ring.Int.Defs
import Mathlib.Data.Prod.Lex

/-!
# Timings of the server (`ipc/ipc_server.c`)

A timing is a node of the list `core->timing`, which is ordered by the time of expiry.  The server
reads the clock in microseconds (`IPC_EPOLL` is `0`).  Times are unbounded here, and `long`s in the
source: for a clock and a `tv` with seconds and microseconds from 0 to `2 ^ 61` no addition of
`timing_refresh` overflows (`timingRefresh_range`).

`Timings core xs` says that the list runs through `xs`, that every other timing is a ring of its
own, as `ipc_timing_init` leaves it, and that the list is ordered.  Each operation keeps it
(`Timings.insert`, `Timings.delInit`), and the operations of a handler change the list and nothing
but the timing they are called for (`Timings.exec`).
-/

namespace LinuxC.Ipc

/-! ## Times -/

structure TimeVal where
  tvSec : ℤ
  tvUsec : ℤ
  deriving DecidableEq

/-- `timercmp` with `<`. -/
def timercmp (a b : TimeVal) : Bool :=
  if a.tvSec = b.tvSec then decide (a.tvUsec < b.tvUsec) else decide (a.tvSec < b.tvSec)

/-- The seconds, then the microseconds. -/
def TimeVal.key (a : TimeVal) : ℤ ×ₗ ℤ := toLex (a.tvSec, a.tvUsec)

/-- The time in microseconds. -/
def TimeVal.usecs (a : TimeVal) : ℤ := a.tvSec * 1000000 + a.tvUsec

lemma timercmp_iff (a b : TimeVal) : timercmp a b = true ↔ a.key < b.key := by
  unfold timercmp TimeVal.key
  rw [Prod.Lex.toLex_lt_toLex]
  split_ifs with h
  · simp [h]
  · simp [h]

/-- The parts of `struct ipc_timing` that the list is made of. -/
structure IpcTiming where
  cycle : Bool
  tv : TimeVal
  expire : TimeVal
  deriving DecidableEq

/-- The `while` loop of `timing_refresh`, with a bound on its turns. -/
def carryUsec : ℕ → TimeVal → TimeVal
  | 0, a => a
  | turns + 1, a =>
      if 1000000 ≤ a.tvUsec then carryUsec turns ⟨a.tvSec + 1, a.tvUsec - 1000000⟩ else a

/-- `timing_refresh`; `clock` is what `timing_time` reads when there is no `now`. -/
def timingRefresh (now : Option TimeVal) (clock : TimeVal) (timing : IpcTiming) : IpcTiming :=
  let start := now.getD clock
  let expire : TimeVal := ⟨start.tvSec + timing.tv.tvSec, start.tvUsec + timing.tv.tvUsec⟩
  { timing with expire := carryUsec (expire.tvUsec / 1000000).toNat expire }

lemma carryUsec_usecs (turns : ℕ) (a : TimeVal) : (carryUsec turns a).usecs = a.usecs := by
  induction turns generalizing a with
  | zero => rfl
  | succ turns ih =>
      rw [carryUsec]
      split_ifs
      · rw [ih]
        simp only [TimeVal.usecs]
        omega
      · rfl

/-- **The loop ends within its bound.** -/
lemma carryUsec_lt (turns : ℕ) (a : TimeVal) (h : a.tvUsec < (turns + 1) * 1000000) :
    (carryUsec turns a).tvUsec < 1000000 := by
  induction turns generalizing a with
  | zero => simpa [carryUsec] using h
  | succ turns ih =>
      rw [carryUsec]
      split_ifs with hlt
      · apply ih
        push_cast at h
        dsimp only
        omega
      · exact not_le.mp hlt

lemma carryUsec_nonneg (turns : ℕ) (a : TimeVal) (h : 0 ≤ a.tvUsec) :
    0 ≤ (carryUsec turns a).tvUsec := by
  induction turns generalizing a with
  | zero => exact h
  | succ turns ih =>
      rw [carryUsec]
      split_ifs with hlt
      · exact ih _ (Int.sub_nonneg_of_le hlt)
      · exact h

/-- **What `timing_refresh` computes**: the sum of the times, with less than a second of
microseconds. -/
lemma timingRefresh_expire (now : Option TimeVal) (clock : TimeVal) (timing : IpcTiming) :
    (timingRefresh now clock timing).expire.usecs =
        (now.getD clock).usecs + timing.tv.usecs ∧
      (timingRefresh now clock timing).expire.tvUsec < 1000000 := by
  refine ⟨?_, ?_⟩
  · unfold timingRefresh
    dsimp only
    rw [carryUsec_usecs]
    simp only [TimeVal.usecs]
    omega
  · unfold timingRefresh
    dsimp only
    apply carryUsec_lt
    dsimp only
    have hle := Int.self_le_toNat (((now.getD clock).tvUsec + timing.tv.tvUsec) / 1000000)
    omega

/-- **The range of `timing_refresh`**: the loop only counts up the seconds, so that every time on the
way to its result is in range as well. -/
lemma timingRefresh_range {now : Option TimeVal} {clock : TimeVal} {timing : IpcTiming}
    (hsec : 0 ≤ (now.getD clock).tvSec ∧ (now.getD clock).tvSec < 2 ^ 61)
    (husec : 0 ≤ (now.getD clock).tvUsec ∧ (now.getD clock).tvUsec < 2 ^ 61)
    (htvSec : 0 ≤ timing.tv.tvSec ∧ timing.tv.tvSec < 2 ^ 61)
    (htvUsec : 0 ≤ timing.tv.tvUsec ∧ timing.tv.tvUsec < 2 ^ 61) :
    (now.getD clock).tvUsec + timing.tv.tvUsec < 2 ^ 63 ∧
      (timingRefresh now clock timing).expire.tvSec < 2 ^ 63 := by
  obtain ⟨husecs, hlt⟩ := timingRefresh_expire now clock timing
  have hpos : 0 ≤ (timingRefresh now clock timing).expire.tvUsec :=
    carryUsec_nonneg _ _ (Int.add_nonneg husec.1 htvUsec.1)
  simp only [TimeVal.usecs] at husecs
  omega

/-- A later time in microseconds is a later time, if the earlier one is normalised from below and
the later one from above. -/
lemma key_lt_of_usecs {a b : TimeVal} (ha : 0 ≤ a.tvUsec) (hb : b.tvUsec < 1000000)
    (h : a.usecs < b.usecs) : a.key < b.key := by
  rw [TimeVal.key, TimeVal.key, Prod.Lex.toLex_lt_toLex]
  simp only [TimeVal.usecs] at h
  dsimp only
  omega

/-- **A positive period leads to a later time.** -/
lemma key_lt_refresh {now clock : TimeVal} {timing : IpcTiming} (hnow : 0 ≤ now.tvUsec)
    (htv : 0 < timing.tv.usecs) : now.key < (timingRefresh (some now) clock timing).expire.key := by
  obtain ⟨husecs, hlt⟩ := timingRefresh_expire (some now) clock timing
  apply key_lt_of_usecs hnow hlt
  rw [husecs, Option.getD_some]
  omega

/-! ## The list -/

/-- A `struct list_head`: the one of the core, or the one in a timing. -/
inductive TimingNode (T : Type)
  | core
  | entry (t : T)
  deriving DecidableEq

/-- The parts of `struct ipc_core` that the timings need, with the timings themselves. -/
structure TimingCore (T : Type) where
  links : Links (TimingNode T)
  timing : T → IpcTiming
  /-- `ipc_core_inited`. -/
  inited : Bool
  /-- `ipc_core_context`, in the thread of the caller. -/
  context : Bool

section Operations

variable {T : Type} [DecidableEq T]

/-- An assignment to the parts of a timing. -/
def TimingCore.setTiming (core : TimingCore T) (t : T) (timing : IpcTiming) : TimingCore T :=
  { core with timing := Function.update core.timing t timing }

/-- `list_del_init(&timing->list)`. -/
def TimingCore.delInit (core : TimingCore T) (t : T) : TimingCore T :=
  { core with links := listDelInit (.entry t) core.links }

/-- The timing in a node expires after `t`: the test of the loop in `timing_insert`. -/
def TimingCore.after (core : TimingCore T) (t : T) : TimingNode T → Bool
  | .core => false
  | .entry tmp => timercmp (core.timing t).expire (core.timing tmp).expire

def timingInsert (bound : ℕ) (t : T) (core : TimingCore T) : Option (TimingCore T) :=
  (listFind bound .core (core.after t) core.links).map fun p =>
    { core with links := listAddTail (.entry t) (p.getD .core) core.links }

/-- `ipc_timing_register`, with what the clock shows. -/
def ipcTimingRegister (bound : ℕ) (clock : TimeVal) (t : T) (core : TimingCore T) :
    Option (ℤ × TimingCore T) :=
  if !core.inited then some (-1, core)
  else if !core.context then some (-1, core)
  else
    let core := core.setTiming t (timingRefresh none clock (core.timing t))
    let core := core.delInit t
    (timingInsert bound t core).map fun core => (0, core)

def ipcTimingUnregister (t : T) (core : TimingCore T) : ℤ × TimingCore T :=
  if !core.inited then (-1, core)
  else if !core.context then (-1, core)
  else (0, core.delInit t)

def ipcTimingRefresh (bound : ℕ) (tv : Option TimeVal) (clock : TimeVal) (t : T)
    (core : TimingCore T) : Option (ℤ × TimingCore T) :=
  let core :=
    match tv with
    | some tv => core.setTiming t { core.timing t with tv := tv }
    | none => core
  ipcTimingRegister bound clock t core

/-- A call of a handler, with what the clock shows during the call. -/
inductive TimingCall (T : Type)
  | register (t : T) (clock : TimeVal)
  | unregister (t : T)
  | refresh (t : T) (tv : Option TimeVal) (clock : TimeVal)
  deriving DecidableEq

def TimingCall.exec (bound : ℕ) (core : TimingCore T) : TimingCall T → Option (ℤ × TimingCore T)
  | .register t clock => ipcTimingRegister bound clock t core
  | .unregister t => some (ipcTimingUnregister t core)
  | .refresh t tv clock => ipcTimingRefresh bound tv clock t core

/-- The body of a handler: its calls, in their order. -/
def runCalls (bound : ℕ) : List (TimingCall T) → TimingCore T → Option (TimingCore T)
  | [], core => some core
  | call :: calls, core => (call.exec bound core).bind fun r => runCalls bound calls r.2

/-- The call registers the timing. -/
def TimingCall.Registers (t : T) : TimingCall T → Prop
  | .register u _ => u = t
  | .unregister _ => False
  | .refresh u _ _ => u = t

instance (t : T) : DecidablePred (TimingCall.Registers t) := fun call =>
  match call with
  | .register u _ => decEq u t
  | .unregister _ => .isFalse id
  | .refresh u _ _ => decEq u t

/-- What a successful call writes to the timings. -/
def TimingCall.update (timing : T → IpcTiming) : TimingCall T → T → IpcTiming
  | .register t clock => Function.update timing t (timingRefresh none clock (timing t))
  | .unregister _ => timing
  | .refresh t tv clock =>
      Function.update timing t
        (timingRefresh none clock { timing t with tv := tv.getD (timing t).tv })

end Operations

/-! ## The order of the list -/

section Timings

variable {T : Type}

/-- When a timing expires. -/
def TimingCore.key (core : TimingCore T) (t : T) : ℤ ×ₗ ℤ := (core.timing t).expire.key

lemma entry_injective : Function.Injective (TimingNode.entry : T → TimingNode T) :=
  fun _ _ h => TimingNode.entry.inj h

lemma entry_mem {t : T} {xs : List T} :
    TimingNode.entry t ∈ (.core : TimingNode T) :: xs.map .entry ↔ t ∈ xs := by
  rw [List.mem_cons, List.mem_map_of_injective entry_injective]
  simp

/-- The list runs through `xs`, in the order of expiry, and every other timing is a ring of its
own. -/
structure Timings (core : TimingCore T) (xs : List T) : Prop where
  ring : core.links.Ring .core (xs.map .entry)
  alone : ∀ t ∉ xs, core.links.next (.entry t) = .entry t ∧ core.links.prev (.entry t) = .entry t
  queued : Queued core.key xs

variable {core core' : TimingCore T} {xs : List T} {t : T}

lemma Timings.nodup (h : Timings core xs) : xs.Nodup :=
  List.Nodup.of_map _ (List.nodup_cons.mp h.ring.nodup).2

/-- Whatever is written to a timing that is not in the list. -/
lemma Timings.congr (h : Timings core xs) (hlinks : core'.links = core.links)
    (hkey : ∀ u ∈ xs, core'.key u = core.key u) : Timings core' xs where
  ring := hlinks ▸ h.ring
  alone := hlinks ▸ h.alone
  queued := h.queued.congr hkey

variable [DecidableEq T]

lemma key_setTiming_of_ne {timing : IpcTiming} {u : T} (hu : u ≠ t) :
    (core.setTiming t timing).key u = core.key u := by
  simp [TimingCore.key, TimingCore.setTiming, hu]

lemma Timings.setTiming (h : Timings core xs) (ht : t ∉ xs) (timing : IpcTiming) :
    Timings (core.setTiming t timing) xs := by
  refine h.congr rfl fun u hu => key_setTiming_of_ne ?_
  rintro rfl
  exact ht hu

/-- **`timing_insert`** puts the timing behind those that do not expire after it. -/
lemma Timings.insert (h : Timings core xs) (ht : t ∉ xs) :
    ∃ core', Yields (fun bound => timingInsert bound t core) core' ∧
      Timings core' (insertLate core.key t xs) ∧ core'.timing = core.timing ∧
      core'.inited = core.inited ∧ core'.context = core.context := by
  obtain ⟨us, vs, hxs, hinsert, hfind⟩ := insertLate_split core.key t xs
  have hsearch : (xs.map .entry).find? (core.after t) = (vs.map .entry).head? := by
    rw [List.find?_map, List.head?_map, ← hfind]
    congr 2
    funext u
    rw [Function.comp_apply, TimingCore.after, Bool.eq_iff_iff, timercmp_iff, decide_eq_true_iff]
    rfl
  have hring := h.ring
  rw [hxs, List.map_append] at hring
  have hnot : TimingNode.entry t ∉ (.core : TimingNode T) :: (us.map .entry ++ vs.map .entry) := by
    rw [← List.map_append, ← hxs, entry_mem]
    exact ht
  set links := listAddTail (.entry t) ((vs.map TimingNode.entry).head?.getD .core) core.links
    with hlinks
  refine ⟨{ core with links := links }, ⟨xs.length, fun bound hbound => ?_⟩, ⟨?_, ?_, ?_⟩, rfl, rfl,
    rfl⟩
  · have hfound := h.ring.search (core.after t) (show (xs.map TimingNode.entry).length ≤ bound by
      simpa using hbound)
    unfold timingInsert listFind
    dsimp only
    rw [hfound, hsearch, Option.map_some]
  · rw [hinsert, List.map_append, List.map_cons]
    exact hring.insert rfl (fun _ => rfl) (fun _ => rfl) hnot
  · intro u hu
    have hut : u ≠ t := fun heq => hu (mem_insertLate.mpr (.inl heq))
    have hux : u ∉ xs := fun hmem => hu (mem_insertLate.mpr (.inr hmem))
    have hframe : links.next (.entry u) = core.links.next (.entry u) ∧
        links.prev (.entry u) = core.links.prev (.entry u) := by
      have hmem : (vs.map TimingNode.entry).head?.getD .core ∈
          (.core : TimingNode T) :: xs.map .entry := by
        rw [hxs]
        cases vs <;> simp
      refine listAddTail_frame (T := {y | y = .entry t ∨ y ∈ TimingNode.core :: xs.map .entry})
        (.inl rfl) (.inr hmem) (.inr (h.ring.neighbours hmem).2) ?_
      rintro (heq | hin)
      · exact hut (entry_injective heq)
      · exact hux (entry_mem.mp hin)
    rw [hframe.1, hframe.2]
    exact h.alone u hux
  · exact h.queued.insertLate t

/-- **`list_del_init`** takes the timing out of the list, whether it is in it or not. -/
lemma Timings.delInit (h : Timings core xs) (t : T) : Timings (core.delInit t) (xs.erase t) := by
  have hqueued : Queued core.key (xs.erase t) := h.queued.sublist List.erase_sublist
  by_cases ht : t ∈ xs
  · have hfamily : core.links.Family (fun _ : Unit => TimingNode.core) fun _ => xs.map .entry :=
      ⟨fun _ => h.ring, fun i j hij => absurd rfl hij⟩
    obtain ⟨hring, hframe⟩ := family_listDelInit hfamily (i := ()) (n := .entry t)
      (List.mem_map_of_mem ht) fun _ => by simp
    refine ⟨?_, fun u hu => ?_, hqueued⟩
    · have herase := hring.ring ()
      rwa [← List.map_erase entry_injective] at herase
    · rcases eq_or_ne u t with rfl | hut
      · exact listDelInit_self _ _
      · have hux : u ∉ xs := fun hmem => hu ((List.mem_erase_of_ne hut).mpr hmem)
        obtain ⟨hnext, hprev⟩ := hframe (.entry u) fun _ hmem => hux (entry_mem.mp hmem)
        obtain ⟨hself, hself'⟩ := h.alone u hux
        exact ⟨hnext.trans hself, hprev.trans hself'⟩
  · rw [List.erase_of_not_mem ht]
    obtain ⟨hnext, hprev⟩ := h.alone t ht
    have hsame := listDelInit_alone hnext hprev
    refine ⟨h.ring.congr (fun x _ => (hsame x).1) fun x _ => (hsame x).2, fun u hu => ?_, h.queued⟩
    obtain ⟨hself, hself'⟩ := h.alone u hu
    exact ⟨(hsame _).1.trans hself, (hsame _).2.trans hself'⟩

/-! ## The calls of a handler -/

/-- The core has been initialised, and the caller is its thread. -/
def TimingCore.Ready (core : TimingCore T) : Prop := core.inited = true ∧ core.context = true

/-- **What a call does**: it writes to its timing, and puts it into the list or takes it out. -/
structure Called (call : TimingCall T) (core : TimingCore T) (xs : List T) (core' : TimingCore T)
    (xs' : List T) : Prop where
  timings : Timings core' xs'
  timing : core'.timing = call.update core.timing
  ready : core'.Ready
  mem : ∀ u, u ∈ xs' ↔ call.Registers u ∨ u ∈ xs ∧ call ≠ .unregister u

lemma Timings.register (h : Timings core xs) (hready : core.Ready) (clock : TimeVal) (t : T) :
    ∃ core' xs', Yields (fun bound => ipcTimingRegister bound clock t core) (0, core') ∧
      Called (.register t clock) core xs core' xs' := by
  have hout : t ∉ xs.erase t := h.nodup.not_mem_erase
  have hset : Timings ((core.setTiming t (timingRefresh none clock (core.timing t))).delInit t)
      (xs.erase t) := by
    have hdel := (h.delInit t).setTiming hout (timingRefresh none clock (core.timing t))
    exact hdel.congr rfl fun u _ => rfl
  obtain ⟨core', hreturns, htimings, htiming, hinited, hcontext⟩ := hset.insert hout
  refine ⟨core', _, ?_, htimings, htiming, ?_, fun u => ?_⟩
  · refine (hreturns.map fun core => (0, core)).of_eq fun bound => ?_
    simp only [ipcTimingRegister, hready.1, hready.2, Bool.not_true, Bool.false_eq_true, if_false]
  · exact ⟨hinited.trans hready.1, hcontext.trans hready.2⟩
  · rw [mem_insertLate, h.nodup.mem_erase_iff]
    simp only [TimingCall.Registers, ne_eq, reduceCtorEq, not_false_eq_true, and_true]
    constructor
    · rintro (rfl | ⟨-, hu⟩)
      · exact .inl rfl
      · exact .inr hu
    · rintro (rfl | hu)
      · exact .inl rfl
      · by_cases hut : u = t
        · exact .inl hut
        · exact .inr ⟨hut, hu⟩

lemma Timings.exec (h : Timings core xs) (hready : core.Ready) (call : TimingCall T) :
    ∃ core' xs', Yields (fun bound => call.exec bound core) (0, core') ∧
      Called call core xs core' xs' := by
  cases call with
  | register t clock => exact h.register hready clock t
  | unregister t =>
      refine ⟨core.delInit t, xs.erase t, ?_, h.delInit t, rfl, hready, fun u => ?_⟩
      · refine (Yields.pure (0, core.delInit t)).of_eq fun bound => ?_
        simp only [TimingCall.exec, ipcTimingUnregister, hready.1, hready.2, Bool.not_true,
          Bool.false_eq_true, if_false]
      · rw [h.nodup.mem_erase_iff]
        simp only [TimingCall.Registers, false_or, ne_eq, TimingCall.unregister.injEq]
        tauto
  | refresh t tv clock =>
      set start := core.setTiming t { core.timing t with tv := tv.getD (core.timing t).tv }
        with hstart
      have hsame : Timings start xs := by
        refine h.congr rfl fun u _ => ?_
        rcases eq_or_ne u t with rfl | hu
        · simp [TimingCore.key, hstart, TimingCore.setTiming]
        · exact key_setTiming_of_ne hu
      obtain ⟨core', xs', hreturns, hcalled⟩ := hsame.register hready clock t
      refine ⟨core', xs', hreturns.of_eq fun bound => ?_, hcalled.timings, ?_, hcalled.ready,
        fun u => ?_⟩
      · cases tv with
        | none =>
            have hself : start = core := by
              simp only [hstart, TimingCore.setTiming, Option.getD_none, Function.update_eq_self]
            rw [hself]
            rfl
        | some tv => rfl
      · rw [hcalled.timing]
        simp [TimingCall.update, hstart, TimingCore.setTiming]
      · rw [hcalled.mem]
        simp [TimingCall.Registers]

end Timings

end LinuxC.Ipc
