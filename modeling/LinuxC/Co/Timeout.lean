import LinuxC.Co.Sleep

/-!
# The timeout of `epoll_wait`

Two functions compute how long the scheduler may wait for the coroutine that expires first.
`co_nexttmo` returns microseconds, and zero when the time has passed.  `co_epoll_nexttmo`, whose
result `co_epoll_schedule` hands to `epoll_wait`, returns milliseconds in an `int`, and `-1` when the
time has passed: `epoll_wait` then waits until an event comes, for ever if none does
(`epoll_timeouts_in_step_iff`).
-/

namespace LinuxC.Co

open Rb

variable {C : Type} [DecidableEq C]

/-! ## The functions -/

/-- `co_nexttmo`, with the reading of the clock. -/
def coNexttmo (now : ℤ) (s : Scheduler C) : Option ℤ := do
  match ← rbFirst (fuelOf s.sleepTree) s.sleepTree with
  | some n =>
      let tmo := int64 (s.sleepExpiredTime n - now)
      pure (if 0 < tmo then tmo else 0)
  | none => pure (-1)

/-- `co_epoll_nexttmo`, with the reading of the clock; the result is an `int`. -/
def coEpollNexttmo (now : ℤ) (s : Scheduler C) : Option ℤ := do
  match ← rbFirst (fuelOf s.sleepTree) s.sleepTree with
  | none => pure (-1)
  | some n =>
      let tmo := int64 (s.sleepExpiredTime n - now)
      if 0 < tmo then pure (((int64 (tmo + 500)).tdiv 1000).bmod (2 ^ 32))
      else pure (if tmo < 0 then -1 else 0)

/-- How `epoll_wait` comes back. -/
inductive Waited (C : Type)
  /-- with the events of these coroutines, or at the timeout if there are none -/
  | events (cs : List C)
  /-- with `EINTR` -/
  | interrupted
  /-- with another error -/
  | failed

/-- A call of `epoll_wait`: the reading of the clock before it, and the timeout. -/
structure Wait where
  now : ℤ
  tmo : ℤ
  deriving DecidableEq

/-- `co_epoll_schedule`: its calls of `epoll_wait` and, when it has returned, its result.  Every turn
has a reading of the clock and an outcome of `epoll_wait`. -/
def coEpollSchedule : List (ℤ × Waited C) → Scheduler C →
    Option (List Wait × Option (ℤ × Scheduler C))
  | [], _ => some ([], none)
  | (now, outcome) :: turns, s => do
      let tmo ← coEpollNexttmo now s
      match outcome with
      | .events cs => pure ([⟨now, tmo⟩], some (cs.length, deliver cs s))
      | .interrupted => do
          let (waits, ret) ← coEpollSchedule turns s
          pure (⟨now, tmo⟩ :: waits, ret)
      | .failed => pure ([⟨now, tmo⟩], some (-1, s))

/-! ## The property -/

/-- **The timeout is in step with `co_nexttmo`**: it is not negative, at most the remaining time
rounded to milliseconds, and agrees with the microseconds up to rounding. -/
def InStep (s : Scheduler C) (w : Wait) : Prop :=
  ∃ rest, coNexttmo w.now s = some rest ∧ 0 ≤ w.tmo ∧ w.tmo ≤ (rest + 500) / 1000 ∧
    |1000 * w.tmo - rest| ≤ 500

/-- The time of `n` has not passed, and what is left of it in milliseconds fits an `int`. -/
def Timely (s : Scheduler C) (n : C) (now : ℤ) : Prop :=
  0 ≤ int64 (s.sleepExpiredTime n - now) ∧
    (int64 (s.sleepExpiredTime n - now) + 500) / 1000 < 2 ^ 31

section Timeout

variable {s : Scheduler C} {xs : List C} {n : C} {now : ℤ}

lemma rbFirst_of_set (h : IsSet (timeOrder s.sleepExpiredTime) s.sleepTree (n :: xs)) :
    rbFirst (fuelOf s.sleepTree) s.sleepTree = some (some n) :=
  (h.ends (Nat.lt_succ_self _)).1

lemma coNexttmo_eq (h : IsSet (timeOrder s.sleepExpiredTime) s.sleepTree (n :: xs)) (now : ℤ) :
    coNexttmo now s = some (if 0 < int64 (s.sleepExpiredTime n - now) then
      int64 (s.sleepExpiredTime n - now) else 0) := by
  rw [coNexttmo, rbFirst_of_set h]
  rfl

/-- The milliseconds of a time that has not come, in an `int`. -/
def narrowed (rest : ℤ) : ℤ := ((int64 (rest + 500)).tdiv 1000).bmod (2 ^ 32)

lemma narrowed_range (rest : ℤ) : -2 ^ 31 ≤ narrowed rest ∧ narrowed rest < 2 ^ 31 := by
  have hlow := Int.le_bmod (x := (int64 (rest + 500)).tdiv 1000) (m := 2 ^ 32) (by decide)
  have hhigh := Int.bmod_lt (x := (int64 (rest + 500)).tdiv 1000) (m := 2 ^ 32) (by decide)
  unfold narrowed
  omega

lemma narrowed_eq {rest : ℤ} (hpos : 0 < rest) (hsum : rest + 500 < 2 ^ 63) :
    narrowed rest = ((rest + 500) / 1000).bmod (2 ^ 32) := by
  have hint : int64 (rest + 500) = rest + 500 := int64_of_range ⟨by omega, hsum⟩
  rw [narrowed, hint, Int.tdiv_eq_ediv_of_nonneg (by omega)]

/-- **The narrowing**: the `int` is the rounded time exactly if that fits. -/
lemma narrowed_iff {rest : ℤ} (hpos : 0 < rest) (hmax : rest < 2 ^ 63) :
    (0 ≤ narrowed rest ∧ narrowed rest ≤ (rest + 500) / 1000 ∧ |1000 * narrowed rest - rest| ≤ 500) ↔
      (rest + 500) / 1000 < 2 ^ 31 := by
  obtain ⟨-, hhigh⟩ := narrowed_range rest
  constructor
  · rintro ⟨hnonneg, hle, hround⟩
    obtain ⟨hbelow, habove⟩ := abs_le.mp hround
    -- the rounded time differs from the `int` by less than one
    have hclose : (rest + 500) / 1000 ≤ narrowed rest + 1 := by omega
    by_cases hsum : rest + 500 < 2 ^ 63
    · rw [narrowed_eq hpos hsum] at hhigh hclose hle
      rw [Int.bmod_def] at hhigh hclose hle
      split_ifs at hhigh hclose hle <;> omega
    · omega
  · intro hfits
    have hexact : narrowed rest = (rest + 500) / 1000 := by
      rw [narrowed_eq hpos (by omega)]
      exact Int.bmod_eq_of_le (by omega) (by omega)
    rw [hexact, abs_le]
    omega

lemma coEpollNexttmo_eq (h : IsSet (timeOrder s.sleepExpiredTime) s.sleepTree (n :: xs))
    (now : ℤ) : coEpollNexttmo now s = some (
      if 0 < int64 (s.sleepExpiredTime n - now) then narrowed (int64 (s.sleepExpiredTime n - now))
      else if int64 (s.sleepExpiredTime n - now) < 0 then -1 else 0) := by
  rw [coEpollNexttmo, rbFirst_of_set h]
  change (if _ then some _ else some _) = _
  rw [← apply_ite some]
  rfl

lemma inStep_iff (h : IsSet (timeOrder s.sleepExpiredTime) s.sleepTree (n :: xs)) {tmo : ℤ}
    (heval : coEpollNexttmo now s = some tmo) : InStep s ⟨now, tmo⟩ ↔ Timely s n now := by
  obtain ⟨-, hmax⟩ := int64_range (s.sleepExpiredTime n - now)
  have hrest := coNexttmo_eq h now
  rw [coEpollNexttmo_eq h] at heval
  obtain rfl := Option.some.inj heval
  unfold InStep Timely
  rw [hrest]
  generalize int64 (s.sleepExpiredTime n - now) = rest at hmax ⊢
  rcases lt_trichotomy rest 0 with hneg | rfl | hpos
  · -- the time has passed
    refine iff_of_false ?_ (by omega)
    rintro ⟨_, -, hnonneg, -⟩
    simp only [if_neg (not_lt.mpr hneg.le), if_pos hneg] at hnonneg
    omega
  · simp
  · have hsome : (∃ r, some (if 0 < rest then rest else 0) = some r ∧ 0 ≤ narrowed rest ∧
        narrowed rest ≤ (r + 500) / 1000 ∧ |1000 * narrowed rest - r| ≤ 500) ↔
          0 ≤ narrowed rest ∧ narrowed rest ≤ (rest + 500) / 1000 ∧
            |1000 * narrowed rest - rest| ≤ 500 := by
      simp [hpos]
    simp only [if_pos hpos] at hsome ⊢
    rw [hsome, narrowed_iff hpos hmax, and_iff_right hpos.le]

lemma mem_waits {turns : List (ℤ × Waited C)} {waits : List Wait}
    {ret : Option (ℤ × Scheduler C)} (h : coEpollSchedule turns s = some (waits, ret)) {w : Wait}
    (hw : w ∈ waits) : coEpollNexttmo w.now s = some w.tmo := by
  induction turns generalizing waits ret with
  | nil =>
      obtain ⟨rfl, -⟩ := Prod.mk.inj (Option.some.inj h)
      cases hw
  | cons turn turns ih =>
      obtain ⟨now, outcome⟩ := turn
      obtain ⟨tmo, hnext, h⟩ := Option.bind_eq_some_iff.mp h
      cases outcome with
      | events cs =>
          obtain ⟨rfl, -⟩ := Prod.mk.inj (Option.some.inj h)
          obtain rfl := List.mem_singleton.mp hw
          exact hnext
      | interrupted =>
          obtain ⟨⟨waits', ret'⟩, hrest, h⟩ := Option.bind_eq_some_iff.mp h
          obtain ⟨rfl, -⟩ := Prod.mk.inj (Option.some.inj h)
          rcases List.mem_cons.mp hw with rfl | hw
          · exact hnext
          · exact ih hrest hw
      | failed =>
          obtain ⟨rfl, -⟩ := Prod.mk.inj (Option.some.inj h)
          obtain rfl := List.mem_singleton.mp hw
          exact hnext

lemma coEpollSchedule_ret (h : IsSet (timeOrder s.sleepExpiredTime) s.sleepTree (n :: xs))
    (turns : List (ℤ × Waited C)) : ∃ r, coEpollSchedule turns s = some r := by
  induction turns with
  | nil => exact ⟨_, rfl⟩
  | cons turn turns ih =>
      obtain ⟨now, outcome⟩ := turn
      have hnext := coEpollNexttmo_eq h now
      obtain ⟨⟨waits, ret⟩, hrest⟩ := ih
      cases outcome with
      | events cs => exact ⟨_, Option.bind_eq_some_iff.mpr ⟨_, hnext, rfl⟩⟩
      | interrupted =>
          exact ⟨_, Option.bind_eq_some_iff.mpr ⟨_, hnext,
            Option.bind_eq_some_iff.mpr ⟨_, hrest, rfl⟩⟩⟩
      | failed => exact ⟨_, Option.bind_eq_some_iff.mpr ⟨_, hnext, rfl⟩⟩

end Timeout

/-- **When the timeouts are in step.**  With a coroutine in the tree, `co_epoll_schedule` makes its
calls of `epoll_wait`, and all their timeouts are in step with `co_nexttmo` exactly if at each of
them the time of the first coroutine has not passed and fits an `int` of milliseconds. -/
theorem epoll_timeouts_in_step_iff {s : Scheduler C} {n : C} {xs : List C}
    (h : IsSet (timeOrder s.sleepExpiredTime) s.sleepTree (n :: xs))
    (turns : List (ℤ × Waited C)) :
    ∃ waits ret, coEpollSchedule turns s = some (waits, ret) ∧
      ((∀ w ∈ waits, InStep s w) ↔ ∀ w ∈ waits, Timely s n w.now) := by
  obtain ⟨⟨waits, ret⟩, heval⟩ := coEpollSchedule_ret h turns
  refine ⟨waits, ret, heval, ?_⟩
  exact forall₂_congr fun w hw => inStep_iff h (mem_waits heval hw)

/-- While a coroutine sleeps up to 100, a signal interrupts the first call. -/
theorem epoll_timeouts_in_step_iff_sample : ∃ waits ret,
    coEpollSchedule [(0, .interrupted), (100, .events [])] oneSleeper = some (waits, ret) ∧
      ∀ w ∈ waits, InStep oneSleeper w := by
  obtain ⟨waits, ret, heval, hiff⟩ :=
    epoll_timeouts_in_step_iff isSet_oneSleeper [(0, .interrupted), (100, .events [])]
  refine ⟨waits, ret, heval, hiff.mpr fun w hw => ?_⟩
  have hret : coEpollSchedule [(0, .interrupted), (100, .events [])] oneSleeper =
    some ([⟨0, 0⟩, ⟨100, 0⟩], some (0, oneSleeper)) := rfl
  obtain ⟨rfl, -⟩ := Prod.mk.inj (Option.some.inj (heval.symm.trans hret))
  simp only [List.mem_cons, List.not_mem_nil, or_false] at hw
  rcases hw with rfl | rfl
  · exact ⟨by decide, by decide⟩
  · exact ⟨by decide, by decide⟩

/-- **Waiting for ever.**  The coroutine sleeps up to the time 100, and the scheduler comes to
`epoll_wait` at 5000. -/
theorem epoll_waits_for_ever :
    coEpollSchedule [(5000, .interrupted)] oneSleeper = some ([⟨5000, -1⟩], none) ∧
      coNexttmo 5000 oneSleeper = some 0 ∧ ¬ InStep oneSleeper ⟨5000, -1⟩ := by
  refine ⟨rfl, rfl, ?_⟩
  rintro ⟨_, -, hnonneg, -⟩
  exact absurd hnonneg (by decide)

end LinuxC.Co
