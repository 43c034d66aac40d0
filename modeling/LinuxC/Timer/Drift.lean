import LinuxC.Timer.Schedule
import Mathlib.Tactic.Ring

/-!
# A cyclic timer does not drift

`timer_insert` adds the interval of a timer to its expiry, not to the time of the insertion, so a
late firing does not move the firings after it.  The sum is made in place, on a `struct timespec`
that carries at most one second.

A step moves the schedule of a timer once for every time it fires the timer, whatever else
happens, unless `timer_add` or `timer_mod` sets it anew.  So the expiry after `k` firings is the
`k`-fold iterate of `timespec_add` (`run_schedule`), and what is left is arithmetic: `nanos` is the
value of a `struct timespec`, and on values with `0 ≤ tv_nsec < 10⁹` the order of `timespec_cmp` is
the order of these values.

The readings of the clock are normal, as `clock_gettime` promises.  Seconds are not bounded.
-/

namespace LinuxC.Timer

/-! ## Real time -/

/-- The time, in nanoseconds. -/
def Timespec.nanos (a : Timespec) : ℤ := a.sec * 1000000000 + a.nsec

/-- `tv_nsec` is a fraction of a second. -/
def Timespec.Normal (a : Timespec) : Prop := 0 ≤ a.nsec ∧ a.nsec < 1000000000

instance (a : Timespec) : Decidable a.Normal := inferInstanceAs (Decidable (_ ∧ _))

lemma timespecAdd_nanos (a b : Timespec) : (timespecAdd a b).nanos = a.nanos + b.nanos := by
  simp only [timespecAdd, Timespec.nanos]
  split_ifs
  · dsimp only
    ring
  · dsimp only
    ring

lemma Timespec.Normal.add {a b : Timespec} (ha : a.Normal) (hb : b.Normal) :
    (timespecAdd a b).Normal := by
  unfold Normal timespecAdd at *
  dsimp only
  split_ifs
  · dsimp only
    omega
  · dsimp only
    omega

lemma timespecInit_nanos (msec : ℤ) : (timespecInit msec).nanos = msec * 1000000 := by
  have hsplit := Int.tmod_add_mul_tdiv msec 1000
  simp only [timespecInit, Timespec.nanos]
  omega

lemma timespecInit_normal {msec : ℤ} (h : 0 ≤ msec) : (timespecInit msec).Normal := by
  have hnonneg : 0 ≤ msec.tmod 1000 := Int.tmod_nonneg 1000 h
  have hlt : msec.tmod 1000 < 1000 := Int.tmod_lt_of_pos msec (by decide)
  constructor
  · dsimp only [timespecInit]
    omega
  · dsimp only [timespecInit]
    omega

/-- **The order of the table is the order of time.** -/
lemma timespecLt_iff_nanos {a b : Timespec} (ha : a.Normal) (hb : b.Normal) :
    timespecLt a b ↔ a.nanos < b.nanos := by
  unfold timespecLt Timespec.nanos
  unfold Timespec.Normal at ha hb
  omega

/-- Repeated addition in place is exact, and its result stays normal. -/
lemma iterate_timespecAdd {a b : Timespec} (ha : a.Normal) (hb : b.Normal) (k : ℕ) :
    ((fun e => timespecAdd e b)^[k] a).Normal ∧
      ((fun e => timespecAdd e b)^[k] a).nanos = a.nanos + k * b.nanos := by
  induction k with
  | zero => exact ⟨ha, by simp⟩
  | succ k ih =>
      rw [Function.iterate_succ_apply']
      refine ⟨ih.1.add hb, ?_⟩
      calc (timespecAdd ((fun e => timespecAdd e b)^[k] a) b).nanos
          = ((fun e => timespecAdd e b)^[k] a).nanos + b.nanos := timespecAdd_nanos _ _
        _ = a.nanos + k * b.nanos + b.nanos := by rw [ih.2]
        _ = a.nanos + (k + 1 : ℕ) * b.nanos := by push_cast; ring

/-! ## Runs -/

/-- The step is no call of `timer_mod` for the timer that succeeds. -/
def NotModified (t : Ptr) (s : State) (l : Label) : Prop :=
  ∀ u msec, l = .mod u t msec → timerMod t msec s = (s, [])

/-- A timer that is neither started nor modified keeps its schedule but for its firings. -/
lemma step_schedule_of_not_armed {s s' : State} {l : Label} {es : List Event} {t : Ptr}
    (hstep : step s l = some (s', es)) (hadd : ∀ u, .addOk u t ∉ es) (hmod : NotModified t s l) :
    (s'.timer t).schedule = Schedule.next^[es.count (.fired t)] (s.timer t).schedule := by
  rcases step_schedule hstep t with ⟨u, option, msec, -, rfl, -⟩ | ⟨u, msec, rfl, -⟩ | hmove
  · exact absurd (List.mem_singleton.mpr rfl) (hadd u)
  · have hfail : timerMod t msec s = (s', es) := (allow_eq_some.mp hstep).2
    rw [hmod u msec rfl] at hfail
    obtain ⟨rfl, rfl⟩ := Prod.mk.inj hfail
    rfl
  · exact hmove

/-- **A run moves the schedule of a timer once for every firing.** -/
lemma run_schedule {ls : List Label} {s s' : State} {es : List Event} {t : Ptr}
    (hrun : run step ls s = some (s', es)) (hadd : ∀ u, .addOk u t ∉ es)
    (hmod : Along step (NotModified t) ls s) :
    (s'.timer t).schedule = Schedule.next^[es.count (.fired t)] (s.timer t).schedule := by
  induction ls generalizing s es with
  | nil =>
      obtain ⟨rfl, rfl⟩ := Prod.mk.inj (Option.some.inj hrun)
      rfl
  | cons l ls ih =>
      obtain ⟨s₁, es₁, es₂, hstep, hrest, rfl⟩ := run_cons.mp hrun
      have hfirst := step_schedule_of_not_armed hstep
        (fun u hu => hadd u (List.mem_append_left _ hu)) hmod.1
      have hothers := ih hrest (fun u hu => hadd u (List.mem_append_right _ hu))
        (hmod.2 s₁ es₁ hstep)
      rw [hothers, hfirst, ← Function.iterate_add_apply, List.count_append, Nat.add_comm]

/-! ## Normal times -/

/-- A reading of the clock is normal. -/
def Label.ClockNormal (l : Label) : Prop := ∀ now, l = .tick now → now.Normal

/-- The call, if the step starts or modifies a timer, does not ask for a time in the past. -/
def Label.Forward : Label → Prop
  | .add _ _ _ msec => 0 ≤ msec
  | .mod _ _ msec => 0 ≤ msec
  | _ => True

/-- The expiry and the interval of a schedule are normal. -/
structure Schedule.Normal (c : Schedule) : Prop where
  expire : c.expire.Normal
  interval : c.interval.Normal

lemma Schedule.Normal.insert {c : Schedule} (h : c.Normal) : c.insert.Normal :=
  ⟨h.expire.add h.interval, h.interval⟩

lemma Schedule.Normal.next {c : Schedule} (h : c.Normal) : c.next.Normal := by
  unfold Schedule.next
  split_ifs
  · exact h.insert
  · exact h

lemma Schedule.Normal.iterate {c : Schedule} (h : c.Normal) (k : ℕ) :
    (Schedule.next^[k] c).Normal := by
  induction k with
  | zero => exact h
  | succ k ih =>
      rw [Function.iterate_succ_apply']
      exact ih.next

lemma Schedule.arm_normal {now : Timespec} {msec : ℤ} (hnow : now.Normal) (hmsec : 0 ≤ msec)
    (cycle : Bool) : (Schedule.arm now msec cycle).Normal := by
  apply Schedule.Normal.insert
  exact ⟨hnow, timespecInit_normal hmsec⟩

lemma step_now_normal {s s' : State} {l : Label} {es : List Event} (h : s.now.Normal)
    (hl : l.ClockNormal) (hstep : step s l = some (s', es)) : s'.now.Normal := by
  rcases step_now hstep with hsame | htick
  · rwa [hsame]
  · exact hl _ htick

/-- The clock and all schedules are normal. -/
structure TimesNormal (s : State) : Prop where
  now : s.now.Normal
  schedule : ∀ x, (s.timer x).schedule.Normal

lemma TimesNormal.step {s s' : State} {l : Label} {es : List Event} (h : TimesNormal s)
    (hl : l.ClockNormal ∧ l.Forward) (hstep : step s l = some (s', es)) : TimesNormal s' := by
  refine ⟨step_now_normal h.now hl.1 hstep, fun x => ?_⟩
  rcases step_schedule hstep x with ⟨u, option, msec, rfl, -, hset⟩ | ⟨u, msec, rfl, hset⟩ | hmove
  · rw [hset]
    exact Schedule.arm_normal h.now hl.2 _
  · rw [hset]
    exact Schedule.arm_normal h.now hl.2 _
  · rw [hmove]
    exact (h.schedule x).iterate _

lemma timesNormal_boot {now : Timespec} (h : now.Normal) : TimesNormal (boot now) := by
  have hzero : timerInitializer.schedule.Normal := ⟨by decide, by decide⟩
  exact ⟨h, fun _ => hzero⟩

/-! ## Cyclic timers -/

/-- **A cyclic timer.**  In the run, the timer was started at the time `start` as a cyclic timer
of `msec` milliseconds; it has not been started or modified since, and the inspector has fired it
`k` times. -/
def Cycling (now : Timespec) (ls : List Label) (s : State) (t : Ptr) (start : Timespec) (msec : ℤ)
    (k : ℕ) : Prop :=
  ∃ before u option after s₁ es₁ s₂ es₂, ls = before ++ .add u t option msec :: after ∧
    option.cycle = true ∧
    run step before (boot now) = some (s₁, es₁) ∧ s₁.now = start ∧
    step s₁ (.add u t option msec) = some (s₂, [.addOk u t]) ∧
    run step after s₂ = some (s, es₂) ∧
    (∀ v, .addOk v t ∉ es₂) ∧ Along step (NotModified t) after s₂ ∧ es₂.count (.fired t) = k

/-- The step in which `timer_add` succeeds sets the schedule. -/
lemma step_add_schedule {s s' : State} {u : Tid} {t : Ptr} {option : TimerOpt} {msec : ℤ}
    (hstep : step s (.add u t option msec) = some (s', [.addOk u t])) :
    (s'.timer t).schedule = Schedule.arm s.now msec option.cycle := by
  cases trans_of_step hstep with
  | add =>
      rw [(sameTimes_signalAdd t _).schedule t, addState_schedule, if_pos rfl]

/-- The expiry of a cyclic timer is the iterate of `timespec_add`. -/
lemma Cycling.expire {now : Timespec} {ls : List Label} {s : State} {t : Ptr} {start : Timespec}
    {msec : ℤ} {k : ℕ} (h : Cycling now ls s t start msec k) :
    (s.timer t).expire = (fun e => timespecAdd e (timespecInit msec))^[k + 1] start := by
  obtain ⟨before, u, option, after, s₁, es₁, s₂, es₂, -, hcycle, -, rfl, hadd, hrun, hnot, hmod,
    rfl⟩ := h
  have hset := step_add_schedule hadd
  have hmove := run_schedule hrun hnot hmod
  have hcyclic : (s₂.timer t).schedule.cycle = true := by rw [hset]; exact hcycle
  rw [Schedule.iterate_next hcyclic, hset] at hmove
  exact congrArg Schedule.expire hmove

lemma Cycling.start_normal {now : Timespec} {ls : List Label} {s : State} {t : Ptr}
    {start : Timespec} {msec : ℤ} {k : ℕ} (h : Cycling now ls s t start msec k)
    (hnow : now.Normal) (hclock : ∀ l ∈ ls, l.ClockNormal) : start.Normal := by
  obtain ⟨before, u, option, after, s₁, es₁, s₂, es₂, rfl, -, hrun, rfl, -⟩ := h
  exact run_invariant (I := fun s => s.now.Normal) (fun h hl hstep => step_now_normal h hl hstep)
    hnow (along_of_forall (fun l hl => hclock l (List.mem_append_left _ hl)) _) hrun

/-- The expiry of a cyclic timer is exact and normal. -/
lemma Cycling.exact {now : Timespec} {ls : List Label} {s : State} {t : Ptr} {start : Timespec}
    {msec : ℤ} {k : ℕ} (h : Cycling now ls s t start msec k) (hnow : now.Normal)
    (hclock : ∀ l ∈ ls, l.ClockNormal) (hmsec : 0 ≤ msec) :
    (s.timer t).expire.Normal ∧
      (s.timer t).expire.nanos = start.nanos + (k + 1) * (msec * 1000000) := by
  have hiterate := iterate_timespecAdd (h.start_normal hnow hclock) (timespecInit_normal hmsec)
    (k + 1)
  rw [← h.expire, timespecInit_nanos] at hiterate
  exact_mod_cast hiterate

/-- The table orders the timers of a run in which no timer is set into the past by time. -/
lemma expire_lt_iff {now : Timespec} {ls : List Label} {s : State} {es : List Event}
    (hnow : now.Normal) (hclock : ∀ l ∈ ls, l.ClockNormal) (hforward : ∀ l ∈ ls, l.Forward)
    (hrun : run step ls (boot now) = some (s, es)) (x y : Ptr) :
    timespecLt (s.timer x).expire (s.timer y).expire ↔
      (s.timer x).expire.nanos < (s.timer y).expire.nanos := by
  have hnormal : TimesNormal s := run_invariant (fun h hl hstep => h.step hl hstep)
    (timesNormal_boot hnow)
    (along_of_forall (fun l hl => ⟨hclock l hl, hforward l hl⟩) _) hrun
  exact timespecLt_iff_nanos (hnormal.schedule x).expire (hnormal.schedule y).expire

/-- **Cyclic timers do not drift.**  In every run with a normal clock: after `k` firings, however
late, a cyclic timer of `msec` milliseconds that was started at the time `start` expires exactly
`k + 1` periods after it, and its expiry is normal.  So the order of the table is the order of
time, among these timers and, when no timer is set into the past, among all timers. -/
theorem cyclic_timer_no_drift {now : Timespec} {ls : List Label} {s : State} {es : List Event}
    (hnow : now.Normal) (hclock : ∀ l ∈ ls, l.ClockNormal)
    (hrun : run step ls (boot now) = some (s, es)) :
    (∀ t start msec k, 0 ≤ msec → Cycling now ls s t start msec k →
      (s.timer t).expire.nanos = start.nanos + (k + 1) * (msec * 1000000) ∧
        0 ≤ (s.timer t).expire.nsec ∧ (s.timer t).expire.nsec < 1000000000) ∧
    (∀ t start msec k x start' msec' k', 0 ≤ msec → Cycling now ls s t start msec k →
      0 ≤ msec' → Cycling now ls s x start' msec' k' →
      (timespecLt (s.timer t).expire (s.timer x).expire ↔
        (s.timer t).expire.nanos < (s.timer x).expire.nanos)) ∧
    ((∀ l ∈ ls, l.Forward) → ∀ t x, timespecLt (s.timer t).expire (s.timer x).expire ↔
      (s.timer t).expire.nanos < (s.timer x).expire.nanos) := by
  refine ⟨?_, ?_, ?_⟩
  · intro t start msec k hmsec ht
    have hexact := ht.exact hnow hclock hmsec
    exact ⟨hexact.2, hexact.1⟩
  · intro t start msec k x start' msec' k' hmsec ht hmsec' hx
    exact timespecLt_iff_nanos (ht.exact hnow hclock hmsec).1 (hx.exact hnow hclock hmsec').1
  · intro hforward t x
    exact expire_lt_iff hnow hclock hforward hrun t x

/-- A timer of 1.5 seconds is started at 0.7 seconds, and the inspector is late. -/
def cycleRun : List Label :=
  [.setup none true, .add (.user 0) 1 ⟨true, false⟩ 1500, .inspectorStart, .inspectorLoop 0 false,
    .tick ⟨5, 0⟩, .inspectorWake true 0 false, .inspectorReturn, .inspectorLoop 0 false]

/-- The inspector fires the timer twice at 5 seconds. -/
theorem cyclic_timer_no_drift_sample :
    ∃ s es, run step cycleRun (boot ⟨0, 700000000⟩) = some (s, es) ∧
      Cycling ⟨0, 700000000⟩ cycleRun s 1 ⟨0, 700000000⟩ 1500 2 ∧
      (s.timer 1).expire.nanos = 700000000 + (2 + 1) * (1500 * 1000000) := by
  obtain ⟨s, es, hrun, hcycling⟩ : ∃ s es,
      run step cycleRun (boot ⟨0, 700000000⟩) = some (s, es) ∧
        Cycling ⟨0, 700000000⟩ cycleRun s 1 ⟨0, 700000000⟩ 1500 2 := by
    refine ⟨_, _, rfl, [.setup none true], .user 0, ⟨true, false⟩, cycleRun.drop 2, _, _, _,
      [.entered .inspector, .fired 1, .started .inspector 1, .entered .inspector, .fired 1,
        .started .inspector 1], rfl, rfl, rfl, rfl, rfl, rfl, by simp, ?_, by decide⟩
    -- there is no call of `timer_mod`
    apply Along.mono (fun s l (hl : ∀ u msec, l ≠ .mod u 1 msec) u msec heq =>
      absurd heq (hl u msec))
    exact along_of_forall (by simp [cycleRun]) _
  refine ⟨s, es, hrun, hcycling, ?_⟩
  have hclock : ∀ l ∈ cycleRun, l.ClockNormal := by
    simp [cycleRun, Label.ClockNormal, Timespec.Normal]
  exact ((cyclic_timer_no_drift (by decide) hclock hrun).1 _ _ _ _ (by decide) hcycling).1

end LinuxC.Timer
