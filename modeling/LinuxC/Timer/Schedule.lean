import LinuxC.Timer.Steps
import Mathlib.Logic.Function.Iterate

/-!
# When a timer expires

`Schedule` is the part of a timer that decides when it expires.  Most of the runtime does not
touch it (`SameTimes`).  `timer_add` and `timer_mod` set the schedule of their timer anew, and the
inspector moves the schedule of a cyclic timer when it shoots it.  `step_schedule` puts this
together: what a step can do to the schedule of a timer.
-/

namespace LinuxC.Timer

/-! ## Schedules -/

/-- The part of a timer that decides when it expires. -/
structure Schedule where
  expire : Timespec
  interval : Timespec
  cycle : Bool
  deriving DecidableEq

/-- The schedule of a timer. -/
def TimerStruct.schedule (x : TimerStruct) : Schedule := ⟨x.expire, x.interval, x.option.cycle⟩

/-- `timer_insert`. -/
def Schedule.insert (c : Schedule) : Schedule := { c with expire := timespecAdd c.expire c.interval }

/-- What a firing makes of the schedule. -/
def Schedule.next (c : Schedule) : Schedule := if c.cycle then c.insert else c

/-- The schedule that `timer_add` and `timer_mod` insert at the time `now`. -/
def Schedule.arm (now : Timespec) (msec : ℤ) (cycle : Bool) : Schedule :=
  Schedule.insert ⟨now, timespecInit msec, cycle⟩

/-- A cyclic schedule moves by its interval at every firing. -/
lemma Schedule.iterate_next {c : Schedule} (hc : c.cycle = true) (k : ℕ) :
    Schedule.next^[k] c = { c with expire := (fun e => timespecAdd e c.interval)^[k] c.expire } := by
  induction k with
  | zero => rfl
  | succ k ih =>
      rw [Function.iterate_succ_apply', Function.iterate_succ_apply', ih]
      simp [Schedule.next, Schedule.insert, hc]

/-- The time and the schedules of all timers are those of the state before. -/
structure SameTimes (s s' : State) : Prop where
  now : s'.now = s.now
  schedule : ∀ x, (s'.timer x).schedule = (s.timer x).schedule

lemma SameTimes.refl (s : State) : SameTimes s s := ⟨rfl, fun _ => rfl⟩

lemma SameTimes.trans {s₁ s₂ s₃ : State} (h : SameTimes s₁ s₂) (h' : SameTimes s₂ s₃) :
    SameTimes s₁ s₃ :=
  ⟨h'.now.trans h.now, fun x => (h'.schedule x).trans (h.schedule x)⟩

lemma SameTimes.expire {s s' : State} (h : SameTimes s s') (x : Ptr) :
    (s'.timer x).expire = (s.timer x).expire :=
  congrArg Schedule.expire (h.schedule x)

lemma SameTimes.congr {s s₁ s₂ : State} (h : SameTimes s s₁) (hnow : s₂.now = s₁.now)
    (htimer : s₂.timer = s₁.timer) : SameTimes s s₂ :=
  ⟨hnow.trans h.now, fun x => by rw [htimer, h.schedule x]⟩

lemma sameTimes_modify (t : Ptr) (g : TimerStruct → TimerStruct) (s : State)
    (hg : (g (s.timer t)).schedule = (s.timer t).schedule) : SameTimes s (s.modify t g) := by
  refine ⟨rfl, fun x => ?_⟩
  simp only [State.modify]
  split_ifs with hx
  · rw [hx, hg]
  · rfl

lemma sameTimes_setFlags (t : Ptr) (g : Flags → Flags) (s : State) :
    SameTimes s (s.setFlags t g) :=
  sameTimes_modify t _ s rfl

lemma sameTimes_timerRemove (t : Ptr) (s : State) : SameTimes s (timerRemove t s) :=
  (sameTimes_setFlags t (fun f => { f with mounted := false }) s).congr rfl rfl

lemma sameTimes_exitState (t : Ptr) (s : State) : SameTimes s (exitState t s) := by
  have hdrop : SameTimes s (timerDrop t s) := by
    unfold timerDrop signalDel
    split_ifs
    · exact (sameTimes_timerRemove t s).congr rfl rfl
    · exact sameTimes_timerRemove t s
    · exact .refl s
  exact hdrop.trans (sameTimes_setFlags t _ _)

lemma sameTimes_timerCleanup (t : Ptr) (s : State) : SameTimes s (timerCleanup t s) :=
  sameTimes_setFlags t _ s

lemma sameTimes_timerExecute (u : Tid) (t : Ptr) (s : State) :
    SameTimes s (timerExecute u t s) :=
  sameTimes_modify t
    (fun x => { x with thread := some u, flags := { x.flags with executing := true } }) s rfl

lemma sameTimes_timerThreadExecute (t : Ptr) (wake : ℕ) (created : Bool) (s : State) :
    SameTimes s (timerThreadExecute t wake created s) := by
  have hpend : SameTimes s (timerPend t s) :=
    (sameTimes_setFlags t (fun f => { f with pending := true }) s).congr rfl rfl
  unfold timerThreadExecute
  split_ifs
  · exact hpend.congr rfl rfl
  · exact hpend.congr rfl rfl
  · exact hpend

lemma sameTimes_signalAdd (t : Ptr) (s : State) : SameTimes s (signalAdd t s) := by
  unfold signalAdd
  split_ifs
  · exact (SameTimes.refl s).congr rfl rfl
  · exact .refl s

lemma sameTimes_signalMod (t : Ptr) (s : State) : SameTimes s (signalMod t s) := by
  unfold signalMod
  split_ifs
  · exact (SameTimes.refl s).congr rfl rfl
  · exact .refl s

lemma sameTimes_timerUnmount (t : Ptr) (s : State) : SameTimes s (timerUnmount t s) := by
  unfold timerUnmount
  split_ifs
  · exact sameTimes_timerRemove t s
  · exact .refl s

lemma sameTimes_signalDestroy (s : State) : SameTimes s (signalDestroy s) := by
  apply (SameTimes.refl s).congr
  · dsimp only [signalDestroy]
    split_ifs <;> rfl
  · dsimp only [signalDestroy]
    split_ifs <;> rfl

lemma sameTimes_timerSetup {users : Option TimerOption} {created : Bool} {s s' : State}
    {es : List Event} (h : timerSetup users created s = some (s', es)) :
    SameTimes s s' ∧ es = [] := by
  have hinit : SameTimes s (timerInitOnce users s) := by
    unfold timerInitOnce
    split_ifs
    · exact .refl s
    · exact (SameTimes.refl s).congr rfl rfl
  unfold timerSetup setupThreads at h
  split_ifs at h
  · obtain ⟨rfl, rfl⟩ := Prod.mk.inj (Option.some.inj h)
    exact ⟨hinit.congr rfl rfl, rfl⟩
  · obtain ⟨rfl, rfl⟩ := Prod.mk.inj (Option.some.inj h)
    exact ⟨hinit.congr rfl rfl, rfl⟩

lemma Dispatched.sameTimes {t : Ptr} {created : Bool} {s s' : State} {es : List Event}
    (hd : Dispatched t created s s' es) : SameTimes s s' := by
  cases hd with
  | skip => exact (SameTimes.refl s).congr rfl rfl
  | pool wake => exact (sameTimes_timerThreadExecute t wake created s).congr rfl rfl
  | inline => exact (sameTimes_timerExecute .inspector t s).congr rfl rfl

lemma Drained.sameTimes {i : ℕ} {b : Bool} {s s' : State} {es : List Event}
    (hd : Drained i b s s' es) : SameTimes s s' := by
  cases hd with
  | @take t rest =>
      have htake : SameTimes s (takeExpired t rest s) :=
        (sameTimes_setFlags t (fun f => { f with pending := false }) s).congr rfl rfl
      exact htake.trans ((sameTimes_timerExecute (.executor i) t _).congr rfl rfl)
  | exit => exact (SameTimes.refl s).congr rfl rfl
  | again => exact (SameTimes.refl s).congr rfl rfl

/-! ## The schedules that a step sets or moves -/

/-- The insertion of a timer moves its own schedule. -/
lemma timerInsert_schedule (t : Ptr) (s : State) (x : Ptr) :
    ((timerInsert t s).timer x).schedule =
      if x = t then (s.timer t).schedule.insert else (s.timer x).schedule := by
  have hmount : SameTimes (timerKey t s) (timerInsert t s) :=
    (sameTimes_setFlags t (fun f => { f with mounted := true }) (timerKey t s)).congr rfl rfl
  rw [hmount.schedule x]
  simp only [timerKey, State.modify]
  split_ifs with hx
  · rw [hx]
    rfl
  · rfl

lemma shootState_schedule (t : Ptr) (s : State) (x : Ptr) :
    ((shootState t s).timer x).schedule =
      if x = t then (s.timer t).schedule.next else (s.timer x).schedule := by
  have hremove : ∀ y, ((timerRemove t (s.setState .shooting)).timer y).schedule =
      (s.timer y).schedule := (sameTimes_timerRemove t (s.setState .shooting)).schedule
  have hcycle : ((timerRemove t (s.setState .shooting)).timer t).option.cycle =
      (s.timer t).schedule.cycle := congrArg Schedule.cycle (hremove t)
  rw [shootState, reinsert, hcycle]
  unfold Schedule.next
  split_ifs with hc hx hx
  · rw [timerInsert_schedule, if_pos hx, hremove t]
  · rw [timerInsert_schedule, if_neg hx, hremove x]
  · rw [hremove x, hx]
  · exact hremove x

lemma shootState_now (t : Ptr) (s : State) : (shootState t s).now = s.now := by
  unfold shootState reinsert
  split_ifs <;> rfl

lemma addState_schedule (t : Ptr) (option : TimerOpt) (msec : ℤ) (s : State) (x : Ptr) :
    ((addState t option msec s).timer x).schedule =
      if x = t then Schedule.arm s.now msec option.cycle else (s.timer x).schedule := by
  have hflags : SameTimes (timerInsert t (timerFill t option msec s))
      (addState t option msec s) := sameTimes_setFlags t _ _
  rw [hflags.schedule x, timerInsert_schedule]
  split_ifs with hx
  · simp [timerFill, State.modify, TimerStruct.schedule, Schedule.arm]
  · simp [timerFill, State.modify, hx]

lemma modState_schedule (t : Ptr) (msec : ℤ) (s : State) (x : Ptr) :
    ((modState t msec s).timer x).schedule =
      if x = t then Schedule.arm s.now msec (s.timer t).schedule.cycle
      else (s.timer x).schedule := by
  have hunmount := sameTimes_timerUnmount t s
  have hcycle : ((timerUnmount t s).timer t).option.cycle = (s.timer t).schedule.cycle :=
    congrArg Schedule.cycle (hunmount.schedule t)
  rw [modState, timerInsert_schedule]
  split_ifs with hx
  · simp [timerRearm, State.modify, TimerStruct.schedule, Schedule.arm, hcycle, hunmount.now]
  · simp only [timerRearm, State.modify, if_neg hx]
    exact hunmount.schedule x

/-! ## Steps -/

lemma Dispatched.count_fired {t : Ptr} {created : Bool} {s s' : State} {es : List Event}
    (hd : Dispatched t created s s' es) (x : Ptr) :
    es.count (.fired x) = if x = t then 1 else 0 := by
  split_ifs with hx
  · subst hx
    cases hd <;> simp
  · exact List.count_eq_zero.mpr fun h => hx (hd.fired h)

lemma Drained.count_fired {i : ℕ} {b : Bool} {s s' : State} {es : List Event}
    (hd : Drained i b s s' es) (x : Ptr) : es.count (.fired x) = 0 :=
  List.count_eq_zero.mpr hd.not_fired

/-- The inspector moves the schedule of the timer that it shoots. -/
lemma Dispatched.schedule {t : Ptr} {created : Bool} {s s' : State} {es : List Event}
    (hd : Dispatched t created (shootState t s) s' es) (x : Ptr) :
    (s'.timer x).schedule = Schedule.next^[es.count (.fired x)] (s.timer x).schedule := by
  rw [hd.sameTimes.schedule x, shootState_schedule, hd.count_fired]
  split_ifs with hx
  · rw [hx, Function.iterate_one]
  · rfl

/-- **What a step does to the schedule of a timer.**  It sets the schedule anew in `timer_add` or
`timer_mod`, or it moves the schedule once for every firing. -/
lemma step_schedule {s s' : State} {l : Label} {es : List Event}
    (hstep : step s l = some (s', es)) (x : Ptr) :
    (∃ u option msec, l = .add u x option msec ∧ es = [.addOk u x] ∧
      (s'.timer x).schedule = Schedule.arm s.now msec option.cycle) ∨
    (∃ u msec, l = .mod u x msec ∧
      (s'.timer x).schedule = Schedule.arm s.now msec (s.timer x).schedule.cycle) ∨
    (s'.timer x).schedule = Schedule.next^[es.count (.fired x)] (s.timer x).schedule := by
  cases trans_of_step hstep with
  | tick | failed | delReturn | inspectorStart | inspectorExit | inspectorWait | inspectorTimed |
      inspectorWoken | timedRemoved | timedSignal | executorStart | executorExit | executorWait |
      destroyCleanup => exact .inr (.inr rfl)
  | setup hsetup =>
      obtain ⟨hsame, rfl⟩ := sameTimes_timerSetup hsetup
      exact .inr (.inr (hsame.schedule x))
  | @add u t option msec =>
      have hadd := ((sameTimes_signalAdd t _).schedule x).trans (addState_schedule t option msec s x)
      by_cases hx : x = t
      · subst hx
        exact .inl ⟨u, option, msec, rfl, rfl, hadd.trans (if_pos rfl)⟩
      · exact .inr (.inr (hadd.trans (if_neg hx)))
  | @mod u t msec =>
      have hmod := ((sameTimes_signalMod t _).schedule x).trans (modState_schedule t msec s x)
      by_cases hx : x = t
      · subst hx
        exact .inr (.inl ⟨u, msec, rfl, hmod.trans (if_pos rfl)⟩)
      · exact .inr (.inr (hmod.trans (if_neg hx)))
  | @delDetach u t =>
      have hsame := (sameTimes_exitState t s).trans
        (sameTimes_setFlags t (fun f => { f with detach := true }) _)
      exact .inr (.inr (hsame.schedule x))
  | @delWait u t =>
      have hsame := (sameTimes_exitState t s).trans
        (sameTimes_setFlags t (fun f => { f with waiting := true }) _)
      exact .inr (.inr (hsame.schedule x))
  | @delDone u t => exact .inr (.inr ((sameTimes_exitState t s).schedule x))
  | delStay => exact .inr (.inr ((sameTimes_setFlags _ _ s).schedule x))
  | destroy => exact .inr (.inr ((sameTimes_signalDestroy s).schedule x))
  | inspectorShoot _ _ _ _ hshoot =>
      have hmove := hshoot.schedule x
      exact .inr (.inr (by simpa using hmove))
  | timedShoot _ _ _ hshoot => exact .inr (.inr (hshoot.schedule x))
  | @inspectorReturn t =>
      exact .inr (.inr ((sameTimes_timerCleanup t s).schedule x))
  | executorDrain _ _ hdrain =>
      have hcount := hdrain.count_fired x
      refine .inr (.inr ?_)
      simpa [hcount] using hdrain.sameTimes.schedule x
  | executorWoken _ hdrain =>
      rw [hdrain.count_fired x]
      exact .inr (.inr (hdrain.sameTimes.schedule x))
  | @executorReturn i t b _ _ _ _ hdrain =>
      rw [hdrain.count_fired x]
      exact .inr (.inr (((sameTimes_timerCleanup t s).trans hdrain.sameTimes).schedule x))

lemma step_now {s s' : State} {l : Label} {es : List Event} (hstep : step s l = some (s', es)) :
    s'.now = s.now ∨ l = .tick s'.now := by
  cases trans_of_step hstep with
  | tick => exact .inr rfl
  | failed | delReturn | inspectorStart | inspectorExit | inspectorWait | inspectorTimed |
      inspectorWoken | timedRemoved | timedSignal | executorStart | executorExit | executorWait |
      destroyCleanup | delStay | inspectorReturn => exact .inl rfl
  | setup hsetup => exact .inl (sameTimes_timerSetup hsetup).1.now
  | @add u t option msec => exact .inl (sameTimes_signalAdd t (addState t option msec s)).now
  | @mod u t msec =>
      have hmod : (modState t msec s).now = (timerUnmount t s).now := rfl
      exact .inl ((sameTimes_signalMod t _).now.trans (hmod.trans (sameTimes_timerUnmount t s).now))
  | @delDetach u t => exact .inl (sameTimes_exitState t s).now
  | @delWait u t => exact .inl (sameTimes_exitState t s).now
  | @delDone u t => exact .inl (sameTimes_exitState t s).now
  | destroy => exact .inl (sameTimes_signalDestroy s).now
  | inspectorShoot _ _ _ _ hshoot =>
      exact .inl (hshoot.sameTimes.now.trans (shootState_now _ s))
  | timedShoot _ _ _ hshoot =>
      exact .inl (hshoot.sameTimes.now.trans (shootState_now _ (s.setRunning none)))
  | executorDrain _ _ hdrain => exact .inl hdrain.sameTimes.now
  | executorWoken _ hdrain => exact .inl hdrain.sameTimes.now
  | executorReturn _ _ hdrain => exact .inl hdrain.sameTimes.now

end LinuxC.Timer
