import LinuxC.Timer.Table

/-!
# A timer does not fire early

The inspector shoots a timer for one of two reasons: it has read the clock and the first timer of
the table has expired, or its timed wait has ended with `ETIMEDOUT`.  In the second case it does
not look at the timer again.  The deadline of the wait is the expiry that the timer had when the
wait began, and `timer_mod` may have put the expiry off since then: the signal of `timer_mod` does
not help a wait that has already timed out.

`DeadlineOk` says that the expiry of the running timer is not behind the deadline of the wait.
Every step keeps it but a `timer_mod` that puts off the running timer.
-/

namespace LinuxC.Timer

/-- The running timer expires no later than the wait of the inspector ends. -/
def DeadlineOk (s : State) : Prop :=
  ∀ t d sig, s.inspector = .timing t d sig → s.base.runningTimer = some t →
    ¬ timespecLt d (s.timer t).expire

/-- The arguments of the call of `timer_mod`. -/
def Label.modCall : Label → Option (Ptr × ℤ)
  | .mod _ t msec => some (t, msec)
  | _ => none

/-- The deadline of the timed wait of the inspector. -/
def Inspector.deadline : Inspector → Option Timespec
  | .timing _ d _ => some d
  | _ => none

/-- The step does not call `timer_mod` for the running timer with an expiry behind the deadline
for which the inspector waits. -/
def NotPutOff (s : State) (l : Label) : Prop :=
  ∀ m ∈ l.modCall, s.base.runningTimer = some m.1 → ∀ d ∈ s.inspector.deadline,
    ¬ timespecLt d (timespecAdd s.now (timespecInit m.2))

instance (s : State) (l : Label) : Decidable (NotPutOff s l) :=
  inferInstanceAs (Decidable (∀ m ∈ l.modCall, _))

lemma timespecLt_of_le_of_lt {a b c : Timespec} (hab : ¬ timespecLt b a) (hbc : timespecLt b c) :
    timespecLt a c := by
  unfold timespecLt at *
  omega

lemma exitState_running {t r : Ptr} {s : State}
    (h : (exitState t s).base.runningTimer = some r) : s.base.runningTimer = some r := by
  have hdrop : (exitState t s).base = (timerDrop t s).base := rfl
  rw [hdrop] at h
  unfold timerDrop signalDel at h
  split_ifs at h
  · cases h
  · exact h
  · exact h

/-! ## Steps that keep the expiry of the running timer -/

/-- A timed wait is the same wait, perhaps with a signal. -/
def SameWait (s s' : State) : Prop :=
  ∀ t d sig, s'.inspector = .timing t d sig → ∃ sig', s.inspector = .timing t d sig'

lemma sameWait_of_eq {s s' : State} (h : s'.inspector = s.inspector) : SameWait s s' :=
  fun _ _ sig hpc => ⟨sig, h ▸ hpc⟩

lemma sameWait_signalWork (s : State) : SameWait s s.signalWork := by
  intro t d sig hpc
  cases hins : s.inspector <;> simp_all [State.signalWork]

lemma exitState_sameWait (t : Ptr) (s : State) : SameWait s (exitState t s) := by
  have hins : (exitState t s).inspector = (timerDrop t s).inspector := rfl
  unfold SameWait
  rw [hins]
  unfold timerDrop signalDel
  split_ifs
  · exact sameWait_signalWork ((timerRemove t s).setRunning none)
  · exact sameWait_of_eq rfl
  · exact sameWait_of_eq rfl

/-- The wait, the running timer and its expiry are those of the state before. -/
lemma DeadlineOk.congr {s s' : State} (h : DeadlineOk s) (hwait : SameWait s s')
    (hrun : ∀ r, s'.base.runningTimer = some r → s.base.runningTimer = some r)
    (hexp : ∀ r, s.base.runningTimer = some r → (s'.timer r).expire = (s.timer r).expire) :
    DeadlineOk s' := by
  intro t d sig hpc hr
  obtain ⟨sig', hpc'⟩ := hwait t d sig hpc
  rw [hexp t (hrun t hr)]
  exact h t d sig' hpc' (hrun t hr)

lemma deadlineOk_of_pc {s : State} (h : ∀ t d sig, s.inspector ≠ .timing t d sig) :
    DeadlineOk s :=
  fun t d sig hpc => absurd hpc (h t d sig)

lemma DeadlineOk.drained {i : ℕ} {b : Bool} {s s' : State} {es : List Event} (h : DeadlineOk s)
    (hd : Drained i b s s' es) : DeadlineOk s' := by
  have hsame := hd.sameTimes
  cases hd with
  | take =>
      exact h.congr (sameWait_of_eq rfl) (fun r hr => hr) fun r _ => hsame.expire r
  | exit => exact h
  | again => exact h

lemma DeadlineOk.setFlags {s : State} (h : DeadlineOk s) (t : Ptr) (g : Flags → Flags) :
    DeadlineOk (s.setFlags t g) :=
  h.congr (sameWait_of_eq rfl) (fun _ hr => hr) fun r _ => (sameTimes_setFlags t g s).expire r

lemma DeadlineOk.exit {s : State} (h : DeadlineOk s) (t : Ptr) : DeadlineOk (exitState t s) :=
  h.congr (exitState_sameWait t s) (fun _ hr => exitState_running hr)
    fun r _ => (sameTimes_exitState t s).expire r

lemma DeadlineOk.signalWork {s : State} (h : DeadlineOk s) : DeadlineOk s.signalWork :=
  h.congr (sameWait_signalWork s) (fun _ hr => hr) fun _ _ => rfl

lemma DeadlineOk.add {s : State} (h : DeadlineOk s) (hrt : RuntimeInv s) {t : Ptr}
    (option : TimerOpt) (msec : ℤ) (hactive : (s.timer t).flags.active = false) :
    DeadlineOk (addState t option msec s) := by
  refine h.congr (sameWait_of_eq rfl) (fun _ hr => hr) fun r hr => addState_expire option msec s ?_
  rintro rfl
  exact hrt.running_ne hactive hr

lemma DeadlineOk.mod {s : State} (h : DeadlineOk s) {u : Tid} {t : Ptr} {msec : ℤ}
    (hsafe : NotPutOff s (.mod u t msec)) : DeadlineOk (modState t msec s) := by
  obtain ⟨hrunning, hins⟩ := modState_running t msec s
  intro x d sig hpc hr
  rw [hins] at hpc
  rw [hrunning] at hr
  rw [modState_expire]
  split_ifs with hx
  · subst hx
    exact hsafe (x, msec) rfl hr d (by simp [hpc, Inspector.deadline])
  · exact h x d sig hpc hr

lemma Dispatched.inspector {t : Ptr} {s s' : State} {es : List Event}
    {created : Bool} (hd : Dispatched t created s s' es) (x : Ptr) (d : Timespec) (sig : Bool) :
    s'.inspector ≠ .timing x d sig := by
  cases hd with
  | skip => simp
  | pool => simp
  | inline => simp

lemma DeadlineOk.step {s s' : State} {l : Label} {es : List Event} (h : DeadlineOk s)
    (hrt : RuntimeInv s) (hl : l.isRuntime = true) (hsafe : NotPutOff s l)
    (hstep : step s l = some (s', es)) : DeadlineOk s' := by
  cases trans_of_step hstep with
  | tick => exact h
  | setup => simp [Label.isRuntime] at hl
  | failed => exact h
  | @add u t option msec _ _ hactive =>
      have h1 := h.add hrt option msec hactive
      unfold signalAdd
      split
      · exact h1.signalWork
      · exact h1
  | delDetach => exact (h.exit _).setFlags _ _
  | @delWait u t =>
      have h1 := (h.exit t).setFlags t fun f => { f with waiting := true }
      exact h1
  | delDone => exact h.exit _
  | delStay => exact h.setFlags _ _
  | delReturn => exact h
  | @mod u t msec =>
      have h1 := h.mod hsafe
      unfold signalMod
      split
      · exact h1.signalWork
      · exact h1
  | destroy => simp [Label.isRuntime] at hl
  | destroyCleanup => simp [Label.isRuntime] at hl
  | inspectorStart => exact deadlineOk_of_pc (by simp)
  | inspectorExit => exact deadlineOk_of_pc (by simp)
  | inspectorWait => exact deadlineOk_of_pc (by simp)
  | @inspectorTimed wake created t =>
      -- the deadline is the expiry of the timer
      intro x d sig hpc _
      obtain ⟨rfl, rfl, -⟩ := Inspector.timing.inj hpc
      exact timespecLt_irrefl _
  | inspectorShoot _ _ _ _ hshoot => exact deadlineOk_of_pc hshoot.inspector
  | inspectorWoken => exact deadlineOk_of_pc (by simp)
  | timedRemoved => exact deadlineOk_of_pc (by simp)
  | timedSignal => exact deadlineOk_of_pc (by simp)
  | timedShoot _ _ _ hshoot => exact deadlineOk_of_pc hshoot.inspector
  | inspectorReturn => exact deadlineOk_of_pc (by simp)
  | executorStart => exact h
  | executorExit => exact h
  | executorWait => exact h
  | executorDrain _ _ hdrain => exact h.drained hdrain
  | executorWoken _ hdrain => exact DeadlineOk.drained (s := s.addIdle (-1)) h hdrain
  | executorReturn _ _ hdrain => exact (h.setFlags _ _).drained hdrain

/-! ## Firing -/

/-- The two reasons for which a timer is shot. -/
lemma fired_late {s s' : State} {l : Label} {es : List Event} {t : Ptr} (h : DeadlineOk s)
    (hrt : RuntimeInv s) (hl : l.isRuntime = true) (hstep : step s l = some (s', es))
    (hfired : .fired t ∈ es) : ¬ timespecLt s.now (s.timer t).expire := by
  cases trans_of_step hstep with
  | tick | failed | add | delDetach | delDone | delWait | delStay | delReturn | mod |
      inspectorStart | inspectorExit | inspectorWait | inspectorTimed | inspectorWoken |
      timedRemoved | timedSignal | inspectorReturn | executorStart | executorExit |
      executorWait => simp at hfired
  | setup | destroy | destroyCleanup => simp [Label.isRuntime] at hl
  | inspectorShoot _ _ _ hlate hshoot =>
      obtain rfl := hshoot.fired (by simpa using hfired)
      exact hlate
  | timedShoot hpc hrun hlate hshoot =>
      obtain rfl := hshoot.fired hfired
      have hdeadline := h t _ _ hpc (hrt.timed.mem hpc hrun).1
      intro hearly
      exact hdeadline (timespecLt_of_le_of_lt hlate hearly)
  | executorDrain _ _ hdrain => exact absurd (by simpa using hfired) hdrain.not_fired
  | executorWoken _ hdrain => exact absurd hfired hdrain.not_fired
  | executorReturn _ _ hdrain => exact absurd hfired hdrain.not_fired

/-- **A timer does not fire early.**  In every run of the runtime in which `timer_mod` never puts
off the timer for which the inspector waits beyond the deadline of the wait: whenever the
inspector takes a timer out of the table to fire it, the time is not before the expiry of the
timer. -/
theorem timer_not_early {users : Option TimerOption} {created : Bool} {ls : List Label}
    {l : Label} {now : Timespec} {s s' : State} {es es' : List Event} {t : Ptr}
    (hrun : run step (.setup users created :: ls) (boot now) = some (s, es))
    (hruntime : ∀ x ∈ ls, x.isRuntime = true)
    (hmod : Along step NotPutOff (.setup users created :: ls) (boot now))
    (hl : l.isRuntime = true) (hstep : step s l = some (s', es')) (hfired : .fired t ∈ es') :
    ¬ timespecLt s.now (s.timer t).expire := by
  obtain ⟨hrt, hdeadline⟩ := runtime_invariant (I := DeadlineOk)
    (fun hfresh => deadlineOk_of_pc (by rcases hfresh.inspector with hpc | hpc <;> simp [hpc]))
    (fun hrt h hl hok hstep => h.step hrt hl hok hstep) hruntime hmod hrun
  exact fired_late hdeadline hrt hl hstep hfired

/-- The inspector waits for a timer of one second, and the second passes. -/
def expireRun : List Label :=
  [.add (.user 0) 1 ⟨false, false⟩ 1000, .inspectorStart, .inspectorLoop 0 false, .tick ⟨1, 0⟩]

/-- The wait ends with `ETIMEDOUT`, and the timer is shot. -/
theorem timer_not_early_sample :
    ∃ s es s' es', run step (.setup none true :: expireRun) (boot ⟨0, 0⟩) = some (s, es) ∧
      step s (.inspectorWake true 0 false) = some (s', es') ∧ .fired 1 ∈ es' ∧
      ¬ timespecLt s.now (s.timer 1).expire := by
  obtain ⟨s, es, s', es', hrun, hstep, hfired⟩ : ∃ s es s' es',
      run step (.setup none true :: expireRun) (boot ⟨0, 0⟩) = some (s, es) ∧
        step s (.inspectorWake true 0 false) = some (s', es') ∧ .fired 1 ∈ es' :=
    ⟨_, _, _, _, rfl, rfl, by decide⟩
  exact ⟨s, es, s', es', hrun, hstep, hfired,
    timer_not_early hrun (by decide) (by decide) rfl hstep hfired⟩

/-- **A timer fires early.**  Before the inspector gets the mutex back, `timer_mod` puts the timer
off by one second; the timer is shot at once. -/
theorem timer_early :
    ¬ ∀ (ls : List Label) (l : Label) (s s' : State) (es es' : List Event) (t : Ptr),
      (∀ x ∈ ls, x.isRuntime = true) →
      run step (.setup none true :: ls) (boot ⟨0, 0⟩) = some (s, es) →
      l.isRuntime = true → step s l = some (s', es') → .fired t ∈ es' →
      ¬ timespecLt s.now (s.timer t).expire := by
  intro h
  have hbad := h (expireRun ++ [.mod (.user 0) 1 1000]) (.inspectorWake true 0 false) _ _ _ _ 1
    (by decide) rfl rfl rfl (by decide)
  exact absurd hbad (by decide)

end LinuxC.Timer
