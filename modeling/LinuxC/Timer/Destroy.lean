import LinuxC.Timer.Steps

/-!
# Destruction

`timer_destroy` sets `base->state` to `TMR_BASE_DESTROY` and waits until the threads have seen
it and are gone.  The state is one field that the inspector writes too: when its timed wait
ends with `ETIMEDOUT` it goes on to shoot the timer and sets `TMR_BASE_SHOOTING` without another
look at the state.  If the deadline passes while `timer_destroy` holds the mutex, the write
lands after the destruction began (`destroy_undone`).  `timer_setup` does not look at the state
either and adds a thread between the end of the last one and the return of `timer_destroy`.

Without these two steps the destruction is not undone (`destroy_stays`).
-/

namespace LinuxC.Timer

/-- The step ends a wait of the inspector with `ETIMEDOUT`. -/
def Label.timesOut : Label → Bool
  | .inspectorWake timedout _ _ => timedout
  | _ => false

/-- The step calls `timer_setup`. -/
def Label.isSetup : Label → Bool
  | .setup _ _ => true
  | _ => false

/-- While the runtime is being destroyed, no timed wait of the inspector ends with `ETIMEDOUT`
with its timer still there, and nobody calls `timer_setup`. -/
def DestroySafe (s : State) (l : Label) : Prop :=
  s.base.state = .destroy →
    (l.timesOut = true → s.base.runningTimer = none) ∧ l.isSetup = false

instance (s : State) (l : Label) : Decidable (DestroySafe s l) :=
  inferInstanceAs (Decidable (_ → (_ → _) ∧ _))

/-- The runtime is being destroyed, with at most `n` threads left. -/
def Destroying (n : ℤ) (s : State) : Prop := s.base.state = .destroy ∧ s.base.nthreads ≤ n

/-- Pending timers are still run, and a thread may end. -/
lemma Drained.base {i : ℕ} {timedout : Bool} {s s' : State} {es : List Event}
    (h : Drained i timedout s s' es) :
    s'.base.state = s.base.state ∧ s'.base.nthreads ≤ s.base.nthreads ∧ ∀ u, .entered u ∉ es := by
  cases h with
  | take => exact ⟨rfl, le_refl _, by simp⟩
  | exit => exact ⟨rfl, by simp only [threadCleanup, State.setExecutor]; omega, by simp⟩
  | again => exact ⟨rfl, le_refl _, by simp⟩

lemma workingBase_of_destroy {s : State} (h : s.base.state = .destroy) : workingBase s = false := by
  simp [workingBase, h]

lemma Destroying.exitState {n : ℤ} {s : State} (h : Destroying n s) (t : Ptr) :
    Destroying n (Timer.exitState t s) := by
  unfold Timer.exitState timerDrop signalDel
  split_ifs <;> exact h

/-- One step of a runtime that is being destroyed. -/
lemma step_destroying {n : ℤ} {s s' : State} {l : Label} {es : List Event} (hs : Destroying n s)
    (hsafe : DestroySafe s l) (hstep : step s l = some (s', es)) (hno : .destroyed ∉ es) :
    Destroying n s' ∧ ∀ u, .entered u ∉ es := by
  have hd := hs.1
  have hn := hs.2
  have hw := workingBase_of_destroy hd
  have hsafe := hsafe hd
  cases trans_of_step hstep with
  | tick => exact ⟨hs, by simp⟩
  | setup => exact absurd hsafe.2 (by simp [Label.isSetup])
  | failed => exact ⟨hs, by simp⟩
  | add hcall hwork => exact absurd hwork (by simp [hw])
  | mod hcall hwork => exact absurd hwork (by simp [hw])
  | destroy hwork => exact absurd hwork (by simp [hw])
  | delDetach => exact ⟨hs.exitState _, by simp⟩
  | delWait => exact ⟨hs.exitState _, by simp⟩
  | delDone => exact ⟨hs.exitState _, by simp⟩
  | delStay => exact ⟨hs, by simp⟩
  | delReturn => exact ⟨hs, by simp⟩
  | destroyCleanup => exact absurd (by simp) hno
  | inspectorStart => exact ⟨hs, by simp⟩
  | inspectorExit => exact ⟨⟨hd, by simp only [threadCleanup]; omega⟩, by simp⟩
  | inspectorWait hpc hstate => exact absurd hd hstate
  | inspectorTimed hpc hstate => exact absurd hd hstate
  | inspectorShoot hpc hstate => exact absurd hd hstate
  | inspectorWoken => exact ⟨hs, by simp⟩
  | timedRemoved => exact ⟨hs, by simp⟩
  | timedSignal => exact ⟨hs, by simp⟩
  | timedShoot hpc hrun => exact absurd (hsafe.1 rfl) hrun
  | inspectorReturn => exact ⟨hs, by simp⟩
  | executorStart => exact ⟨hs, by simp⟩
  | executorExit =>
      exact ⟨⟨hd, by simp only [threadCleanup, State.setExecutor]; omega⟩, by simp⟩
  | executorWait hpc hstate => exact absurd hd hstate
  | executorDrain hpc hstate => exact absurd hd hstate
  | executorWoken hpc hdrain =>
      obtain ⟨hstate, hthreads, hentered⟩ := hdrain.base
      exact ⟨⟨hstate.trans hd, hthreads.trans hn⟩, hentered⟩
  | executorReturn hpc hfree hdrain =>
      obtain ⟨hstate, hthreads, hentered⟩ := hdrain.base
      exact ⟨⟨hstate.trans hd, hthreads.trans hn⟩, hentered⟩

/-- **Destruction is not undone.**  In every run that starts while the runtime is being destroyed
and whose steps meet the condition, up to `timer_destroy_cleanup`: the state stays
`TMR_BASE_DESTROY`, no thread enters the body of its loop, and the number of threads does not
grow. -/
theorem destroy_stays {ls : List Label} {s s' : State} {es : List Event}
    (hs : s.base.state = .destroy) (hrun : run step ls s = some (s', es))
    (hsafe : Along step DestroySafe ls s) (hno : .destroyed ∉ es) :
    s'.base.state = .destroy ∧ s'.base.nthreads ≤ s.base.nthreads ∧ ∀ u, .entered u ∉ es := by
  have hok := hsafe.and (along_of_events hrun (Q := fun e => e ≠ .destroyed) (by
    intro e he hd
    exact hno (hd ▸ he)))
  have hsafe : Destroying s.base.nthreads s' ∧ ∀ e ∈ es, ∀ u, e ≠ .entered u := by
    refine run_safe (fun {s l s' es} hs hok hstep => ?_) ⟨hs, le_refl _⟩ hok hrun
    have hno : Event.destroyed ∉ es := fun he => hok.2 s' es hstep _ he rfl
    obtain ⟨hs', hes⟩ := step_destroying hs hok.1 hstep hno
    exact ⟨hs', fun e he u hu => hes u (hu ▸ he)⟩
  exact ⟨hsafe.1.1, hsafe.1.2, fun u he => hsafe.2 _ he u rfl⟩

/-- A timer of one second expires while the inspector waits for it, and then `timer_destroy` is
called. -/
def destroyRun : List Label :=
  [.setup none true, .add (.user 0) 1 ⟨false, false⟩ 1000, .inspectorStart, .inspectorLoop 0 false,
    .tick ⟨1, 0⟩, .destroy 0]

/-- The state after this run. -/
def destroyState : State := ((run step destroyRun (boot ⟨0, 0⟩)).map Prod.fst).getD (boot ⟨0, 0⟩)

/-- The inspector is woken by the signal and ends. -/
theorem destroy_stays_sample : destroyState.base.state = .destroy ∧
    ∃ s' es, run step [.inspectorWake false 0 false, .inspectorLoop 0 false] destroyState =
      some (s', es) ∧ s'.base.state = .destroy ∧
      s'.base.nthreads ≤ destroyState.base.nthreads := by
  obtain ⟨s', es, hrun, hno⟩ : ∃ s' es,
      run step [.inspectorWake false 0 false, .inspectorLoop 0 false] destroyState =
        some (s', es) ∧ .destroyed ∉ es := ⟨_, _, rfl, by decide⟩
  obtain ⟨hstate, hthreads, -⟩ := destroy_stays (by decide) hrun (by decide) hno
  exact ⟨by decide, s', es, hrun, hstate, hthreads⟩

/-- **Destruction undone.**  The inspector's wait ends with `ETIMEDOUT` instead: it shoots the
timer, and the state is `TMR_BASE_SHOOTING`. -/
theorem destroy_undone :
    ¬ ∀ (pre post : List Label) (s s' : State) (es es' : List Event),
      run step pre (boot ⟨0, 0⟩) = some (s, es) → s.base.state = .destroy →
      run step post s = some (s', es') → .destroyed ∉ es' → s'.base.state = .destroy := by
  intro h
  have hbad := h destroyRun [.inspectorWake true 0 false] _ _ _ _ rfl (by decide) rfl (by decide)
  exact absurd hbad (by decide)

end LinuxC.Timer
