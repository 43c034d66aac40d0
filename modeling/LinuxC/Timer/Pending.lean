import LinuxC.Timer.Pool

/-!
# What is pending when the runtime is destroyed

A timer in `base->expired_timer` waits for an executor.  An executor that is idle or that runs a
function takes it from there before it ends, also while the runtime is being destroyed.  An
executor that has just been created does not: at the head of its loop it finds
`TMR_BASE_DESTROY` and ends with the list as it is.  `PoolOk` is what holds of the pool in every
run in which `timer_destroy` does not find timers pending with only such executors to serve them,
and in which no timer becomes pending without an executor because `pthread_create` fails.
-/

namespace LinuxC.Timer

/-- The executor looks at the expired timers before it ends. -/
def Executor.serves : Executor → Bool
  | .idle .. => true
  | .running .. => true
  | _ => false

/-- The counters of the pool and the executors behind the pending timers. -/
structure PoolOk (s : State) : Prop extends Tallied s where
  pending : ∀ t, (s.timer t).flags.pending = true → t ∈ s.base.expiredTimer
  served : s.base.expiredTimer ≠ [] → ∃ e ∈ s.executors, e.live = true
  destroy : s.base.state = .destroy → s.base.expiredTimer ≠ [] →
    ∃ e ∈ s.executors, e.serves = true

/-- The step calls `timer_destroy`. -/
def Label.isDestroy : Label → Bool
  | .destroy _ => true
  | _ => false

/-- If timers are pending when `timer_destroy` is called, some executor is idle or runs a function;
and `pthread_create` does not fail while there is no executor. -/
def PendingSafe (s : State) (l : Label) : Prop :=
  (l.isDestroy = true → s.base.expiredTimer ≠ [] → ∃ e ∈ s.executors, e.serves = true) ∧
    (l.createFails = true → ∃ e ∈ s.executors, e.live = true)

instance (s : State) (l : Label) : Decidable (PendingSafe s l) :=
  inferInstanceAs (Decidable ((_ → _ → _) ∧ (_ → _)))

lemma Executor.live_of_serves {e : Executor} (h : e.serves = true) : e.live = true := by
  cases e <;> simp_all [Executor.serves, Executor.live]

lemma PoolOk.congr {s s' : State} (h : PoolOk s) (hs : SamePool s s') : PoolOk s' := by
  refine ⟨h.toTallied.congr hs, fun t ht => ?_, fun he => ?_, fun hd he => ?_⟩
  · rw [hs.expired]
    exact h.pending t (hs.pending t ht)
  · rw [hs.executors]
    exact h.served (hs.expired ▸ he)
  · rw [hs.executors]
    exact h.destroy (hs.state hd) (hs.expired ▸ he)

/-! ## The executors -/

lemma PoolOk.drained {i : ℕ} {b : Bool} {e : Executor} {s s₁ s' : State} {es : List Event}
    (h : PoolOk s) (hpc : s.executors[i]? = some e) (hlive : e.live = true)
    (hw : Woken e s s₁) (hd : Drained i b s₁ s' es) : PoolOk s' := by
  have htally := h.toTallied.drained hpc hlive hw hd
  have hpending : ∀ x, (s₁.timer x).flags.pending = true → x ∈ s₁.base.expiredTimer :=
    fun x hx => hw.expired ▸ h.pending x (hw.pending x hx)
  cases hd with
  | @take t rest hexp hpend =>
      have hmem : Executor.running t b ∈ s₁.executors.set i (.running t b) :=
        mem_set_self (hw.executors ▸ hpc)
      refine ⟨htally, fun x hx => ?_, fun _ => ⟨_, hmem, rfl⟩, fun _ _ => ⟨_, hmem, rfl⟩⟩
      -- the timer is taken out of the list with its flag
      simp only [timerExecute, takeExpired, State.setExecutor, State.setFlags,
        State.modify] at hx ⊢
      split_ifs at hx with hxt
      have hx' := hpending x hx
      rw [hexp] at hx'
      exact (List.mem_cons.mp hx').resolve_left hxt
  | exit hexp =>
      exact ⟨htally, hpending, fun hno => absurd hexp hno, fun _ hno => absurd hexp hno⟩
  | again hexp =>
      exact ⟨htally, hpending, fun hno => absurd hexp hno, fun _ hno => absurd hexp hno⟩

/-- An executor at the head of its loop, or before it, does not serve: another one does. -/
lemma PoolOk.other {i : ℕ} {e f : Executor} {s : State} (h : PoolOk s)
    (hpc : s.executors[i]? = some e) (hidle : e.serves = false) (hstate : s.base.state = .destroy)
    (hne : s.base.expiredTimer ≠ []) : ∃ x ∈ s.executors.set i f, x.serves = true := by
  obtain ⟨x, hmem, hserves⟩ := h.destroy hstate hne
  refine ⟨x, mem_set_of_mem hpc hmem ?_, hserves⟩
  rintro rfl
  rw [hidle] at hserves
  cases hserves

lemma PoolOk.start {i : ℕ} {s : State} (h : PoolOk s) (hpc : s.executors[i]? = some .start) :
    PoolOk (s.setExecutor i (.loop false)) := by
  have hmem : Executor.loop false ∈ s.executors.set i (.loop false) := mem_set_self hpc
  exact ⟨h.toTallied.start hpc, h.pending, fun _ => ⟨_, hmem, rfl⟩, h.other hpc rfl⟩

/-- An executor ends at the head of its loop: another one serves the pending timers. -/
lemma PoolOk.exit {i : ℕ} {b : Bool} {s : State} (h : PoolOk s)
    (hpc : s.executors[i]? = some (.loop b)) (hstate : s.base.state = .destroy) :
    PoolOk ((threadCleanup s).setExecutor i .dead) := by
  refine ⟨h.toTallied.exit hpc, h.pending, fun he => ?_, fun _ => h.other hpc rfl hstate⟩
  obtain ⟨e, hmem, hserves⟩ := h.other (f := .dead) hpc rfl hstate he
  exact ⟨e, hmem, Executor.live_of_serves hserves⟩

lemma PoolOk.wait {i : ℕ} {b : Bool} {d : Option Timespec} {s : State} (h : PoolOk s)
    (hpc : s.executors[i]? = some (.loop b)) :
    PoolOk ((s.addIdle 1).setExecutor i (.idle d b false)) := by
  have hmem : Executor.idle d b false ∈ s.executors.set i (.idle d b false) := mem_set_self hpc
  exact ⟨h.toTallied.wait hpc, h.pending, fun _ => ⟨_, hmem, rfl⟩, fun _ _ => ⟨_, hmem, rfl⟩⟩

/-! ## A timer becomes pending -/

/-- `timer_thread_execute` finds or makes an executor, unless `pthread_create` fails and there is
none. -/
lemma PoolOk.thread {t : Ptr} {wake : ℕ} {created : Bool} {s : State} (h : PoolOk s)
    (hstate : s.base.state ≠ .destroy)
    (hcreate : created = false → ∃ e ∈ s.executors, e.live = true) :
    PoolOk (timerThreadExecute t wake created s) := by
  have hlive : ∃ e ∈ (timerThreadExecute t wake created s).executors, e.live = true := by
    cases created with
    | true =>
        obtain ⟨e, hmem, hawake⟩ := h.toTallied.attended t wake
        exact ⟨e, hmem, by cases e <;> first | rfl | cases hawake⟩
    | false =>
        apply exists_of_countP
        have hl := signalExec_countP (p := Executor.live) (fun _ _ => rfl) wake s.executors
        have hpos := List.countP_pos_iff.mpr (hcreate rfl)
        unfold timerThreadExecute
        split_ifs with hidle hnew
        · exact hl ▸ hpos
        · cases hnew.2
        · exact hpos
  have hbase : (timerThreadExecute t wake created s).base.expiredTimer =
        s.base.expiredTimer ++ [t] ∧
      (timerThreadExecute t wake created s).base.state = s.base.state ∧
      (timerThreadExecute t wake created s).timer = (timerPend t s).timer := by
    unfold timerThreadExecute
    split_ifs <;> exact ⟨rfl, rfl, rfl⟩
  refine ⟨h.toTallied.thread t wake created, fun x hx => ?_, fun _ => hlive, fun hd => ?_⟩
  · rw [hbase.1, List.mem_append, List.mem_singleton]
    simp only [hbase.2.2, timerPend, State.setFlags, State.modify] at hx
    split_ifs at hx with hxt
    · exact .inr hxt
    · exact .inl (h.pending x hx)
  · exact absurd (hbase.2.1 ▸ hd) hstate

lemma PoolOk.dispatched {t : Ptr} {created : Bool} {s s' : State} {es : List Event} (h : PoolOk s)
    (hpc : s.inspector ≠ .dead) (hstate : s.base.state ≠ .destroy)
    (hcreate : created = false → ∃ e ∈ s.executors, e.live = true)
    (hd : Dispatched t created s s' es) : PoolOk s' := by
  cases hd with
  | skip => exact h.congr (samePool_inspector hpc (by simp))
  | pool wake =>
      refine (h.thread hstate hcreate).congr (samePool_inspector ?_ (by simp))
      rw [timerThreadExecute_inspector]
      exact hpc
  | inline =>
      have h1 : SamePool s (timerExecute .inspector t s) := samePool_modify id
      exact (h.congr h1).congr (samePool_inspector hpc (by simp))

/-! ## Setup and destruction -/

lemma PoolOk.expired_of_threads {s : State} (h : PoolOk s) (hn : ¬ 0 < s.base.nthreads) :
    s.base.expiredTimer = [] := by
  obtain ⟨-, hdead⟩ := h.toTallied.empty hn
  by_contra hne
  obtain ⟨e, hmem, hlive⟩ := h.served hne
  have hpos := countP_pos_of_mem hmem hlive
  omega

/-- `timer_setup` starts from a pool without threads and pending timers. -/
lemma PoolOk.setup {s s' : State} {users : Option TimerOption} {created : Bool} {es : List Event}
    (h : PoolOk s) (hsetup : timerSetup users created s = some (s', es)) :
    PoolOk s' ∧ s'.base.expiredTimer = [] := by
  have htally := h.toTallied.setup hsetup
  obtain ⟨hn, hcases⟩ := timerSetup_cases hsetup
  have hnone := h.expired_of_threads (by omega)
  have hexp : s'.base.expiredTimer = [] := by
    rcases hcases with rfl | rfl <;> exact (timerInitOnce_base users s).2 hnone
  have htimer : s'.timer = s.timer := by
    rcases hcases with rfl | rfl <;> exact timerInitOnce_timer users s
  refine ⟨⟨htally, fun t ht => ?_, fun hne => absurd hexp hne, fun _ hne => absurd hexp hne⟩,
    hexp⟩
  rw [hexp, ← hnone]
  exact h.pending t (htimer ▸ ht)

lemma exists_signalAll {p : Executor → Bool} (hp : ∀ d b b', p (.idle d b true) = p (.idle d b b'))
    {es : List Executor} (h : ∃ e ∈ es, p e = true) : ∃ e ∈ es.map signalAll, p e = true := by
  apply exists_of_countP
  rw [signalAll_countP hp]
  exact List.countP_pos_iff.mpr h

/-- The executors are told, and some of them serve the pending timers. -/
lemma PoolOk.destroying {s : State} (h : PoolOk s) {ds : List ℕ}
    (hserves : s.base.expiredTimer ≠ [] → ∃ e ∈ s.executors, e.serves = true) :
    PoolOk { (signalDestroy s).setState .destroy with destroyers := ds } := by
  have htally := h.toTallied.destroying ds
  obtain ⟨s₁, hsame, heq⟩ := signalDestroy_cases s
  have h1 := h.congr hsame
  have hserves1 : s₁.base.expiredTimer ≠ [] → ∃ e ∈ s₁.executors, e.serves = true := by
    rw [hsame.expired, hsame.executors]
    exact hserves
  rcases heq with heq | heq
  · rw [heq] at htally ⊢
    exact ⟨htally, h1.pending, h1.served, fun _ => hserves1⟩
  · rw [heq] at htally ⊢
    refine ⟨htally, h1.pending, fun hne => ?_, fun _ hne => ?_⟩
    · exact exists_signalAll (p := Executor.live) (fun _ _ _ => rfl) (h1.served hne)
    · exact exists_signalAll (p := Executor.serves) (fun _ _ _ => rfl) (hserves1 hne)

/-! ## Steps -/

lemma PoolOk.step {s s' : State} {l : Label} {es : List Event} (h : PoolOk s)
    (hsafe : PendingSafe s l) (hstep : step s l = some (s', es)) : PoolOk s' := by
  have htally := h.toTallied.step hstep
  cases worked_of_step hstep with
  | same hsame => exact h.congr hsame
  | setup hsetup => exact (h.setup hsetup).1
  | destroy => exact h.destroying (hsafe.1 rfl)
  | cleanup => exact ⟨htally, h.pending, h.served, fun hd => by cases hd⟩
  | inspectorExit => exact ⟨htally, h.pending, h.served, h.destroy⟩
  | dispatched hcreate hsame hstate hpc hd =>
      refine (h.congr hsame).dispatched (fun hdead => hpc (hsame.inspector.mp hdead)) hstate
        (fun hc => ?_) hd
      rw [hsame.executors]
      exact hsafe.2 (by simp [hcreate, hc])
  | start hpc => exact h.start hpc
  | exit hpc hstate => exact h.exit hpc hstate
  | wait hpc => exact h.wait hpc
  | drained hpc hlive hw hd => exact h.drained hpc hlive hw hd

lemma poolOk_boot (now : Timespec) : PoolOk (boot now) :=
  ⟨tallied_boot now, fun _ ht => by simp [boot, timerInitializer] at ht,
    fun hne => absurd rfl hne, fun _ hne => absurd rfl hne⟩

lemma Drained.not_destroyed {i : ℕ} {b : Bool} {s s' : State} {es : List Event}
    (hd : Drained i b s s' es) : .destroyed ∉ es := by
  cases hd <;> simp

lemma Dispatched.not_destroyed {t : Ptr} {created : Bool} {s s' : State} {es : List Event}
    (hd : Dispatched t created s s' es) : .destroyed ∉ es := by
  cases hd <;> simp

/-- `timer_destroy` returns, or `timer_setup` starts the runtime: nothing is pending. -/
lemma PoolOk.expired {s s' : State} {l : Label} {es : List Event} (h : PoolOk s)
    (hstep : Timer.step s l = some (s', es)) (hend : .destroyed ∈ es ∨ l.isSetup = true) :
    s'.base.expiredTimer = [] := by
  cases trans_of_step hstep with
  | setup hsetup => exact (h.setup hsetup).2
  | destroyCleanup hthreads => exact h.expired_of_threads hthreads
  | failed hcall =>
      have hsetup : l.isSetup = true := by simpa using hend
      cases l <;> simp_all [Label.isSetup, Label.isCall]
  | tick | add | delDetach | delDone | delWait | delStay | delReturn | mod | destroy |
      inspectorStart | inspectorExit | inspectorWait | inspectorTimed | inspectorWoken |
      timedRemoved | timedSignal | inspectorReturn | executorStart | executorExit |
      executorWait => simp [Label.isSetup] at hend
  | inspectorShoot _ _ _ _ hshoot =>
      exact absurd (by simpa [Label.isSetup] using hend) hshoot.not_destroyed
  | timedShoot _ _ _ hshoot =>
      exact absurd (by simpa [Label.isSetup] using hend) hshoot.not_destroyed
  | executorDrain _ _ hdrain =>
      exact absurd (by simpa [Label.isSetup] using hend) hdrain.not_destroyed
  | executorWoken _ hdrain =>
      exact absurd (by simpa [Label.isSetup] using hend) hdrain.not_destroyed
  | executorReturn _ _ hdrain =>
      exact absurd (by simpa [Label.isSetup] using hend) hdrain.not_destroyed

/-- **Nothing pending survives the destruction.**  In every run from the start of the process in
which `timer_destroy` is never called while timers are pending and every executor has just been
created, and in which `pthread_create` does not fail while there is no executor: when
`timer_destroy` returns 0, and when `timer_setup` starts the runtime again, `expired_timer` is
empty and no timer has `TMR_F_PENDING`. -/
theorem nothing_pending_survives {ls : List Label} {l : Label} {now : Timespec} {s s' : State}
    {es es' : List Event} (hrun : run step ls (boot now) = some (s, es))
    (hsafe : Along step PendingSafe (ls ++ [l]) (boot now))
    (hstep : step s l = some (s', es')) (hend : .destroyed ∈ es' ∨ l.isSetup = true) :
    s'.base.expiredTimer = [] ∧ ∀ t, (s'.timer t).flags.pending = false := by
  obtain ⟨hsafe, hlast⟩ := hsafe.append
  have hs := run_invariant (I := PoolOk) (fun h hok hstep => h.step hok hstep) (poolOk_boot now)
    hsafe hrun
  have hexp := hs.expired hstep hend
  refine ⟨hexp, fun t => ?_⟩
  rw [← Bool.not_eq_true]
  intro ht
  have hmem := (hs.step (hlast s es hrun).1 hstep).pending t ht
  simp [hexp] at hmem

/-- The executor runs the function before `timer_destroy` is called. -/
theorem nothing_pending_survives_sample :
    ∃ s es s' es', run step (queueRun ++ [.executorStart 0, .executorLoop 0, .destroy 0,
        .inspectorWake false 0 true, .inspectorLoop 0 true, .executorReturn 0, .executorLoop 0])
        (boot ⟨0, 0⟩) = some (s, es) ∧
      step s (.destroyWake 0) = some (s', es') ∧ .destroyed ∈ es' ∧
      s'.base.expiredTimer = [] := by
  obtain ⟨s, es, s', es', hrun, hstep, hend⟩ : ∃ s es s' es',
      run step (queueRun ++ [.executorStart 0, .executorLoop 0, .destroy 0,
        .inspectorWake false 0 true, .inspectorLoop 0 true, .executorReturn 0, .executorLoop 0])
        (boot ⟨0, 0⟩) = some (s, es) ∧
      step s (.destroyWake 0) = some (s', es') ∧ .destroyed ∈ es' :=
    ⟨_, _, _, _, rfl, rfl, by decide⟩
  exact ⟨s, es, s', es', hrun, hstep, hend,
    (nothing_pending_survives hrun (by decide) hstep (.inl hend)).1⟩

/-- **A pending timer survives.**  `timer_destroy` gets the mutex before the new executor does: the
executor ends at the head of its loop, and the timer stays in the list. -/
theorem pending_survives :
    ¬ ∀ (ls : List Label) (l : Label) (s s' : State) (es es' : List Event),
      run step ls (boot ⟨0, 0⟩) = some (s, es) → step s l = some (s', es') → .destroyed ∈ es' →
      s'.base.expiredTimer = [] ∧ ∀ t, (s'.timer t).flags.pending = false := by
  intro h
  have hbad := h (queueRun ++ [.destroy 0, .inspectorWake false 0 true, .inspectorLoop 0 true,
    .executorStart 0, .executorLoop 0]) (.destroyWake 0) _ _ _ _ rfl rfl (by decide)
  exact absurd hbad.1 (by decide)

end LinuxC.Timer
