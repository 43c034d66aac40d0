import LinuxC.ThreadPool.Model

/-!
# The jobs of the thread pool

Every section of the thread pool is one of the worker pool behind it (`refines_step`), so that the
invariant of worker pools holds of it.  A job is served as long as a thread is left to serve it.
With `minthreads` at least 1 one always is.  With `minthreads` 0 the last thread may leave: its
wait has timed out, it takes one job that was queued in the meantime, and it ends after this job
because `timedout` is still set, whatever else has been queued.
-/

namespace LinuxC.ThreadPool

open WorkerPool

/-- The step of the worker pool behind a step. -/
def Label.toPool : Label → Option (WorkerPool.Label Job)
  | .tick now => some (.tick now)
  | .execute func arg wake created => some (.execute ⟨func, arg⟩ wake created)
  | .wait _ => none
  | .waitWake _ => none
  | .destroy _ => some .shutdown
  | .destroyWake => none
  | .start i => some (.start i)
  | .loop i => some (.loop i)
  | .spurious i => some (.spurious i)
  | .expire i => some (.expire i)
  | .resume i => some (.resume i)
  | .finish i => some (.finish i)
  | .cancel i => some (.cancel i)

lemma State.free_locked {s : State} (h : s.free = true) : s.pool.locked = false := by
  simp [State.free] at h
  exact h.1

lemma threadPoolWait_pool (caller : ℕ) (s : State) : (threadPoolWait caller s).pool = s.pool := by
  unfold threadPoolWait
  split_ifs <;> rfl

/-- **The thread pool is a worker pool.** -/
lemma refines_step {s s' : State} {l : Label} {es : List (Event Job)}
    (h : step s l = some (s', es)) :
    (l.toPool = none ∧ s'.pool = s.pool) ∨
      ∃ l', l.toPool = some l' ∧ WorkerPool.step s.pool l' = some (s'.pool, es) := by
  cases trans_of_step h with
  | tick hnow => exact .inr ⟨_, rfl, allow_eq_some.mpr ⟨hnow, rfl⟩⟩
  | execute hfree =>
      exact .inr ⟨_, rfl, allow_eq_some.mpr ⟨by simp [State.free_locked hfree], rfl⟩⟩
  | @wait caller => exact .inl ⟨rfl, threadPoolWait_pool caller s⟩
  | @waitWake w => exact .inl ⟨rfl, threadPoolWait_pool w.caller _⟩
  | destroy hfree =>
      exact .inr ⟨_, rfl, allow_eq_some.mpr ⟨by simp [State.free_locked hfree], rfl⟩⟩
  | destroyWake =>
      refine .inl ⟨rfl, ?_⟩
      unfold threadPoolDestroyWake
      split_ifs <;> rfl
  | start hpc hfree =>
      exact .inr ⟨_, rfl, by simp [WorkerPool.step, hpc, State.free_locked hfree]⟩
  | loop hpc htask =>
      obtain ⟨rfl, rfl⟩ := Prod.mk.inj htask
      exact .inr ⟨_, rfl, by simp [WorkerPool.step, hpc]⟩
  | spurious hpc => exact .inr ⟨_, rfl, by simp [WorkerPool.step, hpc]⟩
  | expire hpc hnow =>
      exact .inr ⟨_, rfl, by simp [WorkerPool.step, hpc, of_decide_eq_true hnow]⟩
  | signalled hpc hfree htask =>
      obtain ⟨rfl, rfl⟩ := Prod.mk.inj htask
      exact .inr ⟨_, rfl, by simp [WorkerPool.step, hpc, State.free_locked hfree]⟩
  | expired hpc hfree htask =>
      obtain ⟨rfl, rfl⟩ := Prod.mk.inj htask
      exact .inr ⟨_, rfl, by simp [WorkerPool.step, hpc, State.free_locked hfree]⟩
  | finish hpc hfree =>
      exact .inr ⟨_, rfl, by
        simp [WorkerPool.step, hpc, State.free_locked hfree, threadTaskReturn]⟩
  | cancel hpc hfree hdestroy =>
      exact .inr ⟨_, rfl, by
        simp [WorkerPool.step, hpc, State.free_locked hfree, hdestroy, threadTaskCancelled]⟩

/-! ## No job is stranded -/

/-- `pthread_create` succeeds in the step, if it is called. -/
def Label.created : Label → Bool
  | .execute _ _ _ created => created
  | _ => true

/-- The last thread of a pool with `minthreads` 0 has finished a job with `timedout` set, and jobs
are queued. -/
def abandons (s : State) : Label → Bool
  | .finish i => s.pool.abandons (.finish i)
  | _ => false

lemma ok_step {s s' : State} {l : Label} {es : List (Event Job)} (h : s.pool.Ok)
    (hl : l.created = true) (hstay : abandons s l = false) (hstep : step s l = some (s', es)) :
    s'.pool.Ok := by
  rcases refines_step hstep with ⟨-, heq⟩ | ⟨l', hl', hstep'⟩
  · rw [heq]
    exact h
  · have hcreated : l'.created = true := by
      cases l <;> cases hl' <;> first | rfl | exact hl
    have hstay' : s.pool.abandons l' = false := by
      cases l <;> cases hl' <;> first | rfl | exact hstay
    exact h.step hcreated hstay' hstep'

lemma counted_init {keepalive minthreads maxthreads now : ℤ} {s : State}
    (h : threadPoolInit keepalive minthreads maxthreads now = some s) : s.pool.Counted := by
  obtain ⟨hmax, rfl⟩ := threadPoolInit_eq h
  exact ⟨rfl, rfl, hmax⟩

lemma ok_init {keepalive minthreads maxthreads now : ℤ} {s : State}
    (h : threadPoolInit keepalive minthreads maxthreads now = some s) (hmax : 1 ≤ maxthreads) :
    s.pool.Ok := by
  have hcounted := counted_init h
  obtain ⟨-, rfl⟩ := threadPoolInit_eq h
  exact ⟨hcounted, hmax, fun _ hq => absurd rfl hq, fun _ _ => Nat.zero_le _⟩

/-- **No job is stranded.**  In every run of a pool that `thread_pool_init` accepts with room for a
thread, in which thread creation succeeds and the last thread of a pool with `minthreads` 0 never
finishes a job with `timedout` set while jobs are queued: as long as the pool is not being
destroyed and `job_head` is not empty, some thread of the pool is not blocked, or has been
woken. -/
theorem no_job_stranded {keepalive minthreads maxthreads now : ℤ} {s₀ s : State}
    {ls : List Label} {es : List (Event Job)}
    (hinit : threadPoolInit keepalive minthreads maxthreads now = some s₀) (hmax : 1 ≤ maxthreads)
    (hrun : run step ls s₀ = some (s, es)) (hcreated : ∀ l ∈ ls, l.created = true)
    (hstay : Along step (fun s l => abandons s l = false) ls s₀) (hd : s.pool.destroy = false)
    (hq : s.pool.queue ≠ []) :
    ∃ w ∈ s.pool.workers, w.live = true ∧ w.isBlocked = false := by
  have hok : s.pool.Ok := run_invariant (I := fun s => s.pool.Ok)
    (fun h hok hstep => ok_step h hok.1 hok.2 hstep) (ok_init hinit hmax)
    ((along_of_forall hcreated s₀).and hstay) hrun
  by_contra hno
  refine hok.not_stranded hd ⟨hq, fun w hw hlive => ?_⟩
  by_contra hb
  exact hno ⟨w, hw, hlive, by simpa using hb⟩

/-- A pool of at most one thread: the thread does one job, waits for more, and its time is up. -/
def lingerRun : List Label :=
  [.execute 1 0 0 true, .start 0, .loop 0, .finish 0, .loop 0, .tick 1000000000, .expire 0]

/-- A job is queued now, and the thread will take it. -/
theorem no_job_stranded_sample :
    ∃ s₀ s es, threadPoolInit 1 0 1 0 = some s₀ ∧
      run step (lingerRun ++ [.execute 2 0 0 true]) s₀ = some (s, es) ∧ s.pool.queue ≠ [] ∧
      ∃ w ∈ s.pool.workers, w.live = true ∧ w.isBlocked = false := by
  obtain ⟨s₀, hinit, s, es, hrun, hd, hq, hstay⟩ : ∃ s₀, threadPoolInit 1 0 1 0 = some s₀ ∧
      ∃ s es, run step (lingerRun ++ [.execute 2 0 0 true]) s₀ = some (s, es) ∧
        s.pool.destroy = false ∧ s.pool.queue ≠ [] ∧
        Along step (fun s l => abandons s l = false) (lingerRun ++ [.execute 2 0 0 true]) s₀ :=
    ⟨_, rfl, _, _, rfl, rfl, by decide, by decide⟩
  exact ⟨s₀, s, es, hinit, hrun, hq,
    no_job_stranded hinit (by decide) hrun (by decide) hstay hd hq⟩

/-- **A job is stranded.**  Two jobs are queued after the wait of the only thread has timed out and
before it has the mutex: it takes the first one and ends, and nobody is left for the second. -/
theorem job_stranded :
    ¬ ∀ (keepalive minthreads maxthreads now : ℤ) (s₀ s : State) (ls : List Label)
      (es : List (Event Job)), threadPoolInit keepalive minthreads maxthreads now = some s₀ →
      1 ≤ maxthreads → run step ls s₀ = some (s, es) → (∀ l ∈ ls, l.created = true) →
      s.pool.destroy = false → s.pool.queue ≠ [] →
      ∃ w ∈ s.pool.workers, w.live = true ∧ w.isBlocked = false := by
  intro h
  have hbad := h 1 0 1 0 _ _ (lingerRun ++ [.execute 2 0 0 true, .execute 3 0 0 true, .resume 0,
    .finish 0]) _ rfl (by decide) rfl (by decide) rfl (by decide)
  exact absurd hbad (by decide)

end LinuxC.ThreadPool
