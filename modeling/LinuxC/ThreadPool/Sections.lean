import LinuxC.ThreadPool.Jobs

/-!
# The sections of the thread pool

`Moved` says what a section under `pool->mutex` does to `job_head`, to the jobs of the threads and
to the callers of `thread_pool_wait`.  What holds of the pool in every run is read off it.

A caller that blocks on `wait_cond` sets `THREAD_POOL_WAIT` in the same section, and only
`thread_pool_wakeup` clears the flag, which wakes every caller.  A thread adds itself to
`active_thread_head` in the section that takes the job from `job_head`, so that both lists can
become empty only in `thread_job_cleanup`, which looks at the flag.
-/

namespace LinuxC.ThreadPool

open WorkerPool

/-! ## What a section does -/

/-- No job enters or leaves the pool in the step, whatever happens. -/
def Label.quiet : Label → Bool
  | .execute .. | .finish _ | .cancel _ | .destroyWake => false
  | _ => true

/-- The sections, by what they do to `job_head`, to the jobs of the threads and to the waiters. -/
inductive Moved (s : State) : Label → State → List (Event Job) → Prop
  | quiet {l : Label} {pool : Pool Job} {cancelled : List ℕ} (hl : l.quiet = true)
      (hqueue : pool.queue = s.pool.queue) (hruns : pool.runs = s.pool.runs) :
      Moved s l { s with pool := pool, cancelled := cancelled } []
  | accepted {func arg wake : ℕ} {created : Bool} {pool : Pool Job}
      (hqueue : pool.queue = s.pool.queue ++ [⟨func, arg⟩])
      (hruns : pool.runs = s.pool.runs) (hthere : s.destroyed = false) :
      Moved s (.execute func arg wake created) { s with pool := pool } []
  | waits {l : Label} {caller : ℕ} {ws : List Waiter} (hl : l.quiet = true)
      (hws : ∀ w ∈ ws, w ∈ s.waiters) (hbusy : s.pool.queue ≠ [] ∨ s.active ≠ []) :
      Moved s l { s with wait := true, waiters := ⟨caller, false⟩ :: ws } []
  | returns {l : Label} {ws : List Waiter} (hl : l.quiet = true)
      (hws : ∀ w ∈ ws, w ∈ s.waiters) : Moved s l { s with waiters := ws } []
  | taken {l : Label} {i : ℕ} {j : Job} {pool : Pool Job} (hl : l.quiet = true)
      (hqueue : s.pool.queue = j :: pool.queue) (hidle : s.pool.runs i = none)
      (hruns : pool.runs = Function.update s.pool.runs i (some j))
      (hd : s.pool.destroy = false) :
      Moved s l { s with pool := pool, active := s.active ++ [i] } [.taken i j]
  | ended {l : Label} {i : ℕ} {j : Job} {pool : Pool Job} (hl : l = .finish i ∨ l = .cancel i)
      (hqueue : pool.queue = s.pool.queue) (hbusy : s.pool.runs i = some j)
      (hruns : pool.runs = Function.update s.pool.runs i none) :
      Moved s l { threadJobCleanup i s with pool := pool } []
  | awaits (hthere : s.destroyed = false) : Moved s .destroyWake s []
  | discarded (hd : s.pool.destroy = true) : Moved s .destroyWake { s with destroyed := true } []

variable {s s' : State} {l : Label} {es : List (Event Job)}

lemma State.there_of_free (s : State) (h : s.free = true) : s.destroyed = false := by
  simp [State.free] at h
  exact h.2

/-- A thread that is not in a job looks for one. -/
lemma moved_serve {i : ℕ} {a : Worker Job} (hl : l.quiet = true)
    (hpc : s.pool.workers[i]? = some a) (ha : a.job = none) {r : Pool Job × List (Event Job)}
    (hr : Pool.Sought i s.pool r.1 r.2) : Moved s l (s.serve r).1 (s.serve r).2 := by
  obtain ⟨pool, es⟩ := r
  cases hr with
  | idle hjob hqueue hworkers =>
      have hmoved : Moved s l { s with pool := pool, cancelled := s.cancelled } [] :=
        .quiet hl hqueue (Pool.runs_set_of_none hpc hworkers ha hjob)
      simpa [State.serve] using hmoved
  | taken hd hqueue hworkers =>
      refine .taken hl hqueue ?_ (Pool.runs_set hpc hworkers) hd
      simp [Pool.runs, hpc, ha]

/-- A thread that is not in a job moves and looks for none. -/
lemma moved_set {i : ℕ} {a b : Worker Job} (hl : l.quiet = true)
    (hpc : s.pool.workers[i]? = some a) (ha : a.job = none) (hb : b.job = none) :
    Moved s l { s with pool := s.pool.set i b } [] :=
  .quiet hl rfl (Pool.runs_set_of_none hpc rfl ha hb)

/-- The test of `thread_pool_wait`, with the waiters that are left. -/
lemma moved_wait (caller : ℕ) {ws : List Waiter} (hl : l.quiet = true)
    (hws : ∀ w ∈ ws, w ∈ s.waiters) :
    Moved s l (threadPoolWait caller { s with waiters := ws }) [] := by
  unfold threadPoolWait
  split_ifs with hbusy
  · exact .waits hl hws hbusy
  · exact .returns hl hws

/-- **Every step is one of the sections.** -/
lemma moved_of_step (h : step s l = some (s', es)) : Moved s l s' es := by
  cases trans_of_step h with
  | tick => exact .quiet rfl rfl rfl
  | execute hfree =>
      exact .accepted (Pool.queue_execute _ _ _ _) (Pool.runs_execute _ _ _ _)
        (s.there_of_free hfree)
  | @wait caller => exact moved_wait caller rfl fun _ hw => hw
  | @waitWake w => exact moved_wait w.caller rfl fun _ hw => List.mem_of_mem_erase hw
  | destroy => exact .quiet rfl (Pool.queue_shutdown _) (Pool.runs_shutdown _)
  | destroyWake hfree hdestroy =>
      unfold threadPoolDestroyWake
      split_ifs
      · exact .awaits (s.there_of_free hfree)
      · exact .discarded hdestroy
  | start hpc => exact moved_set rfl hpc rfl rfl
  | @loop i t s' es hpc htask =>
      obtain ⟨rfl, rfl⟩ := Prod.mk.inj htask
      exact moved_serve rfl hpc rfl (Pool.sought_seek i t 1 s.pool)
  | spurious hpc => exact moved_set rfl hpc rfl rfl
  | expire hpc => exact moved_set rfl hpc rfl rfl
  | @signalled i d t s' es hpc hfree htask =>
      obtain ⟨rfl, rfl⟩ := Prod.mk.inj htask
      exact moved_serve rfl hpc rfl (Pool.sought_resume i false t s.pool)
  | @expired i d t s' es hpc hfree htask =>
      obtain ⟨rfl, rfl⟩ := Prod.mk.inj htask
      exact moved_serve rfl hpc rfl (Pool.sought_resume i true t s.pool)
  | @finish i j t hpc =>
      cases Pool.sought_tail i t s.pool with
      | @idle w hjob hqueue hworkers =>
          refine .ended (j := j) (.inl rfl) hqueue (by simp [Pool.runs, hpc, Worker.job]) ?_
          rw [Pool.runs_set hpc hworkers, hjob]
  | @cancel i j t hpc =>
      exact .ended (j := j) (.inr rfl) rfl (by simp [Pool.runs, hpc, Worker.job])
        (Pool.runs_set (b := .dead) hpc rfl)

/-! ## The callers of `thread_pool_wait` -/

/-- A caller that nothing has woken has its flag set, and something to wait for. -/
def Awaited (s : State) : Prop :=
  ∀ w ∈ s.waiters, w.signalled = false → s.wait = true ∧ (s.pool.queue ≠ [] ∨ s.active ≠ [])

/-- The end of a job, after which the caller may have nothing to wait for. -/
lemma Awaited.cleanup (h : Awaited s) (i : ℕ) {pool : Pool Job}
    (hqueue : pool.queue = s.pool.queue) : Awaited { threadJobCleanup i s with pool := pool } := by
  unfold threadJobCleanup threadPoolWakeup
  split_ifs with hwait hidle
  · intro w hw hs
    -- everyone has been woken
    obtain ⟨w', -, rfl⟩ := List.mem_map.mp hw
    cases hs
  · intro w hw hs
    refine ⟨hwait, ?_⟩
    rw [hqueue]
    exact not_and_or.mp hidle
  · intro w hw hs
    exact absurd (h w hw hs).1 hwait

lemma Awaited.step (h : Awaited s) (hstep : step s l = some (s', es)) : Awaited s' := by
  cases moved_of_step hstep with
  | quiet hl hqueue hruns =>
      intro w hw hs
      obtain ⟨hwait, hbusy⟩ := h w hw hs
      exact ⟨hwait, hbusy.imp_left fun hq => hqueue ▸ hq⟩
  | accepted hqueue =>
      intro w hw hs
      exact ⟨(h w hw hs).1, .inl (by simp [hqueue])⟩
  | waits hl hws hbusy =>
      intro w hw hs
      exact ⟨rfl, hbusy⟩
  | returns hl hws =>
      intro w hw hs
      exact h w (hws w hw) hs
  | taken hl hqueue =>
      intro w hw hs
      exact ⟨(h w hw hs).1, .inr (by simp)⟩
  | @ended _ i _ _ hl hqueue => exact h.cleanup i hqueue
  | awaits => exact h
  | discarded => exact h

/-- **No wake-up is lost.**  In every run of a pool that `thread_pool_init` accepts: a caller that
is blocked in `thread_pool_wait` and has not been woken has a job to wait for, in `job_head` or on a
thread of `active_thread_head`. -/
theorem wait_not_lost {keepalive minthreads maxthreads now : ℤ} {s₀ s : State}
    {ls : List Label} {es : List (Event Job)}
    (hinit : threadPoolInit keepalive minthreads maxthreads now = some s₀)
    (hrun : run step ls s₀ = some (s, es)) :
    ¬ (s.pool.queue = [] ∧ s.active = [] ∧ ∃ w ∈ s.waiters, w.signalled = false) := by
  have hall : Along step (fun _ _ => True) ls s₀ := along_of_forall (fun _ _ => trivial) s₀
  have hinv : Awaited s := run_invariant (I := Awaited) (fun h _ hstep => h.step hstep) ?_ hall hrun
  · rintro ⟨hqueue, hactive, w, hw, hs⟩
    exact (hinv w hw hs).2.elim (fun hq => hq hqueue) fun ha => ha hactive
  · obtain ⟨-, rfl⟩ := threadPoolInit_eq hinit
    exact fun w hw => absurd hw List.not_mem_nil

/-- A caller waits for one job, is woken and finds the next one. -/
def waitRun : List Label :=
  [.execute 1 0 0 true, .wait 7, .start 0, .loop 0, .finish 0, .loop 0, .execute 2 0 0 true,
    .waitWake ⟨7, true⟩]

theorem wait_not_lost_sample : ∃ s₀ s es, threadPoolInit 1 0 1 0 = some s₀ ∧
    run step waitRun s₀ = some (s, es) ∧ s.waiters = [⟨7, false⟩] ∧
    ¬ (s.pool.queue = [] ∧ s.active = [] ∧ ∃ w ∈ s.waiters, w.signalled = false) := by
  obtain ⟨s₀, hinit, s, es, hrun, hws⟩ : ∃ s₀, threadPoolInit 1 0 1 0 = some s₀ ∧
      ∃ s es, run step waitRun s₀ = some (s, es) ∧ s.waiters = [⟨7, false⟩] :=
    ⟨_, rfl, _, _, rfl, rfl⟩
  exact ⟨s₀, s, es, hinit, hrun, hws, wait_not_lost hinit hrun⟩

end LinuxC.ThreadPool
