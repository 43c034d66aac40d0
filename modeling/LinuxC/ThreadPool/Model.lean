import LinuxC.Framework.WorkerPool

/-!
# The thread pool of `thread-pool/thread_pool.c`

`struct thread_pool` is a worker pool whose jobs are function pointers with an argument.  What it
has beyond the pattern is the list of the threads that run a job, on which `thread_pool_wait`
waits and which `thread_pool_destroy` cancels.

A step is a section that runs under `pool->mutex`, or the end of a wait.  The clock is in
nanoseconds.  Jobs may call `thread_pool_execute`: the caller of a section does not matter to it.
-/

namespace LinuxC.ThreadPool

open WorkerPool

/-- `struct thread_job`. -/
structure Job where
  func : ℕ
  arg : ℕ
  deriving DecidableEq, Repr

/-- A caller that is blocked in `thread_pool_wait`. -/
structure Waiter where
  caller : ℕ
  signalled : Bool
  deriving DecidableEq, Repr

/-- `struct thread_pool` and its threads. -/
structure State where
  /-- The bounds, the counters, `job_head`, the flag `THREAD_POOL_DESTROY` and the threads. -/
  pool : Pool Job
  /-- `active_thread_head`. -/
  active : List ℕ
  /-- The flag `THREAD_POOL_WAIT`. -/
  wait : Bool
  waiters : List Waiter
  /-- The threads that `thread_pool_destroy` has cancelled. -/
  cancelled : List ℕ
  /-- `thread_pool_destroy` has returned, and the pool is gone. -/
  destroyed : Bool
  deriving DecidableEq, Repr

def threadPoolInit (keepalive minthreads maxthreads now : ℤ) : Option State :=
  if minthreads < 0 ∨ maxthreads < minthreads then none
  else
    some
      { pool :=
          { min := minthreads
            max := maxthreads
            linger := keepalive * 1000000000
            nthreads := 0
            idlethreads := 0
            destroy := false
            queue := []
            workers := []
            now := now }
        active := []
        wait := false
        waiters := []
        cancelled := []
        destroyed := false }

/-- A pool that is accepted begins without threads and jobs. -/
lemma threadPoolInit_eq {keepalive minthreads maxthreads now : ℤ} {s : State}
    (h : threadPoolInit keepalive minthreads maxthreads now = some s) :
    0 ≤ maxthreads ∧
      s = ⟨⟨minthreads, maxthreads, keepalive * 1000000000, 0, 0, false, [], [], now⟩,
        [], false, [], [], false⟩ := by
  unfold threadPoolInit at h
  split_ifs at h
  exact ⟨by omega, (Option.some.inj h).symm⟩

/-! ## The threads -/

/-- A thread that has taken a job goes into `active_thread_head`. -/
def State.serve (s : State) (r : Pool Job × List (Event Job)) : State × List (Event Job) :=
  ({ s with
      pool := r.1
      active := s.active ++ r.2.map fun e => match e with | .taken i _ => i }, r.2)

/-- `thread_task`, from the head of its loop to where it gives up the mutex. -/
def threadTask (i : ℕ) (timedout : Bool) (s : State) : State × List (Event Job) :=
  s.serve (Pool.seek i timedout (s.pool.addIdle 1))

/-- `thread_task`, from the end of its wait: `expired` says that the wait ended with
`ETIMEDOUT`. -/
def threadTaskResume (i : ℕ) (expired timedout : Bool) (s : State) : State × List (Event Job) :=
  s.serve (Pool.resume i expired timedout s.pool)

def threadPoolWakeup (s : State) : State :=
  if s.pool.queue = [] ∧ s.active = [] then
    { s with wait := false, waiters := s.waiters.map fun w => { w with signalled := true } }
  else s

def threadJobCleanup (i : ℕ) (s : State) : State :=
  if s.wait then threadPoolWakeup { s with active := s.active.erase i }
  else { s with active := s.active.erase i }

/-- `thread_task`, from the return of the job to the head of its loop or to its end. -/
def threadTaskReturn (i : ℕ) (timedout : Bool) (s : State) : State :=
  { threadJobCleanup i s with pool := s.pool.tail i timedout }

/-- A thread is cancelled in its job: `thread_job_cleanup` and `thread_task_cleanup`. -/
def threadTaskCancelled (i : ℕ) (s : State) : State :=
  { threadJobCleanup i s with pool := s.pool.exit i }

/-! ## The callers -/

def threadPoolExecute (func arg : ℕ) (wake : ℕ) (created : Bool) (s : State) : State :=
  { s with pool := s.pool.execute ⟨func, arg⟩ wake created }

/-- The test of `thread_pool_wait`: the caller waits, or it returns. -/
def threadPoolWait (caller : ℕ) (s : State) : State :=
  if s.pool.queue ≠ [] ∨ s.active ≠ [] then
    { s with wait := true, waiters := ⟨caller, false⟩ :: s.waiters }
  else s

/-- `thread_pool_destroy` up to its wait. -/
def threadPoolDestroy (defer : Bool) (s : State) : State :=
  { s with pool := s.pool.shutdown, cancelled := if defer then s.cancelled else s.active }

/-- The wait of `thread_pool_destroy` for the end of the threads. -/
def threadPoolDestroyWake (s : State) : State :=
  if 0 < s.pool.nthreads then s else { s with destroyed := true }

/-! ## Steps -/

/-- A step, with what the environment decides. -/
inductive Label
  | tick (now : ℤ)
  | execute (func arg : ℕ) (wake : ℕ) (created : Bool)
  | wait (caller : ℕ)
  | waitWake (w : Waiter)
  | destroy (defer : Bool)
  | destroyWake
  | start (i : ℕ)
  | loop (i : ℕ)
  | spurious (i : ℕ)
  | expire (i : ℕ)
  | resume (i : ℕ)
  | finish (i : ℕ)
  | cancel (i : ℕ)
  deriving DecidableEq, Repr

/-- The mutex is free and the pool is there. -/
def State.free (s : State) : Bool := !s.pool.locked && !s.destroyed

/-- The step function. -/
def step (s : State) : Label → Option (State × List (Event Job))
  | .tick now =>
      allow (decide (s.pool.now ≤ now)) ({ s with pool := { s.pool with now := now } }, [])
  | .execute func arg wake created =>
      allow s.free (threadPoolExecute func arg wake created s, [])
  | .wait caller => allow s.free (threadPoolWait caller s, [])
  | .waitWake w =>
      allow (s.free && decide (w ∈ s.waiters))
        (threadPoolWait w.caller { s with waiters := s.waiters.erase w }, [])
  | .destroy defer => allow s.free (threadPoolDestroy defer s, [])
  | .destroyWake => allow (s.free && s.pool.destroy) (threadPoolDestroyWake s, [])
  | .start i =>
      match s.pool.workers[i]? with
      | some .start => allow s.free ({ s with pool := s.pool.set i (.loop false) }, [])
      | _ => none
  | .loop i =>
      match s.pool.workers[i]? with
      | some (.loop timedout) => some (threadTask i timedout s)
      | _ => none
  | .spurious i =>
      match s.pool.workers[i]? with
      | some (.idle .blocked d b) =>
          some ({ s with pool := s.pool.set i (.idle .signalled d b) }, [])
      | _ => none
  | .expire i =>
      match s.pool.workers[i]? with
      | some (.idle _ (some d) b) =>
          allow (decide (d ≤ s.pool.now))
            ({ s with pool := s.pool.set i (.idle .expired (some d) b) }, [])
      | _ => none
  | .resume i =>
      match s.pool.workers[i]? with
      | some (.idle .signalled _ b) => allow s.free (threadTaskResume i false b s)
      | some (.idle .expired _ b) => allow s.free (threadTaskResume i true b s)
      | _ => none
  | .finish i =>
      match s.pool.workers[i]? with
      | some (.running _ timedout) => allow s.free (threadTaskReturn i timedout s, [])
      | _ => none
  | .cancel i =>
      match s.pool.workers[i]? with
      | some (.running _ _) =>
          allow (s.free && s.pool.destroy && decide (i ∈ s.cancelled)) (threadTaskCancelled i s, [])
      | _ => none

/-! ## What a step can do -/

/-- The step function read backwards: the cases of a step, with what is known in each of them. -/
inductive Trans (s : State) : Label → State → List (Event Job) → Prop
  | tick {now : ℤ} (hnow : decide (s.pool.now ≤ now) = true) :
      Trans s (.tick now) { s with pool := { s.pool with now := now } } []
  | execute {func arg wake : ℕ} {created : Bool} (hfree : s.free = true) :
      Trans s (.execute func arg wake created) (threadPoolExecute func arg wake created s) []
  | wait {caller : ℕ} (hfree : s.free = true) :
      Trans s (.wait caller) (threadPoolWait caller s) []
  | waitWake {w : Waiter} (hfree : s.free = true) (hw : w ∈ s.waiters) :
      Trans s (.waitWake w) (threadPoolWait w.caller { s with waiters := s.waiters.erase w }) []
  | destroy {defer : Bool} (hfree : s.free = true) :
      Trans s (.destroy defer) (threadPoolDestroy defer s) []
  | destroyWake (hfree : s.free = true) (hdestroy : s.pool.destroy = true) :
      Trans s .destroyWake (threadPoolDestroyWake s) []
  | start {i : ℕ} (hpc : s.pool.workers[i]? = some .start) (hfree : s.free = true) :
      Trans s (.start i) { s with pool := s.pool.set i (.loop false) } []
  | loop {i : ℕ} {t : Bool} {s' : State} {es : List (Event Job)}
      (hpc : s.pool.workers[i]? = some (.loop t)) (htask : threadTask i t s = (s', es)) :
      Trans s (.loop i) s' es
  | spurious {i : ℕ} {d : Option ℤ} {b : Bool}
      (hpc : s.pool.workers[i]? = some (.idle .blocked d b)) :
      Trans s (.spurious i) { s with pool := s.pool.set i (.idle .signalled d b) } []
  | expire {i : ℕ} {w : Wait} {d : ℤ} {b : Bool}
      (hpc : s.pool.workers[i]? = some (.idle w (some d) b))
      (hnow : decide (d ≤ s.pool.now) = true) :
      Trans s (.expire i) { s with pool := s.pool.set i (.idle .expired (some d) b) } []
  | signalled {i : ℕ} {d : Option ℤ} {b : Bool} {s' : State} {es : List (Event Job)}
      (hpc : s.pool.workers[i]? = some (.idle .signalled d b)) (hfree : s.free = true)
      (htask : threadTaskResume i false b s = (s', es)) : Trans s (.resume i) s' es
  | expired {i : ℕ} {d : Option ℤ} {b : Bool} {s' : State} {es : List (Event Job)}
      (hpc : s.pool.workers[i]? = some (.idle .expired d b)) (hfree : s.free = true)
      (htask : threadTaskResume i true b s = (s', es)) : Trans s (.resume i) s' es
  | finish {i : ℕ} {j : Job} {t : Bool} (hpc : s.pool.workers[i]? = some (.running j t))
      (hfree : s.free = true) : Trans s (.finish i) (threadTaskReturn i t s) []
  | cancel {i : ℕ} {j : Job} {t : Bool} (hpc : s.pool.workers[i]? = some (.running j t))
      (hfree : s.free = true) (hdestroy : s.pool.destroy = true) (hi : i ∈ s.cancelled) :
      Trans s (.cancel i) (threadTaskCancelled i s) []

lemma trans_of_step {s s' : State} {l : Label} {es : List (Event Job)}
    (h : step s l = some (s', es)) : Trans s l s' es := by
  cases l with
  | tick now =>
      obtain ⟨hnow, h⟩ := allow_eq_some.mp h
      obtain ⟨rfl, rfl⟩ := Prod.mk.inj h
      exact .tick hnow
  | execute func arg wake created =>
      obtain ⟨hfree, h⟩ := allow_eq_some.mp h
      obtain ⟨rfl, rfl⟩ := Prod.mk.inj h
      exact .execute hfree
  | wait caller =>
      obtain ⟨hfree, h⟩ := allow_eq_some.mp h
      obtain ⟨rfl, rfl⟩ := Prod.mk.inj h
      exact .wait hfree
  | waitWake w =>
      obtain ⟨hfree, h⟩ := allow_eq_some.mp h
      obtain ⟨rfl, rfl⟩ := Prod.mk.inj h
      simp only [Bool.and_eq_true, decide_eq_true_eq] at hfree
      exact .waitWake hfree.1 hfree.2
  | destroy defer =>
      obtain ⟨hfree, h⟩ := allow_eq_some.mp h
      obtain ⟨rfl, rfl⟩ := Prod.mk.inj h
      exact .destroy hfree
  | destroyWake =>
      obtain ⟨hfree, h⟩ := allow_eq_some.mp h
      obtain ⟨rfl, rfl⟩ := Prod.mk.inj h
      simp only [Bool.and_eq_true] at hfree
      exact .destroyWake hfree.1 hfree.2
  | start i =>
      simp only [step] at h
      split at h
      · rename_i hpc
        obtain ⟨hfree, h⟩ := allow_eq_some.mp h
        obtain ⟨rfl, rfl⟩ := Prod.mk.inj h
        exact .start hpc hfree
      · cases h
  | loop i =>
      simp only [step] at h
      split at h
      · rename_i hpc
        exact .loop hpc (Option.some.inj h)
      · cases h
  | spurious i =>
      simp only [step] at h
      split at h
      · rename_i hpc
        obtain ⟨rfl, rfl⟩ := Prod.mk.inj (Option.some.inj h)
        exact .spurious hpc
      · cases h
  | expire i =>
      simp only [step] at h
      split at h
      · rename_i hpc
        obtain ⟨hnow, h⟩ := allow_eq_some.mp h
        obtain ⟨rfl, rfl⟩ := Prod.mk.inj h
        exact .expire hpc hnow
      · cases h
  | resume i =>
      simp only [step] at h
      split at h
      · rename_i hpc
        obtain ⟨hfree, h⟩ := allow_eq_some.mp h
        exact .signalled hpc hfree h
      · rename_i hpc
        obtain ⟨hfree, h⟩ := allow_eq_some.mp h
        exact .expired hpc hfree h
      · cases h
  | finish i =>
      simp only [step] at h
      split at h
      · rename_i hpc
        obtain ⟨hfree, h⟩ := allow_eq_some.mp h
        obtain ⟨rfl, rfl⟩ := Prod.mk.inj h
        exact .finish hpc hfree
      · cases h
  | cancel i =>
      simp only [step] at h
      split at h
      · rename_i hpc
        obtain ⟨hfree, h⟩ := allow_eq_some.mp h
        obtain ⟨rfl, rfl⟩ := Prod.mk.inj h
        simp only [Bool.and_eq_true, decide_eq_true_eq] at hfree
        exact .cancel hpc hfree.1.1 hfree.1.2 hfree.2
      · cases h

end LinuxC.ThreadPool
