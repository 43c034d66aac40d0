import LinuxC.Framework.WorkerPool
import LinuxC.Ipc.ServerLoop

/-!
# Asynchronous requests (`ipc/ipc_server.c`)

A handle that is bound to a `struct ipc_async` can have one request at a time executed by a pool
of tasks.  `ipc_async_execute` puts a copy of the message into the pool, a task takes it, runs the
function of the user and sends the reply.  The core thread may release the handle in the meantime:
what is idle or queued it frees, and what is being executed it marks with `ASYNC_EXITED` and
leaves to the task.

The pool is a worker pool whose jobs are the addresses of the `ipc_async`s.  The steps are the
sections under the mutex of the pool, the ends of waits, and the steps of the core thread: it
accepts requesters, binds them, and releases them, `ipc_release` being split where it gives the
mutex back and goes on to close the handle.

Addresses are allocation numbers and are not used again.  `fault` is set when something that was
freed is touched or freed again, when a null pointer is used, or when an assertion fails.
-/

namespace LinuxC.Ipc.Async

open WorkerPool

/-! ## Data -/

def asyncIdle : ℕ := 0

def asyncPending : ℕ := 1

def asyncExecuting : ℕ := 2

def asyncExited : ℕ := 4

/-- `struct ipc_async`, with the number of the accepted request that it works on. -/
structure IpcAsync where
  arg : ℕ
  func : Option ℕ
  release : Option ℕ
  state : ℕ
  sevr : Option Ptr
  msg : Option IpcMsg
  request : ℕ
  deriving DecidableEq

/-- A handle of class `IPC_CLASS_REQUESTER`: its cookie, and whether `ipc_release` is past
`ipc_async_release`. -/
structure Requester where
  cookie : Option Ptr
  released : Bool
  deriving DecidableEq, Repr

/-- The pool, the memory, and a record of what has happened. -/
structure State where
  pool : Pool Ptr
  async : Ptr → Option IpcAsync
  /-- The next `ipc_async`. -/
  brk : Ptr
  sevr : Ptr → Option Requester
  /-- The next handle. -/
  sevrs : Ptr
  /-- The number of accepted requests. -/
  requests : ℕ
  /-- The requests that were replied to. -/
  replied : List ℕ
  /-- The `ipc_async`s that were freed. -/
  freed : List Ptr
  fault : Bool

/-- What a step shows. -/
inductive Event
  /-- `ipc_async_execute` returns 0. -/
  | accepted (a : Ptr) (request : ℕ)
  /-- A task sends the reply through the handle. -/
  | reply (h : Ptr) (request : ℕ)
  /-- The callback `release` of the request runs. -/
  | dropped (a : Ptr)
  deriving DecidableEq, Repr

namespace State

/-- The memory at `a` is changed. -/
def setAsync (s : State) (a : Ptr) (x : Option IpcAsync) : State :=
  { s with async := fun b => if b = a then x else s.async b }

/-- The handle is changed. -/
def setSevr (s : State) (h : Ptr) (r : Option Requester) : State :=
  { s with sevr := fun g => if g = h then r else s.sevr g }

/-- `free(async)`. -/
def freeAsync (s : State) (a : Ptr) : State :=
  { s.setAsync a none with freed := s.freed ++ [a] }

/-- Something went wrong. -/
def fail (s : State) : State := { s with fault := true }

end State

/-! ## Options -/

structure IpcAopts where
  mintasks : ℤ
  maxtasks : ℤ
  linger : ℤ
  deriving DecidableEq, Repr

/-- The bounds that `set_opt_async` makes of the initial ones and the options. -/
def asyncBounds (opts : Option IpcAopts) : Option (ℤ × ℤ × ℤ) :=
  match opts with
  | none => some (1, 1, 0)
  | some opts =>
      if opts.mintasks < 0 ∨ opts.maxtasks < opts.mintasks then none
      else
        some (if 0 < opts.mintasks then opts.mintasks else 1,
          if 0 < opts.maxtasks then opts.maxtasks else 1,
          if 0 < opts.linger then opts.linger else 0)

/-- `ipc_async_setup`: the clock is in nanoseconds. -/
def ipcAsyncSetup (mintasks maxtasks linger now : ℤ) : State where
  pool :=
    { min := mintasks
      max := maxtasks
      linger := linger * 1000000000
      nthreads := 0
      idlethreads := 0
      destroy := false
      queue := []
      workers := []
      now := now }
  async := fun _ => none
  brk := 0
  sevr := fun _ => none
  sevrs := 0
  requests := 0
  replied := []
  freed := []
  fault := false

/-- `set_opt_async`, in a server without clients. -/
def setOptAsync (opts : Option IpcAopts) (now : ℤ) : Option State :=
  (asyncBounds opts).map fun b => ipcAsyncSetup b.1 b.2.1 b.2.2 now

/-! ## The core thread -/

/-- `ipc_server_create` for a requester. -/
def ipcServerCreate (s : State) : State :=
  { s.setSevr s.sevrs (some ⟨none, false⟩) with sevrs := s.sevrs + 1 }

def ipcAsyncAlloc (h : Ptr) (s : State) : State :=
  { s.setAsync s.brk (some ⟨0, none, none, asyncIdle, some h, none, 0⟩) with brk := s.brk + 1 }

/-- `ipc_server_bind` with `IPC_COOKIE_ASYNC`, for a requester. -/
def ipcServerBind (h : Ptr) (s : State) : State :=
  match s.sevr h with
  | some ⟨none, released⟩ => (ipcAsyncAlloc h s).setSevr h (some ⟨some s.brk, released⟩)
  | _ => s

/-- The arguments of `ipc_async_execute`, and whether `ipc_clone_msg` gets memory. -/
structure Request where
  msg : IpcMsg
  func : ℕ
  release : Option ℕ
  arg : ℕ
  alloc : Bool
  deriving DecidableEq

/-- The assignments of `ipc_async_execute` to the fields of the `ipc_async`. -/
def IpcAsync.fill (x : IpcAsync) (r : Request) : IpcAsync :=
  { x with func := some r.func, release := r.release, arg := r.arg, state := asyncPending }

/-- `ipc_async_execute` with the cookie `a`. -/
def ipcAsyncExecute (a : Ptr) (r : Request) (wake : ℕ) (created : Bool) (s : State) :
    State × List Event :=
  match s.async a with
  | none => (s.fail, [])
  | some x =>
      if x.state ≠ asyncIdle then (s, [])
      else if x.msg ≠ none then (s.fail, [])
      else if r.alloc = false then (s.setAsync a (some (x.fill r)), [])
      else
        ({ s.setAsync a (some { x.fill r with msg := some r.msg, request := s.requests }) with
            pool := s.pool.execute a wake created
            requests := s.requests + 1 }, [.accepted a s.requests])

def ipcAsyncRelease (a : Ptr) (s : State) : State × List Event :=
  match s.async a with
  | none => (s.fail, [])
  | some x =>
      let dropped := (x.release.map fun _ => Event.dropped a).toList
      if x.state = asyncPending then
        (({ s with pool := { s.pool with queue := s.pool.queue.erase a } }).freeAsync a, dropped)
      else if x.state = asyncIdle then (s.freeAsync a, dropped)
      else if x.state = asyncExecuting then
        (s.setAsync a (some { x with state := x.state ||| asyncExited, sevr := none }), [])
      else (s.fail, [])

/-- `ipc_release` for a requester, up to the end of `ipc_async_release`. -/
def ipcRelease (h : Ptr) (s : State) : State × List Event :=
  match s.sevr h with
  | some ⟨some a, _⟩ =>
      let r := ipcAsyncRelease a s
      (r.1.setSevr h (some ⟨some a, true⟩), r.2)
  | some ⟨none, _⟩ => (s.setSevr h (some ⟨none, true⟩), [])
  | none => (s.fail, [])

/-! ## The tasks -/

/-- The task that has taken an `ipc_async` marks it. -/
def takeAsync (a : Ptr) (s : State) : State :=
  match s.async a with
  | none => s.fail
  | some x => s.setAsync a (some { x with state := asyncExecuting })

/-- The section of a task, in which it may have taken an `ipc_async`. -/
def State.serve (s : State) (r : Pool Ptr × List (WorkerPool.Event Ptr)) : State :=
  match r.2 with
  | [.taken _ a] => { takeAsync a s with pool := r.1 }
  | _ => { s with pool := r.1 }

/-- `ipc_async_task`, from the head of its loop to where it gives up the mutex. -/
def ipcAsyncTask (i : ℕ) (timedout : Bool) (s : State) : State :=
  s.serve (Pool.seek i timedout (s.pool.addIdle 1))

/-- `ipc_async_task`, from the end of its wait. -/
def ipcAsyncTaskResume (i : ℕ) (expired timedout : Bool) (s : State) : State :=
  s.serve (Pool.resume i expired timedout s.pool)

/-- `ipc_async_cleanup`: `msg` is the message as the function of the user has left it. -/
def ipcAsyncCleanup (a : Ptr) (msg : IpcMsg) (s : State) : State × List Event :=
  match s.async a with
  | none => (s.fail, [])
  | some x =>
      if x.state &&& asyncExited ≠ 0 then (s.freeAsync a, [])
      else
        match x.msg, x.sevr with
        | some _, some h =>
            let s := s.setAsync a (some { x with
              msg := none, state := asyncIdle, func := none, release := none })
            if msg.flags &&& ipcFlagReply ≠ 0 then
              ({ s with replied := s.replied ++ [x.request] }, [.reply h x.request])
            else (s, [])
        | _, _ => (s.fail, [])

/-- `ipc_async_task`, from the return of the function to the head of its loop or to its end. -/
def ipcAsyncTaskReturn (i : ℕ) (a : Ptr) (msg : IpcMsg) (timedout : Bool) (s : State) :
    State × List Event :=
  let r := ipcAsyncCleanup a msg s
  ({ r.1 with pool := s.pool.tail i timedout }, r.2)

/-- A task is cancelled in the function: `ipc_async_cleanup` and `ipc_async_task_cleanup`. -/
def ipcAsyncTaskCancelled (i : ℕ) (a : Ptr) (msg : IpcMsg) (s : State) : State × List Event :=
  let r := ipcAsyncCleanup a msg s
  ({ r.1 with pool := s.pool.exit i }, r.2)

/-! ## Steps -/

/-- A step of a client, of the server or of a thread of the pool, with what the environment decides:
whether a thread can be made, which thread a signal wakes, what the clock shows.  A section under a
mutex is one step. -/
inductive Label
  | connect
  | bind (h : Ptr)
  | execute (h : Ptr) (r : Request) (wake : ℕ) (created : Bool)
  | release (h : Ptr)
  | close (h : Ptr)
  | exit
  | tick (now : ℤ)
  | start (i : ℕ)
  | loop (i : ℕ)
  | spurious (i : ℕ)
  | expire (i : ℕ)
  | resume (i : ℕ)
  | finish (i : ℕ) (msg : IpcMsg)
  | cancel (i : ℕ) (msg : IpcMsg)
  deriving DecidableEq

/-- The step function.  `ipc_async_execute` is called for a handle that has not been released, with
the cookie of the handle. -/
def step (s : State) : Label → Option (State × List Event)
  | .connect => some (ipcServerCreate s, [])
  | .bind h =>
      match s.sevr h with
      | some ⟨_, false⟩ => some (ipcServerBind h s, [])
      | _ => none
  | .execute h r wake created =>
      match s.sevr h with
      | some ⟨some a, false⟩ => allow (!s.pool.locked) (ipcAsyncExecute a r wake created s)
      | _ => none
  | .release h =>
      match s.sevr h with
      | some ⟨_, false⟩ => allow (!s.pool.locked) (ipcRelease h s)
      | _ => none
  | .close h =>
      match s.sevr h with
      | some ⟨_, true⟩ => some (s.setSevr h none, [])
      | _ => none
  | .exit => allow (!s.pool.locked) ({ s with pool := s.pool.shutdown }, [])
  | .tick now =>
      allow (decide (s.pool.now ≤ now)) ({ s with pool := { s.pool with now := now } }, [])
  | .start i =>
      match s.pool.workers[i]? with
      | some .start => allow (!s.pool.locked) ({ s with pool := s.pool.set i (.loop false) }, [])
      | _ => none
  | .loop i =>
      match s.pool.workers[i]? with
      | some (.loop timedout) => some (ipcAsyncTask i timedout s, [])
      | _ => none
  | .spurious i =>
      match s.pool.workers[i]? with
      | some (.idle .blocked d b) =>
          some ({ s with pool := s.pool.set i (.idle .signalled d b) }, [])
      | _ => none
  | .expire i =>
      match s.pool.workers[i]? with
      | some (.idle _ (some d) b) =>
          allow (decide (d ≤ s.pool.now))
            ({ s with pool := s.pool.set i (.idle .expired (some d) b) }, [])
      | _ => none
  | .resume i =>
      match s.pool.workers[i]? with
      | some (.idle .signalled _ b) =>
          allow (!s.pool.locked) (ipcAsyncTaskResume i false b s, [])
      | some (.idle .expired _ b) => allow (!s.pool.locked) (ipcAsyncTaskResume i true b s, [])
      | _ => none
  | .finish i msg =>
      match s.pool.workers[i]? with
      | some (.running a timedout) =>
          allow (!s.pool.locked) (ipcAsyncTaskReturn i a msg timedout s)
      | _ => none
  | .cancel i msg =>
      match s.pool.workers[i]? with
      | some (.running a _) =>
          allow (!s.pool.locked && s.pool.destroy) (ipcAsyncTaskCancelled i a msg s)
      | _ => none

/-! ## What a step can do -/

/-- The step function read backwards: the cases of a step, with what is known in each of them. -/
inductive Trans (s : State) : Label → State → List Event → Prop
  | connect : Trans s .connect (ipcServerCreate s) []
  | bind {h : Ptr} {c : Option Ptr} (hg : s.sevr h = some ⟨c, false⟩) :
      Trans s (.bind h) (ipcServerBind h s) []
  | execute {h a : Ptr} {r : Request} {wake : ℕ} {created : Bool} {s' : State} {es : List Event}
      (hg : s.sevr h = some ⟨some a, false⟩) (hfree : (!s.pool.locked) = true)
      (hexecute : ipcAsyncExecute a r wake created s = (s', es)) :
      Trans s (.execute h r wake created) s' es
  | release {h : Ptr} {c : Option Ptr} {s' : State} {es : List Event}
      (hg : s.sevr h = some ⟨c, false⟩) (hfree : (!s.pool.locked) = true)
      (hrelease : ipcRelease h s = (s', es)) : Trans s (.release h) s' es
  | close {h : Ptr} {c : Option Ptr} (hg : s.sevr h = some ⟨c, true⟩) :
      Trans s (.close h) (s.setSevr h none) []
  | exit (hfree : (!s.pool.locked) = true) :
      Trans s .exit { s with pool := s.pool.shutdown } []
  | tick {now : ℤ} (hnow : decide (s.pool.now ≤ now) = true) :
      Trans s (.tick now) { s with pool := { s.pool with now := now } } []
  | start {i : ℕ} (hpc : s.pool.workers[i]? = some .start) (hfree : (!s.pool.locked) = true) :
      Trans s (.start i) { s with pool := s.pool.set i (.loop false) } []
  | loop {i : ℕ} {t : Bool} (hpc : s.pool.workers[i]? = some (.loop t)) :
      Trans s (.loop i) (ipcAsyncTask i t s) []
  | spurious {i : ℕ} {d : Option ℤ} {b : Bool}
      (hpc : s.pool.workers[i]? = some (.idle .blocked d b)) :
      Trans s (.spurious i) { s with pool := s.pool.set i (.idle .signalled d b) } []
  | expire {i : ℕ} {w : Wait} {d : ℤ} {b : Bool}
      (hpc : s.pool.workers[i]? = some (.idle w (some d) b))
      (hnow : decide (d ≤ s.pool.now) = true) :
      Trans s (.expire i) { s with pool := s.pool.set i (.idle .expired (some d) b) } []
  | signalled {i : ℕ} {d : Option ℤ} {b : Bool}
      (hpc : s.pool.workers[i]? = some (.idle .signalled d b)) (hfree : (!s.pool.locked) = true) :
      Trans s (.resume i) (ipcAsyncTaskResume i false b s) []
  | expired {i : ℕ} {d : Option ℤ} {b : Bool}
      (hpc : s.pool.workers[i]? = some (.idle .expired d b)) (hfree : (!s.pool.locked) = true) :
      Trans s (.resume i) (ipcAsyncTaskResume i true b s) []
  | finish {i : ℕ} {a : Ptr} {t : Bool} {msg : IpcMsg} {s' : State} {es : List Event}
      (hpc : s.pool.workers[i]? = some (.running a t)) (hfree : (!s.pool.locked) = true)
      (htask : ipcAsyncTaskReturn i a msg t s = (s', es)) : Trans s (.finish i msg) s' es
  | cancel {i : ℕ} {a : Ptr} {t : Bool} {msg : IpcMsg} {s' : State} {es : List Event}
      (hpc : s.pool.workers[i]? = some (.running a t))
      (hfree : (!s.pool.locked && s.pool.destroy) = true)
      (htask : ipcAsyncTaskCancelled i a msg s = (s', es)) : Trans s (.cancel i msg) s' es

lemma trans_of_step {s s' : State} {l : Label} {es : List Event}
    (h : step s l = some (s', es)) : Trans s l s' es := by
  cases l with
  | connect =>
      obtain ⟨rfl, rfl⟩ := Prod.mk.inj (Option.some.inj h)
      exact .connect
  | bind g =>
      simp only [step] at h
      split at h
      · rename_i hg
        obtain ⟨rfl, rfl⟩ := Prod.mk.inj (Option.some.inj h)
        exact .bind hg
      · cases h
  | execute g r wake created =>
      simp only [step] at h
      split at h
      · rename_i hg
        obtain ⟨hfree, h⟩ := allow_eq_some.mp h
        exact .execute hg hfree h
      · cases h
  | release g =>
      simp only [step] at h
      split at h
      · rename_i hg
        obtain ⟨hfree, h⟩ := allow_eq_some.mp h
        exact .release hg hfree h
      · cases h
  | close g =>
      simp only [step] at h
      split at h
      · rename_i hg
        obtain ⟨rfl, rfl⟩ := Prod.mk.inj (Option.some.inj h)
        exact .close hg
      · cases h
  | exit =>
      obtain ⟨hfree, h⟩ := allow_eq_some.mp h
      obtain ⟨rfl, rfl⟩ := Prod.mk.inj h
      exact .exit hfree
  | tick now =>
      obtain ⟨hnow, h⟩ := allow_eq_some.mp h
      obtain ⟨rfl, rfl⟩ := Prod.mk.inj h
      exact .tick hnow
  | start i =>
      simp only [step] at h
      split at h
      · rename_i hpc
        obtain ⟨hfree, h⟩ := allow_eq_some.mp h
        obtain ⟨rfl, rfl⟩ := Prod.mk.inj h
        exact .start hpc hfree
      · cases h
  | loop i =>
      simp only [step] at h
      split at h
      · rename_i hpc
        obtain ⟨rfl, rfl⟩ := Prod.mk.inj (Option.some.inj h)
        exact .loop hpc
      · cases h
  | spurious i =>
      simp only [step] at h
      split at h
      · rename_i hpc
        obtain ⟨rfl, rfl⟩ := Prod.mk.inj (Option.some.inj h)
        exact .spurious hpc
      · cases h
  | expire i =>
      simp only [step] at h
      split at h
      · rename_i hpc
        obtain ⟨hnow, h⟩ := allow_eq_some.mp h
        obtain ⟨rfl, rfl⟩ := Prod.mk.inj h
        exact .expire hpc hnow
      · cases h
  | resume i =>
      simp only [step] at h
      split at h
      · rename_i hpc
        obtain ⟨hfree, h⟩ := allow_eq_some.mp h
        obtain ⟨rfl, rfl⟩ := Prod.mk.inj h
        exact .signalled hpc hfree
      · rename_i hpc
        obtain ⟨hfree, h⟩ := allow_eq_some.mp h
        obtain ⟨rfl, rfl⟩ := Prod.mk.inj h
        exact .expired hpc hfree
      · cases h
  | finish i msg =>
      simp only [step] at h
      split at h
      · rename_i hpc
        obtain ⟨hfree, h⟩ := allow_eq_some.mp h
        exact .finish hpc hfree h
      · cases h
  | cancel i msg =>
      simp only [step] at h
      split at h
      · rename_i hpc
        obtain ⟨hfree, h⟩ := allow_eq_some.mp h
        exact .cancel hpc hfree h
      · cases h

end LinuxC.Ipc.Async
