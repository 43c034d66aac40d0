import LinuxC.Framework.OrderedList
import LinuxC.Framework.Transition

/-!
# The timer runtime of `timer/timer.c`

The threads of the runtime — one inspector, a pool of executors, and the callers of the API —
share `base` and the timers under `base->mutex`.  A step is a section that a thread runs while
it holds the mutex; `step` is the partial function that does it, and a label names the thread
and fixes what the environment decides: the clock, which waiter a signal wakes, whether a timed
wait ends with `ETIMEDOUT`, whether `pthread_create` succeeds.

The loops of the inspector and of an executor can pass their head several times without giving
up the mutex.  A step ends at the head of the loop then, with the program counter `loop`, and
`State.locked` keeps every other thread out until the loop waits, runs a timer's function or
ends: the steps in between are one section.

The functions of timers run without the mutex.  While a thread is at `running t` it may call the
API like any other thread, `timer_destroy` excepted, which the source forbids there.

The table is the ordered list that the red-black tree of the source represents.  Condition
variables may wake a waiter without a signal.  The counter `base->timerid` is an `int` in the
source, which goes round, and not bounded here.  `LinuxC.Timer.Wraparound` compares the two: the ids
are the same as 32-bit numbers (`timerKey_key`), and the table is in order for the source as long as
no timer stays in it while `2 ^ 31` others are inserted (`TableOk.sorted32`).
-/

namespace LinuxC.Timer

/-! ## Time -/

structure Timespec where
  sec : ℤ
  nsec : ℤ
  deriving DecidableEq, Repr

def timespecInit (ms : ℤ) : Timespec := ⟨ms.tdiv 1000, ms.tmod 1000 * 1000000⟩

def timespecAdd (a b : Timespec) : Timespec :=
  let r : Timespec := ⟨a.sec + b.sec, a.nsec + b.nsec⟩
  if 1000000000 ≤ r.nsec then ⟨r.sec + 1, r.nsec - 1000000000⟩ else r

/-- `timespec_cmp(a, b, <)`. -/
def timespecLt (a b : Timespec) : Prop :=
  a.sec < b.sec ∨ (a.sec = b.sec ∧ a.nsec < b.nsec)

instance (a b : Timespec) : Decidable (timespecLt a b) :=
  inferInstanceAs (Decidable (_ ∨ _ ∧ _))

/-! ## Data -/

/-- `enum TIMER_BASE_STATE`. -/
inductive BaseState
  | initial
  | waiting
  | timing
  | shooting
  | destroy
  deriving DecidableEq, Repr

/-- The flags `TMR_F_*`. -/
structure Flags where
  active : Bool := false
  mounted : Bool := false
  pending : Bool := false
  executing : Bool := false
  waiting : Bool := false
  detach : Bool := false
  deriving DecidableEq, Repr

/-- `flags & (TMR_F_PENDING | TMR_F_EXECUTING)`. -/
def Flags.busy (f : Flags) : Bool := f.pending || f.executing

/-- A thread. -/
inductive Tid
  | inspector
  | executor (i : ℕ)
  | user (i : ℕ)
  deriving DecidableEq, Repr

/-- The address of a `struct timer_struct`. -/
abbrev Ptr := ℕ

/-- `TMR_OPT_CYCLE` and `TMR_OPT_THREAD`. -/
structure TimerOpt where
  cycle : Bool
  thread : Bool
  deriving DecidableEq, Repr

/-- `struct timer_struct`: the fields the runtime reads. -/
structure TimerStruct where
  interval : Timespec
  expire : Timespec
  timerid : ℤ
  option : TimerOpt
  flags : Flags
  thread : Option Tid
  deriving DecidableEq, Repr

def timerInitializer : TimerStruct := ⟨⟨0, 0⟩, ⟨0, 0⟩, 0, ⟨false, false⟩, {}, none⟩

/-- `struct timer_option`, without the stack size. -/
structure TimerOption where
  linger : ℤ
  threadMin : ℤ
  threadMax : ℤ
  deriving DecidableEq, Repr

def defaultTimerOption : TimerOption := ⟨0, 2, 2⟩

/-- `struct timer_base`, without the mutex and the condition variables. -/
structure Base where
  state : BaseState
  nthreads : ℤ
  timerid : ℤ
  idlethreads : ℤ
  expiredTimer : List Ptr
  table : List Ptr
  runningTimer : Option Ptr
  opt : TimerOption
  deriving Repr

/-- Where the inspector is.  At `loop` it holds the mutex. -/
inductive Inspector
  | dead
  | start
  | loop
  | waiting (signalled : Bool)
  | timing (timer : Ptr) (deadline : Timespec) (signalled : Bool)
  | running (timer : Ptr)
  deriving DecidableEq, Repr

/-- Where an executor is, with its variable `timedout`.  At `loop` it holds the mutex. -/
inductive Executor
  | dead
  | start
  | loop (timedout : Bool)
  | idle (deadline : Option Timespec) (timedout signalled : Bool)
  | running (timer : Ptr) (timedout : Bool)
  deriving DecidableEq, Repr

/-- A thread blocked in `timer_exit`. -/
structure Waiter where
  tid : Tid
  timer : Ptr
  deriving DecidableEq, Repr

/-- The state between two steps. -/
structure State where
  base : Base
  timer : Ptr → TimerStruct
  now : Timespec
  inspector : Inspector
  executors : List Executor
  waiters : List Waiter
  destroyers : List ℕ
  initOnce : Bool

/-- What a step shows. -/
inductive Event
  /-- `timer_add` returns 0 to the thread. -/
  | addOk (u : Tid) (t : Ptr)
  /-- `timer_del` returns 0 to the thread. -/
  | delOk (u : Tid) (t : Ptr)
  /-- The inspector takes an expired timer out of the table. -/
  | fired (t : Ptr)
  /-- The thread starts the timer's function. -/
  | started (u : Tid) (t : Ptr)
  /-- The thread finds at the head of its loop that it has to go on. -/
  | entered (u : Tid)
  /-- `timer_destroy_cleanup` runs. -/
  | destroyed
  deriving DecidableEq, Repr

namespace State

/-- The fields of the timer `t` are changed. -/
def modify (s : State) (t : Ptr) (f : TimerStruct → TimerStruct) : State :=
  { s with timer := fun x => if x = t then f (s.timer x) else s.timer x }

/-- The flags of the timer `t` are changed. -/
def setFlags (s : State) (t : Ptr) (f : Flags → Flags) : State :=
  s.modify t fun x => { x with flags := f x.flags }

/-- A thread holds the mutex at the head of its loop. -/
def locked (s : State) : Bool :=
  decide (s.inspector = .loop) || s.executors.any fun e =>
    match e with
    | .loop _ => true
    | _ => false

/-- The thread is blocked in a call of `timer_del` or `timer_destroy`. -/
def blocked (s : State) (u : Tid) : Bool :=
  s.waiters.any (fun w => decide (w.tid = u)) ||
    s.destroyers.any fun i => decide (Tid.user i = u)

/-- The thread runs the function of the timer. -/
def Runs (s : State) (u : Tid) (t : Ptr) : Prop :=
  match u with
  | .inspector => s.inspector = .running t
  | .executor i => ∃ b, s.executors[i]? = some (.running t b)
  | .user _ => False

/-- The thread can call the API: it is a user thread or runs a timer's function, and it is not
inside a call. -/
def canCall (s : State) (u : Tid) : Bool :=
  !s.locked && !s.blocked u &&
    match u with
    | .user _ => true
    | .inspector =>
        match s.inspector with
        | .running _ => true
        | _ => false
    | .executor i =>
        match s.executors[i]? with
        | some (.running _ _) => true
        | _ => false

/-- `pthread_cond_signal(&base->work_cond)`. -/
def signalWork (s : State) : State :=
  { s with
    inspector :=
      match s.inspector with
      | .waiting _ => .waiting true
      | .timing t d _ => .timing t d true
      | pc => pc }

end State

/-! ## The table -/

/-- `timer_comparator`, and with the fields of `t` as the data `timer_searcher`. -/
def timerComparator (timer : Ptr → TimerStruct) (t x : Ptr) : ℤ :=
  if timespecLt (timer t).expire (timer x).expire then -1
  else if timespecLt (timer x).expire (timer t).expire then 1
  else (timer t).timerid - (timer x).timerid

/-- The first lines of `timer_insert`: the next expiry and a new id. -/
def timerKey (t : Ptr) (s : State) : State :=
  { s.modify t fun x =>
      { x with expire := timespecAdd x.expire x.interval, timerid := s.base.timerid } with
    base := { s.base with timerid := s.base.timerid + 1 } }

/-- `rb_insert` and the flag. -/
def timerMount (t : Ptr) (s : State) : State :=
  { s.setFlags t fun f => { f with mounted := true } with
    base := { s.base with table := insertOrd (timerComparator s.timer) t s.base.table } }

def timerInsert (t : Ptr) (s : State) : State := timerMount t (timerKey t s)

def timerRemove (t : Ptr) (s : State) : State :=
  { s.setFlags t fun f => { f with mounted := false } with
    base := { s.base with table := s.base.table.erase t } }

def timerSearch (t : Ptr) (s : State) : Bool :=
  decide (s.base.table.find? (fun x => timerComparator s.timer t x = 0) = some t)

def workingBase (s : State) : Bool :=
  decide (0 < s.base.nthreads) && decide (s.base.state ≠ .destroy)

/-! ## Running a timer's function -/

/-- `timer_execute` up to the call of the function; the caller goes to `running`. -/
def timerExecute (u : Tid) (t : Ptr) (s : State) : State :=
  s.modify t fun x => { x with thread := some u, flags := { x.flags with executing := true } }

/-- `timer_cleanup`, the end of `timer_execute`: the waiters are woken, and a timer that was
deleted by its own function becomes inactive. -/
def timerCleanup (t : Ptr) (s : State) : State :=
  s.setFlags t fun f =>
    { f with executing := false, waiting := false, active := f.active && !f.detach }

def threadCleanup (s : State) : State :=
  { s with base := { s.base with nthreads := s.base.nthreads - 1 } }

/-- The first executor that waits without a signal gets one. -/
def signalFirst : List Executor → List Executor
  | [] => []
  | .idle d b false :: es => .idle d b true :: es
  | e :: es => e :: signalFirst es

/-- `pthread_cond_signal(&base->exec_cond)`: some executor that waits without a signal gets one,
the executor `wake` if it is such. -/
def signalExec (wake : ℕ) (es : List Executor) : List Executor :=
  match es[wake]? with
  | some (.idle d b false) => es.set wake (.idle d b true)
  | _ => signalFirst es

/-- The flag `TMR_F_PENDING` and the list `base->expired_timer`. -/
def timerPend (t : Ptr) (s : State) : State :=
  { s.setFlags t fun f => { f with pending := true } with
    base := { s.base with expiredTimer := s.base.expiredTimer ++ [t] } }

/-- `timer_thread_execute`: the executor `wake` is the one that a signal wakes, and `created`
says whether `pthread_create` succeeds. -/
def timerThreadExecute (t : Ptr) (wake : ℕ) (created : Bool) (s : State) : State :=
  if 0 < s.base.idlethreads then
    { timerPend t s with executors := signalExec wake s.executors }
  else if s.base.nthreads < s.base.opt.threadMax ∧ created = true then
    { timerPend t s with
      executors := s.executors ++ [.start]
      base := { (timerPend t s).base with nthreads := s.base.nthreads + 1 } }
  else timerPend t s

/-! ## The inspector -/

/-- `base->state = state`. -/
def State.setState (s : State) (state : BaseState) : State :=
  { s with base := { s.base with state := state } }

/-- `base->running_timer = r`. -/
def State.setRunning (s : State) (r : Option Ptr) : State :=
  { s with base := { s.base with runningTimer := r } }

/-- A cyclic timer goes back into the table. -/
def reinsert (t : Ptr) (s : State) : State :=
  if (s.timer t).option.cycle then timerInsert t s else s

/-- The end of the body of the loop of the inspector: the function is run here, by an executor,
or not at all. -/
def dispatch (t : Ptr) (wake : ℕ) (created : Bool) (s : State) : State × List Event :=
  if (s.timer t).flags.busy then ({ s with inspector := .loop }, [.fired t])
  else if (s.timer t).option.thread then
    ({ timerThreadExecute t wake created s with inspector := .loop }, [.fired t])
  else
    ({ timerExecute .inspector t s with inspector := .running t },
      [.fired t, .started .inspector t])

/-- The inspector shoots the timer `t`. -/
def shoot (t : Ptr) (wake : ℕ) (created : Bool) (s : State) : State × List Event :=
  dispatch t wake created (reinsert t (timerRemove t (s.setState .shooting)))

/-- The body of the loop of `timer_inspector`, up to where the mutex is given up. -/
def inspectorBody (wake : ℕ) (created : Bool) (s : State) : State × List Event :=
  match s.base.table.head? with
  | none => ({ s.setState .waiting with inspector := .waiting false }, [])
  | some t =>
      if timespecLt s.now (s.timer t).expire then
        ({ (s.setState .timing).setRunning (some t) with
            inspector := .timing t (s.timer t).expire false }, [])
      else shoot t wake created s

/-- One turn of the loop of `timer_inspector`. -/
def inspectorLoop (wake : ℕ) (created : Bool) (s : State) : State × List Event :=
  if s.base.state = .destroy then ({ threadCleanup s with inspector := .dead }, [])
  else
    ((inspectorBody wake created s).1,
      .entered .inspector :: (inspectorBody wake created s).2)

/-- The return from `pthread_cond_timedwait` for the timer `t`. -/
def inspectorTimedwait (t : Ptr) (timedout : Bool) (wake : ℕ) (created : Bool) (s : State) :
    State × List Event :=
  if s.base.runningTimer = none then ({ s with inspector := .loop }, [])
  else if timedout then shoot t wake created (s.setRunning none)
  else ({ s.setRunning none with inspector := .loop }, [])

/-! ## The executors -/

/-- The pool with another program counter for the executor `i`. -/
def State.setExecutor (s : State) (i : ℕ) (e : Executor) : State :=
  { s with executors := s.executors.set i e }

/-- `base->idlethreads` is changed by `k`. -/
def State.addIdle (s : State) (k : ℤ) : State :=
  { s with base := { s.base with idlethreads := s.base.idlethreads + k } }

/-- The first expired timer is taken from the list. -/
def takeExpired (t : Ptr) (rest : List Ptr) (s : State) : State :=
  { s.setFlags t fun f => { f with pending := false } with
    base := { s.base with expiredTimer := rest } }

/-- The loop over `base->expired_timer` in `timer_executor`, and the test that follows it.  There
is no next state where the assertion on `TMR_F_PENDING` fails. -/
def executorDrain (i : ℕ) (timedout : Bool) (s : State) : Option (State × List Event) :=
  match s.base.expiredTimer with
  | t :: rest =>
      if (s.timer t).flags.pending then
        some ((timerExecute (.executor i) t (takeExpired t rest s)).setExecutor i
          (.running t timedout), [.started (.executor i) t])
      else none
  | [] =>
      if timedout ∧ s.base.opt.threadMin < s.base.nthreads then
        some ((threadCleanup s).setExecutor i .dead, [])
      else some (s.setExecutor i (.loop timedout), [])

/-- The wait for expired timers in `timer_executor`. -/
def executorWait (i : ℕ) (deadline : Option Timespec) (timedout : Bool) (s : State) :
    Option (State × List Event) :=
  some ((s.addIdle 1).setExecutor i (.idle deadline timedout false), [])

/-- The body of the loop of `timer_executor`, up to where the mutex is given up. -/
def executorBody (i : ℕ) (timedout : Bool) (s : State) : Option (State × List Event) :=
  if s.base.expiredTimer = [] then
    if s.base.nthreads ≤ s.base.opt.threadMin then executorWait i none timedout s
    else if 0 < s.base.opt.linger then
      executorWait i (some ⟨s.now.sec + s.base.opt.linger, s.now.nsec⟩) timedout s
    else executorDrain i true s
  else executorDrain i timedout s

/-- One turn of the loop of `timer_executor`. -/
def executorLoop (i : ℕ) (timedout : Bool) (s : State) : Option (State × List Event) :=
  if s.base.state = .destroy then some ((threadCleanup s).setExecutor i .dead, [])
  else (executorBody i timedout s).map fun r => (r.1, .entered (.executor i) :: r.2)

/-! ## The API -/

/-- There is a running timer, and the timer expires before it. -/
def BeforeRunning (t : Ptr) (s : State) : Prop :=
  ∃ r ∈ s.base.runningTimer, timespecLt (s.timer t).expire (s.timer r).expire

instance (t : Ptr) (s : State) : Decidable (BeforeRunning t s) :=
  inferInstanceAs (Decidable (∃ r ∈ s.base.runningTimer, _))

/-- The assignments of `timer_add` to the fields of the timer. -/
def timerFill (t : Ptr) (option : TimerOpt) (msec : ℤ) (s : State) : State :=
  s.modify t fun x =>
    { x with option := option, flags := {}, interval := timespecInit msec, expire := s.now }

/-- The signal of `timer_add`. -/
def signalAdd (t : Ptr) (s : State) : State :=
  if s.base.state = .waiting ∨ BeforeRunning t s then s.signalWork else s

def timerAdd (u : Tid) (t : Ptr) (option : TimerOpt) (msec : ℤ) (s : State) :
    State × List Event :=
  if !workingBase s then (s, [])
  else if (s.timer t).flags.active then (s, [])
  else if (s.timer t).flags.mounted && timerSearch t s then (s, [])
  else
    (signalAdd t ((timerInsert t (timerFill t option msec s)).setFlags t
      fun f => { f with active := true }), [.addOk u t])

/-- `timer_exit`, after it has cleared `TMR_F_ACTIVE`. -/
def exitWait (u : Tid) (t : Ptr) (s : State) : State × List Event :=
  if (s.timer t).flags.executing ∧ (s.timer t).thread = some u then
    (s.setFlags t fun f => { f with detach := true }, [.delOk u t])
  else if (s.timer t).flags.busy then
    ({ s.setFlags t fun f => { f with waiting := true } with
        waiters := ⟨u, t⟩ :: s.waiters }, [])
  else (s, [.delOk u t])

def timerExit (u : Tid) (t : Ptr) (s : State) : State × List Event :=
  exitWait u t (s.setFlags t fun f => { f with active := false })

/-- The signal of `timer_del`. -/
def signalDel (t : Ptr) (s : State) : State :=
  if s.base.runningTimer = some t then (s.setRunning none).signalWork else s

/-- The removal of a mounted timer in `timer_del`. -/
def timerDrop (t : Ptr) (s : State) : State :=
  if (s.timer t).flags.mounted then signalDel t (timerRemove t s) else s

def timerDel (u : Tid) (t : Ptr) (s : State) : State × List Event :=
  if !workingBase s then (s, [])
  else if !(s.timer t).flags.active then (s, [])
  else if (s.timer t).flags.mounted && !timerSearch t s then (s, [])
  else timerExit u t (timerDrop t s)

/-- The return from the wait in `timer_exit`. -/
def timerExitWake (w : Waiter) (s : State) : State × List Event :=
  if (s.timer w.timer).flags.busy then
    (s.setFlags w.timer fun f => { f with waiting := true }, [])
  else ({ s with waiters := s.waiters.erase w }, [.delOk w.tid w.timer])

/-- The removal of a mounted timer in `timer_mod`. -/
def timerUnmount (t : Ptr) (s : State) : State :=
  if (s.timer t).flags.mounted then timerRemove t s else s

/-- The assignments of `timer_mod` to the fields of the timer. -/
def timerRearm (t : Ptr) (msec : ℤ) (s : State) : State :=
  s.modify t fun x => { x with interval := timespecInit msec, expire := s.now }

/-- The signal of `timer_mod`. -/
def signalMod (t : Ptr) (s : State) : State :=
  if s.base.runningTimer = some t ∨ BeforeRunning t s then s.signalWork else s

def timerMod (t : Ptr) (msec : ℤ) (s : State) : State × List Event :=
  if !workingBase s then (s, [])
  else if !(s.timer t).flags.active then (s, [])
  else if (s.timer t).flags.mounted && !timerSearch t s then (s, [])
  else (signalMod t (timerInsert t (timerRearm t msec (timerUnmount t s))), [])

/-- The options that `timer_init_once` makes of the defaults and the user's options. -/
def usersOption (opt : TimerOption) (users : TimerOption) : TimerOption :=
  let opt := if 0 ≤ users.linger then { opt with linger := users.linger } else opt
  let opt := if 0 < users.threadMin then { opt with threadMin := users.threadMin + 1 } else opt
  let opt := if 0 < users.threadMax then { opt with threadMax := users.threadMax + 1 } else opt
  if opt.threadMax < opt.threadMin then { opt with threadMin := opt.threadMax } else opt

/-- `timer_init_once`, under `pthread_once`. -/
def timerInitOnce (users : Option TimerOption) (s : State) : State :=
  if s.initOnce then s
  else
    { s with
      initOnce := true
      base := { s.base with
        expiredTimer := []
        opt := (users.map (usersOption s.base.opt)).getD s.base.opt } }

/-- The assignments of `timer_setup` to the base. -/
def resetBase (s : State) : State :=
  { s with base := { s.base with timerid := 0, runningTimer := none, idlethreads := 0 } }

/-- `timer_setup`, after `pthread_once`.  There is no next state where the assertion on
`nthreads` fails. -/
def setupThreads (created : Bool) (s : State) : Option (State × List Event) :=
  if s.base.nthreads ≠ 0 then none
  else if created then
    some ({ resetBase s with
      inspector := .start
      base := { (resetBase s).base with nthreads := 1 } }, [])
  else some (resetBase s, [])

def timerSetup (users : Option TimerOption) (created : Bool) (s : State) :
    Option (State × List Event) :=
  setupThreads created (timerInitOnce users s)

/-- `pthread_cond_broadcast(&base->exec_cond)`, for one executor. -/
def signalAll (e : Executor) : Executor :=
  match e with
  | .idle d b _ => .idle d b true
  | e => e

/-- The signals of `timer_destroy`. -/
def signalDestroy (s : State) : State :=
  let s := if s.base.state = .waiting ∨ s.base.state = .timing then s.signalWork else s
  if 0 < s.base.idlethreads then { s with executors := s.executors.map signalAll } else s

/-- `timer_destroy` up to its wait. -/
def timerDestroy (i : ℕ) (s : State) : State × List Event :=
  if !workingBase s then (s, [])
  else ({ (signalDestroy s).setState .destroy with destroyers := i :: s.destroyers }, [])

def timerDestroyCleanup (s : State) : State :=
  { s with base := { s.base with opt := defaultTimerOption, table := [], state := .initial } }

/-- The return from the wait in `timer_destroy`. -/
def timerDestroyWake (i : ℕ) (s : State) : State × List Event :=
  if 0 < s.base.nthreads then (s, [])
  else ({ timerDestroyCleanup s with destroyers := s.destroyers.erase i }, [.destroyed])

/-! ## Steps -/

/-- A step: which thread, and what the environment decides. -/
inductive Label
  | tick (now : Timespec)
  | setup (users : Option TimerOption) (created : Bool)
  | add (u : Tid) (t : Ptr) (option : TimerOpt) (msec : ℤ)
  | del (u : Tid) (t : Ptr)
  | delWake (w : Waiter)
  | mod (u : Tid) (t : Ptr) (msec : ℤ)
  | destroy (i : ℕ)
  | destroyWake (i : ℕ)
  | inspectorStart
  | inspectorLoop (wake : ℕ) (created : Bool)
  | inspectorWake (timedout : Bool) (wake : ℕ) (created : Bool)
  | inspectorReturn
  | executorStart (i : ℕ)
  | executorLoop (i : ℕ)
  | executorWake (i : ℕ) (timedout : Bool)
  | executorReturn (i : ℕ)
  deriving DecidableEq, Repr

/-- `guard`, with a step. -/
def allow (b : Bool) (r : State × List Event) : Option (State × List Event) :=
  if b then some r else none

@[simp] lemma allow_eq_some {b : Bool} {r r' : State × List Event} :
    allow b r = some r' ↔ b = true ∧ r = r' := by
  cases b <;> simp [allow]

/-- The wait of the inspector ends: with `ETIMEDOUT` only after the deadline. -/
def inspectorWake (timedout : Bool) (wake : ℕ) (created : Bool) (s : State) :
    Option (State × List Event) :=
  match s.inspector with
  | .waiting _ => allow (!timedout) ({ s with inspector := .loop }, [])
  | .timing t d _ =>
      allow (!timedout || !decide (timespecLt s.now d))
        (inspectorTimedwait t timedout wake created s)
  | _ => none

/-- The wait of an executor ends: with `ETIMEDOUT` only after a deadline. -/
def executorWake (i : ℕ) (timedout : Bool) (s : State) : Option (State × List Event) :=
  match s.executors[i]? with
  | some (.idle d b _) =>
      if timedout ∧ ¬ ∃ x ∈ d, ¬ timespecLt s.now x then none
      else
        executorDrain i (b || timedout) (s.addIdle (-1))
  | _ => none

/-- The step function. -/
def step (s : State) : Label → Option (State × List Event)
  | .tick now => allow (!decide (timespecLt now s.now)) ({ s with now := now }, [])
  | .setup users created => if s.locked then none else timerSetup users created s
  | .add u t option msec => allow (s.canCall u) (timerAdd u t option msec s)
  | .del u t => allow (s.canCall u) (timerDel u t s)
  | .delWake w => allow (!s.locked && decide (w ∈ s.waiters)) (timerExitWake w s)
  | .mod u t msec => allow (s.canCall u) (timerMod t msec s)
  | .destroy i => allow (s.canCall (.user i)) (timerDestroy i s)
  | .destroyWake i => allow (!s.locked && decide (i ∈ s.destroyers)) (timerDestroyWake i s)
  | .inspectorStart =>
      allow (!s.locked && decide (s.inspector = .start)) ({ s with inspector := .loop }, [])
  | .inspectorLoop wake created =>
      allow (decide (s.inspector = .loop)) (inspectorLoop wake created s)
  | .inspectorWake timedout wake created =>
      if s.locked then none else inspectorWake timedout wake created s
  | .inspectorReturn =>
      match s.inspector with
      | .running t =>
          allow (s.canCall .inspector) ({ timerCleanup t s with inspector := .loop }, [])
      | _ => none
  | .executorStart i =>
      allow (!s.locked && decide (s.executors[i]? = some .start))
        (s.setExecutor i (.loop false), [])
  | .executorLoop i =>
      match s.executors[i]? with
      | some (.loop timedout) => executorLoop i timedout s
      | _ => none
  | .executorWake i timedout => if s.locked then none else executorWake i timedout s
  | .executorReturn i =>
      match s.executors[i]? with
      | some (.running t timedout) =>
          if s.canCall (.executor i) then executorDrain i timedout (timerCleanup t s) else none
      | _ => none

/-- The process before the first `timer_setup`, at the time `now`. -/
def boot (now : Timespec) : State where
  base := ⟨.initial, 0, 0, 0, [], [], none, defaultTimerOption⟩
  timer := fun _ => timerInitializer
  now := now
  inspector := .dead
  executors := []
  waiters := []
  destroyers := []
  initOnce := false

end LinuxC.Timer
