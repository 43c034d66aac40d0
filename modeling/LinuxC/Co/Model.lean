import LinuxC.Common.ListHead
import LinuxC.Framework.Transition
import LinuxC.RbTree.Model

/-!
# The coroutine scheduler (`co/co_core.c`, `co/co_epoll.c`)

The scheduler and all coroutines run on one thread: at any time one of them has the control, and
it keeps it until it switches.  A state of the model is the memory together with the place where
the control is (`Phase`), and a step is what happens up to the next place of interest: every
call of `rb_insert` in the retry loops and every turn of the loop of `expire` is a step of its
own, and so is every context switch.

The labels carry what comes from outside: the arguments of the calls a coroutine makes, the
readings of the clock, and the descriptors that `epoll_wait` reports.  Times are computed as the
source does it, in an `int64_t`, and the milliseconds of a timeout in an `int`; both wrap.  The
kernel's interest list is part of the state (`watched`): a coroutine is on
it from the `EPOLL_CTL_ADD` of its `co_epoll`, if the kernel accepts that, to the
`EPOLL_CTL_DEL` after it is resumed.

`live` says which addresses hold a coroutine that `co_init` has made and `release` has not
freed; an address may be used again after that.  All other fields of an address that is not
live are whatever the memory holds.
-/

namespace LinuxC.Co

inductive CoState
  | ready
  | running
  | sleeping
  | waiting
  | timedwait
  | exited
  deriving DecidableEq

/-- The two state queues of the scheduler. -/
inductive Queue
  | readyq
  | waitsq
  deriving DecidableEq

/-- The `struct list_head`s: those of the queues, and the field `list` of every coroutine. -/
inductive Item (C : Type)
  | head (q : Queue)
  | co (c : C)
  deriving DecidableEq

/-- Where the control is.  The transitions are the pieces between two of these places: a loop stops
at its condition, a routine at the call that gives the control away, and a call of `rb_insert` is a
place of its own because it may be repeated. -/
inductive Phase (C : Type)
  /-- outside `co_scheduler_run` -/
  | idle
  /-- at the condition of the loop of `co_scheduler_run` -/
  | head
  /-- at the condition of the loop of `expire`, with its variable `n` -/
  | expiring (n : Option C)
  /-- at the condition of the loop of `schedule` -/
  | scheduling
  /-- in the routine of a coroutine -/
  | running (c : C)
  /-- before a call of `rb_insert` in `co_sleep` or `co_epoll`, with the state to come -/
  | inserting (c : C) (next : CoState)
  /-- in `schedule`, behind the `co_switch` -/
  | switched
  /-- in `scheduler->schedule()` -/
  | polling
  deriving DecidableEq

/-- `struct co_scheduler` with the fields of the coroutines, the kernel's list and the control. -/
structure Scheduler (C : Type) where
  live : C → Bool
  state : C → CoState
  sleepExpiredTime : C → ℤ
  list : Links (Item C)
  sleepTree : Rb.RbTree C
  runningco : Option C
  watched : C → Bool
  phase : Phase C

variable {C : Type} [DecidableEq C]

/-! ## State queues -/

def stqAny (q : Queue) (s : Scheduler C) : Bool := !listEmpty (.head q) s.list

/-- `stq_first`; there is no result when the queue is empty. -/
def stqFirst (q : Queue) (s : Scheduler C) : Option C :=
  match s.list.next (.head q) with
  | .co c => some c
  | .head _ => none

/-- The queue for the coroutines in a state. -/
def queueOf : CoState → Option Queue
  | .ready => some .readyq
  | .waiting => some .waitsq
  | .timedwait => some .waitsq
  | .running => none
  | .sleeping => none
  | .exited => none

def coTransfer (c : C) (st : CoState) (s : Scheduler C) : Scheduler C :=
  let l := listDelInit (.co c) s.list
  { s with
    list := match queueOf st with
      | some q => listAddTail (.co c) (.head q) l
      | none => l
    state := Function.update s.state c st }

/-! ## The sleep tree -/

/-- A value of type `int64_t`. -/
def int64 (x : ℤ) : ℤ := x.bmod (2 ^ 64)

@[simp] lemma int64_zero : int64 0 = 0 := rfl

def exptCompare (time : C → ℤ) (n₁ n₂ : C) : ℤ := if time n₂ < time n₁ then 1 else 0

/-- The running time allowed to a function of the tree; it is always enough. -/
def fuelOf (t : Rb.RbTree C) : ℕ := t.rbCount + 1

/-- One call of `rb_insert` in the retry loops of `co_sleep` and `co_epoll`, with the assignment
`sleep_expired_time++` or the `co_transfer` and the switch after the loop. -/
def tryInsert (c : C) (next : CoState) (s : Scheduler C) : Option (Scheduler C) := do
  let (t, r) ← Rb.rbInsert (exptCompare s.sleepExpiredTime) (fuelOf s.sleepTree) c s.sleepTree
  let s := { s with sleepTree := t }
  if r = c then pure { coTransfer c next s with phase := .switched }
  else
    pure { s with
      sleepExpiredTime := Function.update s.sleepExpiredTime c (int64 (s.sleepExpiredTime c + 1)) }

/-! ## Calls of the running coroutine -/

/-- `co_init`: the address held no coroutine before. -/
def coInit (c : C) (s : Scheduler C) : Scheduler C :=
  coTransfer c .ready { s with
    list := initListHead (.co c) s.list
    live := Function.update s.live c true }

/-- `co_sleep` up to the retry loop, or to the switch, with the reading of the clock. -/
def coSleep (c : C) (usec now : ℤ) (s : Scheduler C) : Scheduler C :=
  if 0 < usec then
    { s with
      sleepExpiredTime := Function.update s.sleepExpiredTime c (int64 (now + usec))
      phase := .inserting c .sleeping }
  else { coTransfer c .sleeping s with phase := .switched }

/-- `co_epoll` up to the retry loop, or to the switch, with the reading of the clock.  The result
`added` of the `EPOLL_CTL_ADD` is not looked at, and the milliseconds are multiplied as an `int`: a
timeout of more than 35 minutes expires at another time, or at once. -/
def coEpoll (c : C) (added : Bool) (timeout now : ℤ) (s : Scheduler C) : Scheduler C :=
  let s := { s with watched := Function.update s.watched c added }
  if 0 ≤ timeout then
    { s with
      sleepExpiredTime := Function.update s.sleepExpiredTime c
        (int64 (now + (1000 * timeout).bmod (2 ^ 32)))
      phase := .inserting c .timedwait }
  else { coTransfer c .waiting s with phase := .switched }

/-- The end of `co_entry`, when the routine has returned. -/
def coExit (c : C) (s : Scheduler C) : Scheduler C :=
  { coTransfer c .exited s with phase := .switched }

/-! ## The scheduler -/

/-- One turn of the loop of `expire`, with the reading of the clock. -/
def expireNode (n : C) (now : ℤ) (s : Scheduler C) : Option (Scheduler C) := do
  let fuel := fuelOf s.sleepTree
  let s ←
    if int64 (s.sleepExpiredTime n - now) ≤ 0 then do
      let t ← Rb.rbRemove fuel n s.sleepTree
      pure (coTransfer n .ready { s with sleepTree := t })
    else pure s
  let next ← Rb.rbNext fuel n s.sleepTree
  pure { s with phase := .expiring next }

/-- The body of the loop of `schedule` up to the switch.  The first thing a coroutine does that is
resumed in `co_epoll` is to take its descriptor off the kernel's list. -/
def resume (s : Scheduler C) : Option (Scheduler C) := do
  let c ← stqFirst .readyq s
  let s := coTransfer c .running { s with runningco := some c }
  pure { s with watched := Function.update s.watched c false, phase := .running c }

/-- The body of the loop of `schedule` behind the switch. -/
def switchedBack (s : Scheduler C) : Option (Scheduler C) := do
  let c ← s.runningco
  pure { s with
    live := if s.state c = .exited then Function.update s.live c false else s.live
    runningco := none
    phase := .scheduling }

/-- The loop over the events in `co_epoll_schedule`. -/
def deliver (cs : List C) (s : Scheduler C) : Scheduler C :=
  cs.foldl (fun s c => coTransfer c .ready s) s

/-- The condition of the loop of `co_scheduler_run`. -/
def anyLeft (s : Scheduler C) : Bool :=
  stqAny .waitsq s || stqAny .readyq s || s.sleepTree.rbCount ≠ 0

/-! ## Steps -/

/-- What happens, with the data that come from outside. -/
inductive Label (C : Type)
  /-- `co_init`, called by the main program or by a coroutine -/
  | init (c : C)
  /-- the main program calls `co_scheduler_run` -/
  | run
  /-- the scheduler goes on -/
  | go
  /-- the scheduler looks at the next node of the sleep tree at this time -/
  | expire (now : ℤ)
  /-- the running coroutine calls `co_sleep` -/
  | sleep (usec now : ℤ)
  /-- the running coroutine calls `co_epoll`, and the kernel accepts its descriptor or not -/
  | epoll (added : Bool) (timeout now : ℤ)
  /-- the running coroutine calls `rb_insert` -/
  | insert
  /-- the routine of the running coroutine returns -/
  | exit
  /-- `epoll_wait` returns with events of these coroutines -/
  | events (cs : List C)

/-- The step of the scheduler that needs no data. -/
def goOn (s : Scheduler C) : Option (Scheduler C) :=
  match s.phase with
  | .head =>
      if anyLeft s then do
        let n ← Rb.rbFirst (fuelOf s.sleepTree) s.sleepTree
        pure { s with phase := .expiring n }
      else pure { s with phase := .idle }
  | .expiring none => pure { s with phase := .scheduling }
  | .scheduling => if stqAny .readyq s then resume s else pure { s with phase := .polling }
  | .switched => switchedBack s
  | _ => none

/-- The transition with this label, if the control is where it can happen.  What the clock shows and
which events the kernel has is in the label. -/
def stepTo (s : Scheduler C) : Label C → Option (Scheduler C)
  | .init c =>
      match s.phase, s.live c with
      | .idle, false => some (coInit c s)
      | .running _, false => some (coInit c s)
      | _, _ => none
  | .run =>
      match s.phase with
      | .idle => some { s with phase := .head }
      | _ => none
  | .go => goOn s
  | .expire now =>
      match s.phase with
      | .expiring (some n) => expireNode n now s
      | _ => none
  | .sleep usec now =>
      match s.phase with
      | .running c => some (coSleep c usec now s)
      | _ => none
  | .epoll added timeout now =>
      match s.phase with
      | .running c => some (coEpoll c added timeout now s)
      | _ => none
  | .insert =>
      match s.phase with
      | .inserting c next => tryInsert c next s
      | _ => none
  | .exit =>
      match s.phase with
      | .running c => some (coExit c s)
      | _ => none
  | .events cs =>
      match s.phase with
      | .polling =>
          if cs.Nodup ∧ ∀ c ∈ cs, s.watched c then some { deliver cs s with phase := .head }
          else none
      | _ => none

/-- **The transitions**, with what each of them needs. -/
inductive Moved (s : Scheduler C) : Label C → Scheduler C → Prop
  | init {c : C} : s.phase = .idle ∨ (∃ d, s.phase = .running d) → s.live c = false →
      Moved s (.init c) (coInit c s)
  | run : s.phase = .idle → Moved s .run { s with phase := .head }
  | go {s' : Scheduler C} : goOn s = some s' → Moved s .go s'
  | expire {n : C} {now : ℤ} {s' : Scheduler C} : s.phase = .expiring (some n) →
      expireNode n now s = some s' → Moved s (.expire now) s'
  | sleep {c : C} {usec now : ℤ} : s.phase = .running c →
      Moved s (.sleep usec now) (coSleep c usec now s)
  | epoll {c : C} {added : Bool} {timeout now : ℤ} : s.phase = .running c →
      Moved s (.epoll added timeout now) (coEpoll c added timeout now s)
  | insert {c : C} {next : CoState} {s' : Scheduler C} : s.phase = .inserting c next →
      tryInsert c next s = some s' → Moved s .insert s'
  | exit {c : C} : s.phase = .running c → Moved s .exit (coExit c s)
  | events {cs : List C} : s.phase = .polling → cs.Nodup → (∀ c ∈ cs, s.watched c) →
      Moved s (.events cs) { deliver cs s with phase := .head }

lemma moved_of_stepTo {s s' : Scheduler C} {l : Label C} (h : stepTo s l = some s') :
    Moved s l s' := by
  cases l with
  | init c =>
      simp only [stepTo] at h
      split at h
      · next hp hl =>
          obtain rfl := Option.some.inj h
          exact .init (.inl hp) hl
      · next d hp hl =>
          obtain rfl := Option.some.inj h
          exact .init (.inr ⟨d, hp⟩) hl
      · cases h
  | run =>
      simp only [stepTo] at h
      split at h
      · next hp =>
          obtain rfl := Option.some.inj h
          exact .run hp
      · cases h
  | go => exact .go h
  | expire now =>
      simp only [stepTo] at h
      split at h
      · next n hp => exact .expire hp h
      · cases h
  | sleep usec now =>
      simp only [stepTo] at h
      split at h
      · next c hp =>
          obtain rfl := Option.some.inj h
          exact .sleep hp
      · cases h
  | epoll added timeout now =>
      simp only [stepTo] at h
      split at h
      · next c hp =>
          obtain rfl := Option.some.inj h
          exact .epoll hp
      · cases h
  | insert =>
      simp only [stepTo] at h
      split at h
      · next c next hp => exact .insert hp h
      · cases h
  | exit =>
      simp only [stepTo] at h
      split at h
      · next c hp =>
          obtain rfl := Option.some.inj h
          exact .exit hp
      · cases h
  | events cs =>
      simp only [stepTo] at h
      split at h
      · next hp =>
          split at h
          · next hcs =>
              obtain rfl := Option.some.inj h
              exact .events hp hcs.1 hcs.2
          · cases h
      · cases h

/-- The transitions, without events. -/
def step (s : Scheduler C) (l : Label C) : Option (Scheduler C × List Unit) :=
  (stepTo s l).map (·, [])

/-- `co_scheduler_init` on memory with any contents. -/
def coSchedulerInit (s : Scheduler C) : Scheduler C :=
  { s with
    live := fun _ => false
    list := initListHead (.head .waitsq) (initListHead (.head .readyq) s.list)
    sleepTree := { s.sleepTree with root := none, rbCount := 0 }
    runningco := none
    watched := fun _ => false
    phase := .idle }

end LinuxC.Co
