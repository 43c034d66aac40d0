import Mathlib.Data.Finset.Insert
import LinuxC.Mcd.Model

/-!
# The guarded clients of `sample/mc-daemon`

A program that registers with `MC_GUARD_MASK` is supervised: the daemon keeps a `struct mc_client`
for it in one of four queues, and the tasks of the client, which have to send heartbeats, in
`task_head`.  The record outlives the program.  A dead client stays in `client_deadq` and is started
again, and the program that comes back finds its record there.  A detached client stays in
`client_detachdq`, alive or dead, until it is attached.

The cookie of the handle of a registered program is a `struct mc_subscriber`, which refers to the
client, and the client refers to the subscriber.  The server hands the handle to the manager hook
when it registers (`ipcServerRegister`), unregisters (`ipcServerUnregister`), is closed by the peer
or is dropped after a bad message (`ipcCommonSocketHandler`).

Records and subscribers have addresses, and what a `malloc` returns is a choice of the environment
among the free ones.  Everything here runs in the thread of the server.  There is no next state
where the code follows a pointer to memory that has been freed, or an assertion fails.  A task is
named by its client and its place in the array of the client.  The indices of the subscribers and
the synchronisation of the system are in `Mcd.Model`; the map of the clients that are ready and the
supervision of the static guards by `mcd_guard` are left out.
-/

namespace LinuxC.Mcd.Clients

/-! ## Records -/

/-- The address of a `struct mc_client`. -/
abbrev ClientPtr := ℕ

/-- The address of a `struct mc_subscriber`. -/
abbrev SubscriberPtr := ℕ

/-- A `struct ipc_server` of the class `IPC_CLASS_SUBSCRIBER`. -/
abbrev Handle := ℕ

/-- The bits of the state of a client but for `MC_CLIENT_DETACHED`; one of them is set. -/
inductive Kind
  | running
  | dead
  | prestart
  | starting
  | blocked
  deriving DecidableEq, Repr

/-- The state of a client, with the bit `MC_CLIENT_DETACHED`. -/
structure ClientState where
  kind : Kind
  detached : Bool
  deriving DecidableEq, Repr

structure McTask where
  tid : ℕ
  interval : ℤ
  strategy : ℕ
  expire : ℤ
  deriving DecidableEq, Repr

/-- The callback of `restart_timing` while it is registered. -/
inductive Timing
  | delay
  | review
  deriving DecidableEq, Repr

/-- `struct mc_client`; `flags` are the numbers of the bits that are set, `tasks` has `count`
entries, and a guard is named by its id. -/
structure McClient where
  state : ClientState
  flags : Finset ℕ
  probeExpire : ℤ
  birthTime : ℤ
  pid : ℤ
  latchTime : ℤ
  name : String
  cmdline : String
  guard : Option ℤ
  restartTiming : Option Timing
  tasks : List McTask
  subscriber : Option SubscriberPtr
  deriving DecidableEq

def mcClientFExit : ℕ := 0

def mcClientFKill : ℕ := 1

def mcClientFUnreg : ℕ := 2

def mcStrategyRestart : ℕ := 16

/-- What a record is found by: the name, the command line and the number of tasks. -/
def McClient.key (x : McClient) : String × String × ℕ := (x.name, x.cmdline, x.tasks.length)

/-- What the cookie type of a subscriber says it is. -/
inductive Cookie
  | client (c : ClientPtr)
  | regonly (name : String)
  deriving DecidableEq, Repr

structure McSubscriber where
  cookie : Cookie
  sevr : Handle
  deriving DecidableEq, Repr

/-- `struct ipc_peer` with its handle. -/
structure Peer where
  identity : ℤ
  mask : UInt64
  cookie : Option SubscriberPtr
  deriving DecidableEq, Repr

/-- The states of a guard. -/
inductive GuardState
  | new
  | run
  | detach
  deriving DecidableEq, Repr

/-- `struct mc_guard`: the fields that the handlers of the clients use. -/
structure McGuard where
  id : ℤ
  name : String
  state : GuardState
  deriving DecidableEq, Repr

/-- `__mc_guard`. -/
def mcGuardTable : List (ℤ × String) := [(0, "broker"), (-1, "ipc-sample")]

def mcGuardSearch (name : String) : Option ℤ :=
  (mcGuardTable.find? fun g => g.2 = name).map Prod.fst

/-- `struct mc_config`: the fields that the handlers of the clients use. -/
structure McConfig where
  lossMax : ℤ
  probeInterval : ℤ
  deriving DecidableEq, Repr

/-- `struct mc_struct` with the memory and the handles; `closing` are the flags `MC_F_REBOOT` and
`MC_F_SHUTDOWN`, and `now` is `mc_gettime()`. -/
structure State where
  config : McConfig
  now : ℤ
  closing : Bool
  subscribers : ℕ
  probeTime : ℤ
  runningq : List ClientPtr
  lossq : List ClientPtr
  detachdq : List ClientPtr
  deadq : List ClientPtr
  taskHead : List (ClientPtr × ℕ)
  guardHead : List McGuard
  client : ClientPtr → Option McClient
  subscriber : SubscriberPtr → Option McSubscriber
  peer : Handle → Option Peer

/-- The records in the queues. -/
def State.records (s : State) : List ClientPtr := s.runningq ++ s.lossq ++ s.detachdq ++ s.deadq

/-! ## Queues -/

/-- The queues of the clients. -/
inductive Queue
  | running
  | loss
  | detachd
  | dead
  deriving DecidableEq, Repr

namespace State

/-- The record `c` is changed. -/
def modify (c : ClientPtr) (f : McClient → McClient) (s : State) : State :=
  { s with client := Function.update s.client c ((s.client c).map f) }

@[simp] lemma client_modify_self (c : ClientPtr) (f : McClient → McClient) (s : State) :
    (s.modify c f).client c = (s.client c).map f :=
  Function.update_self ..

lemma client_modify_of_ne {c d : ClientPtr} (h : d ≠ c) (f : McClient → McClient) (s : State) :
    (s.modify c f).client d = s.client d :=
  Function.update_of_ne h ..

/-- `set_client_state`. -/
def setState (c : ClientPtr) (kind : Kind) (detached : Bool) (s : State) : State :=
  s.modify c fun x => { x with state := ⟨kind, detached⟩ }

/-- The flags of the record `c` are changed. -/
def setFlags (c : ClientPtr) (f : Finset ℕ → Finset ℕ) (s : State) : State :=
  s.modify c fun x => { x with flags := f x.flags }

/-- `list_del(&client->list)`. -/
def listDel (c : ClientPtr) (s : State) : State :=
  { s with
    runningq := s.runningq.filter (· ≠ c)
    lossq := s.lossq.filter (· ≠ c)
    detachdq := s.detachdq.filter (· ≠ c)
    deadq := s.deadq.filter (· ≠ c) }

/-- `list_add_tail(&client->list, queue)`. -/
def listAddTail (q : Queue) (c : ClientPtr) (s : State) : State :=
  match q with
  | .running => { s with runningq := s.runningq ++ [c] }
  | .loss => { s with lossq := s.lossq ++ [c] }
  | .detachd => { s with detachdq := s.detachdq ++ [c] }
  | .dead => { s with deadq := s.deadq ++ [c] }

/-- `list_move(&client->list, queue)`. -/
def listMove (q : Queue) (c : ClientPtr) (s : State) : State := (s.listDel c).listAddTail q c

/-- The tasks of the client leave `task_head`. -/
def delTasks (c : ClientPtr) (s : State) : State :=
  { s with taskHead := s.taskHead.filter fun t => t.1 ≠ c }

/-- `task->expire`. -/
def taskExpire (s : State) (t : ClientPtr × ℕ) : ℤ :=
  match s.client t.1 with
  | some x => (x.tasks[t.2]?).elim 0 McTask.expire
  | none => 0

/-- `client->probe_expire`. -/
def probeExpire (s : State) (c : ClientPtr) : ℤ := (s.client c).elim 0 McClient.probeExpire

end State

/-- `list_add_tail(node, &pos->list)`, where `pos` is the first entry with the property or the
head. -/
def insertBefore {α : Type} (p : α → Bool) (x : α) : List α → List α
  | [] => [x]
  | y :: ys => if p y then x :: y :: ys else y :: insertBefore p x ys

/-- `mc_task_active`, for the task `i` of the client `c`. -/
def mcTaskActive (c : ClientPtr) (i : ℕ) (s : State) : State :=
  let s := s.modify c fun x =>
    { x with tasks := x.tasks.modify i fun t =>
        { t with expire := s.now + s.config.lossMax * t.interval } }
  let rest := s.taskHead.filter (· ≠ (c, i))
  { s with taskHead := insertBefore (fun t => s.taskExpire t ≤ s.taskExpire (c, i)) (c, i) rest }

/-- `mc_task_active` for every task of the client. -/
def activateTasks (c : ClientPtr) (n : ℕ) (s : State) : State :=
  (List.range n).foldl (fun s i => mcTaskActive c i s) s

def mcdClientActive (c : ClientPtr) (probeTime : ℤ) (s : State) : State :=
  let s := s.modify c fun x =>
    { x with probeExpire := probeTime + s.config.lossMax * s.config.probeInterval }
  let s := s.listDel c
  { s with runningq := insertBefore (fun d => s.probeExpire d ≤ s.probeExpire c) c s.runningq }

/-! ## Life of a client -/

/-- `client_restart`; `started` says whether `mc_process_restart` gives a process. -/
def clientRestart (c : ClientPtr) (started : Bool) (s : State) : State :=
  if started then
    s.modify c fun x =>
      { x with state := ⟨.starting, false⟩, restartTiming := some .review }
  else s

def mcdClientRestart (c : ClientPtr) (started : Bool) (s : State) : Option State :=
  (s.client c).map fun x =>
    if s.now < x.birthTime + x.latchTime then
      s.modify c fun x => { x with state := ⟨.prestart, false⟩, restartTiming := some .delay }
    else clientRestart c started s

structure McTskinfo where
  tid : ℕ
  strategy : ℕ
  interval : ℤ
  deriving DecidableEq, Repr

/-- `struct mc_reginfo`; `tasks` has `count` entries. -/
structure McReginfo where
  pid : ℤ
  latchTime : ℤ
  name : String
  cmdline : String
  tasks : List McTskinfo
  deriving DecidableEq, Repr

/-- What the record of the program is found by. -/
def McReginfo.key (info : McReginfo) : String × String × ℕ :=
  (info.name, info.cmdline, info.tasks.length)

/-- `mcd_client_construct`, from its label `out`. -/
def constructOut (info : McReginfo) (a : SubscriberPtr) (c : ClientPtr) (s : State) : State :=
  let s := s.modify c fun x =>
    { x with
      pid := info.pid
      flags := ∅
      subscriber := some a
      birthTime := s.now
      tasks := info.tasks.map fun t => ⟨t.tid, t.interval, t.strategy, 0⟩ }
  let s := activateTasks c info.tasks.length s
  let s := mcdClientActive c s.probeTime s
  s.setState c .running false

/-- The record of a program that is not known, before `mcd_client_construct` comes to its label; the
state and the tasks are set there. -/
def newClient (info : McReginfo) : McClient where
  state := ⟨.dead, false⟩
  flags := ∅
  probeExpire := 0
  birthTime := 0
  pid := 0
  latchTime := info.latchTime
  name := info.name
  cmdline := info.cmdline
  guard := mcGuardSearch info.name
  restartTiming := none
  tasks := []
  subscriber := none

/-- The record in `client_deadq` that fits. -/
def findDead (info : McReginfo) (s : State) : Option ClientPtr :=
  s.deadq.find? fun c => (s.client c).map McClient.key = some info.key

/-- `mcd_client_construct`; `mem` is the address that a new record gets. -/
def mcdClientConstruct (info : McReginfo) (a : SubscriberPtr) (mem : Option ClientPtr)
    (s : State) : Option (ClientPtr × State) :=
  match findDead info s with
  | some c =>
      let s := (s.listDel c).modify c fun x =>
        if x.state.kind = .starting ∨ x.state.kind = .prestart then
          { x with restartTiming := none } else x
      some (c, constructOut info a c s)
  | none =>
      mem.map fun c =>
        let s := { s with
          client := Function.update s.client c (some (newClient info))
          guardHead := s.guardHead.filter fun g => some g.id ≠ mcGuardSearch info.name }
        (c, constructOut info a c s)

/-- The guard of a client that has unregistered. -/
def guardOf (x : McClient) : List McGuard :=
  (x.guard.map fun id => ⟨id, x.name, if x.state.detached then .detach else .new⟩).toList

def mcdClientDestroy (c : ClientPtr) (s : State) : Option State :=
  (s.client c).map fun x =>
    if mcClientFUnreg ∈ x.flags then
      let s := (s.listDel c).delTasks c
      { s with
        guardHead := s.guardHead ++ guardOf x
        client := Function.update s.client c none }
    else
      let s := (s.delTasks c).modify c fun x =>
        { x with flags := ∅, pid := 0, subscriber := none }
      if x.state.detached then s.setState c .dead true
      else (s.setState c .dead false).listMove .dead c

/-- `mc_exit_client`; `notified` says whether the client can be told. -/
def mcExitClient (c : ClientPtr) (notified : Bool) (s : State) : Option State :=
  (s.client c).bind fun x =>
    if x.state.kind = .running then
      (x.subscriber.bind s.subscriber).map fun _ =>
        if notified then s.setFlags c (insert mcClientFExit) else s
    else some s

/-- `mc_kill_client`; `killed` is false when the signal cannot be sent. -/
def mcKillClient (c : ClientPtr) (killed : Bool) (s : State) : State :=
  if killed then s.setFlags c (insert mcClientFKill) else s

/-! ## Messages -/

/-- The cookie of the handle. -/
def State.cookie (h : Handle) (s : State) : Option Cookie :=
  (((s.peer h).bind Peer.cookie).bind s.subscriber).map McSubscriber.cookie

/-- The client that a handler finds in the cookie of the handle; the handler makes sure that the
subscriber of the client is there. -/
def senderClient (c : ClientPtr) (s : State) : Option McClient :=
  (s.client c).bind fun x => (x.subscriber.bind s.subscriber).map fun _ => x

def mcdClientHeartbeatMsg (h : Handle) (pid : ℤ) (tid : ℕ) (s : State) : Option State :=
  match s.cookie h with
  | some (.client c) =>
      (senderClient c s).map fun x =>
        if x.pid ≠ pid ∨ x.state.detached then s
        else
          match x.tasks.findIdx? fun t => t.tid = tid with
          | none => s
          | some i =>
              (mcTaskActive c i s).setFlags c fun flags =>
                ((x.tasks[i]?).elim flags fun t => flags.erase t.strategy)
  | _ => some s

def mcdClientProbeMsg (h : Handle) (time : ℤ) (s : State) : Option State :=
  match s.cookie h with
  | some (.client c) =>
      (senderClient c s).map fun x => if x.state.detached then s else mcdClientActive c time s
  | _ => some s

/-- The first client of the queue with the name. -/
def State.findName (q : List ClientPtr) (name : String) (s : State) : Option ClientPtr :=
  q.find? fun c => (s.client c).map McClient.name = some name

/-- The first guard that passes the test gets another state. -/
def setGuard (p : McGuard → Bool) (state : GuardState) : List McGuard → Option (List McGuard)
  | [] => none
  | g :: gs => if p g then some ({ g with state } :: gs) else (setGuard p state gs).map (g :: ·)

/-- The answer when the guards decide. -/
def State.guardAnswer (gs : Option (List McGuard)) (s : State) : State × Bool :=
  match gs with
  | some gs => ({ s with guardHead := gs }, true)
  | none => (s, false)

/-- `mcd_client_attach`, with its answer. -/
def mcdClientAttach (name : String) (started : Bool) (s : State) : Option (State × Bool) :=
  match s.findName s.detachdq name with
  | some c =>
      (s.client c).bind fun x =>
        match x.state.kind with
        | .running =>
            let s := activateTasks c x.tasks.length s
            let s := mcdClientActive c s.probeTime s
            let s := s.modify c fun x => { x with state := ⟨x.state.kind, false⟩ }
            some (s.listMove .running c, true)
        | .dead =>
            let s := s.modify c fun x => { x with state := ⟨x.state.kind, false⟩ }
            (mcdClientRestart c started (s.listMove .dead c)).map fun s => (s, true)
        | _ => some (s, false)
  | none =>
      some (s.guardAnswer
        (setGuard (fun g => g.state = .detach ∧ g.name = name) .new s.guardHead))

/-- `mcd_client_detach`, with its answer; `exit` is the field of the message. -/
def mcdClientDetach (name : String) (exit notified : Bool) (s : State) : Option (State × Bool) :=
  match s.findName s.runningq name with
  | some c =>
      (s.client c).bind fun x =>
        let s := (s.delTasks c).listMove .detachd c
        let s := s.modify c fun x => { x with state := ⟨x.state.kind, true⟩ }
        if exit ∧ mcClientFExit ∉ x.flags then
          (mcExitClient c notified s).map fun s => (s, true)
        else some (s, true)
  | none =>
      some (s.guardAnswer
        (setGuard (fun g => g.state ≠ .detach ∧ g.name = name) .detach s.guardHead))

/-- `mcd_client_restart_msg`, with its answer. -/
def mcdClientRestartMsg (name : String) (notified : Bool) (s : State) : Option (State × Bool) :=
  match s.findName s.runningq name with
  | some c => (mcExitClient c notified s).map fun s => (s, true)
  | none =>
      some (s.guardAnswer
        (setGuard (fun g => g.state ≠ .detach ∧ g.name = name) .new s.guardHead))

/-! ## Timers -/

def mcdProbe (s : State) : State := { s with probeTime := s.now }

/-- The first loop of `mcd_inspect`, for one task that has missed its heartbeat. -/
def missHeartbeat (s : State) (t : ClientPtr × ℕ) : State :=
  match s.client t.1 with
  | none => s
  | some x =>
      match x.tasks[t.2]? with
      | none => s
      | some task =>
          if task.strategy ∈ x.flags then s
          else
            let s := s.setFlags t.1 (insert task.strategy)
            if task.strategy = mcStrategyRestart then s.listMove .loss t.1 else s

/-- The second loop of `mcd_inspect`, for one client that has missed its probe. -/
def missProbe (s : State) (c : ClientPtr) : State :=
  (s.setFlags c (insert mcStrategyRestart)).listMove .loss c

/-- The third loop of `mcd_inspect`, for one client of `client_lossq`. -/
def punish (notified killed : ClientPtr → Bool) (s : State) (c : ClientPtr) : Option State :=
  (s.client c).bind fun x =>
    if mcClientFExit ∉ x.flags then mcExitClient c (notified c) s
    else if mcClientFKill ∉ x.flags then some (mcKillClient c (killed c) s)
    else some (s.setState c .blocked false)

/-- `mcd_inspect`.  The reboot that a missed heartbeat can ask for runs in a thread of its own, and
is seen here when it sets `MC_F_REBOOT`. -/
def mcdInspect (notified killed : ClientPtr → Bool) (s : State) : Option State :=
  let missed := s.taskHead.reverse.takeWhile fun t => s.taskExpire t ≤ s.now
  let s := missed.foldl missHeartbeat s
  let missed := s.runningq.reverse.takeWhile fun c => s.probeExpire c ≤ s.probeTime
  let s := missed.foldl missProbe s
  s.lossq.foldlM (punish notified killed) s

/-- `client_restart_delay` and `client_restart_review`. -/
def restartTimer (c : ClientPtr) (started : Bool) (s : State) : Option State :=
  (s.client c).bind fun x =>
    match x.restartTiming with
    | some .delay => some (clientRestart c started (s.modify c fun x =>
        { x with restartTiming := none }))
    | some .review =>
        -- a client that runs detached is a state that the review does not expect
        if x.state = ⟨.running, false⟩ then
          some (s.modify c fun x => { x with restartTiming := none })
        else some s
    | none => none

/-! ## The manager hook -/

/-- What `mc_ipc_register_process` meets: the name of the process, the address of the subscriber,
the address of a new record, and whether a name can be copied. -/
structure RegisterEnv where
  processName : Option String
  subscriber : Option SubscriberPtr
  client : Option ClientPtr
  copied : Bool
  deriving DecidableEq, Repr

/-- The end of `mc_ipc_register_process`. -/
def bindSubscriber (h : Handle) (a : SubscriberPtr) (cookie : Cookie) (s : State) :
    Option (State × Bool) :=
  match s.peer h with
  | none => none
  | some p =>
      if p.cookie.isSome then
        -- `ipc_server_bind` fails
        match cookie with
        | .client c => (mcdClientDestroy c s).map fun s => (s, false)
        | .regonly _ => some (s, false)
      else
        some ({ s with
          subscriber := Function.update s.subscriber a (some ⟨cookie, h⟩)
          peer := Function.update s.peer h (some { p with cookie := some a })
          subscribers := s.subscribers + 1 }, true)

/-- `mc_ipc_register_process`, and whether the client is accepted. -/
def mcIpcRegisterProcess (h : Handle) (p : Peer) (info : McReginfo) (env : RegisterEnv)
    (s : State) : Option (State × Bool) :=
  match env.processName, env.subscriber with
  | some name, some a =>
      if s.closing ∨ mcClientMax ≤ s.subscribers ∨ p.mask &&& supportedMask = 0 ∨
          p.mask &&& ~~~supportedMask ≠ 0 then some (s, false)
      else if (s.subscriber a).isSome then none
      else if p.mask &&& mcGuardMask ≠ 0 then
        if p.identity ≠ info.pid ∨ name ≠ info.name then some (s, false)
        else if ∃ c ∈ env.client, (s.client c).isSome then none
        else
          match mcdClientConstruct info a env.client s with
          | none => some (s, false)
          | some (c, s) => bindSubscriber h a (.client c) s
      else if env.copied then bindSubscriber h a (.regonly name) s
      else some (s, false)
  | _, _ => some (s, false)

def mcIpcUnregisterProcess (h : Handle) (s : State) : Option State :=
  match s.cookie h with
  | some (.client c) => (s.client c).map fun _ => s.setFlags c (insert mcClientFUnreg)
  | _ => some s

def mcIpcShutdownProcess (h : Handle) (started : Bool) (s : State) : Option State :=
  match s.cookie h with
  | some (.client c) =>
      (s.client c).bind fun x =>
        (mcdClientDestroy c s).bind fun s' =>
          if x.state.detached ∨ s.closing then some s' else mcdClientRestart c started s'
  | _ => some s

def mcIpcReleaseProcess (h : Handle) (s : State) : State :=
  match (s.peer h).bind Peer.cookie with
  | some a =>
      { s with
        subscriber := Function.update s.subscriber a none
        subscribers := s.subscribers - 1 }
  | none => s

/-! ## The server -/

/-- `ipc_release` for a subscriber. -/
def ipcRelease (h : Handle) (s : State) : State :=
  let s := mcIpcReleaseProcess h s
  { s with peer := Function.update s.peer h none }

/-- `ipc_server_register`; `sent` says whether the answer reaches the client. -/
def ipcServerRegister (h : Handle) (identity : ℤ) (mask : UInt64) (info : McReginfo)
    (env : RegisterEnv) (sent started : Bool) (s : State) : Option State :=
  if (s.peer h).isSome then none
  else
    let p : Peer := ⟨identity, mask, none⟩
    let s := { s with peer := Function.update s.peer h (some p) }
    (mcIpcRegisterProcess h p info env s).bind fun r =>
      if !r.2 then some (ipcRelease h r.1)
      else if sent then some r.1
      else (mcIpcShutdownProcess h started r.1).map (ipcRelease h)

def ipcServerUnregister (h : Handle) (s : State) : Option State :=
  if (s.peer h).isSome then (mcIpcUnregisterProcess h s).map (ipcRelease h) else none

/-- The end of `ipc_common_socket_handler`: the peer has closed the connection, or, if not
`shutdown`, its message cannot be taken. -/
def ipcCommonSocketHandler (h : Handle) (shutdown started : Bool) (s : State) : Option State :=
  if (s.peer h).isSome then
    if shutdown then (mcIpcShutdownProcess h started s).map (ipcRelease h)
    else some (ipcRelease h s)
  else none

/-! ## Steps -/

/-- A step, with what the environment decides. -/
inductive Label
  | tick (now : ℤ)
  /-- `MC_F_REBOOT` or `MC_F_SHUTDOWN` is set. -/
  | close
  | register (h : Handle) (identity : ℤ) (mask : UInt64) (info : McReginfo) (env : RegisterEnv)
      (sent started : Bool)
  /-- `IPC_CLIENT_SYNC`. -/
  | sync (h : Handle)
  | unregister (h : Handle)
  | hangup (h : Handle) (started : Bool)
  /-- A bad message ends the connection. -/
  | drop (h : Handle)
  | heartbeat (h : Handle) (pid : ℤ) (tid : ℕ)
  | probe (h : Handle) (time : ℤ)
  | attach (name : String) (started : Bool)
  | detach (name : String) (exit notified : Bool)
  | restart (name : String) (notified : Bool)
  | probeTimer
  | inspect (notified killed : ClientPtr → Bool)
  | restartTimer (c : ClientPtr) (started : Bool)

/-- `mc_ipc_sync_process` tells a client who is ready, if its subscriber is there. -/
def mcIpcSyncProcess (h : Handle) (s : State) : Option State :=
  match s.cookie h with
  | some (.client c) => (senderClient c s).map fun _ => s
  | _ => some s

/-- What a step shows: the answer to a message of a tool. -/
inductive Event
  | answered (found : Bool)
  deriving DecidableEq, Repr

/-- A step without events. -/
def quietly (s : Option State) : Option (State × List Event) := s.map fun s => (s, [])

/-- A step with an answer. -/
def answering (r : Option (State × Bool)) : Option (State × List Event) :=
  r.map fun r => (r.1, [.answered r.2])

/-- The step function. -/
def step (s : State) : Label → Option (State × List Event)
  | .tick now => if s.now ≤ now then some ({ s with now }, []) else none
  | .close => some ({ s with closing := true }, [])
  | .register h identity mask info env sent started =>
      quietly (ipcServerRegister h identity mask info env sent started s)
  | .sync h => quietly (mcIpcSyncProcess h s)
  | .unregister h => quietly (ipcServerUnregister h s)
  | .hangup h started => quietly (ipcCommonSocketHandler h true started s)
  | .drop h => quietly (ipcCommonSocketHandler h false false s)
  | .heartbeat h pid tid => quietly (mcdClientHeartbeatMsg h pid tid s)
  | .probe h time => quietly (mcdClientProbeMsg h time s)
  | .attach name started => answering (mcdClientAttach name started s)
  | .detach name exit notified => answering (mcdClientDetach name exit notified s)
  | .restart name notified => answering (mcdClientRestartMsg name notified s)
  | .probeTimer => some (mcdProbe s, [])
  | .inspect notified killed => quietly (mcdInspect notified killed s)
  | .restartTimer c started => quietly (restartTimer c started s)

/-- `mc_init` and `mcd_guard_run`: no client, and the guards of the table and of the
configuration. -/
def mcInit (config : McConfig) (now : ℤ) (guards : List McGuard) : State where
  config := config
  now := now
  closing := false
  subscribers := 0
  probeTime := now
  runningq := []
  lossq := []
  detachdq := []
  deadq := []
  taskHead := []
  guardHead := guards
  client := fun _ => none
  subscriber := fun _ => none
  peer := fun _ => none

/-! ## What the handlers do -/

section Handlers

variable {s s' : State} {c : ClientPtr} {h : Handle} {r : State × Bool}

lemma client_of_sender {x : McClient} (h : senderClient c s = some x) : s.client c = some x := by
  obtain ⟨y, hy, h⟩ := Option.bind_eq_some_iff.mp h
  obtain ⟨_, _, rfl⟩ := Option.map_eq_some_iff.mp h
  exact hy

lemma isSome_of_sender {x : McClient} (h : senderClient c s = some x) :
    (s.client c).isSome = true := by
  rw [client_of_sender h]
  rfl

/-- At most a mark is left on the client. -/
lemma mcExitClient_cases {notified : Bool} (hstep : mcExitClient c notified s = some s') :
    s' = s ∨ s' = s.setFlags c (insert mcClientFExit) := by
  obtain ⟨x, hx, hstep⟩ := Option.bind_eq_some_iff.mp hstep
  split at hstep
  · obtain ⟨_, _, rfl⟩ := Option.map_eq_some_iff.mp hstep
    split_ifs
    · exact .inr rfl
    · exact .inl rfl
  · exact .inl (Option.some.inj hstep).symm

lemma mcKillClient_cases (c : ClientPtr) (killed : Bool) (s : State) :
    mcKillClient c killed s = s ∨
      mcKillClient c killed s = s.setFlags c (insert mcClientFKill) := by
  unfold mcKillClient
  split_ifs
  · exact .inr rfl
  · exact .inl rfl

lemma mcdClientHeartbeatMsg_cases {pid : ℤ} {tid : ℕ}
    (hstep : mcdClientHeartbeatMsg h pid tid s = some s') :
    s' = s ∨ ∃ c i flags, (s.client c).isSome = true ∧
      s' = (mcTaskActive c i s).setFlags c flags := by
  unfold mcdClientHeartbeatMsg at hstep
  split at hstep
  · rename_i c _
    obtain ⟨x, hx, rfl⟩ := Option.map_eq_some_iff.mp hstep
    split_ifs
    · exact .inl rfl
    · split
      · exact .inl rfl
      · exact .inr ⟨c, _, _, isSome_of_sender hx, rfl⟩
  · exact .inl (Option.some.inj hstep).symm

lemma mcdClientProbeMsg_cases {time : ℤ} (hstep : mcdClientProbeMsg h time s = some s') :
    s' = s ∨ ∃ c, (s.client c).isSome = true ∧ s' = mcdClientActive c time s := by
  unfold mcdClientProbeMsg at hstep
  split at hstep
  · rename_i c _
    obtain ⟨x, hx, rfl⟩ := Option.map_eq_some_iff.mp hstep
    split_ifs
    · exact .inl rfl
    · exact .inr ⟨c, isSome_of_sender hx, rfl⟩
  · exact .inl (Option.some.inj hstep).symm

lemma mcIpcSyncProcess_eq (hstep : mcIpcSyncProcess h s = some s') : s' = s := by
  unfold mcIpcSyncProcess at hstep
  split at hstep
  · obtain ⟨_, _, rfl⟩ := Option.map_eq_some_iff.mp hstep
    rfl
  · exact (Option.some.inj hstep).symm

/-- A client that runs goes to the tail of `client_runningq`, one that is dead is restarted. -/
lemma mcdClientAttach_cases {name : String} {started : Bool}
    (hstep : mcdClientAttach name started s = some r) :
    (∃ c x, s.findName s.detachdq name = some c ∧ s.client c = some x ∧
      (x.state.kind = .running ∧
          r.1 = ((mcdClientActive c (activateTasks c x.tasks.length s).probeTime
            (activateTasks c x.tasks.length s)).modify c fun x =>
              { x with state := ⟨x.state.kind, false⟩ }).listMove .running c ∨
        x.state.kind = .dead ∧ mcdClientRestart c started ((s.modify c fun x =>
          { x with state := ⟨x.state.kind, false⟩ }).listMove .dead c) = some r.1 ∨
        x.state.kind ≠ .running ∧ r.1 = s)) ∨
    ∃ gs, r = s.guardAnswer gs := by
  unfold mcdClientAttach at hstep
  split at hstep
  · rename_i c hfind
    obtain ⟨x, hx, hstep⟩ := Option.bind_eq_some_iff.mp hstep
    refine .inl ⟨c, x, hfind, hx, ?_⟩
    split at hstep
    · rename_i hkind
      obtain rfl := Option.some.inj hstep
      exact .inl ⟨hkind, rfl⟩
    · rename_i hkind
      obtain ⟨s₂, hrestart, rfl⟩ := Option.map_eq_some_iff.mp hstep
      exact .inr (.inl ⟨hkind, hrestart⟩)
    · rename_i hrunning _
      obtain rfl := Option.some.inj hstep
      exact .inr (.inr ⟨hrunning, rfl⟩)
  · exact .inr ⟨_, (Option.some.inj hstep).symm⟩

lemma mcdClientDetach_cases {name : String} {exit notified : Bool}
    (hstep : mcdClientDetach name exit notified s = some r) :
    (∃ c x s₁, s.client c = some x ∧
      s₁ = (((s.delTasks c).listMove .detachd c).modify c fun x =>
        { x with state := ⟨x.state.kind, true⟩ }) ∧
      (r.1 = s₁ ∨ mcExitClient c notified s₁ = some r.1)) ∨
    ∃ gs, r = s.guardAnswer gs := by
  unfold mcdClientDetach at hstep
  split at hstep
  · rename_i c _
    obtain ⟨x, hx, hstep⟩ := Option.bind_eq_some_iff.mp hstep
    refine .inl ⟨c, x, _, hx, rfl, ?_⟩
    simp only at hstep
    split at hstep
    · obtain ⟨s₂, hexit, rfl⟩ := Option.map_eq_some_iff.mp hstep
      exact .inr hexit
    · obtain rfl := Option.some.inj hstep
      exact .inl rfl
  · exact .inr ⟨_, (Option.some.inj hstep).symm⟩

lemma mcdClientRestartMsg_cases {name : String} {notified : Bool}
    (hstep : mcdClientRestartMsg name notified s = some r) :
    (∃ c, mcExitClient c notified s = some r.1) ∨ ∃ gs, r = s.guardAnswer gs := by
  unfold mcdClientRestartMsg at hstep
  split at hstep
  · obtain ⟨s₂, hexit, rfl⟩ := Option.map_eq_some_iff.mp hstep
    exact .inl ⟨_, hexit⟩
  · exact .inr ⟨_, (Option.some.inj hstep).symm⟩

lemma punish_cases {notified killed : ClientPtr → Bool}
    (hstep : punish notified killed s c = some s') :
    mcExitClient c (notified c) s = some s' ∨ s' = mcKillClient c (killed c) s ∨
      s' = s.setState c .blocked false := by
  obtain ⟨x, hx, hstep⟩ := Option.bind_eq_some_iff.mp hstep
  split at hstep
  · exact .inl hstep
  · split at hstep
    · exact .inr (.inl (Option.some.inj hstep).symm)
    · exact .inr (.inr (Option.some.inj hstep).symm)

/-- The timer of a client is over, or the state is one that the review does not expect. -/
lemma restartTimer_cases {started : Bool} (hstep : restartTimer c started s = some s') :
    s' = s ∨ s' = (s.modify c fun x => { x with restartTiming := none }) ∨
      s' = clientRestart c started (s.modify c fun x => { x with restartTiming := none }) := by
  obtain ⟨x, hx, hstep⟩ := Option.bind_eq_some_iff.mp hstep
  split at hstep
  · exact .inr (.inr (Option.some.inj hstep).symm)
  · split at hstep
    · exact .inr (.inl (Option.some.inj hstep).symm)
    · exact .inl (Option.some.inj hstep).symm
  · cases hstep

lemma mcIpcUnregisterProcess_cases (hstep : mcIpcUnregisterProcess h s = some s') :
    s' = s ∨ ∃ c, s' = s.setFlags c (insert mcClientFUnreg) := by
  unfold mcIpcUnregisterProcess at hstep
  split at hstep
  · obtain ⟨_, _, rfl⟩ := Option.map_eq_some_iff.mp hstep
    exact .inr ⟨_, rfl⟩
  · exact .inl (Option.some.inj hstep).symm

lemma ipcServerUnregister_cases (hstep : ipcServerUnregister h s = some s') :
    ∃ s₁, mcIpcUnregisterProcess h s = some s₁ ∧ s' = ipcRelease h s₁ := by
  unfold ipcServerUnregister at hstep
  split at hstep
  · obtain ⟨s₁, hunregister, rfl⟩ := Option.map_eq_some_iff.mp hstep
    exact ⟨s₁, hunregister, rfl⟩
  · cases hstep

/-- The peer has closed the connection, or sent a bad message. -/
lemma ipcCommonSocketHandler_cases {shutdown started : Bool}
    (hstep : ipcCommonSocketHandler h shutdown started s = some s') :
    shutdown = true ∧ (∃ s₁, mcIpcShutdownProcess h started s = some s₁ ∧ s' = ipcRelease h s₁) ∨
      shutdown = false ∧ s' = ipcRelease h s := by
  unfold ipcCommonSocketHandler at hstep
  split at hstep
  · cases shutdown with
    | true =>
      obtain ⟨s₁, hshutdown, rfl⟩ := Option.map_eq_some_iff.mp hstep
      exact .inl ⟨rfl, s₁, hshutdown, rfl⟩
    | false => exact .inr ⟨rfl, (Option.some.inj hstep).symm⟩
  · cases hstep

/-- The shutdown of a client destroys it, and may restart it. -/
lemma mcIpcShutdownProcess_cases {started : Bool}
    (hstep : mcIpcShutdownProcess h started s = some s') :
    (∃ c s₁, s.cookie h = some (.client c) ∧ mcdClientDestroy c s = some s₁ ∧
      (s' = s₁ ∨ mcdClientRestart c started s₁ = some s')) ∨
    (∀ c, s.cookie h ≠ some (.client c)) ∧ s' = s := by
  unfold mcIpcShutdownProcess at hstep
  split at hstep
  · rename_i c hcookie
    obtain ⟨x, hx, hstep⟩ := Option.bind_eq_some_iff.mp hstep
    obtain ⟨s₁, hdestroy, hstep⟩ := Option.bind_eq_some_iff.mp hstep
    refine .inl ⟨c, s₁, hcookie, hdestroy, ?_⟩
    split at hstep
    · exact .inl (Option.some.inj hstep).symm
    · exact .inr hstep
  · rename_i hother
    exact .inr ⟨hother, (Option.some.inj hstep).symm⟩

variable {info : McReginfo} {env : RegisterEnv} {accepted : Bool}

/-- A process is refused, or it is bound with a record, or without one. -/
lemma mcIpcRegisterProcess_cases {p : Peer}
    (hstep : mcIpcRegisterProcess h p info env s = some (s', accepted)) :
    accepted = false ∧ s' = s ∨
    ∃ name a, env.processName = some name ∧ env.subscriber = some a ∧ s.subscriber a = none ∧
      ¬ (s.closing ∨ mcClientMax ≤ s.subscribers ∨ p.mask &&& supportedMask = 0 ∨
        p.mask &&& ~~~supportedMask ≠ 0) ∧
      ((∃ c s₁, p.mask &&& mcGuardMask ≠ 0 ∧ p.identity = info.pid ∧ name = info.name ∧
          (∀ c ∈ env.client, s.client c = none) ∧
          mcdClientConstruct info a env.client s = some (c, s₁) ∧
          bindSubscriber h a (.client c) s₁ = some (s', accepted)) ∨
        bindSubscriber h a (.regonly name) s = some (s', accepted)) := by
  have hrefused (hstep : some (s, false) = some (s', accepted)) : accepted = false ∧ s' = s := by
    obtain ⟨rfl, rfl⟩ := Prod.mk.inj (Option.some.inj hstep)
    exact ⟨rfl, rfl⟩
  unfold mcIpcRegisterProcess at hstep
  split at hstep
  swap
  · exact .inl (hrefused hstep)
  rename_i name a hname ha
  split at hstep
  · exact .inl (hrefused hstep)
  rename_i hopen
  split at hstep
  · cases hstep
  rename_i hfree
  have hold : s.subscriber a = none := Option.not_isSome_iff_eq_none.mp hfree
  split at hstep
  · rename_i hguard
    split at hstep
    · exact .inl (hrefused hstep)
    rename_i hinfo
    split at hstep
    · cases hstep
    rename_i hmem
    split at hstep
    · exact .inl (hrefused hstep)
    rename_i c s₁ hconstruct
    push Not at hinfo
    refine .inr ⟨name, a, hname, ha, hold, hopen, .inl ⟨c, s₁, hguard, hinfo.1, hinfo.2,
      fun d hd => ?_, hconstruct, hstep⟩⟩
    exact Option.not_isSome_iff_eq_none.mp fun hsome => hmem ⟨d, hd, hsome⟩
  · split at hstep
    · exact .inr ⟨name, a, hname, ha, hold, hopen, .inr hstep⟩
    · exact .inl (hrefused hstep)

/-- The peer stays if the process is accepted and the answer reaches it. -/
lemma ipcServerRegister_cases {identity : ℤ} {mask : UInt64} {sent started : Bool}
    (hstep : ipcServerRegister h identity mask info env sent started s = some s') :
    ∃ s₁ accepted, mcIpcRegisterProcess h ⟨identity, mask, none⟩ info env
        { s with peer := Function.update s.peer h (some ⟨identity, mask, none⟩) } =
          some (s₁, accepted) ∧
      (accepted = false ∧ s' = ipcRelease h s₁ ∨ accepted = true ∧ s' = s₁ ∨
        accepted = true ∧ ∃ s₂, mcIpcShutdownProcess h started s₁ = some s₂ ∧
          s' = ipcRelease h s₂) := by
  unfold ipcServerRegister at hstep
  split at hstep
  · cases hstep
  · obtain ⟨⟨s₁, accepted⟩, hregister, hstep⟩ := Option.bind_eq_some_iff.mp hstep
    refine ⟨s₁, accepted, hregister, ?_⟩
    cases accepted with
    | false => exact .inl ⟨rfl, (Option.some.inj hstep).symm⟩
    | true =>
      cases sent with
      | true => exact .inr (.inl ⟨rfl, (Option.some.inj hstep).symm⟩)
      | false =>
        obtain ⟨s₂, hshutdown, rfl⟩ := Option.map_eq_some_iff.mp hstep
        exact .inr (.inr ⟨rfl, s₂, hshutdown, rfl⟩)

end Handlers

end LinuxC.Mcd.Clients
