import LinuxC.Framework.Transition
import LinuxC.Ipc.Server
import LinuxC.Ipc.SocketHandler

/-!
# Runs of the server (`ipc/ipc_server.c`)

`ipc_loop` calls the handler of every handle whose socket is readable.  The master's handler
accepts a connection, receives one message and creates the handle the message asks for; the
handler of a client is the receive loop of `ipc_common_socket_handler`, with the branches of its
`switch` filled in here.  `ipc_server_exit` ends the run.

A label says which handler runs next and what the environment does meanwhile: the events of the
socket, the allocations, the results of the hooks, whether replies could be sent.  The order in
which the handlers run is any order.  The hooks of the user do not call back into the server.
-/

namespace LinuxC.Ipc

/-! ## One message -/

/-- `IPC_RECEIVE_TMO` and its siblings, the results of `recv_msg` below zero. -/
inductive IpcReceive
  | timeout
  | eof
  | emem
  | err
  | emsg
  | eval
  deriving DecidableEq, Repr

/-- The loop of `recv_stream` over `recv`. -/
def recvLoop (size : ℕ) :
    List SockEvent → Option (Except IpcReceive (List UInt8) × List SockEvent)
  | [] => none
  | .bytes bs :: es => if bs = [] ∨ size < bs.length then none else some (.ok bs, es)
  | .eof :: es => some (.error .eof, es)
  | .err .eintr :: es => recvLoop size es
  | .err _ :: es => some (.error .err, es)
  | .idle :: es => some (.error .err, es)

/-- `recv_stream`: nothing if the socket has no further event, or one that the kernel cannot
deliver. -/
def recvStream (size : ℕ) :
    List SockEvent → Option (Except IpcReceive (List UInt8) × List SockEvent)
  | .idle :: es => some (.error .timeout, es)
  | es => recvLoop size es

/-- The loop of `recv_msg`.  Every pass consumes an event. -/
def recvMsgLoop (size : ℕ) (tmo : ℤ) :
    ℕ → List SockEvent → ℕ → Mem → Option (Except IpcReceive ℕ × Mem)
  | 0, _, _, _ => none
  | fuel + 1, es, offset, m =>
      match recvStream (size - offset) es with
      | none => none
      | some (.error e, _) => some (.error e, m)
      | some (.ok bs, es') =>
          let m' := m.write offset bs
          let offset' := offset + bs.length
          if offset' < ipcMsgHdrlen ∨ offset' < ipcMsgHdrlen + dataLenAt m' 0 then
            if size ≤ offset' then some (.error .emem, m')
            else if tmo < 0 then some (.error .emsg, m')
            else recvMsgLoop size tmo fuel es' offset' m'
          else
            match friendly m' 0 with
            | some m'' => some (.ok offset', m'')
            | none => some (.error .emsg, m')

def recvMsg (size : ℕ) (tmo : ℤ) (es : List SockEvent) (m : Mem) :
    Option (Except IpcReceive ℕ × Mem) :=
  if size < ipcMsgHdrlen then some (.error .eval, m)
  else recvMsgLoop size tmo es.length es 0 m

/-! ## The handler of the user -/

/-- `enum IPC_CLASS` as a number. -/
def IpcClass.val : IpcClass → UInt16
  | .dummy => 0
  | .requester => 1
  | .subscriber => 2
  | .master => 3
  | .proxy => 4

def ipcFlagClientMask : UInt16 := 0x00FF

def ipcFlagReply : UInt16 := 0x0001

/-- `__bit(IPC_BIT_REQUESTER)`. -/
def ipcFlagRequester : UInt16 := 0x0100

/-- `__bit(IPC_BIT_SUBSCRIBER)`. -/
def ipcFlagSubscriber : UInt16 := 0x0200

/-- `__bit(IPC_BIT_ASYNC)`. -/
def ipcFlagAsync : UInt16 := 0x8000

def ipcClass (flags : UInt16) : UInt16 := (flags &&& (ipcFlagRequester ||| ipcFlagSubscriber)) >>> 8

/-- What the handler of the user does with a message, and whether the reply could be sent. -/
structure Answer where
  result : ℤ
  /-- The message as the handler leaves it. -/
  msg : IpcMsg
  sent : Bool
  deriving DecidableEq

/-- The message with the token that `send_msg` puts into it. -/
def IpcMsg.token (f : IpcMsg) : IpcMsg := { f with msgId := f.msgId ||| ipcMsgToken }

/-- The flags with the class of the handle; a master or a proxy has none. -/
def handlerFlags (clazz : IpcClass) (flags : UInt16) : Option UInt16 :=
  match clazz with
  | .dummy => some (flags &&& ipcFlagClientMask)
  | .requester => some ((flags &&& ipcFlagClientMask) ||| ipcFlagRequester)
  | .subscriber => some ((flags &&& ipcFlagClientMask) ||| ipcFlagSubscriber)
  | .master => none
  | .proxy => none

/-- `ipc_handler_invoke`: nothing if the assertion fails, else the message afterwards and whether
the call succeeded. -/
def ipcHandlerInvoke (clazz : IpcClass) (msg : IpcMsg) (answer : Answer) : Option (IpcMsg × Bool) :=
  match handlerFlags clazz msg.flags with
  | none => some (msg, false)
  | some flags =>
      if ipcClass flags ≠ clazz.val then none
      else if answer.result < 0 then some (answer.msg, true)
      else if answer.msg.flags &&& ipcFlagAsync ≠ 0 then some (answer.msg, true)
      else if answer.msg.flags &&& ipcFlagReply = 0 ∨ clazz = .subscriber then
        some (answer.msg, true)
      else some (answer.msg.token, answer.sent)

/-! ## The handler of a client -/

section Handlers

variable (filter : Option (IpcNotify → ℤ))

/-- The core, with the answers that the handler of the user will give.  Behind the end of the list
the handler fails. -/
structure Served where
  core : IpcCore
  answers : List Answer

/-- The next answer of the handler of the user. -/
def Served.answer (s : Served) (msg : IpcMsg) : Answer := s.answers.headD ⟨-1, msg, false⟩

/-- `ipc_broker_publish` in a `switch`: a delivery leaves the token in the message. -/
def brokerBranch (m : Mem) (a : ℕ) (s : Served) : Action Served :=
  match ipcBrokerPublish filter (notifyAt m (a + ipcMsgHdrlen)) s.core with
  | none => ⟨{ s with core := { s.core with dead := true } }, [], false⟩
  | some (code, _) =>
      ⟨s, if code = 0 ∧ s.core.nodeHb then (readMsg m a).token.encode else [], true⟩

/-- The default branch of the `switch`. -/
def invokeBranch (p : Ptr) (msg : IpcMsg) (s : Served) : Action Served :=
  match s.core.handle p with
  | none => ⟨{ s with core := s.core.useStale p }, [], true⟩
  | some sevr =>
      match ipcHandlerInvoke sevr.clazz msg (s.answer msg) with
      | none => ⟨{ s with core := s.core.abort }, [], false⟩
      | some (msg', ok) => ⟨{ s with answers := s.answers.tail }, msg'.encode, ok⟩

/-- The `switch` of `ipc_common_socket_handler`, for the handle `p`. -/
def socketSwitch (p : Ptr) (s : Served) (m : Mem) (a : ℕ) : Action Served :=
  let msg := readMsg m a
  if msg.msgId = ipcSdkMsgConnect then ⟨s, [], false⟩
  else if msg.msgId = ipcSdkMsgRegister then ⟨s, [], false⟩
  else if msg.msgId = ipcSdkMsgSync then
    let core := ipcServerSync p s.core
    ⟨{ s with core := core }, [], !core.dead⟩
  else if msg.msgId = ipcSdkMsgUnregister then
    let r := ipcServerUnregister p s.core
    ⟨{ s with core := r.1 }, if r.2 then msg.token.encode else [], r.2⟩
  else if msg.msgId = ipcSdkMsgNotify then brokerBranch filter m a s
  else invokeBranch p msg s

/-- The manager hook with `IPC_CLIENT_SHUTDOWN`, if the handle is a subscriber. -/
def shutdownPeer (p : Ptr) (core : IpcCore) : IpcCore :=
  match core.handle p with
  | none => core.useStale p
  | some s => if s.clazz = .subscriber then ipcServerManager p .shutdown core else core

/-- What the receive loop calls for the handle `p`.  Nothing happens in a dead server. -/
def serverHooks (p : Ptr) : Hooks Served where
  dispatch s m a := if s.core.dead then ⟨s, [], false⟩ else socketSwitch filter p s m a
  shutdown s := if s.core.dead then s else { s with core := shutdownPeer p s.core }
  release s := if s.core.dead then s else { s with core := ipcRelease p s.core }

/-! ## Runs -/

/-- The core with its buffer and its clone. -/
structure Server where
  core : IpcCore
  buf : IpcBuf
  clone : Mem

/-- A server before the first client. -/
def Server.boot (masterSock : ℕ) (buf : IpcBuf) (clone : Mem) : Server :=
  ⟨IpcCore.boot masterSock, buf, clone⟩

/-- What the environment does while the master's handler runs. -/
structure AcceptEnv where
  /-- What `accept` returns, unless it fails. -/
  sock : Option ℕ
  /-- `sock_opts` succeeds. -/
  opts : Bool
  events : List SockEvent
  connect : ConnectEnv
  register : RegisterEnv
  answer : Answer

/-- The descriptor that is served: the source asks for a positive one, and takes `0` for a failure of
`accept`. -/
def AcceptEnv.accepted (env : AcceptEnv) : Option ℕ := env.sock.filter fun sock => decide (0 < sock)

/-- The `switch` of `ipc_master_socket_handler`, for the message in `m`. -/
def masterSwitch (sock : ℕ) (env : AcceptEnv) (m : Mem) (core : IpcCore) : IpcCore :=
  let msg := readMsg m 0
  if msg.msgId = ipcSdkMsgConnect then ipcServerConnect sock msg env.connect core
  else if msg.msgId = ipcSdkMsgRegister then ipcServerRegister sock msg env.register core
  else if msg.msgId = ipcSdkMsgSync then closeSock sock core
  else if msg.msgId = ipcSdkMsgUnregister then closeSock sock core
  else if msg.msgId = ipcSdkMsgNotify then
    match ipcBrokerPublish filter (notifyAt m ipcMsgHdrlen) core with
    | none => { core with dead := true }
    | some _ => closeSock sock core
  else
    match ipcHandlerInvoke .dummy msg env.answer with
    | none => core.abort
    | some _ => closeSock sock core

/-- `ipc_master_socket_handler`: nothing if the events do not let `recv_msg` return. -/
def ipcMasterSocketHandler (env : AcceptEnv) (s : Server) : Option Server :=
  match env.accepted with
  | none => some s
  | some sock =>
      if !env.opts then some { s with core := closeSock sock s.core }
      else
        match recvMsg s.buf.size 1 env.events s.buf.data with
        | none => none
        | some (.error _, m) =>
            some { s with core := closeSock sock s.core, buf := { s.buf with data := m } }
        | some (.ok _, m) =>
            some { s with core := masterSwitch filter sock env m s.core,
                          buf := { s.buf with data := m } }

/-- The handler of the client `p`: nothing if the events do not let it return. -/
def clientHandler (p : Ptr) (events : List SockEvent) (answers : List Answer) (s : Server) :
    Option Server :=
  let r := ipcCommonSocketHandler (serverHooks filter p) events ⟨s.buf, s.clone, s.core, answers⟩
  if r.exit = .returned ∨ r.exit = .error then
    some ⟨r.conn.state.core, r.conn.buf, r.conn.clone⟩
  else none

def ipcServerProxy (fd : ℕ) (alloc : Bool) (core : IpcCore) : IpcCore :=
  if core.inited && alloc then sevrInit ⟨.proxy, 0, fd, 0, []⟩ core else core

def ipcServerExit (core : IpcCore) : IpcCore :=
  if core.inited then
    { core.head.foldl (fun c p => ipcRelease p c) { core with running := false } with
      nodeHb := false, inited := false }
  else core

/-- The handle belongs to a client: its handler is `ipc_common_socket_handler`. -/
def IpcCore.isClient (core : IpcCore) (p : Ptr) : Bool :=
  (core.handle p).any fun s => decide (s.clazz = .requester ∨ s.clazz = .subscriber)

/-- What happens next. -/
inductive ServerLabel
  | accept (env : AcceptEnv)
  | recv (p : Ptr) (events : List SockEvent) (answers : List Answer)
  | proxy (fd : ℕ) (alloc : Bool)
  | exit

/-- A step of the server. -/
def serverStep (s : Server) (l : ServerLabel) : Option (Server × List Empty) :=
  if s.core.dead then none
  else
    match l with
    | .accept env =>
        if s.core.running then (ipcMasterSocketHandler filter env s).map fun s' => (s', [])
        else none
    | .recv p events answers =>
        if s.core.running && s.core.isClient p then
          (clientHandler filter p events answers s).map fun s' => (s', [])
        else none
    | .proxy fd alloc => some ({ s with core := ipcServerProxy fd alloc s.core }, [])
    | .exit => some ({ s with core := ipcServerExit s.core }, [])

/-- **What a step does to the core.** -/
inductive ServerMoved (s s' : Server) : ServerLabel → Prop
  /-- The master has accepted nothing, or closed the connection at once. -/
  | refused {env : AcceptEnv} (h : s'.core = s.core ∨ ∃ sock, s'.core = closeSock sock s.core) :
      ServerMoved s s' (.accept env)
  | accepted {env : AcceptEnv} (sock : ℕ) (m : Mem)
      (h : s'.core = masterSwitch filter sock env m s.core) : ServerMoved s s' (.accept env)
  | recv {p : Ptr} {events : List SockEvent} {answers : List Answer}
      (hp : s.core.isClient p = true)
      (h : s'.core = (ipcCommonSocketHandler (serverHooks filter p) events
        ⟨s.buf, s.clone, s.core, answers⟩).conn.state.core) :
      ServerMoved s s' (.recv p events answers)
  | proxy {fd : ℕ} {alloc : Bool} (h : s'.core = ipcServerProxy fd alloc s.core) :
      ServerMoved s s' (.proxy fd alloc)
  | exit (h : s'.core = ipcServerExit s.core) : ServerMoved s s' .exit

variable {filter}

lemma serverStep_moved {s s' : Server} {l : ServerLabel} {es : List Empty}
    (hstep : serverStep filter s l = some (s', es)) :
    s.core.dead = false ∧ ServerMoved filter s s' l := by
  unfold serverStep at hstep
  split at hstep
  · cases hstep
  · rename_i hdead
    refine ⟨by simpa using hdead, ?_⟩
    cases l with
    | accept env =>
        simp only [] at hstep
        split_ifs at hstep
        obtain ⟨t, ht, heq⟩ := Option.map_eq_some_iff.mp hstep
        obtain ⟨rfl, -⟩ := Prod.mk.inj heq
        unfold ipcMasterSocketHandler at ht
        split at ht
        · obtain rfl := Option.some.inj ht
          exact .refused (.inl rfl)
        · split_ifs at ht
          · obtain rfl := Option.some.inj ht
            exact .refused (.inr ⟨_, rfl⟩)
          · split at ht
            · cases ht
            · obtain rfl := Option.some.inj ht
              exact .refused (.inr ⟨_, rfl⟩)
            · obtain rfl := Option.some.inj ht
              exact .accepted _ _ rfl
    | recv p events answers =>
        simp only [Bool.and_eq_true] at hstep
        split_ifs at hstep with hp
        obtain ⟨t, ht, heq⟩ := Option.map_eq_some_iff.mp hstep
        obtain ⟨rfl, -⟩ := Prod.mk.inj heq
        simp only [clientHandler] at ht
        split_ifs at ht
        obtain rfl := Option.some.inj ht
        exact .recv hp.2 rfl
    | proxy fd alloc =>
        obtain ⟨rfl, -⟩ := Prod.mk.inj (Option.some.inj hstep)
        exact .proxy rfl
    | exit =>
        obtain ⟨rfl, -⟩ := Prod.mk.inj (Option.some.inj hstep)
        exact .exit rfl

end Handlers

end LinuxC.Ipc
