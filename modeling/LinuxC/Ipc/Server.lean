import LinuxC.Common.ListHead
import LinuxC.Ipc.Bits
import LinuxC.Ipc.Message

/-!
# The handles of the server (`ipc/ipc_server.c`)

The core keeps a list of handles: the master, the requesters and the subscribers.  A subscriber
is a peer with a mask of topics and one node for each bit of the mask; `IPC_SDK_MSG_SYNC` links
the nodes into the topic buckets `core->node_hb`, and `ipc_release` takes them out.

A handle is named by the number of its allocation, so that two handles are different even if
`malloc` gives out an address again.  The links of the buckets and of the nodes are those of the
memory.  The calls of the manager hook are logged; the result of the hook is part of the entry
where the source reads it.  A use of a handle that is released is recorded in `stale` and does
nothing else.  `aborted` is set where an assertion fails, and `dead` there and where a loop does not
end.

What the environment decides — allocations, the hooks, `send` — is a parameter of the operation
that asks for it.  The cookies of the handles and the message that a publication carries are not
part of the model.
-/

namespace LinuxC.Ipc

/-! ## Data -/

/-- The address of a handle. -/
abbrev Ptr := ℕ

inductive IpcClass
  | dummy
  | requester
  | subscriber
  | master
  | proxy
  deriving DecidableEq, Repr

/-- `struct ipc_server`, with the mask and the nodes of the peer around it for a subscriber.  Of a
node only `sevr` is here: whether it is set.  Without nodes `peer->node` is null. -/
structure IpcServer where
  clazz : IpcClass
  identity : ℤ
  sock : ℕ
  mask : UInt64 := 0
  node : List Bool := []
  deriving DecidableEq, Repr

/-- `enum IPC_MANAGER_CMD`. -/
inductive ManagerCmd
  | release
  | connect (result : ℤ)
  | register (result : ℤ)
  | sync
  | unregister
  | shutdown
  deriving DecidableEq, Repr

/-- A call of the manager hook. -/
structure ManagerCall where
  sevr : Ptr
  cmd : ManagerCmd
  deriving DecidableEq, Repr

/-- The address of a `struct list_head`: a bucket, or a node of a peer. -/
inductive Addr
  | bucket (i : ℕ)
  | node (p : Ptr) (j : ℕ)
  deriving DecidableEq, Repr

/-- The handle that `node->sevr` points to. -/
def Addr.sevr : Addr → Option Ptr
  | .bucket _ => none
  | .node p _ => some p

structure IpcCore where
  head : List Ptr
  handle : Ptr → Option IpcServer
  /-- The handle that is allocated next. -/
  brk : Ptr
  /-- `core->node_hb` is not null. -/
  nodeHb : Bool
  links : Links Addr
  inited : Bool
  running : Bool
  log : List ManagerCall
  /-- The sockets that were closed. -/
  closed : List ℕ
  stale : List Ptr
  dead : Bool
  aborted : Bool

/-- A running server with its master handle, before the first client. -/
def IpcCore.boot (masterSock : ℕ) : IpcCore where
  head := [0]
  handle := fun p => if p = 0 then some ⟨.master, 0, masterSock, 0, []⟩ else none
  brk := 1
  nodeHb := false
  links := ⟨id, id⟩
  inited := true
  running := true
  log := []
  closed := []
  stale := []
  dead := false
  aborted := false

namespace IpcCore

/-- The fields of the handle `p` are changed. -/
def setHandle (core : IpcCore) (p : Ptr) (s : Option IpcServer) : IpcCore :=
  { core with handle := fun x => if x = p then s else core.handle x }

/-- The handle `p` is used after its release. -/
def useStale (core : IpcCore) (p : Ptr) : IpcCore := { core with stale := core.stale ++ [p] }

/-- An assertion fails. -/
def abort (core : IpcCore) : IpcCore := { core with dead := true, aborted := true }

end IpcCore

/-- The handle is a live subscriber. -/
def IpcCore.isPeer (core : IpcCore) (p : Ptr) : Bool :=
  (core.handle p).any fun s => decide (s.clazz = .subscriber)

lemma IpcCore.isPeer_iff {core : IpcCore} {p : Ptr} :
    core.isPeer p = true ↔ ∃ s, core.handle p = some s ∧ s.clazz = .subscriber := by
  simp [IpcCore.isPeer, Option.any_eq_true]

def ipcServerManager (p : Ptr) (cmd : ManagerCmd) (core : IpcCore) : IpcCore :=
  { core with log := core.log ++ [⟨p, cmd⟩] }

/-- `close`. -/
def closeSock (sock : ℕ) (core : IpcCore) : IpcCore :=
  { core with closed := core.closed ++ [sock] }

/-! ## Creation -/

/-- `malloc` for a handle and `sevr_init`. -/
def sevrInit (s : IpcServer) (core : IpcCore) : IpcCore :=
  { core.setHandle core.brk (some s) with head := core.head ++ [core.brk], brk := core.brk + 1 }

def nodeHashBucketInit (core : IpcCore) : IpcCore :=
  { core with
    nodeHb := true
    links := (List.range 64).foldl (fun l i => initListHead (.bucket i) l) core.links }

/-- What `malloc` and `calloc` do in `ipc_peer_create`. -/
structure PeerAlloc where
  peer : Bool
  node : Bool
  nodeHb : Bool
  deriving DecidableEq, Repr

/-- The buckets, allocated at the first registration. -/
def needBuckets (core : IpcCore) : IpcCore :=
  if core.nodeHb then core else nodeHashBucketInit core

/-- `ipc_peer_create`: the new handle is `core.brk`. -/
def ipcPeerCreate (mask : UInt64) (identity : ℤ) (sock : ℕ) (alloc : PeerAlloc)
    (core : IpcCore) : Option IpcCore :=
  if mask = 0 then some core.abort
  else if !alloc.peer then none
  else if !alloc.node then none
  else if !core.nodeHb && !alloc.nodeHb then none
  else
    some (sevrInit ⟨.subscriber, identity, sock, mask, List.replicate (bitCount mask) false⟩
      (needBuckets core))

/-! ## Synchronisation -/

/-- The node `j` of the peer is put into the bucket `i`. -/
def linkNode (p : Ptr) (i j : ℕ) (core : IpcCore) : IpcCore :=
  { core with
    handle := fun x =>
      if x = p then (core.handle x).map fun s => { s with node := s.node.set j true }
      else core.handle x
    links := listAddTail (.node p j) (.bucket i) core.links }

/-- The loop of `ipc_peer_node_init`. -/
def nodeInitLoop (p : Ptr) : ℕ → UInt64 → ℕ → ℕ → IpcCore → IpcCore
  | 0, _, _, _, core => core
  | fuel + 1, mask, i, j, core =>
      if mask = 0 then core
      else if mask &&& 1 ≠ 0 then
        nodeInitLoop p fuel (mask >>> 1) (i + 1) (j + 1) (linkNode p i j core)
      else nodeInitLoop p fuel (mask >>> 1) (i + 1) j core

/-- `ipc_peer_node_init`: a mask has 64 bits. -/
def ipcPeerNodeInit (p : Ptr) (mask : UInt64) (core : IpcCore) : IpcCore :=
  nodeInitLoop p 64 mask 0 0 core

def ipcServerSync (p : Ptr) (core : IpcCore) : IpcCore :=
  match core.handle p with
  | none => core.useStale p
  | some s =>
      if s.clazz ≠ .subscriber then core.abort
      else if s.node = [] then core.abort
      else ipcServerManager p .sync (ipcPeerNodeInit p s.mask core)

/-! ## Release -/

/-- The loop of `ipc_release` over the nodes of a peer. -/
def releaseNodes (p : Ptr) (s : IpcServer) (links : Links Addr) : Links Addr :=
  (List.range (bitCount s.mask)).foldl
    (fun l j => if s.node[j]? = some true then listDelete (.node p j) l else l) links

/-- The end of `ipc_release`: the handle leaves the list of the core. -/
def ipcFree (p : Ptr) (s : IpcServer) (core : IpcCore) : IpcCore :=
  closeSock s.sock { core.setHandle p none with head := core.head.erase p }

def ipcRelease (p : Ptr) (core : IpcCore) : IpcCore :=
  match core.handle p with
  | none => core.useStale p
  | some s =>
      match s.clazz with
      | .dummy => core.abort
      | .requester => ipcFree p s (ipcServerManager p .release core)
      | .subscriber =>
          ipcFree p s { ipcServerManager p .release core with
            links := releaseNodes p s core.links }
      | .master => ipcFree p s core
      | .proxy => ipcFree p s core

/-- `ipc_server_unregister`: it fails for a handle that is no subscriber, or has no nodes. -/
def ipcServerUnregister (p : Ptr) (core : IpcCore) : IpcCore × Bool :=
  match core.handle p with
  | none => (core.useStale p, true)
  | some s =>
      if s.clazz ≠ .subscriber then (core, false)
      else if s.node = [] then (core, false)
      else (ipcRelease p (ipcServerManager p .unregister core), true)

/-! ## Registration -/

/-- The field `mask` of `struct ipc_reg` in a message. -/
def regMask (msg : IpcMsg) : UInt64 := UInt64.ofNat (leNat (msg.data.take 8))

/-- What the environment does in `ipc_server_register`: the allocations, the result of the
manager hook, whether the reply could be sent. -/
structure RegisterEnv where
  alloc : PeerAlloc
  verdict : ℤ
  sent : Bool
  deriving DecidableEq, Repr

/-- `ipc_server_register`, once the peer `p` exists. -/
def registerPeer (p : Ptr) (env : RegisterEnv) (core : IpcCore) : IpcCore :=
  if env.verdict < 0 then ipcRelease p (ipcServerManager p (.register env.verdict) core)
  else if env.sent then ipcServerManager p (.register env.verdict) core
  else
    ipcRelease p (ipcServerManager p .shutdown (ipcServerManager p (.register env.verdict) core))

def ipcServerRegister (sock : ℕ) (msg : IpcMsg) (env : RegisterEnv) (core : IpcCore) : IpcCore :=
  if regMask msg = 0 then closeSock sock core
  else
    match ipcPeerCreate (regMask msg) (int32 msg.fromId.toNat) sock env.alloc core with
    | none => closeSock sock core
    | some core' => if core'.dead then core' else registerPeer core.brk env core'

lemma needBuckets_brk (core : IpcCore) : (needBuckets core).brk = core.brk := by
  unfold needBuckets
  split_ifs <;> rfl

/-- The handle that `ipc_server_register` makes. -/
def newSubscriber (sock : ℕ) (msg : IpcMsg) : IpcServer :=
  ⟨.subscriber, int32 msg.fromId.toNat, sock, regMask msg,
    List.replicate (bitCount (regMask msg)) false⟩

/-- A registration ends without a handle, or there is a new one, which is then not used if an
assertion has failed. -/
lemma ipcServerRegister_cases (sock : ℕ) (msg : IpcMsg) (env : RegisterEnv) (core : IpcCore) :
    ipcServerRegister sock msg env core = closeSock sock core ∨
    regMask msg ≠ 0 ∧ ∃ core', core' = sevrInit (newSubscriber sock msg) (needBuckets core) ∧
      (core'.dead = true ∧ ipcServerRegister sock msg env core = core' ∨
        ipcServerRegister sock msg env core = registerPeer core.brk env core') := by
  unfold ipcServerRegister
  split_ifs with hmask
  · exact .inl rfl
  · unfold ipcPeerCreate
    rw [if_neg hmask]
    split_ifs
    · exact .inl rfl
    · exact .inl rfl
    · exact .inl rfl
    · refine .inr ⟨hmask, _, rfl, ?_⟩
      dsimp only
      split_ifs with hdead
      · exact .inl ⟨hdead, rfl⟩
      · exact .inr rfl

/-- The peer is refused, or it is accepted, and lost again if the reply cannot be sent. -/
lemma registerPeer_cases (p : Ptr) (env : RegisterEnv) (core : IpcCore) :
    env.verdict < 0 ∧ registerPeer p env core =
      ipcRelease p (ipcServerManager p (.register env.verdict) core) ∨
    0 ≤ env.verdict ∧
      (registerPeer p env core = ipcServerManager p (.register env.verdict) core ∨
        registerPeer p env core = ipcRelease p
          (ipcServerManager p .shutdown (ipcServerManager p (.register env.verdict) core))) := by
  unfold registerPeer
  split_ifs with hneg
  · exact .inl ⟨hneg, rfl⟩
  · exact .inr ⟨not_lt.mp hneg, .inl rfl⟩
  · exact .inr ⟨not_lt.mp hneg, .inr rfl⟩

/-- What the environment does in `ipc_server_connect`. -/
structure ConnectEnv where
  alloc : Bool
  verdict : ℤ
  sent : Bool
  deriving DecidableEq, Repr

def ipcServerConnect (sock : ℕ) (msg : IpcMsg) (env : ConnectEnv) (core : IpcCore) : IpcCore :=
  if !env.alloc then closeSock sock core
  else
    let core' := ipcServerManager core.brk (.connect env.verdict)
      (sevrInit ⟨.requester, int32 (leNat (msg.data.take 4)), sock, 0, []⟩ core)
    if env.verdict < 0 then ipcRelease core.brk core'
    else if env.sent then core'
    else ipcRelease core.brk core'

/-! ## Publication -/

def ipcToBroadcast : ℤ := 0x7FFFFFFF

/-- `msg_broadcast`: the handles to which it sends.  A loop that visits more nodes than there ever
were handles does not end. -/
def msgBroadcast (i : ℕ) (core : IpcCore) : Option (List Ptr) :=
  (listForEach core.brk (.bucket i) core.links).map (List.filterMap Addr.sevr)

/-- The handle of the node has the identity. -/
def hasIdentity (core : IpcCore) (dest : ℤ) (a : Addr) : Bool :=
  match a.sevr.bind core.handle with
  | some s => decide (s.identity = dest)
  | none => false

def msgUnicast (i : ℕ) (dest : ℤ) (core : IpcCore) : Option (List Ptr) :=
  (listFind core.brk (.bucket i) (hasIdentity core dest) core.links).map fun a =>
    (a.bind Addr.sevr).toList

/-- `msg_broadcast` or `msg_unicast`. -/
def msgDeliver (i : ℕ) (dest : ℤ) (core : IpcCore) : Option (List Ptr) :=
  if dest = ipcToBroadcast then msgBroadcast i core else msgUnicast i dest core

/-- `ipc_server_publish`: the result, and the handles to which it sends.  `packed` says that the
message fits the buffer or was allocated. -/
def ipcServerPublish (dest : ℤ) (topic : UInt64) (packed : Bool) (core : IpcCore) :
    Option (ℤ × List Ptr) :=
  if !core.running then some (-1, [])
  else if !topicCheck topic then some (-1, [])
  else if !packed then some (-1, [])
  else if core.nodeHb then (msgDeliver (bitIndex topic) dest core).map fun sends => (0, sends)
  else some (0, [])

def ipcBrokerPublish (filter : Option (IpcNotify → ℤ)) (notify : IpcNotify) (core : IpcCore) :
    Option (ℤ × List Ptr) :=
  if !topicCheck notify.topic then some (-1, [])
  else if filter.any fun f => decide (f notify < 0) then some (-1, [])
  else if !core.nodeHb then some (0, [])
  else (msgDeliver (bitIndex notify.topic) notify.dest core).map fun sends => (0, sends)

/-- The handles that a publication with this destination and topic is sent to. -/
def publishSends (dest : ℤ) (topic : UInt64) (core : IpcCore) : Option (List Ptr) :=
  if core.nodeHb then msgDeliver (bitIndex topic) dest core else some []

lemma ipcServerPublish_eq {core : IpcCore} (hrun : core.running = true) {topic : UInt64}
    (htopic : topicCheck topic = true) (dest : ℤ) :
    ipcServerPublish dest topic true core =
      (publishSends dest topic core).map fun sends => (0, sends) := by
  simp only [ipcServerPublish, publishSends, hrun, htopic, Bool.not_true, Bool.false_eq_true,
    if_false]
  split_ifs <;> rfl

lemma ipcBrokerPublish_eq {filter : Option (IpcNotify → ℤ)} {notify : IpcNotify}
    (htopic : topicCheck notify.topic = true) (hfilter : ∀ f ∈ filter, 0 ≤ f notify)
    (core : IpcCore) :
    ipcBrokerPublish filter notify core =
      (publishSends notify.dest notify.topic core).map fun sends => (0, sends) := by
  have hpass : (filter.any fun f => decide (f notify < 0)) = false := by
    cases filter with
    | none => rfl
    | some f => simpa using hfilter f rfl
  rw [ipcBrokerPublish, htopic, hpass, publishSends]
  cases core.nodeHb <;> rfl

end LinuxC.Ipc
