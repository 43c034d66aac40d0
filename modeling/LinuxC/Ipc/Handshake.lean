import LinuxC.Ipc.Request
import LinuxC.Ipc.Subscriber

/-!
# The registration of a subscriber (`ipc/ipc_client.c`, `ipc/ipc_server.c`)

`ipc_subscriber_connect` sends `IPC_SDK_MSG_REGISTER` and receives the reply with `recv_msg`, into a
buffer of 1024 bytes or more.  `ipc_server_register` calls the manager hook before it sends the
reply, and a broker enters the subscriber into its tables in that hook
(`uapi_broker_subscriber_register`).  From the reply on it forwards events to the subscriber
(`uapi_broker_event_deliver`, `ipc_server_forward`) on the connection that the reply goes over, and
it does not wait for `IPC_SDK_MSG_SYNC`.

A `Link` is that connection: what the client is doing, the core of the server, the events forwarded
and the bytes that the client has not read.  `consumed` is a record of the bytes that the handshake
took off the stream.

`recv_msg` drops what it has received behind the first message.  `registration_boundary` says that
the stream is left in front of the first event, and that the subscriber's task passes every event to
its handler, in every run in which no reception of the handshake returns bytes of an event together
with the reply.
-/

namespace LinuxC.Ipc

/-! ## Negotiation -/

def ipcSdkMsgSuccess : UInt32 := 0x0000FF00

def ipcMsgSdkTimeout : ℤ := 5

/-- The size of the buffer that `alloc_buf` allocates; its arithmetic is that of an
`unsigned int`. -/
def allocBuf (size : ℕ) : ℕ :=
  let size := (size + ipcMsgHdrlen) % 2 ^ 32
  if size % 4 ≠ 0 then (size + (4 - size % 4)) % 2 ^ 32 else size

lemma allocBuf_lt (size : ℕ) : allocBuf size < 2 ^ 32 := by
  rw [allocBuf]
  split <;> exact Nat.mod_lt _ (by decide)

/-- A buffer has room for the header on top of the size asked for, unless the size wraps. -/
lemma allocBuf_bounds (size : ℕ) (h : size + 15 < 2 ^ 32) :
    size + ipcMsgHdrlen ≤ allocBuf size ∧ allocBuf size ≤ size + 15 := by
  have hmod : (size + ipcMsgHdrlen) % 2 ^ 32 = size + ipcMsgHdrlen :=
    Nat.mod_eq_of_lt (by simp only [ipcMsgHdrlen]; omega)
  simp only [allocBuf, hmod]
  by_cases halign : (size + ipcMsgHdrlen) % 4 ≠ 0
  · rw [if_pos halign]
    simp only [ipcMsgHdrlen] at halign ⊢
    omega
  · rw [if_neg halign]
    simp only [ipcMsgHdrlen]
    omega

/-- What the two parties bring to the registration: the subscriber its identity, its topics, its
data and its memory, and the server a socket and the size of its buffer. -/
structure Registration where
  /-- `client->identity`. -/
  identity : UInt32
  mask : UInt64
  /-- The data of the user that is sent along. -/
  data : List UInt8
  /-- The content of the client's buffer before the message is filled in. -/
  buffer : Mem
  /-- The size of `subscriber->buf`, if an earlier connection has left one. -/
  kept : Option ℕ
  /-- The `malloc` of `alloc_buf` succeeds. -/
  alloc : Bool
  /-- The socket on the server's side. -/
  sock : ℕ
  /-- The size that the buffer of the core was allocated with. -/
  coreBuf : ℕ

namespace Registration

variable (g : Registration)

/-- `core->buf->size`. -/
def bufSize : ℕ := allocBuf g.coreBuf

/-- `sizeof(struct ipc_reg) + subscriber->data_len`. -/
def regSize : ℕ := 16 + g.data.length

/-- `sbuf`, the size of the buffer that the reply is received into. -/
def sbuf : ℕ := if ipcMsgHdrlen + g.regSize ≤ 1024 then 1024 else g.regSize + ipcMsgHdrlen

lemma le_sbuf : 1024 ≤ g.sbuf := by
  rw [sbuf]
  split <;> omega

/-- The registering message.  `reg->data` lies before the padding at the end of
`struct ipc_reg`. -/
def registerMsg : Mem :=
  let m := g.buffer.write 4 (toLE 4 ipcSdkMsgRegister.toNat)
  let m := m.write 8 (toLE 2 ipcFlagReply.toNat)
  let m := m.write 12 (toLE 8 g.mask.toNat)
  let m := m.write 20 (toLE 4 g.data.length)
  let m := m.write 24 g.data
  m.write 10 (toLE 2 g.regSize)

end Registration

/-! ## The server -/

/-- `ipc_server_register` without success sends the header of the message back. -/
def registerRefusal (msg : IpcMsg) : IpcMsg :=
  IpcMsg.token ⟨msg.fromId, ipcSdkMsgRegister, msg.flags, [], length_nil_lt⟩

/-- The reply of `ipc_server_register` with the negotiated size of the buffer. -/
def registerSuccess (bufSize : ℕ) (msg : IpcMsg) : IpcMsg :=
  IpcMsg.token ⟨msg.fromId, ipcSdkMsgSuccess, msg.flags, toLE 4 bufSize, by simp⟩

/-- What `ipc_server_register` sends: the reply, and whether it is the one of success. -/
def registerReply (g : Registration) (msg : IpcMsg) (env : RegisterEnv) (core : IpcCore) :
    Option (IpcMsg × Bool) :=
  if regMask msg = 0 then some (registerRefusal msg, false)
  else
    match ipcPeerCreate (regMask msg) (int32 msg.fromId.toNat) g.sock env.alloc core with
    | none => some (registerRefusal msg, false)
    | some core' =>
        if core'.dead then none
        else if env.verdict < 0 then some (registerRefusal msg, false)
        else if env.sent then some (registerSuccess g.bufSize msg, true)
        else none

/-- An event that the broker can forward to the subscriber: a notification of one of its topics
that came through the buffer of the core. -/
def Forwardable (g : Registration) (f : IpcMsg) : Prop :=
  f.isNotify = true ∧ f.NotifyFits ∧ f.length ≤ g.bufSize ∧ accepts g.mask f.notify.topic = true

instance (g : Registration) (f : IpcMsg) : Decidable (Forwardable g f) :=
  inferInstanceAs (Decidable (_ ∧ _))

/-! ## The connection -/

/-- A call of `ipc_subscriber_connect`. -/
inductive Subscribing
  /-- Before the request. -/
  | start
  | receiving (w : Receiving)
  /-- It returned 0; the subscriber's buffer has this size. -/
  | connected (size : ℕ)
  /-- It returned -1. -/
  | failed

/-- The connection of a subscriber during its registration. -/
structure Link where
  client : Subscribing
  /-- The registering message, while it is under way. -/
  request : Option IpcMsg
  core : IpcCore
  /-- The peer, once the reply of success was sent. -/
  peer : Option Ptr
  reply : Option IpcMsg
  forwarded : List IpcMsg
  /-- The bytes that the client has not read. -/
  stream : List UInt8
  /-- The bytes that the handshake has read. -/
  consumed : List UInt8

/-- The connection before the registration. -/
def Link.init (core : IpcCore) : Link := ⟨.start, none, core, none, none, [], [], []⟩

/-- `ipc_subscriber_connect` after `ipc_request` has succeeded with the message in `m`. -/
def ipcSubscriberNegotiate (g : Registration) (m : Mem) : Subscribing :=
  if msgIdAt m 0 ≠ ipcSdkMsgSuccess then .failed
  else
    match g.kept with
    | some size => .connected size
    | none =>
        if g.alloc then .connected (allocBuf (leNat (m.read ipcMsgHdrlen 4))) else .failed

/-- `ipc_subscriber_connect` after a pass of `recv_msg`. -/
def ipcSubscriberConnect (g : Registration) : RecvPass → Subscribing
  | .again w => .receiving w
  | .done (.ok _) m => ipcSubscriberNegotiate g m
  | .done (.error _) _ => .failed

/-- The message with the header that `ipc_request` and `send_msg` put into it. -/
def registerSent (g : Registration) : Mem := sendMsg (requestHeader g.identity g.registerMsg) 0

/-- What happens next during a registration.  The server and the broker go on while the client
waits, so that events may be on the stream before the client has read the reply. -/
inductive LinkLabel
  /-- The client connects and sends its request, if both succeed. -/
  | connect (ok : Bool)
  /-- The server handles the request. -/
  | register (env : RegisterEnv)
  /-- The broker forwards an event. -/
  | forward (f : IpcMsg)
  /-- `recv` returns the next `n` bytes to the handshake. -/
  | recv (n : ℕ)
  /-- `recv_stream` fails in the handshake. -/
  | fail (e : IpcReceive)

/-- The server's part of the registration. -/
def Link.register (g : Registration) (env : RegisterEnv) (req : IpcMsg) (s : Link) : Link :=
  match registerReply g req.strip env s.core with
  | none => { s with request := none, core := ipcServerRegister g.sock req.strip env s.core }
  | some (reply, ok) =>
      { s with
        request := none
        core := ipcServerRegister g.sock req.strip env s.core
        peer := if ok then some s.core.brk else none
        reply := some reply
        stream := s.stream ++ reply.encode }

/-- The steps of a registration. -/
def linkStep (g : Registration) (s : Link) : LinkLabel → Option (Link × List Empty)
  | .connect ok =>
      match s.client with
      | .start =>
          if ok then
            some ({ s with
              client := ipcSubscriberConnect g
                (recvMsgEnter g.sbuf ipcMsgSdkTimeout (registerSent g))
              request := some (readMsg (registerSent g) 0) }, [])
          else some ({ s with client := .failed }, [])
      | _ => none
  | .register env => s.request.map fun req => (s.register g env req, [])
  | .forward f =>
      if s.peer.any s.core.isPeer ∧ Forwardable g f then
        some ({ s with forwarded := s.forwarded ++ [f], stream := s.stream ++ f.encode }, [])
      else none
  | .recv n =>
      match s.client with
      | .receiving w =>
          if 0 < n ∧ n ≤ s.stream.length ∧ n ≤ w.window then
            some ({ s with
              client := ipcSubscriberConnect g (w.pass (s.stream.take n))
              stream := s.stream.drop n
              consumed := s.consumed ++ s.stream.take n }, [])
          else none
      | _ => none
  | .fail e =>
      match s.client with
      | .receiving w =>
          if recvStreamFails w.tmo e then
            some ({ s with client := ipcSubscriberConnect g (w.fail e) }, [])
          else none
      | _ => none

/-! ## The invariant -/

/-- What the server has written before the events. -/
def replyBytes (reply : Option IpcMsg) : List UInt8 := (reply.map IpcMsg.encode).getD []

/-- The broker has a peer, and forwards to it, only after the reply of success. -/
def Replied (g : Registration) (peer : Option Ptr) (forwarded : List IpcMsg) :
    Option IpcMsg → Prop
  | none => peer = none ∧ forwarded = []
  | some r =>
      (∃ msg, r = registerSuccess g.bufSize msg) ∨
        (peer = none ∧ forwarded = [] ∧ ∃ msg, r = registerRefusal msg)

/-- What the client knows: the bytes it has received are the ones consumed, and after a return of 0
these are the reply of success. -/
def Attends (g : Registration) (reply : Option IpcMsg) (consumed : List UInt8) :
    Subscribing → Prop
  | .start => reply = none ∧ consumed = []
  | .receiving w => w.received = consumed
  | .connected size =>
      ∃ msg, reply = some (registerSuccess g.bufSize msg) ∧
        consumed = (registerSuccess g.bufSize msg).encode ∧
        size = g.kept.getD (allocBuf g.bufSize)
  | .failed => True

/-- **The stream of a registration** is the reply, if it was sent, and then the frames that were
forwarded; what the client has read is a part of it from its start, as far as the place in the
client's code says. -/
structure Aligned (g : Registration) (s : Link) : Prop where
  forwardable : ∀ f ∈ s.forwarded, Forwardable g f
  stream : s.consumed ++ s.stream = replyBytes s.reply ++ wire s.forwarded
  replied : Replied g s.peer s.forwarded s.reply
  request : s.request.isSome = true → s.reply = none
  start : s.client = .start → s.request = none
  client : Attends g s.reply s.consumed s.client

lemma aligned_init (g : Registration) (core : IpcCore) : Aligned g (Link.init core) where
  forwardable f hf := absurd hf (by simp [Link.init])
  stream := rfl
  replied := ⟨rfl, rfl⟩
  request h := absurd h (by simp [Link.init])
  start _ := rfl
  client := ⟨rfl, rfl⟩

lemma Aligned.connect {g : Registration} {s : Link} (h : Aligned g s) (hs : s.client = .start) :
    Aligned g { s with
      client := ipcSubscriberConnect g (recvMsgEnter g.sbuf ipcMsgSdkTimeout (registerSent g))
      request := some (readMsg (registerSent g) 0) } := by
  have hclient := h.client
  rw [hs] at hclient
  obtain ⟨hreply, hconsumed⟩ := hclient
  have hroom : ¬ g.sbuf < ipcMsgHdrlen := by
    have := g.le_sbuf
    simp only [ipcMsgHdrlen]
    omega
  have henter : recvMsgEnter g.sbuf ipcMsgSdkTimeout (registerSent g) =
      .again ⟨g.sbuf, ipcMsgSdkTimeout, 0, registerSent g⟩ := if_neg hroom
  refine ⟨h.forwardable, h.stream, h.replied, fun _ => hreply, fun hstart => ?_, ?_⟩
  · rw [henter] at hstart
    exact absurd hstart (by simp [ipcSubscriberConnect])
  · rw [henter]
    show [] = s.consumed
    rw [hconsumed]

lemma registerReply_cases {g : Registration} {msg reply : IpcMsg} {env : RegisterEnv}
    {core : IpcCore} {ok : Bool} (h : registerReply g msg env core = some (reply, ok)) :
    (∃ msg, reply = registerSuccess g.bufSize msg) ∨
      (ok = false ∧ ∃ msg, reply = registerRefusal msg) := by
  have hrefused : some (registerRefusal msg, false) = some (reply, ok) →
      (∃ msg, reply = registerSuccess g.bufSize msg) ∨
        (ok = false ∧ ∃ msg, reply = registerRefusal msg) := by
    intro heq
    obtain ⟨rfl, rfl⟩ := Prod.mk.inj (Option.some.inj heq)
    exact Or.inr ⟨rfl, msg, rfl⟩
  rw [registerReply] at h
  by_cases hmask : regMask msg = 0
  · rw [if_pos hmask] at h
    exact hrefused h
  · rw [if_neg hmask] at h
    cases hcreate : ipcPeerCreate (regMask msg) (int32 msg.fromId.toNat) g.sock env.alloc core with
    | none =>
        rw [hcreate] at h
        exact hrefused h
    | some core' =>
        simp only [hcreate] at h
        split_ifs at h
        · exact hrefused h
        · obtain ⟨rfl, rfl⟩ := Prod.mk.inj (Option.some.inj h)
          exact Or.inl ⟨msg, rfl⟩

/-- The reply of the server is the first that it writes. -/
lemma Aligned.register {g : Registration} {s : Link} (h : Aligned g s) {req : IpcMsg}
    (hreq : s.request = some req) (env : RegisterEnv) : Aligned g (s.register g env req) := by
  have hnone : s.reply = none := h.request (by rw [hreq]; rfl)
  have hstart : s.client ≠ .start := by
    intro hs
    rw [h.start hs] at hreq
    exact absurd hreq (by simp)
  have hrep := h.replied
  rw [hnone] at hrep
  obtain ⟨hpeer, hforwarded⟩ := hrep
  have hstream := h.stream
  rw [hnone, hforwarded] at hstream
  -- the client may be receiving or have given up
  have hclient : ∀ reply, Attends g reply s.consumed s.client := by
    intro reply
    have hc := h.client
    rw [hnone] at hc
    cases hcl : s.client with
    | start => exact absurd hcl hstart
    | receiving w =>
        rw [hcl] at hc
        exact hc
    | connected size =>
        rw [hcl] at hc
        obtain ⟨msg, hmsg, -⟩ := hc
        exact absurd hmsg (by simp)
    | failed => trivial
  rw [Link.register]
  split
  · exact ⟨h.forwardable, h.stream, h.replied, fun _ => hnone, fun _ => rfl, h.client⟩
  · rename_i reply ok hreply
    refine ⟨h.forwardable, ?_, ?_, fun hr => absurd hr (by simp), fun _ => rfl, hclient _⟩
    · show s.consumed ++ (s.stream ++ reply.encode) = reply.encode ++ wire s.forwarded
      rw [← List.append_assoc, hstream, hforwarded]
      simp [replyBytes]
    · rcases registerReply_cases hreply with hsucc | ⟨rfl, hrefused⟩
      · exact Or.inl hsucc
      · exact Or.inr ⟨rfl, hforwarded, hrefused⟩

lemma Aligned.forward {g : Registration} {s : Link} (h : Aligned g s) {f : IpcMsg}
    (hpeer : s.peer ≠ none) (hf : Forwardable g f) :
    Aligned g { s with forwarded := s.forwarded ++ [f], stream := s.stream ++ f.encode } := by
  refine ⟨?_, ?_, ?_, h.request, h.start, h.client⟩
  · intro f' hf'
    rcases List.mem_append.mp hf' with hf' | hf'
    · exact h.forwardable f' hf'
    · obtain rfl := List.mem_singleton.mp hf'
      exact hf
  · show s.consumed ++ (s.stream ++ f.encode) = replyBytes s.reply ++ wire (s.forwarded ++ [f])
    rw [← List.append_assoc, h.stream, wire_append, List.append_assoc]
    simp
  · have hrep := h.replied
    cases hr : s.reply with
    | none =>
        rw [hr] at hrep
        exact absurd hrep.1 hpeer
    | some r =>
        rw [hr] at hrep
        rcases hrep with hsucc | ⟨hnone, -⟩
        · exact Or.inl hsucc
        · exact absurd hnone hpeer

/-! ### A reception -/

/-- The length of the reply, once there is one. -/
def Link.replyLength (s : Link) : ℕ := (replyBytes s.reply).length

/-- No reception of the handshake returns bytes of an event: none has been forwarded yet, or the
kernel cuts the bytes no later than at the end of the reply. -/
def Separate (s : Link) : LinkLabel → Prop
  | .recv n => s.forwarded = [] ∨ s.consumed.length + n ≤ s.replyLength
  | _ => True

instance (s : Link) : ∀ l : LinkLabel, Decidable (Separate s l)
  | .recv _ => inferInstanceAs (Decidable (_ ∨ _))
  | .connect _ => .isTrue trivial
  | .register _ => .isTrue trivial
  | .forward _ => .isTrue trivial
  | .fail _ => .isTrue trivial

lemma msgIdAt_of_read {m : Mem} {f : IpcMsg} (h : m.read 0 f.length = f.strip.encode) :
    msgIdAt m 0 = f.strip.msgId := by
  rw [← IpcMsg.length_strip] at h
  exact congrArg IpcMsg.msgId (readMsg_of_read h)

lemma connect_ne_start (g : Registration) (q : RecvPass) : ipcSubscriberConnect g q ≠ .start := by
  cases q with
  | again w => simp [ipcSubscriberConnect]
  | done r m =>
      cases r with
      | error e => simp [ipcSubscriberConnect]
      | ok n =>
          simp only [ipcSubscriberConnect, ipcSubscriberNegotiate]
          cases g.kept with
          | some size => split_ifs <;> simp
          | none => split_ifs <;> simp

lemma negotiate_refusal (g : Registration) {m : Mem} {msg : IpcMsg}
    (hm : m.read 0 (registerRefusal msg).length = (registerRefusal msg).strip.encode) :
    ipcSubscriberNegotiate g m = .failed := by
  have hid : msgIdAt m 0 = (registerRefusal msg).strip.msgId := msgIdAt_of_read hm
  have hne : (registerRefusal msg).strip.msgId ≠ ipcSdkMsgSuccess := by
    show (ipcSdkMsgRegister ||| ipcMsgToken) &&& ~~~ipcMsgTokenMask ≠ ipcSdkMsgSuccess
    decide
  rw [ipcSubscriberNegotiate, hid, if_pos hne]

lemma length_registerSuccess (bufSize : ℕ) (msg : IpcMsg) :
    (registerSuccess bufSize msg).length = ipcMsgHdrlen + 4 := by
  show ipcMsgHdrlen + (toLE 4 bufSize).length = _
  rw [length_toLE]

/-- **What the client does with a success**: it allocates a buffer, unless it has kept one. -/
lemma negotiate_eq (g : Registration) {m : Mem} (hid : msgIdAt m 0 = ipcSdkMsgSuccess) :
    ipcSubscriberNegotiate g m =
      if g.kept = none ∧ g.alloc = false then .failed
      else .connected (g.kept.getD (allocBuf (leNat (m.read ipcMsgHdrlen 4)))) := by
  rw [ipcSubscriberNegotiate, if_neg (by simp [hid])]
  cases g.kept with
  | some size => rfl
  | none => cases g.alloc <;> rfl

/-- What the client reads out of the reply: the size is the one of the core. -/
lemma answer_of_success (g : Registration) {m : Mem} {msg : IpcMsg}
    (hm : m.read 0 (registerSuccess g.bufSize msg).length =
      (registerSuccess g.bufSize msg).strip.encode) :
    msgIdAt m 0 = ipcSdkMsgSuccess ∧ leNat (m.read ipcMsgHdrlen 4) = g.bufSize := by
  constructor
  · rw [msgIdAt_of_read hm]
    show (ipcSdkMsgSuccess ||| ipcMsgToken) &&& ~~~ipcMsgTokenMask = ipcSdkMsgSuccess
    decide
  · have hread := read_sub hm (k := ipcMsgHdrlen) (l := 4) (by rw [length_registerSuccess])
    rw [Nat.zero_add, IpcMsg.encode, List.drop_left' (IpcMsg.length_header _)] at hread
    rw [hread]
    show leNat ((toLE 4 g.bufSize).take 4) = g.bufSize
    rw [List.take_of_length_le (by simp), leNat_toLE_of_lt (allocBuf_lt g.coreBuf)]

/-- The client takes the size, if it has no buffer yet. -/
lemma negotiate_success (g : Registration) {m : Mem} {msg : IpcMsg}
    (hm : m.read 0 (registerSuccess g.bufSize msg).length =
      (registerSuccess g.bufSize msg).strip.encode) :
    ipcSubscriberNegotiate g m = .connected (g.kept.getD (allocBuf g.bufSize)) ∨
      ipcSubscriberNegotiate g m = .failed := by
  obtain ⟨hid, hsize⟩ := answer_of_success g hm
  rw [negotiate_eq g hid, hsize]
  split_ifs
  · exact Or.inr rfl
  · exact Or.inl rfl

lemma attends_negotiate {g : Registration} {peer : Option Ptr} {forwarded : List IpcMsg}
    {r : IpcMsg} (hrep : Replied g peer forwarded (some r)) {m : Mem}
    (hm : m.read 0 r.length = r.strip.encode) :
    Attends g (some r) r.encode (ipcSubscriberNegotiate g m) := by
  rcases hrep with ⟨msg, rfl⟩ | ⟨-, -, msg, rfl⟩
  · rcases negotiate_success g hm with hsize | hfailed
    · rw [hsize]
      exact ⟨msg, rfl, rfl, rfl⟩
    · rw [hfailed]
      trivial
  · rw [negotiate_refusal g hm]
    trivial

lemma Aligned.exists_reply {g : Registration} {s : Link} (h : Aligned g s)
    (hne : s.stream ≠ []) : ∃ r, s.reply = some r := by
  cases hr : s.reply with
  | some r => exact ⟨r, rfl⟩
  | none =>
      have hrep := h.replied
      rw [hr] at hrep
      have hnil := h.stream
      rw [hr, hrep.2] at hnil
      exact absurd (List.append_eq_nil_iff.mp hnil).2 hne

/-- **A reception.**  If it returns no byte of an event, the message that it completes is all that
the handshake has read. -/
lemma Aligned.recv {g : Registration} {s : Link} (h : Aligned g s) {w : Receiving}
    (hw : s.client = .receiving w) {n : ℕ} (hpos : 0 < n) (hn : n ≤ s.stream.length)
    (hsep : Separate s (.recv n)) :
    Aligned g { s with
      client := ipcSubscriberConnect g (w.pass (s.stream.take n))
      stream := s.stream.drop n
      consumed := s.consumed ++ s.stream.take n } := by
  have hrecv : w.received = s.consumed := by
    have hc := h.client
    rw [hw] at hc
    exact hc
  have hsplit : (s.consumed ++ s.stream.take n) ++ s.stream.drop n =
      replyBytes s.reply ++ wire s.forwarded := by
    rw [List.append_assoc, List.take_append_drop, h.stream]
  refine ⟨h.forwardable, hsplit, h.replied, h.request, ?_, ?_⟩
  · intro hstart
    exact absurd hstart (connect_ne_start g (w.pass (s.stream.take n)))
  · cases hq : w.pass (s.stream.take n) with
    | again w' =>
        obtain ⟨rfl, -⟩ := Receiving.pass_again hq
        show (w.store (s.stream.take n)).received = s.consumed ++ s.stream.take n
        rw [Receiving.received_store, hrecv]
    | done r m =>
        cases r with
        | error e => trivial
        | ok k =>
            obtain ⟨r, hr⟩ := h.exists_reply (List.length_pos_iff.mp (by omega))
            have hrep := h.replied
            rw [hr] at hsplit hrep
            obtain ⟨⟨rest, hrest, hmore⟩, hread⟩ :=
              Receiving.pass_ok (f := r) (by rw [hrecv]; exact hsplit) hq
            rw [hrecv] at hrest
            have hnil : rest = [] := by
              rcases hsep with hnone | hle
              · rw [hnone] at hmore
                exact (List.append_eq_nil_iff.mp hmore).1
              · have hlen := congrArg List.length hrest
                rw [Link.replyLength, hr] at hle
                simp only [replyBytes, Option.map_some, Option.getD_some, IpcMsg.length_encode,
                  List.length_append, List.length_take] at hle hlen
                exact List.length_eq_zero_iff.mp (by omega)
            show Attends g s.reply (s.consumed ++ s.stream.take n) (ipcSubscriberNegotiate g m)
            rw [hr, hrest, hnil, List.append_nil]
            exact attends_negotiate hrep hread

lemma Aligned.step {g : Registration} {s s' : Link} {l : LinkLabel} {es : List Empty}
    (h : Aligned g s) (hl : Separate s l) (hstep : linkStep g s l = some (s', es)) :
    Aligned g s' := by
  cases l with
  | connect ok =>
      simp only [linkStep] at hstep
      split at hstep
      · rename_i hs
        split_ifs at hstep
        · obtain ⟨rfl, -⟩ := Prod.mk.inj (Option.some.inj hstep)
          exact h.connect hs
        · obtain ⟨rfl, -⟩ := Prod.mk.inj (Option.some.inj hstep)
          exact ⟨h.forwardable, h.stream, h.replied, h.request,
            fun hstart => absurd hstart (by simp), trivial⟩
      · exact absurd hstep (by simp)
  | register env =>
      obtain ⟨req, hreq, hstep⟩ := Option.map_eq_some_iff.mp hstep
      obtain ⟨rfl, -⟩ := Prod.mk.inj hstep
      exact h.register hreq env
  | forward f =>
      simp only [linkStep] at hstep
      split_ifs at hstep with hf
      obtain ⟨rfl, -⟩ := Prod.mk.inj (Option.some.inj hstep)
      refine h.forward (fun hnone => ?_) hf.2
      rw [hnone] at hf
      exact absurd hf.1 (by simp)
  | recv n =>
      simp only [linkStep] at hstep
      split at hstep
      · rename_i w hw
        split_ifs at hstep with hn
        obtain ⟨rfl, -⟩ := Prod.mk.inj (Option.some.inj hstep)
        exact h.recv hw hn.1 hn.2.1 hl
      · exact absurd hstep (by simp)
  | fail e =>
      simp only [linkStep] at hstep
      split at hstep
      · rename_i w hw
        split_ifs at hstep
        obtain ⟨rfl, -⟩ := Prod.mk.inj (Option.some.inj hstep)
        exact ⟨h.forwardable, h.stream, h.replied, h.request,
          fun hstart => absurd hstart (connect_ne_start g (w.fail e)), trivial⟩
      · exact absurd hstep (by simp)

/-! ## The subscriber's task after the registration -/

/-- The task passes every event of the stream to its handler. -/
lemma task_forwarded {g : Registration} {forwarded : List IpcMsg}
    (hf : ∀ f ∈ forwarded, Forwardable g f) (buf : IpcBuf) (hhdr : ipcMsgHdrlen ≤ buf.size)
    (hsize : g.bufSize ≤ buf.size) {chunks : List (List UInt8)}
    (hw : chunks.flatten = wire forwarded)
    (hlegal : (ipcSubscriberTask g.mask (chunks.map .bytes) buf.reset).legal = true) :
    (ipcSubscriberTask g.mask (chunks.map .bytes) buf.reset).calls =
      forwarded.map IpcMsg.handlerCall := by
  rw [task_notifications g.mask buf hhdr
    (fun f hfm => ⟨(hf f hfm).1, (hf f hfm).2.2.1.trans hsize, (hf f hfm).2.1⟩) hw hlegal,
    expectedCalls, List.filter_eq_self.mpr]
  intro f hfm
  rw [(hf f hfm).1, (hf f hfm).2.2.2]
  rfl

/-- **The registration leaves the stream at a frame boundary.**  Take any run of a registration in
which no reception of the handshake returns bytes of a forwarded event, with a buffer of the core
whose size does not wrap in `alloc_buf` and, if the subscriber has kept a buffer from an earlier
connection, one that is not smaller.  In every state after `ipc_subscriber_connect` has returned 0,
the handshake has read the reply of success and nothing else, the bytes still to be read are the
forwarded events, and however these bytes are cut, the subscriber's task calls its handler for each
of the events. -/
theorem registration_boundary (g : Registration) (core : IpcCore) (ls : List LinkLabel) {s : Link}
    {es : List Empty} (hsep : Along (linkStep g) Separate ls (Link.init core))
    (hrun : run (linkStep g) ls (Link.init core) = some (s, es)) {size : ℕ}
    (hconn : s.client = .connected size) (hwrap : g.coreBuf + 30 < 2 ^ 32)
    (hkept : ∀ k, g.kept = some k → g.bufSize ≤ k) :
    (∃ msg, s.reply = some (registerSuccess g.bufSize msg) ∧
        s.consumed = (registerSuccess g.bufSize msg).encode) ∧
      s.stream = wire s.forwarded ∧
      ∀ (data : Mem) (chunks : List (List UInt8)), chunks.flatten = s.stream →
        (ipcSubscriberTask g.mask (chunks.map .bytes) ⟨0, 0, size, data⟩).legal = true →
        (ipcSubscriberTask g.mask (chunks.map .bytes) ⟨0, 0, size, data⟩).calls =
          s.forwarded.map IpcMsg.handlerCall := by
  have h : Aligned g s :=
    run_invariant (fun h hl hstep => h.step hl hstep) (aligned_init g core) hsep hrun
  have hclient := h.client
  rw [hconn] at hclient
  obtain ⟨msg, hreply, hconsumed, hsize⟩ := hclient
  have hstream : s.stream = wire s.forwarded := by
    have hs := h.stream
    rw [hreply, hconsumed] at hs
    exact List.append_cancel_left hs
  obtain ⟨hcore, hcore'⟩ := allocBuf_bounds g.coreBuf (by omega)
  have hbuf : g.bufSize ≤ size := by
    rw [hsize]
    cases hk : g.kept with
    | some k => exact hkept k hk
    | none =>
        have hle := (allocBuf_bounds g.bufSize (by rw [Registration.bufSize]; omega)).1
        exact (Nat.le_add_right _ _).trans hle
  have hhdr : ipcMsgHdrlen ≤ g.bufSize := by
    rw [Registration.bufSize]
    omega
  refine ⟨⟨msg, hreply, hconsumed⟩, hstream, fun data chunks hchunks hlegal => ?_⟩
  exact task_forwarded h.forwardable ⟨0, 0, size, data⟩ (hhdr.trans hbuf) hbuf
    (hchunks.trans hstream) hlegal

/-- The size of the subscriber's buffer, if the call returned 0. -/
def Subscribing.size : Subscribing → Option ℕ
  | .connected size => some size
  | _ => none

lemma Subscribing.eq_connected {c : Subscribing} {size : ℕ} (h : c.size = some size) :
    c = .connected size := by
  cases c with
  | connected n => rw [Option.some.inj h]
  | start => exact absurd h (by simp [Subscribing.size])
  | receiving w => exact absurd h (by simp [Subscribing.size])
  | failed => exact absurd h (by simp [Subscribing.size])

/-- A subscriber of the topic 1. -/
def sampleRegistration : Registration where
  identity := 7
  mask := 1
  data := []
  buffer := fun _ => 0
  kept := none
  alloc := true
  sock := 9
  coreBuf := 100

/-- The allocations succeed, the manager accepts the client and the reply is sent. -/
def sampleRegister : LinkLabel := .register ⟨⟨true, true, true⟩, 0, true⟩

/-- An event of the topic 1. -/
def sampleEvent (id : ℕ) : IpcMsg := notifyFrame 1 id [17] (by decide)

/-- The first event is forwarded before the client reads; the reply is received in two pieces. -/
def separateRun : List LinkLabel :=
  [.connect true, sampleRegister, .recv 10, .forward (sampleEvent 8), .recv 6,
    .forward (sampleEvent 9)]

theorem registration_boundary_sample :
    ∃ s es, run (linkStep sampleRegistration) separateRun (Link.init (IpcCore.boot 3)) =
        some (s, es) ∧ s.forwarded = [sampleEvent 8, sampleEvent 9] ∧
      ((∃ msg, s.reply = some (registerSuccess sampleRegistration.bufSize msg) ∧
          s.consumed = (registerSuccess sampleRegistration.bufSize msg).encode) ∧
        s.stream = wire s.forwarded ∧
        ∀ (data : Mem) (chunks : List (List UInt8)), chunks.flatten = s.stream →
          (ipcSubscriberTask 1 (chunks.map .bytes) ⟨0, 0, 124, data⟩).legal = true →
          (ipcSubscriberTask 1 (chunks.map .bytes) ⟨0, 0, 124, data⟩).calls =
            s.forwarded.map IpcMsg.handlerCall) := by
  have hend : (run (linkStep sampleRegistration) separateRun (Link.init (IpcCore.boot 3))).map
      (fun r => (r.1.client.size, r.1.forwarded)) =
      some (some 124, [sampleEvent 8, sampleEvent 9]) := by
    decide +kernel
  obtain ⟨⟨s, es⟩, hrun, hs⟩ := Option.map_eq_some_iff.mp hend
  obtain ⟨hsize, hforwarded⟩ := Prod.mk.inj hs
  exact ⟨s, es, hrun, hforwarded, registration_boundary sampleRegistration (IpcCore.boot 3)
    separateRun (by decide +kernel) hrun (Subscribing.eq_connected hsize) (by decide)
    (fun k hk => absurd hk (by simp [sampleRegistration]))⟩

/-- The event is forwarded before the client reads, and one reception returns both. -/
def coalescedRun : List LinkLabel :=
  [.connect true, sampleRegister, .forward (sampleEvent 8), .recv 49]

/-- **An event read with the reply.**  The call returns 0, and the event is gone. -/
theorem coalesced_event_lost :
    ¬ ∀ (g : Registration) (core : IpcCore) (ls : List LinkLabel) (s : Link) (es : List Empty)
        (size : ℕ), run (linkStep g) ls (Link.init core) = some (s, es) →
        s.client = .connected size →
        (∃ msg, s.reply = some (registerSuccess g.bufSize msg) ∧
            s.consumed = (registerSuccess g.bufSize msg).encode) ∧
          s.stream = wire s.forwarded ∧
          ∀ (data : Mem) (chunks : List (List UInt8)), chunks.flatten = s.stream →
            (ipcSubscriberTask g.mask (chunks.map .bytes) ⟨0, 0, size, data⟩).legal = true →
            (ipcSubscriberTask g.mask (chunks.map .bytes) ⟨0, 0, size, data⟩).calls =
              s.forwarded.map IpcMsg.handlerCall := by
  intro h
  have hend : (run (linkStep sampleRegistration) coalescedRun (Link.init (IpcCore.boot 3))).map
      (fun r => (r.1.client.size, r.1.stream, r.1.forwarded)) =
      some (some 124, [], [sampleEvent 8]) := by
    decide +kernel
  obtain ⟨⟨s, es⟩, hrun, hs⟩ := Option.map_eq_some_iff.mp hend
  obtain ⟨hsize, hs⟩ := Prod.mk.inj hs
  obtain ⟨hstream, hforwarded⟩ := Prod.mk.inj hs
  obtain ⟨-, -, hcalls⟩ := h sampleRegistration (IpcCore.boot 3) coalescedRun s es 124 hrun
    (Subscribing.eq_connected hsize)
  -- nothing is left to be received, and no call is made
  have hnone := hcalls (fun _ => 0) [] hstream.symm rfl
  rw [show s.forwarded = [sampleEvent 8] from hforwarded] at hnone
  exact absurd hnone (by simp [ipcSubscriberTask])

end LinuxC.Ipc
