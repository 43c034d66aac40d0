import LinuxC.Ipc.RecvMsg

/-!
# Requests and replies on a connection (`ipc/ipc_client.c`)

`ipc_client_request` sends a message and, if the message asks for it, receives the reply into the
caller's buffer with `recv_msg`.  A client made by `ipc_client_create` keeps one connection for all
its requests.  A call that gives up — on a timeout, because the reply does not fit the buffer —
leaves the connection as it is, and nothing in a frame says which request it answers.

A `Channel` is such a connection: the requests that were sent, the answers of the server, the bytes
that the client has not read, and the call that waits for its reply, if there is one.  The server
answers the requests in their order and after any delay, and `recv` returns any part of the bytes
that are there.  The log says what each call returned and which message it left in the buffer.

`replies_match` says that the message of every successful call is the reply to its own request, in
every run in which each request is made when the replies to all earlier ones have been read.
-/

namespace LinuxC.Ipc

/-! ## Sending -/

/-- The field `flags` of the message at offset `a`. -/
def flagsAt (m : Mem) (a : ℕ) : UInt16 := UInt16.ofNat (leNat (m.read (a + 8) 2))

/-- `send_msg` puts the token into the message at offset `a` and sends what `readMsg` then shows
there. -/
def sendMsg (m : Mem) (a : ℕ) : Mem :=
  m.write (a + 4) (toLE 4 (msgIdAt m a ||| ipcMsgToken).toNat)

/-- The header that `ipc_request` fills in: `from`, and the client's part of `flags`. -/
def requestHeader (identity : UInt32) (m : Mem) : Mem :=
  let m' := m.write 0 (toLE 4 identity.toNat)
  m'.write 8 (toLE 2 (flagsAt m' 0 &&& ipcFlagClientMask).toNat)

/-- `users_msg`: `msg_id` is an `int`. -/
def usersMsg (m : Mem) : Bool := int32 (msgIdAt m 0).toNat < (ipcMsgSdk.toNat : ℤ)

/-! ## A connection -/

/-- `IPC_REQUEST_SUCCESS` and its siblings. -/
inductive IpcRequest
  | success
  | tmo
  | eof
  | emem
  | emt
  | emo
  | emsg
  | eval
  deriving DecidableEq, Repr

/-- The `switch` of `ipc_request` on the result of `recv_msg`. -/
def requestCode : Except IpcReceive ℕ → IpcRequest
  | .error .timeout => .tmo
  | .error .eof => .eof
  | .error .emem => .emem
  | .error .err => .emt
  | .error .emsg => .emsg
  | .error .eval => .eval
  | .ok _ => .success

/-- A call of `ipc_client_request` that waits for the reply to the request `index`. -/
structure Calling where
  index : ℕ
  recv : Receiving

/-- What a call of `ipc_client_request` returned, and the message left in the caller's buffer. -/
structure Returned where
  index : ℕ
  code : IpcRequest
  msg : IpcMsg
  deriving DecidableEq

/-- The connection of a client with its server, and the records that its properties speak of: what
was sent, what was answered, and what each call has returned. -/
structure Channel where
  /-- The requests sent, in their order. -/
  requests : List IpcMsg
  /-- The answers of the server to the first of them. -/
  answers : List IpcMsg
  /-- The bytes of the answers that the client has not read. -/
  stream : List UInt8
  calling : Option Calling
  /-- The calls that expected a reply. -/
  log : List Returned

namespace Channel

/-- The connection that `ipc_client_create` returns. -/
def init : Channel := ⟨[], [], [], none, []⟩

/-- The call for the request `i` returns. -/
def ret (c : Channel) (i : ℕ) (code : IpcRequest) (m : Mem) : Channel :=
  { c with calling := none, log := c.log ++ [⟨i, code, readMsg m 0⟩] }

/-- The call for the request `i` after a pass of `recv_msg`. -/
def after (c : Channel) (i : ℕ) : RecvPass → Channel
  | .again w => { c with calling := some ⟨i, w⟩ }
  | .done r m => c.ret i (requestCode r) m

end Channel

/-- The arguments of a call, with what the environment decides: whether the handle passes
`client_valid`, and whether `send` succeeds. -/
structure RequestArgs where
  msg : Mem
  size : ℕ
  tmo : ℤ
  valid : Bool
  sent : Bool

/-- `ipc_request`, up to the first `recv_stream`.  A request without the flag `IPC_FLAG_REPLY`
succeeds at once; the server does not answer it. -/
def ipcRequest (identity : UInt32) (a : RequestArgs) (c : Channel) : Channel :=
  let m := sendMsg (requestHeader identity a.msg) 0
  if !a.sent then c.ret c.requests.length .emo m
  else if flagsAt m 0 &&& ipcFlagReply ≠ 0 then
    Channel.after { c with requests := c.requests ++ [readMsg m 0] } c.requests.length
      (recvMsgEnter a.size a.tmo m)
  else c

/-- `ipc_client_request`, up to the first `recv_stream`. -/
def ipcClientRequest (identity : UInt32) (a : RequestArgs) (c : Channel) : Channel :=
  if !a.valid then c.ret c.requests.length .eval a.msg
  else if !usersMsg a.msg then c.ret c.requests.length .emsg a.msg
  else ipcRequest identity a c

/-- The results below zero that `recv_stream` has; without a timeout it does not time out. -/
def recvStreamFails (tmo : ℤ) : IpcReceive → Bool
  | .timeout => 0 ≤ tmo
  | .eof => true
  | .err => true
  | _ => false

inductive ChannelLabel
  /-- The client calls `ipc_client_request`. -/
  | request (a : RequestArgs)
  /-- The server answers the first request that has no answer. -/
  | answer (reply : IpcMsg)
  /-- `recv` returns the next `n` bytes. -/
  | recv (n : ℕ)
  /-- `recv_stream` fails. -/
  | fail (e : IpcReceive)

/-- The steps of a connection.  The user makes one call at a time. -/
def channelStep (identity : UInt32) (c : Channel) : ChannelLabel → Option (Channel × List Empty)
  | .request a =>
      if c.calling.isSome then none else some (ipcClientRequest identity a c, [])
  | .answer reply =>
      if c.answers.length < c.requests.length then
        some ({ c with answers := c.answers ++ [reply], stream := c.stream ++ reply.encode }, [])
      else none
  | .recv n =>
      c.calling.bind fun p =>
        if 0 < n ∧ n ≤ c.stream.length ∧ n ≤ p.recv.window then
          some (Channel.after { c with stream := c.stream.drop n } p.index
            (p.recv.pass (c.stream.take n)), [])
        else none
  | .fail e =>
      c.calling.bind fun p =>
        if recvStreamFails p.recv.tmo e then some (c.after p.index (p.recv.fail e), []) else none

/-! ## Replies and requests -/

/-- The replies to all requests were sent, and the client has read them. -/
def Channel.Settled (c : Channel) : Prop :=
  c.answers.length = c.requests.length ∧ c.stream = []

instance (c : Channel) : Decidable c.Settled := inferInstanceAs (Decidable (_ ∧ _))

/-- A request is made when no earlier reply is under way or unread. -/
def FreshRequest (c : Channel) : ChannelLabel → Prop
  | .request _ => c.Settled
  | _ => True

instance (c : Channel) : ∀ l : ChannelLabel, Decidable (FreshRequest c l)
  | .request _ => inferInstanceAs (Decidable c.Settled)
  | .answer _ => .isTrue trivial
  | .recv _ => .isTrue trivial
  | .fail _ => .isTrue trivial

/-- The call left the reply to its own request in the caller's buffer. -/
def Answered (answers : List IpcMsg) (r : Returned) : Prop :=
  ∃ reply, answers[r.index]? = some reply ∧ r.msg = reply.strip

/-- What the client has received so far of the reply it waits for. -/
def Awaits (requests answers : List IpcMsg) (stream : List UInt8) (p : Calling) : Prop :=
  p.index + 1 = requests.length ∧
    ((answers.length = p.index ∧ p.recv.received = [] ∧ stream = []) ∨
      ∃ reply, answers[p.index]? = some reply ∧ p.recv.received ++ stream = reply.encode)

/-- The call that waits is the one for the last request, and nothing but its reply is on the
stream; every successful call was answered. -/
structure Paired (c : Channel) : Prop where
  calling : ∀ p, c.calling = some p → Awaits c.requests c.answers c.stream p
  log : ∀ r ∈ c.log, r.code = .success → Answered c.answers r

lemma paired_init : Paired Channel.init := by
  constructor
  · intro p hp
    exact absurd hp (by simp [Channel.init])
  · intro r hr
    exact absurd hr (by simp [Channel.init])

lemma Answered.append {answers : List IpcMsg} {r : Returned} (h : Answered answers r)
    (more : List IpcMsg) : Answered (answers ++ more) r := by
  obtain ⟨reply, hreply, hmsg⟩ := h
  obtain ⟨hlt, -⟩ := List.getElem?_eq_some_iff.mp hreply
  exact ⟨reply, by rw [List.getElem?_append_left hlt, hreply], hmsg⟩

/-- A call that returns keeps the pairing, if its success is the right one. -/
lemma Paired.ret {c : Channel} (h : Paired c) (i : ℕ) {code : IpcRequest} (m : Mem)
    (hcode : code = .success → Answered c.answers ⟨i, code, readMsg m 0⟩) :
    Paired (c.ret i code m) := by
  constructor
  · intro p hp
    exact absurd hp (by simp [Channel.ret])
  · intro r hr hsucc
    rcases List.mem_append.mp hr with hr | hr
    · exact h.log r hr hsucc
    · obtain rfl := List.mem_singleton.mp hr
      exact hcode hsucc

lemma requestCode_error (e : IpcReceive) : requestCode (.error e) ≠ .success := by
  cases e <;> simp [requestCode]

/-- A pass of the loop: it goes on with the call, or returns. -/
lemma Paired.after {c : Channel} {i : ℕ} {q : RecvPass}
    (hlog : ∀ r ∈ c.log, r.code = .success → Answered c.answers r)
    (hagain : ∀ w, q = .again w → Awaits c.requests c.answers c.stream ⟨i, w⟩)
    (hdone : ∀ n m, q = .done (.ok n) m → Answered c.answers ⟨i, .success, readMsg m 0⟩) :
    Paired (c.after i q) := by
  cases q with
  | again w =>
      refine ⟨fun p hp => ?_, hlog⟩
      obtain rfl := Option.some.inj hp
      exact hagain w rfl
  | done r m =>
      have hsome : Paired { c with calling := none } := ⟨fun p hp => absurd hp (by simp), hlog⟩
      apply hsome.ret i m
      intro hcode
      cases r with
      | ok n => exact hdone n m rfl
      | error e => exact absurd hcode (requestCode_error e)

lemma Paired.request {c : Channel} (h : Paired c) (hs : c.Settled) (identity : UInt32)
    (a : RequestArgs) : Paired (ipcClientRequest identity a c) := by
  rw [ipcClientRequest]
  split_ifs
  · exact h.ret _ _ (by simp)
  · exact h.ret _ _ (by simp)
  · simp only [ipcRequest]
    split_ifs
    · exact h.ret _ _ (by simp)
    · refine Paired.after h.log ?_ ?_
      · -- the call waits for the new request, and nothing is on the stream
        intro w hw
        rw [recvMsgEnter] at hw
        split_ifs at hw
        obtain rfl := RecvPass.again.inj hw
        exact ⟨by simp, Or.inl ⟨hs.1, rfl, hs.2⟩⟩
      · intro n m hm
        rw [recvMsgEnter] at hm
        split_ifs at hm
        simp at hm
    · exact h

lemma Paired.answer {c : Channel} (h : Paired c) (hlt : c.answers.length < c.requests.length)
    (reply : IpcMsg) :
    Paired { c with answers := c.answers ++ [reply], stream := c.stream ++ reply.encode } := by
  refine ⟨fun p hp => ?_, fun r hr hsucc => (h.log r hr hsucc).append [reply]⟩
  obtain ⟨hindex, hwait⟩ := h.calling p hp
  refine ⟨hindex, Or.inr ⟨reply, ?_, ?_⟩⟩
  · rcases hwait with ⟨hlen, -, -⟩ | ⟨r, hr, -⟩
    · show (c.answers ++ [reply])[p.index]? = some reply
      rw [← hlen, List.getElem?_concat_length]
    · obtain ⟨hlen, -⟩ := List.getElem?_eq_some_iff.mp hr
      omega
  · rcases hwait with ⟨-, hrecv, hstream⟩ | ⟨r, hr, -⟩
    · show p.recv.received ++ (c.stream ++ reply.encode) = reply.encode
      rw [hrecv, hstream, List.nil_append, List.nil_append]
    · obtain ⟨hlen, -⟩ := List.getElem?_eq_some_iff.mp hr
      omega

/-- **A reception.**  The bytes received are those of the reply, so that a success has the reply
in the buffer. -/
lemma Paired.recv {c : Channel} (h : Paired c) {p : Calling} (hp : c.calling = some p) {n : ℕ}
    (hpos : 0 < n) (hn : n ≤ c.stream.length) :
    Paired (Channel.after { c with stream := c.stream.drop n } p.index
      (p.recv.pass (c.stream.take n))) := by
  obtain ⟨hindex, ⟨-, -, hnil⟩ | ⟨reply, hreply, hstream⟩⟩ := h.calling p hp
  · rw [hnil, List.length_nil] at hn
    omega
  · have hsplit : (p.recv.received ++ c.stream.take n) ++ c.stream.drop n =
        reply.encode ++ [] := by
      rw [List.append_assoc, List.take_append_drop, hstream, List.append_nil]
    refine Paired.after h.log ?_ ?_
    · intro w hw
      obtain ⟨rfl, -⟩ := Receiving.pass_again hw
      refine ⟨hindex, Or.inr ⟨reply, hreply, ?_⟩⟩
      show (p.recv.store (c.stream.take n)).received ++ c.stream.drop n = _
      rw [Receiving.received_store, hsplit, List.append_nil]
    · intro k m hm
      obtain ⟨-, hread⟩ := Receiving.pass_ok hsplit hm
      exact ⟨reply, hreply, readMsg_of_read hread⟩

lemma Paired.step {identity : UInt32} {c c' : Channel} {l : ChannelLabel} {es : List Empty}
    (h : Paired c) (hl : FreshRequest c l) (hstep : channelStep identity c l = some (c', es)) :
    Paired c' := by
  cases l with
  | request a =>
      simp only [channelStep] at hstep
      split_ifs at hstep
      obtain ⟨rfl, -⟩ := Prod.mk.inj (Option.some.inj hstep)
      exact h.request hl identity a
  | answer reply =>
      simp only [channelStep] at hstep
      split_ifs at hstep with hlt
      obtain ⟨rfl, -⟩ := Prod.mk.inj (Option.some.inj hstep)
      exact h.answer hlt reply
  | recv n =>
      obtain ⟨p, hp, hstep⟩ := Option.bind_eq_some_iff.mp hstep
      split_ifs at hstep with hn
      obtain ⟨rfl, -⟩ := Prod.mk.inj (Option.some.inj hstep)
      exact h.recv hp hn.1 hn.2.1
  | fail e =>
      obtain ⟨p, hp, hstep⟩ := Option.bind_eq_some_iff.mp hstep
      split_ifs at hstep
      obtain ⟨rfl, -⟩ := Prod.mk.inj (Option.some.inj hstep)
      exact Paired.after h.log (fun w hw => by simp [Receiving.fail] at hw)
        (fun n m hm => by simp [Receiving.fail] at hm)

/-- **Replies match requests.**  Take any run of a connection — requests with any buffers and
timeouts, answers after any delay, receptions of any length — in which every request is made when
the replies to all earlier ones have been read.  The message that a successful call left in the
caller's buffer is the server's reply to the request of that call. -/
theorem replies_match (identity : UInt32) (ls : List ChannelLabel) {c : Channel}
    {es : List Empty} (hfresh : Along (channelStep identity) FreshRequest ls Channel.init)
    (hrun : run (channelStep identity) ls Channel.init = some (c, es)) :
    ∀ r ∈ c.log, r.code = .success →
      ∃ reply, c.answers[r.index]? = some reply ∧ r.msg = reply.strip :=
  (run_invariant (fun h hl hstep => h.step hl hstep) paired_init hfresh hrun).log

/-- A message of the user that expects a reply. -/
def sampleRequest (id : UInt32) : IpcMsg := ⟨0, id, ipcFlagReply, [1], by decide⟩

/-- An answer of the server. -/
def sampleReply (id : UInt32) : IpcMsg := ⟨7, ipcMsgToken ||| id, ipcFlagReply, [2, 3], by decide⟩

/-- A call with a buffer of 64 bytes and a timeout of one second. -/
def sampleArgs (id : UInt32) : RequestArgs where
  msg := Mem.write (fun _ => 0) 0 (sampleRequest id).encode
  size := 64
  tmo := 1
  valid := true
  sent := true

/-- Two requests; the first reply arrives in two pieces, the second one after the call has timed
out. -/
def sampleCalls : List ChannelLabel :=
  [.request (sampleArgs 5), .answer (sampleReply 5), .recv 9, .recv 5, .request (sampleArgs 6),
    .fail .timeout, .answer (sampleReply 6)]

theorem replies_match_sample :
    ∃ c es, run (channelStep 7) sampleCalls Channel.init = some (c, es) ∧
      c.log.map (fun r => (r.index, r.code)) = [(0, .success), (1, .tmo)] ∧
      ∀ r ∈ c.log, r.code = .success →
        ∃ reply, c.answers[r.index]? = some reply ∧ r.msg = reply.strip := by
  have hlog : (run (channelStep 7) sampleCalls Channel.init).map (fun r =>
      r.1.log.map fun r => (r.index, r.code)) = some [(0, .success), (1, .tmo)] := by
    decide +kernel
  obtain ⟨⟨c, es⟩, hrun, hcodes⟩ := Option.map_eq_some_iff.mp hlog
  exact ⟨c, es, hrun, hcodes, replies_match 7 sampleCalls (by decide +kernel) hrun⟩

/-- The first call times out before the server answers.  The second one is made while that answer
is still to come. -/
def staleCalls : List ChannelLabel :=
  [.request (sampleArgs 5), .fail .timeout, .request (sampleArgs 6), .answer (sampleReply 5),
    .recv 14, .answer (sampleReply 6)]

/-- **A late reply.**  The second call succeeds with the reply to the first request. -/
theorem stale_reply_returned :
    ¬ ∀ (identity : UInt32) (ls : List ChannelLabel) (c : Channel) (es : List Empty),
        run (channelStep identity) ls Channel.init = some (c, es) →
        ∀ r ∈ c.log, r.code = .success →
          ∃ reply, c.answers[r.index]? = some reply ∧ r.msg = reply.strip := by
  intro h
  have hrun : (run (channelStep 7) staleCalls Channel.init).map (fun r =>
      (r.1.answers, r.1.log[1]?)) =
      some ([sampleReply 5, sampleReply 6], some ⟨1, .success, (sampleReply 5).strip⟩) := by
    decide +kernel
  obtain ⟨⟨c, es⟩, hrun, hc⟩ := Option.map_eq_some_iff.mp hrun
  obtain ⟨hanswers, hlog⟩ := Prod.mk.inj hc
  obtain ⟨reply, hreply, hmsg⟩ := h 7 staleCalls c es hrun _ (List.mem_of_getElem? hlog) rfl
  rw [show c.answers = _ from hanswers] at hreply
  obtain rfl := Option.some.inj hreply
  exact absurd hmsg (by decide)

end LinuxC.Ipc
