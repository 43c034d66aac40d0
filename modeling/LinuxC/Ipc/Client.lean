import LinuxC.Ipc.Notify

/-!
# The calls of a client (`ipc/ipc_client.c`)

A `struct ipc_client` is a connection with a state, and `client_valid` asks for the state
`IPC_S_CONNECTED`.  `ipc_connect` leaves the handle in `IPC_S_CONNECTING`, and it is for the caller
to go on from there: `ipc_client_init` does, for a client that lasts for one request.

`ipcClientRequestCall` is a whole call of `ipc_client_request`, on the events of its socket; the rest
of a call that waits for its reply is that of a `Channel` (`ipcRequestCall_waits`).

`ipc_subscriber_request` makes a client of its own for one request, and does not go on from
`IPC_S_CONNECTING`.  So it gives up in front of every request for which the connection was made.
-/

namespace LinuxC.Ipc

/-! ## A handle -/

inductive IpcState
  | connecting
  | connected
  | disconnecting
  | disconnected
  deriving DecidableEq

structure IpcClient where
  /-- The path of the server's socket. -/
  server : List UInt8
  sock : ℤ
  identity : UInt32
  state : IpcState

/-- `client_valid`; `pid` is `__client_pid`. -/
def clientValid (pid : UInt32) (client : IpcClient) : Bool :=
  client.state = .connected && decide (0 ≤ client.sock) &&
    decide (0 < int32 client.identity.toNat) && client.identity = pid

/-- What `connect` returns. -/
inductive ConnectResult
  | ok
  | eintr
  /-- `ECONNREFUSED` or `ENOENT`: the server is not there yet. -/
  | refused
  | other
  deriving DecidableEq

/-- What happens while `ipc_connect` runs. -/
structure DialEnv where
  /-- What `socket` returns, unless it fails. -/
  socket : Option ℕ
  /-- `sock_opts` succeeds. -/
  opts : Bool
  connects : List ConnectResult

/-- The label `__retry`, with `retry` repetitions made: nothing if `connect` has not returned. -/
def connectRetry : ℕ → List ConnectResult → Option Bool
  | _, [] => none
  | _, .ok :: _ => some true
  | retry, .eintr :: rs => connectRetry retry rs
  | retry, .refused :: rs => if retry < 3 then connectRetry (retry + 1) rs else some false
  | _, .other :: _ => some false

/-- `ipc_connect`: the handle afterwards, and whether the connection was made. -/
def ipcConnect (env : DialEnv) (client : IpcClient) : Option (IpcClient × Bool) :=
  match env.socket with
  | none => some (client, false)
  | some sock =>
      if !env.opts then some (client, false)
      else
        match connectRetry 0 env.connects with
        | none => none
        | some false => some ({ client with state := .disconnected }, false)
        | some true => some ({ client with state := .connecting, sock := sock }, true)

/-- The connection is made. -/
def DialEnv.Connects (env : DialEnv) : Prop :=
  env.socket.isSome ∧ env.opts = true ∧ connectRetry 0 env.connects = some true

instance (env : DialEnv) : Decidable env.Connects := inferInstanceAs (Decidable (_ ∧ _))

def unixSockDir : List UInt8 := [0x2F, 0x74, 0x6D, 0x70, 0x2F]

/-- The size of `client->server`. -/
def serverSize : ℕ := 64

/-- `ipc_client_init`; `dial` says what happens on a connection to a path. -/
def ipcClientInit (pid : UInt32) (dial : List UInt8 → DialEnv) (server : List UInt8)
    (client : IpcClient) : Option (IpcClient × Bool) :=
  let path := unixSockDir ++ server
  let client := { client with server := path.take (serverSize - 1) }
  if serverSize ≤ path.length then some (client, false)
  else
    match ipcConnect (dial client.server) client with
    | some (client, true) => some ({ client with identity := pid, state := .connected }, true)
    | r => r

/-! ## Requests -/

/-- What happens while a request is made: whether `send` succeeds, and what the socket does then. -/
structure RequestEnv where
  sent : Bool
  events : List SockEvent

/-- What a call has done: the code it returned, the caller's buffer, and what was sent. -/
structure ClientCall where
  code : IpcRequest
  msg : Mem
  frame : Option IpcMsg

/-- `ipc_request`: nothing if the events do not let it return. -/
def ipcRequestCall (identity : UInt32) (m : Mem) (size : ℕ) (tmo : ℤ) (env : RequestEnv) :
    Option ClientCall :=
  let m := sendMsg (requestHeader identity m) 0
  if !env.sent then some ⟨.emo, m, none⟩
  else if flagsAt m 0 &&& ipcFlagReply ≠ 0 then
    (recvMsg size tmo env.events m).map fun r => ⟨requestCode r.1, r.2, some (readMsg m 0)⟩
  else some ⟨.success, m, some (readMsg m 0)⟩

/-- `ipc_client_request`. -/
def ipcClientRequestCall (pid : UInt32) (client : IpcClient) (m : Mem) (size : ℕ) (tmo : ℤ)
    (env : RequestEnv) : Option ClientCall :=
  if !clientValid pid client then some ⟨.eval, m, none⟩
  else if !usersMsg m then some ⟨.emsg, m, none⟩
  else ipcRequestCall client.identity m size tmo env

/-- The header that `ipc_subscriber_report` fills in. -/
def reportHeader (identity : UInt32) (m : Mem) : Mem :=
  let m' := m.write 8 (toLE 2 (flagsAt m 0 &&& ~~~ipcFlagReply).toNat)
  let m'' := m'.write 8 (toLE 2 (flagsAt m' 0 &&& ipcFlagClientMask).toNat)
  m''.write 0 (toLE 4 identity.toNat)

/-- `ipc_subscriber_report`, on the handle in the subscriber. -/
def ipcSubscriberReport (pid : UInt32) (client : IpcClient) (m : Mem) (sent : Bool) : ClientCall :=
  if !clientValid pid client then ⟨.eval, m, none⟩
  else if !usersMsg m then ⟨.emsg, m, none⟩
  else
    let m := sendMsg (reportHeader client.identity m) 0
    if sent then ⟨.success, m, some (readMsg m 0)⟩ else ⟨.emo, m, none⟩

/-- **A call that waits** goes on like the call of a `Channel`. -/
lemma ipcRequestCall_waits (identity : UInt32) (a : RequestArgs) (c : Channel) (env : RequestEnv)
    (hsent : env.sent = a.sent) {p : Calling}
    (hp : (ipcRequest identity a { c with calling := none }).calling = some p) :
    ∃ frame, (ipcRequest identity a { c with calling := none }).requests = c.requests ++ [frame] ∧
      ipcRequestCall identity a.msg a.size a.tmo env =
        ((RecvPass.again p.recv).resume env.events.length env.events).map fun r =>
          ⟨requestCode r.1, r.2, some frame⟩ := by
  simp only [ipcRequest, ipcRequestCall, hsent, recvMsg_eq] at hp ⊢
  split_ifs at hp ⊢ with hfail hreply
  · exact absurd hp (by simp [Channel.ret])
  · refine ⟨readMsg (sendMsg (requestHeader identity a.msg) 0) 0, ?_, ?_⟩
    · cases recvMsgEnter a.size a.tmo (sendMsg (requestHeader identity a.msg) 0) <;> rfl
    · cases hpass : recvMsgEnter a.size a.tmo (sendMsg (requestHeader identity a.msg) 0) with
      | again w =>
          rw [hpass] at hp
          obtain rfl := Option.some.inj hp
          rfl
      | done r m =>
          rw [hpass] at hp
          exact absurd hp (by simp [Channel.after, Channel.ret])

/-! ## A client for one request -/

/-- What a client that lasts for one request returns. -/
inductive OneShotCode
  /-- `IPC_REQUEST_ECN`. -/
  | ecn
  | request (code : IpcRequest)
  deriving DecidableEq

/-- The code, and the caller's buffer. -/
structure OneShot where
  code : OneShotCode
  msg : Mem

/-- The request on a connection of its own. -/
def oneShot (r : Option ClientCall) : Option OneShot := r.map fun r => ⟨.request r.code, r.msg⟩

/-- `ipc_subscriber_request`, on the handle in the subscriber.  `dummy` is the handle on the stack,
which is not initialised; it is closed and forgotten when the call returns. -/
def ipcSubscriberRequest (pid : UInt32) (dial : List UInt8 → DialEnv) (dummy client : IpcClient)
    (m : Mem) (size : ℕ) (tmo : ℤ) (env : RequestEnv) : Option OneShot :=
  if int32 client.identity.toNat ≤ 0 ∨ client.identity ≠ pid then some ⟨.request .eval, m⟩
  else
    match ipcConnect (dial client.server)
        { dummy with server := client.server, identity := client.identity } with
    | none => none
    | some (_, false) => some ⟨.ecn, m⟩
    | some (dummy, true) => oneShot (ipcClientRequestCall pid dummy m size tmo env)

/-- `ipc_client_init`, `ipc_client_request` and `ipc_client_close`. -/
def temporaryRequest (pid : UInt32) (dial : List UInt8 → DialEnv) (client : IpcClient)
    (server : List UInt8) (m : Mem) (size : ℕ) (tmo : ℤ) (env : RequestEnv) : Option OneShot :=
  match ipcClientInit pid dial server client with
  | none => none
  | some (_, false) => some ⟨.ecn, m⟩
  | some (client, true) => oneShot (ipcClientRequestCall pid client m size tmo env)

/-! ## The two ways to make a request -/

/-- `recv` and `select` do not fail with the code for a buffer that is too small. -/
lemma recvStream_ne_eval {size : ℕ} {es es' : List SockEvent} :
    recvStream size es ≠ some (.error .eval, es') := by
  have hloop : ∀ es : List SockEvent, recvLoop size es ≠ some (.error .eval, es') := by
    intro es
    induction es with
    | nil => simp [recvLoop]
    | cons e es ih =>
        cases e with
        | bytes bs => simp [recvLoop]
        | eof => simp [recvLoop]
        | err e => cases e <;> simp [recvLoop, ih]
        | idle => simp [recvLoop]
  cases es with
  | nil => exact hloop []
  | cons e es =>
      cases e with
      | idle => simp [recvStream]
      | bytes _ | eof | err _ => exact hloop _

/-- A call of `recv_msg` that has entered its loop does not return `IPC_RECEIVE_EVAL`. -/
lemma Receiving.loop_ne_eval {w : Receiving} {fuel : ℕ} {es : List SockEvent} {m : Mem} :
    recvMsgLoop w.size w.tmo fuel es w.offset w.buf ≠ some (.error .eval, m) := by
  induction fuel generalizing w es with
  | zero => simp [recvMsgLoop]
  | succ fuel ih =>
      rw [recvMsgLoop_eq]
      cases hs : recvStream w.window es with
      | none => simp
      | some r =>
          obtain ⟨r, es'⟩ := r
          cases r with
          | error e =>
              intro h
              obtain ⟨he, -⟩ := Prod.mk.inj (Option.some.inj h)
              obtain rfl := Except.error.inj he
              exact recvStream_ne_eval hs
          | ok bs =>
              show (w.pass bs).resume fuel es' ≠ _
              cases hpass : w.pass bs with
              | again w' => exact ih
              | done r m' =>
                  intro h
                  obtain ⟨rfl, rfl⟩ := Prod.mk.inj (Option.some.inj h)
                  rw [Receiving.pass] at hpass
                  split_ifs at hpass
                  · exact absurd hpass (by simp)
                  · exact absurd hpass (by simp)
                  · split at hpass <;> exact absurd hpass (by simp)

lemma recvMsg_eval_iff {size : ℕ} {tmo : ℤ} {es : List SockEvent} {m : Mem} :
    (∃ m', recvMsg size tmo es m = some (.error .eval, m')) ↔ size < ipcMsgHdrlen := by
  rw [recvMsg]
  split_ifs with hsmall
  · exact iff_of_true ⟨m, rfl⟩ hsmall
  · refine iff_of_false ?_ hsmall
    rintro ⟨m', h⟩
    exact Receiving.loop_ne_eval (w := ⟨size, tmo, 0, m⟩) h

lemma ipcConnect_of_connects {env : DialEnv} (h : env.Connects) :
    ∃ sock : ℕ, ∀ client, ipcConnect env client =
      some ({ client with state := .connecting, sock := sock }, true) := by
  obtain ⟨hsock, hopts, hconn⟩ := h
  obtain ⟨sock, hsock⟩ := Option.isSome_iff_exists.mp hsock
  exact ⟨sock, fun client => by simp [ipcConnect, hsock, hopts, hconn]⟩

lemma ipcConnect_of_not {env : DialEnv} (h : ¬ env.Connects) :
    (∀ client, ipcConnect env client = none) ∨
      ∀ client, ∃ client', ipcConnect env client = some (client', false) := by
  cases hsock : env.socket with
  | none => exact .inr fun client => ⟨client, by simp [ipcConnect, hsock]⟩
  | some sock =>
      by_cases hopts : env.opts = true
      · cases hconn : connectRetry 0 env.connects with
        | none => exact .inl fun client => by simp [ipcConnect, hsock, hopts, hconn]
        | some b =>
            cases b with
            | true => exact absurd ⟨by simp [hsock], hopts, hconn⟩ h
            | false => exact .inr fun client =>
                ⟨{ client with state := .disconnected }, by simp [ipcConnect, hsock, hopts, hconn]⟩
      · exact .inr fun client => ⟨client, by simp [ipcConnect, hsock, hopts]⟩

/-- The two calls return the same code, and leave the same message if it is a reply. -/
structure Alike (x y : Option OneShot) : Prop where
  code : x.map OneShot.code = y.map OneShot.code
  reply : ∀ r ∈ x, ∀ r' ∈ y, r.code = .request .success → r.msg = r'.msg

/-- The request is sent, and the buffer is too small for any reply. -/
def Unanswerable (m : Mem) (size : ℕ) (env : RequestEnv) : Prop :=
  env.sent = true ∧ flagsAt m 0 &&& ipcFlagReply ≠ 0 ∧ size < ipcMsgHdrlen

instance (m : Mem) (size : ℕ) (env : RequestEnv) : Decidable (Unanswerable m size env) :=
  inferInstanceAs (Decidable (_ ∧ _))

lemma readMsg_request (identity : UInt32) (m : Mem) :
    readMsg (sendMsg (requestHeader identity m) 0) 0 =
      IpcMsg.token
        { readMsg m 0 with fromId := identity, flags := flagsAt m 0 &&& ipcFlagClientMask } := by
  rw [readMsg_sendMsg, readMsg_requestHeader]

lemma reply_request (identity : UInt32) (m : Mem) :
    flagsAt (sendMsg (requestHeader identity m) 0) 0 &&& ipcFlagReply =
      flagsAt m 0 &&& ipcFlagReply := by
  have hflags : flagsAt (sendMsg (requestHeader identity m) 0) 0 =
      flagsAt m 0 &&& ipcFlagClientMask := congrArg IpcMsg.flags (readMsg_request identity m)
  rw [hflags, UInt16.and_assoc]
  rfl

/-- **A request that is rejected** by the code for a bad argument, of those that are made. -/
lemma ipcRequestCall_eval_iff (identity : UInt32) (m : Mem) (size : ℕ) (tmo : ℤ) (env : RequestEnv) :
    (∃ r, ipcRequestCall identity m size tmo env = some r ∧ r.code = .eval) ↔
      Unanswerable m size env := by
  simp only [ipcRequestCall, reply_request, Unanswerable]
  by_cases hsent : env.sent = true
  · by_cases hreply : flagsAt m 0 &&& ipcFlagReply ≠ 0
    · simp only [hsent, hreply, Bool.not_true, Bool.false_eq_true, if_false, if_true, true_and,
        not_false_eq_true, ne_eq]
      rw [← recvMsg_eval_iff]
      constructor
      · rintro ⟨r, hr, hcode⟩
        obtain ⟨⟨q, m'⟩, hq, rfl⟩ := Option.map_eq_some_iff.mp hr
        refine ⟨m', ?_⟩
        cases q with
        | ok n => exact absurd hcode (by simp [requestCode])
        | error e =>
            cases e with
            | eval => exact hq
            | _ => exact absurd hcode (by simp [requestCode])
      · rintro ⟨m', hm'⟩
        exact ⟨_, Option.map_eq_some_iff.mpr ⟨_, hm', rfl⟩, rfl⟩
    · simp [hsent, hreply]
  · simp [hsent]

lemma ipcSubscriberRequest_of_connects {pid : UInt32} (hpid : 0 < int32 pid.toNat)
    {dial : List UInt8 → DialEnv} (dummy : IpcClient) {client : IpcClient}
    (hidentity : client.identity = pid) (hconn : (dial client.server).Connects) (m : Mem) (size : ℕ)
    (tmo : ℤ) (env : RequestEnv) :
    ipcSubscriberRequest pid dial dummy client m size tmo env = some ⟨.request .eval, m⟩ := by
  obtain ⟨sock, hsock⟩ := ipcConnect_of_connects hconn
  have hvalid : ∀ c : IpcClient, c.state = .connecting → clientValid pid c = false := by
    intro c hc
    simp [clientValid, hc]
  rw [ipcSubscriberRequest, if_neg (by rw [hidentity]; simpa using hpid), hsock]
  simp [ipcClientRequestCall, hvalid, oneShot]

lemma temporaryRequest_of_connects {pid : UInt32} (hpid : 0 < int32 pid.toNat)
    {dial : List UInt8 → DialEnv} (client : IpcClient) {server : List UInt8}
    (hlen : (unixSockDir ++ server).length < serverSize)
    (hconn : (dial (unixSockDir ++ server)).Connects) {m : Mem} (huser : usersMsg m = true)
    (size : ℕ) (tmo : ℤ) (env : RequestEnv) :
    temporaryRequest pid dial client server m size tmo env =
      oneShot (ipcRequestCall pid m size tmo env) := by
  obtain ⟨sock, hsock⟩ := ipcConnect_of_connects hconn
  have htake : (unixSockDir ++ server).take (serverSize - 1) = unixSockDir ++ server :=
    List.take_of_length_le (by omega)
  simp only [temporaryRequest, ipcClientInit, htake, if_neg (Nat.not_le_of_lt hlen), hsock]
  simp [ipcClientRequestCall, clientValid, hpid, huser]

/-- **When `ipc_subscriber_request` does what a temporary client does.**  For a subscriber with a
valid identity, any message with a user's id, any buffer and timeout and whatever the server does:
the two return the same code and leave the same reply exactly when the connection is not made, or
when the reply is asked for in a buffer that is too small for any. -/
theorem ipcSubscriberRequest_alike_iff (pid : UInt32) (hpid : 0 < int32 pid.toNat)
    (dial : List UInt8 → DialEnv) (dummy temporary client : IpcClient) (server : List UInt8)
    (hserver : client.server = unixSockDir ++ server) (hlen : client.server.length < serverSize)
    (hidentity : client.identity = pid) (m : Mem) (huser : usersMsg m = true) (size : ℕ) (tmo : ℤ)
    (env : RequestEnv) :
    Alike (ipcSubscriberRequest pid dial dummy client m size tmo env)
        (temporaryRequest pid dial temporary server m size tmo env) ↔
      ¬ (dial client.server).Connects ∨ Unanswerable m size env := by
  by_cases hconn : (dial client.server).Connects
  · have hsub := ipcSubscriberRequest_of_connects hpid dummy hidentity hconn m size tmo env
    rw [hserver] at hlen hconn
    rw [hsub, temporaryRequest_of_connects hpid temporary hlen hconn huser, hserver,
      ← ipcRequestCall_eval_iff pid m size tmo env]
    constructor
    · intro halike
      have hcode := halike.code
      cases hr : ipcRequestCall pid m size tmo env with
      | none => exact absurd hcode (by simp [hr, oneShot])
      | some r =>
          rw [hr] at hcode
          refine .inr ⟨r, rfl, ?_⟩
          simpa [oneShot, eq_comm] using hcode
    · rintro (hnot | ⟨r, hr, hcode⟩)
      · exact absurd hconn hnot
      · rw [hr]
        exact ⟨by simp [oneShot, hcode], by simp⟩
  · -- both give up in the same way
    refine iff_of_true ?_ (.inl hconn)
    have htake : (unixSockDir ++ server).take (serverSize - 1) = unixSockDir ++ server :=
      List.take_of_length_le (by rw [← hserver]; omega)
    have hfits : ¬ serverSize ≤ (unixSockDir ++ server).length := by
      rw [← hserver]
      omega
    rw [ipcSubscriberRequest, if_neg (by rw [hidentity]; simpa using hpid)]
    rcases ipcConnect_of_not hconn with hnone | hfail
    · rw [hserver] at hnone
      simp only [temporaryRequest, ipcClientInit, htake, if_neg hfits, hnone, hserver]
      exact ⟨rfl, by simp⟩
    · rw [hserver] at hfail
      obtain ⟨c₁, h₁⟩ := hfail { dummy with server := client.server, identity := client.identity }
      obtain ⟨c₂, h₂⟩ := hfail { temporary with server := unixSockDir ++ server }
      rw [hserver] at h₁
      simp only [temporaryRequest, ipcClientInit, htake, if_neg hfits, hserver, h₁, h₂]
      exact ⟨rfl, by simp⟩

/-- A handle of the process 41 for the server `a`. -/
def sampleHandle : IpcClient := ⟨unixSockDir ++ [0x61], 3, 41, .connected⟩

/-- A message that asks for a reply. -/
def sampleAsking : Mem := Mem.write (fun _ => 0) 8 [1]

/-- No server is there. -/
theorem ipcSubscriberRequest_alike_sample :
    Alike (ipcSubscriberRequest 41
        (fun _ => ⟨some 5, true, [.refused, .refused, .refused, .refused]⟩)
        sampleHandle sampleHandle sampleAsking 64 5 ⟨true, []⟩)
      (temporaryRequest 41 (fun _ => ⟨some 5, true, [.refused, .refused, .refused, .refused]⟩)
        sampleHandle [0x61] sampleAsking 64 5 ⟨true, []⟩) :=
  (ipcSubscriberRequest_alike_iff 41 (by decide) _ sampleHandle sampleHandle sampleHandle [0x61] rfl
    (by decide) rfl sampleAsking (by decide) 64 5 ⟨true, []⟩).mpr (.inl (by decide))

/-- **A subscriber cannot make a request.**  The connection is made and the server replies, but
`ipc_subscriber_request` returns `IPC_REQUEST_EVAL`. -/
theorem ipcSubscriberRequest_refused :
    ¬ ∀ (dial : List UInt8 → DialEnv) (env : RequestEnv),
      Alike (ipcSubscriberRequest 41 dial sampleHandle sampleHandle sampleAsking 64 5 env)
        (temporaryRequest 41 dial sampleHandle [0x61] sampleAsking 64 5 env) := by
  intro hall
  have hcode := (hall (fun _ => ⟨some 5, true, [.ok]⟩)
    ⟨true, [.bytes [7, 0, 0, 0, 0, 0, 0xCE, 0x56, 1, 0, 1, 0, 9]]⟩).code
  revert hcode
  decide +kernel

end LinuxC.Ipc
