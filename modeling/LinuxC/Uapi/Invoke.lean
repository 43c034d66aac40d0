import LinuxC.Ipc.Client
import LinuxC.Ipc.Ways
import LinuxC.Uapi.Method

/-!
# Calling a method (`uapi/uapi_client.c`, `uapi/uapi_server.c`)

`uapi_method_invoke` writes the name of the method and the parameter into the buffer of the caller,
sends it as a request, and receives the reply into the same buffer.  `uapi_method_list` asks for the
list.  A call uses a connection that exists, or makes one; here it has one.

`method_call_answered` follows a call through `ipc_client_request`, the server's `switch`, the table
of the methods and back; `method_list_answered` does so for a list.
-/

namespace LinuxC.Uapi

open Bst

/-! ## The client -/

/-- What a call has returned, the buffer or `NULL`, and what it has sent. -/
structure MethodCall where
  result : Option Mem
  frame : Option Ipc.IpcMsg

/-- `uapi_method_invoke` up to the call of `uapi_request_msg`; nothing is `NULL`. -/
def methodBuffer (buf : Mem) (method : List UInt8) (json : Option (List UInt8)) (size : ℕ) :
    Option Mem :=
  let json := json.getD []
  if uapiMethodMaxLength < method.length then none
  else if size ≤ Ipc.ipcMsgHdrlen + uapiRequestHdrlen + json.length then none
  else
    let m := (buf.write 12 (method ++ [0])).write 44 (json ++ [0])
    some (m.write 10 (toLE 2 (uapiRequestHdrlen + json.length + 1)))

/-- `uapi_request_msg` up to the request; `notify` is `UAPI_F_NOTIFY`. -/
def requestFields (notify : Bool) (m : Mem) : Mem :=
  (m.write 4 (toLE 4 uapiMsgRequest.toNat)).write 8 (toLE 2 (if notify then 0 else 1))

/-- The end of `uapi_request_msg`. -/
def requestEnd (notify : Bool) (m : Mem) : Mem :=
  let m := if notify then m.write 10 (toLE 2 0) else m
  m.write (12 + Ipc.dataLenAt m 0) [0]

section Client

variable (pid : UInt32) (client : Ipc.IpcClient) (env : Ipc.RequestEnv)

/-- `uapi_request_msg` on a connection.  The last byte of the buffer is kept for a zero. -/
def uapiRequestMsg (notify : Bool) (m : Mem) (size : ℕ) (tmo : ℤ) : Option MethodCall :=
  (Ipc.ipcClientRequestCall pid client (requestFields notify m) (size - 1) tmo env).map fun r =>
    ⟨if r.code = .success then some (requestEnd notify r.msg) else none, r.frame⟩

def uapiMethodInvoke (notify : Bool) (buf : Mem) (method : List UInt8) (json : Option (List UInt8))
    (size : ℕ) (tmo : ℤ) : Option MethodCall :=
  match methodBuffer buf method json size with
  | none => some ⟨none, none⟩
  | some m => uapiRequestMsg pid client env notify m size tmo

/-- `uapi_method_list` up to the request. -/
def listBuffer (buf : Mem) : Mem :=
  ((buf.write 4 (toLE 4 uapiMsgList.toNat)).write 8 (toLE 2 1)).write 10 (toLE 2 0)

def uapiMethodList (buf : Mem) (size : ℕ) (tmo : ℤ) : Option MethodCall :=
  (Ipc.ipcClientRequestCall pid client (listBuffer buf) size tmo env).map fun r =>
    ⟨if r.code = .success then some r.msg else none, r.frame⟩

end Client

/-! ## The server -/

section Server

variable {J : Type} (parse : List UInt8 → Option J)
  (handler : UapiEntry → Ipc.IpcMsg → Option J → Ipc.IpcMsg)
  (priv : Option (Ipc.IpcMsg → Ipc.IpcMsg)) (room : ℕ)

/-- The default branch of the `switch`, for a handle of a class: the message after
`ipc_handler_invoke`, which has the token if it was sent, and the result.  `rest` is what stands
behind the message, and `room` the size of the buffer of the server: the message is at its beginning,
or in the copy for `find_msg`, which is no smaller. -/
def methodBranch (clazz : Ipc.IpcClass) (s : UapiServer) (rest : List UInt8) :
    Ipc.Branch (Except Fault (Option (Ipc.IpcMsg × Bool))) where
  takes msg := msg.msgId ∉ [Ipc.ipcSdkMsgConnect, Ipc.ipcSdkMsgRegister, Ipc.ipcSdkMsgSync,
    Ipc.ipcSdkMsgUnregister, Ipc.ipcSdkMsgNotify]
  handle msg :=
    match Ipc.handlerFlags clazz msg.flags with
    | none => .ok (some (msg, false))
    | some flags => do
        let r ← uapiIpcHandler parse handler priv room s { msg with flags := flags } rest
        .ok (Ipc.ipcHandlerInvoke clazz msg ⟨0, r.1, true⟩)
  leaves msg r := match r with | .ok (some r) => r.1.encode | _ => msg.encode

end Server

/-! ## A request and its reply -/

section Exchange

variable {pid : UInt32} {client : Ipc.IpcClient} {m : Mem} {size : ℕ} {tmo : ℤ}

/-- The frame that a request sends. -/
def requestFrame (client : Ipc.IpcClient) (m : Mem) : Ipc.IpcMsg :=
  Ipc.readMsg (Ipc.sendMsg (Ipc.requestHeader client.identity m) 0) 0

/-- The header of a request does not reach behind the header. -/
lemma read_sendMsg_requestHeader (identity : UInt32) (m : Mem) {k : ℕ} (hk : Ipc.ipcMsgHdrlen ≤ k)
    (n : ℕ) : (Ipc.sendMsg (Ipc.requestHeader identity m) 0).read k n = m.read k n := by
  have hk' : 12 ≤ k := hk
  rw [Ipc.sendMsg, Mem.read_write_above _ _ (by rw [length_toLE]; omega), Ipc.requestHeader,
    Mem.read_write_above _ _ (by rw [length_toLE]; omega),
    Mem.read_write_above _ _ (by rw [length_toLE]; omega)]

/-- The frame of a call of `uapi_method_invoke` that asks for a reply, if it is not refused. -/
def methodFrame (client : Ipc.IpcClient) (buf : Mem) (method : List UInt8)
    (json : Option (List UInt8)) (size : ℕ) : Option Ipc.IpcMsg :=
  (methodBuffer buf method json size).map fun m => requestFrame client (requestFields false m)

/-- **A request with a reply** that arrives in pieces: the socket returns what the buffer has space
for. -/
lemma request_replied (hvalid : Ipc.clientValid pid client = true) (huser : Ipc.usersMsg m = true)
    (hflags : Ipc.flagsAt m 0 = Ipc.ipcFlagReply) (hsize : Ipc.ipcMsgHdrlen ≤ size) (htmo : 0 ≤ tmo)
    {reply : Ipc.IpcMsg} {chunks : List (List UInt8)} (hne : ∀ b ∈ chunks, b ≠ [])
    (hw : chunks.flatten = reply.encode) :
    ∃ m', Ipc.ipcClientRequestCall pid client m size tmo
          ⟨true, (Ipc.delivered size chunks).map .bytes⟩ =
        some ⟨Ipc.requestCode (Ipc.receiveVerdict size reply), m', some (requestFrame client m)⟩ ∧
      (reply.length ≤ size → reply.Friendly → m'.read 0 reply.length = reply.strip.encode) ∧
      ∀ k n, size ≤ k → m'.read k n = m.read k n := by
  obtain ⟨m', hrecv, hcontent, hbeyond⟩ := Ipc.recvMsg_delivered reply hsize htmo hne hw
    (Ipc.sendMsg (Ipc.requestHeader client.identity m) 0)
  refine ⟨m', ?_, hcontent, fun k n hk => ?_⟩
  · have hreply : Ipc.flagsAt (Ipc.sendMsg (Ipc.requestHeader client.identity m) 0) 0 &&&
        Ipc.ipcFlagReply ≠ 0 := by
      rw [Ipc.reply_request, hflags]
      decide
    simp only [Ipc.ipcClientRequestCall, hvalid, huser, Ipc.ipcRequestCall, hrecv, if_pos hreply,
      Bool.not_true, Bool.false_eq_true, if_false, Option.map_some, requestFrame]
  · rw [hbeyond k n hk]
    exact read_sendMsg_requestHeader client.identity m (hsize.trans hk) n

lemma requestFrame_strip (client : Ipc.IpcClient) (hflags : Ipc.flagsAt m 0 = Ipc.ipcFlagReply)
    {id : UInt32} (hid : Ipc.msgIdAt m 0 = id)
    (hplain : (id ||| Ipc.ipcMsgToken) &&& ~~~Ipc.ipcMsgTokenMask = id) :
    (requestFrame client m).strip.msgId = id ∧
      (requestFrame client m).strip.flags = Ipc.ipcFlagReply ∧
      (requestFrame client m).data = (Ipc.readMsg m 0).data := by
  rw [requestFrame, Ipc.readMsg_request]
  refine ⟨?_, ?_, rfl⟩
  · change (Ipc.msgIdAt m 0 ||| Ipc.ipcMsgToken) &&& ~~~Ipc.ipcMsgTokenMask = id
    rw [hid, hplain]
  · change Ipc.flagsAt m 0 &&& Ipc.ipcFlagClientMask = Ipc.ipcFlagReply
    rw [hflags]
    decide

lemma requestFrame_friendly (hid : (Ipc.msgIdAt m 0 ||| Ipc.ipcMsgToken) &&& Ipc.ipcMsgTokenMask =
    Ipc.ipcMsgToken) : (requestFrame client m).Friendly := by
  rw [requestFrame, Ipc.readMsg_request]
  exact hid

end Exchange

/-! ## The messages of the client -/

section Messages

variable {buf : Mem} {method : List UInt8} {json : Option (List UInt8)} {size : ℕ}

/-- A buffer with a message that is to be sent. -/
structure Asks (m : Mem) (id : UInt32) (data : List UInt8) : Prop where
  id : Ipc.msgIdAt m 0 = id
  flags : Ipc.flagsAt m 0 = Ipc.ipcFlagReply
  data : (Ipc.readMsg m 0).data = data

lemma asks_of_read {m : Mem} {id : UInt32} {data : List UInt8} (hid : m.read 4 4 = toLE 4 id.toNat)
    (hflags : m.read 8 2 = toLE 2 1) (hlen : m.read 10 2 = toLE 2 data.length)
    (hshort : data.length < 2 ^ 16) (hdata : m.read 12 data.length = data) : Asks m id data := by
  have hlength : Ipc.dataLenAt m 0 = data.length := by
    rw [Ipc.dataLenAt, hlen, leNat_toLE_of_lt hshort]
  refine ⟨?_, ?_, ?_⟩
  · rw [Ipc.msgIdAt, hid, Ipc.ofNat_leNat_toLE_four]
  · rw [Ipc.flagsAt, hflags]
    decide
  · change m.read (0 + Ipc.ipcMsgHdrlen) (Ipc.dataLenAt m 0) = data
    rw [hlength]
    exact hdata

/-- **The request** in the buffer of a call that is not refused. -/
lemma methodBuffer_asks {m : Mem} (hbuffer : methodBuffer buf method json size = some m)
    (hzero : 0 ∉ method) (hshort : 33 + (json.getD []).length < 2 ^ 16) :
    44 + (json.getD []).length < size ∧ ∃ data, Asks (requestFields false m) uapiMsgRequest data ∧
      Labelled method (json.getD []) data ∧
      ∀ k n, size ≤ k → (requestFields false m).read k n = buf.read k n := by
  set text := json.getD [] with htext
  unfold methodBuffer at hbuffer
  rw [← htext] at hbuffer
  set w := (buf.write 12 (method ++ [0])).write 44 (text ++ [0]) with hw
  simp only at hbuffer
  split_ifs at hbuffer with hlen hsize
  rw [not_lt] at hlen
  obtain rfl := Option.some.inj hbuffer
  have hroom : 44 + text.length < size := not_le.mp hsize
  have hlabelled : Labelled method text (w.read 12 (32 + (text.length + 1))) :=
    labelled_write buf 12 hzero hlen
  have hlength : (w.read 12 (32 + (text.length + 1))).length = uapiRequestHdrlen + text.length + 1 :=
    Mem.length_read _ _ _
  set m := w.write 10 (toLE 2 (uapiRequestHdrlen + text.length + 1)) with hm
  have hlow : ∀ k n, 12 ≤ k → (requestFields false m).read k n = w.read k n := by
    intro k n hk
    rw [requestFields, Mem.read_write_above _ _ (by simp; omega),
      Mem.read_write_above _ _ (by simp; omega), hm, Mem.read_write_above _ _ (by simp; omega)]
  refine ⟨hroom, w.read 12 (32 + (text.length + 1)), asks_of_read ?_ ?_ ?_ ?_ ?_, hlabelled,
    fun k n hk => ?_⟩
  · rw [requestFields, Mem.read_write_below _ _ (by omega), Mem.read_write_self _ _ _ (by simp)]
  · exact Mem.read_write_self _ _ _ (by simp)
  · rw [requestFields, Mem.read_write_above _ _ (by simp), Mem.read_write_above _ _ (by simp), hm,
      Mem.read_write_self _ _ _ (by simp), hlength]
  · rw [hlength, uapiRequestHdrlen]
    omega
  · rw [hlow 12 _ le_rfl, Mem.length_read]
  · have hlen' : method.length ≤ 31 := hlen
    rw [hlow k n (by omega), hw, Mem.read_write_above _ _ (by simp; omega),
      Mem.read_write_above _ _ (by simp; omega)]

lemma listBuffer_asks (buf : Mem) : Asks (listBuffer buf) uapiMsgList [] := by
  apply asks_of_read
  · rw [listBuffer, Mem.read_write_below _ _ (by omega), Mem.read_write_below _ _ (by omega),
      Mem.read_write_self _ _ _ (by simp)]
  · rw [listBuffer, Mem.read_write_below _ _ (by omega), Mem.read_write_self _ _ _ (by simp)]
  · exact Mem.read_write_self _ _ _ (by simp)
  · decide
  · rfl

end Messages

/-! ## A call -/

section Call

variable {J : Type} {parse : List UInt8 → Option J}
  {handler : UapiEntry → Ipc.IpcMsg → Option J → Ipc.IpcMsg}
  {priv : Option (Ipc.IpcMsg → Ipc.IpcMsg)}
  {es : List UapiEntry} {path : List UInt8} {s₀ s : UapiServer} {pid : UInt32}
  {client : Ipc.IpcClient} {buf : Mem} {method : List UInt8} {json : Option (List UInt8)}
  {size bufSize : ℕ} {clazz : Ipc.IpcClass} {rest : List UInt8}

/-- The handle of a connection on which requests come in. -/
def Requesting (clazz : Ipc.IpcClass) : Prop := clazz = .dummy ∨ clazz = .requester

/-- A handler that writes its answer into the message, in a buffer of `room` bytes: the header is
left as it is, and there is space for a zero. -/
structure Replies (room : ℕ) (h : Ipc.IpcMsg → Option J → Ipc.IpcMsg) : Prop where
  id : ∀ msg j, (h msg j).msgId = msg.msgId
  flags : ∀ msg j, (h msg j).flags = msg.flags
  short : ∀ msg j, (h msg j).data.length + 1 < 2 ^ 16
  fits : ∀ msg j, msg.length ≤ room → Ipc.ipcMsgHdrlen + ((h msg j).data.length + 1) ≤ room

/-- What the server with these entries answers: the data that the handler of the first entry with
the method leaves, or the text for a method that is not found. -/
def answerTo (parse : List UInt8 → Option J)
    (handler : UapiEntry → Ipc.IpcMsg → Option J → Ipc.IpcMsg) (es : List UapiEntry)
    (method json : List UInt8) (msg : Ipc.IpcMsg) : List UInt8 :=
  match es.find? fun e => e.method = method with
  | some e => (handler e msg (parse json)).data
  | none => methodNotFound

/-- **A reply is sent** for a request that asks for one. -/
lemma ipcHandlerInvoke_reply (hclazz : Requesting clazz) {msg : Ipc.IpcMsg}
    (hmsg : msg.flags = Ipc.ipcFlagReply) :
    ∃ flags, Ipc.handlerFlags clazz msg.flags = some flags ∧ ∀ r : Ipc.IpcMsg, r.flags = flags →
      Ipc.ipcHandlerInvoke clazz msg ⟨0, r, true⟩ = some (r.token, true) := by
  rcases hclazz with rfl | rfl
  · refine ⟨1, by rw [hmsg]; decide, fun r hr => ?_⟩
    have hflags : Ipc.handlerFlags .dummy msg.flags = some 1 := by
      rw [hmsg]
      decide
    have hasync : (1 : UInt16) &&& Ipc.ipcFlagAsync = 0 := by decide
    have hreply : (1 : UInt16) &&& Ipc.ipcFlagReply ≠ 0 := by decide
    have hclass : Ipc.ipcClass 1 = Ipc.IpcClass.val .dummy := by decide
    simp [Ipc.ipcHandlerInvoke, hflags, hr, hasync, hreply, hclass]
  · refine ⟨0x101, by rw [hmsg]; decide, fun r hr => ?_⟩
    have hflags : Ipc.handlerFlags .requester msg.flags = some 0x101 := by
      rw [hmsg]
      decide
    have hasync : (0x101 : UInt16) &&& Ipc.ipcFlagAsync = 0 := by decide
    have hreply : (0x101 : UInt16) &&& Ipc.ipcFlagReply ≠ 0 := by decide
    have hclass : Ipc.ipcClass 0x101 = Ipc.IpcClass.val .requester := by decide
    simp [Ipc.ipcHandlerInvoke, hflags, hr, hasync, hreply, hclass]

lemma data_withData {msg : Ipc.IpcMsg} {data : List UInt8} (h : data.length < 2 ^ 16) :
    (withData msg data).data = data := by
  change data.take (data.length % 2 ^ 16) = data
  rw [Nat.mod_eq_of_lt h, List.take_length]

/-- The answer of the server to a message of the client. -/
structure Reply (id : UInt32) (data : List UInt8) (reply : Ipc.IpcMsg) : Prop where
  id : reply.msgId = id ||| Ipc.ipcMsgToken
  data : reply.data = data

/-- The message is one for the handler of the user: its id is no id of the library, and the token in
its upper bits comes off again. -/
def Plain (id : UInt32) : Prop :=
  (id ||| Ipc.ipcMsgToken) &&& Ipc.ipcMsgTokenMask = Ipc.ipcMsgToken ∧
    (id ||| Ipc.ipcMsgToken) &&& ~~~Ipc.ipcMsgTokenMask = id ∧
    id ∉ [Ipc.ipcSdkMsgConnect, Ipc.ipcSdkMsgRegister, Ipc.ipcSdkMsgSync, Ipc.ipcSdkMsgUnregister,
      Ipc.ipcSdkMsgNotify]

instance (id : UInt32) : Decidable (Plain id) := inferInstanceAs (Decidable (_ ∧ _ ∧ _))

lemma requestFrame_length {m : Mem} {id : UInt32} {data : List UInt8} (hasks : Asks m id data) :
    (requestFrame client m).length = Ipc.ipcMsgHdrlen + data.length := by
  have hdata : (requestFrame client m).data = data := by
    rw [requestFrame, Ipc.readMsg_request]
    exact hasks.data
  rw [Ipc.IpcMsg.length, Ipc.IpcMsg.dataLen, hdata]

/-- **The server's part.**  The message is handled in the server's table, and what the handler leaves
of it is the reply. -/
lemma handled_reply {m : Mem} {id : UInt32} {data : List UInt8} (hplain : Plain id)
    (hasks : Asks m id data) (hfits : Ipc.ipcMsgHdrlen + data.length ≤ bufSize)
    (hclazz : Requesting clazz) {via : Ipc.Via}
    (hw : via.chunks.flatten = (requestFrame client m).encode)
    {out : List (Except Fault (Option (Ipc.IpcMsg × Bool)))}
    (hout : via.handled (methodBranch parse handler priv bufSize clazz s rest) bufSize = some out) :
    ∃ msg, msg.msgId = id ∧ msg.data = data ∧ ∀ r s',
      uapiIpcHandler parse handler priv bufSize s msg rest = .ok (r, s') → r.msgId = id →
      r.flags = msg.flags → ∃ reply, out = [.ok (some (reply, true))] ∧ Reply id r.data reply := by
  obtain ⟨hmask, hstrip, htakes⟩ := hplain
  obtain ⟨hid, hflags, hdata⟩ := requestFrame_strip client hasks.flags hasks.id hstrip
  have hfriendly : (requestFrame client m).Friendly := requestFrame_friendly (by rwa [hasks.id])
  have hlength : (requestFrame client m).length ≤ bufSize :=
    (requestFrame_length hasks).trans_le hfits
  have htaken : (methodBranch parse handler priv bufSize clazz s rest).takes
      (requestFrame client m).strip = true := by
    simpa [methodBranch, hid] using htakes
  obtain rfl := Ipc.Via.handled_frame hfriendly hlength htaken hw hout
  obtain ⟨flags, hhandle, hinvoke⟩ := ipcHandlerInvoke_reply hclazz hflags
  refine ⟨{ (requestFrame client m).strip with flags := flags }, hid, hdata.trans hasks.data, ?_⟩
  intro r s' heval hrid hrflags
  refine ⟨r.token, ?_, ?_, rfl⟩
  · simp only [methodBranch, hhandle, heval, hinvoke r hrflags, bind, Except.bind]
  · change r.msgId ||| Ipc.ipcMsgToken = _
    rw [hrid]

/-- **The client's part.**  The reply is in the buffer if it fits, and nothing is written behind the
end of the buffer. -/
lemma reply_received {m : Mem} {id : UInt32} {data : List UInt8} {tmo : ℤ} (hplain : Plain id)
    (hflags : Ipc.flagsAt m 0 = Ipc.ipcFlagReply) (huser : Ipc.usersMsg m = true)
    (hvalid : Ipc.clientValid pid client = true) (hsize : Ipc.ipcMsgHdrlen ≤ size) (htmo : 0 ≤ tmo)
    {reply : Ipc.IpcMsg} (hreply : Reply id data reply) {chunks : List (List UInt8)}
    (hne : ∀ b ∈ chunks, b ≠ []) (hw : chunks.flatten = reply.encode) :
    ∃ m', Ipc.ipcClientRequestCall pid client m size tmo
          ⟨true, (Ipc.delivered size chunks).map .bytes⟩ =
        some ⟨if Ipc.ipcMsgHdrlen + data.length ≤ size then .success else .emem, m',
          some (requestFrame client m)⟩ ∧
      (Ipc.ipcMsgHdrlen + data.length ≤ size →
        m'.read 12 data.length = data ∧ Ipc.dataLenAt m' 0 = data.length) ∧
      ∀ k n, size ≤ k → m'.read k n = m.read k n := by
  obtain ⟨m', hcall, hcontent, hbeyond⟩ :=
    request_replied hvalid huser hflags hsize htmo hne hw
  have hlength : reply.length = Ipc.ipcMsgHdrlen + data.length := by
    rw [Ipc.IpcMsg.length, Ipc.IpcMsg.dataLen, hreply.data]
  have hfriendly : reply.Friendly := by
    rw [Ipc.IpcMsg.Friendly, hreply.id]
    exact hplain.1
  refine ⟨m', ?_, fun hfits => ?_, hbeyond⟩
  · rw [hcall, Ipc.receiveVerdict, hlength, if_pos hfriendly]
    by_cases hfits : Ipc.ipcMsgHdrlen + data.length ≤ size
    · rw [if_neg (not_lt.mpr hfits), if_pos hfits]
      rfl
    · rw [if_pos (not_le.mp hfits), if_neg hfits]
      rfl
  · have hread := hcontent (by rwa [hlength]) hfriendly
    rw [← Ipc.IpcMsg.length_strip] at hread
    have hdata : m'.read 12 (Ipc.dataLenAt m' 0) = data :=
      (congrArg Ipc.IpcMsg.data (Ipc.readMsg_of_read hread)).trans hreply.data
    have hlen : Ipc.dataLenAt m' 0 = data.length := by
      rw [← Mem.length_read m' 12 (Ipc.dataLenAt m' 0), hdata]
    rw [hlen] at hdata
    exact ⟨hdata, hlen⟩

lemma cString_append_of_mem {bs : List UInt8} (h : 0 ∈ bs) (rest : List UInt8) :
    cString (bs ++ rest) = cString bs := by
  obtain ⟨xs, ys, rfl, hxs⟩ := List.eq_append_cons_of_mem h
  rw [List.append_assoc, List.cons_append, cString_append hxs, cString_append hxs]

/-- **The handler's part** of a request. -/
lemma Serves.answer (h : Serves es path s) (hhandlers : ∀ e ∈ es, Replies bufSize (handler e))
    {msg : Ipc.IpcMsg} {text : List UInt8} (hid : msg.msgId = uapiMsgRequest)
    (hdata : Labelled method text msg.data) (hzero : 0 ∉ text) (hroom : msg.length ≤ bufSize) :
    ∃ r, uapiIpcHandler parse handler priv bufSize s msg rest = .ok (r, s) ∧
      r.msgId = uapiMsgRequest ∧ r.flags = msg.flags ∧
      r.data = answerTo parse handler es method text msg ++ [0] := by
  have hsplit : msg.data = msg.data.take 32 ++ (text ++ [0]) := by
    rw [← hdata.text, List.take_append_drop]
  have hmem : 0 ∈ msg.data := by
    rw [hsplit]
    simp
  have hname : cString (msg.data ++ rest) = method := by
    rw [cString_append_of_mem hmem, hdata.name]
  have htext : cString ((msg.data ++ rest).drop uapiRequestHdrlen) = text := by
    rw [uapiRequestHdrlen, List.drop_append_of_le_length (by rw [hdata.length]; omega), hdata.text,
      List.append_assoc]
    exact cString_append hzero
  have heval : uapiRequestHandler parse handler bufSize s msg rest = _ := h.request msg rest
  rw [hname, htext] at heval
  unfold uapiIpcHandler answerTo
  rw [if_pos hid, heval]
  cases hfind : es.find? fun e => e.method = method with
  | none =>
      -- the text is shorter than the request
      have hspace : Ipc.ipcMsgHdrlen + (methodNotFound ++ [0]).length ≤ bufSize := by
        have hlong : Ipc.ipcMsgHdrlen + 32 < msg.length := by
          rw [Ipc.IpcMsg.length, Ipc.IpcMsg.dataLen, hdata.length]
          omega
        exact (by decide : _ ≤ Ipc.ipcMsgHdrlen + 32).trans (hlong.le.trans hroom)
      refine ⟨withData msg (methodNotFound ++ [0]), ?_, hid, rfl, data_withData (by decide)⟩
      simp only [writeData_ok hspace, bind, Except.bind]
  | some e =>
      have he := hhandlers e (List.mem_of_find?_eq_some hfind)
      set r := handler e msg (parse text) with hr
      have hlength : (r.data ++ [0]).length = r.data.length + 1 := by
        rw [List.length_append, List.length_singleton]
      have hspace : Ipc.ipcMsgHdrlen + (r.data ++ [0]).length ≤ bufSize := by
        rw [hlength]
        exact he.fits msg _ hroom
      refine ⟨withData r (r.data ++ [0]), ?_, (he.id _ _).trans hid, he.flags _ _,
        data_withData ?_⟩
      · simp only [← hr, writeData_ok hspace, bind, Except.bind]
      · rw [hlength]
        exact he.short _ _

/-- What a call with a buffer of this size returns for this answer: the text with a zero, if a
message with it fits into the first `room` bytes. -/
structure Answered (buf : Mem) (size room : ℕ) (answer : List UInt8) (r : MethodCall) : Prop where
  fits : Ipc.ipcMsgHdrlen + answer.length + 1 ≤ room → ∃ m, r.result = some m ∧
    m.read 12 (answer.length + 1) = answer ++ [0] ∧ ∀ k n, size ≤ k → m.read k n = buf.read k n
  long : room < Ipc.ipcMsgHdrlen + answer.length + 1 → r.result = none

/-- **A method is called.**  Take a server that has been started with some entries and has handled
any messages since, and a call of `uapi_method_invoke` with a name and a parameter that fit.  What it
sends leads the server, on whatever way and in whatever pieces it arrives, to the first entry with
this name; and what the handler of this entry writes is what the call returns, in whatever pieces it
comes back, if it fits the buffer.  Otherwise the call returns `NULL`.  Nothing is written behind the
end of the buffer. -/
theorem method_call_answered {env : InitEnv} {fuel : ℕ} (hfuel : 2 * es.length + 4 ≤ fuel)
    (hinit : uapiIpcInit env fuel path es = .ok (some s₀)) {ls : List (Ipc.IpcMsg × List UInt8)}
    {replies : List Ipc.IpcMsg}
    (hrun : run (uapiServerStep parse handler priv bufSize) ls s₀ = some (s, replies))
    (hhandlers : ∀ e ∈ es, Replies bufSize (handler e)) (hvalid : Ipc.clientValid pid client = true)
    (hzero : 0 ∉ method) (hjson : 0 ∉ json.getD []) (hshort : 33 + (json.getD []).length < 2 ^ 16)
    {f : Ipc.IpcMsg} (hframe : methodFrame client buf method json size = some f)
    (hbuf : f.length ≤ bufSize) (hclazz : Requesting clazz) {via : Ipc.Via}
    (hw : via.chunks.flatten = f.encode)
    {out : List (Except Fault (Option (Ipc.IpcMsg × Bool)))}
    (hout : via.handled (methodBranch parse handler priv bufSize clazz s rest) bufSize = some out) :
    ∃ msg reply, out = [.ok (some (reply, true))] ∧ Labelled method (json.getD []) msg.data ∧
      ∀ (tmo : ℤ) (chunks : List (List UInt8)), 0 ≤ tmo → (∀ b ∈ chunks, b ≠ []) →
        chunks.flatten = reply.encode →
        ∃ r, uapiMethodInvoke pid client ⟨true, (Ipc.delivered (size - 1) chunks).map .bytes⟩ false
            buf method json size tmo = some r ∧
          r.frame = some f ∧
          Answered buf size (size - 1) (answerTo parse handler es method (json.getD []) msg) r := by
  have hserves : Serves es path s := serves_of_run hfuel hinit hrun
  obtain ⟨m, hbuffer, rfl⟩ := Option.map_eq_some_iff.mp hframe
  obtain ⟨hsize, data, hasks, hlabelled, hbeyond⟩ := methodBuffer_asks hbuffer hzero hshort
  have hplain : Plain uapiMsgRequest := by decide
  have huser : Ipc.usersMsg (requestFields false m) = true := by
    rw [Ipc.usersMsg, hasks.id]
    decide
  have hfits : Ipc.ipcMsgHdrlen + data.length ≤ bufSize := by
    rw [requestFrame_length hasks] at hbuf
    exact hbuf
  obtain ⟨msg, hid, hdata, hhandled⟩ := handled_reply hplain hasks hfits hclazz hw hout
  have hlabelled' : Labelled method (json.getD []) msg.data := hdata ▸ hlabelled
  have hroom : msg.length ≤ bufSize := by rwa [Ipc.IpcMsg.length, Ipc.IpcMsg.dataLen, hdata]
  obtain ⟨r, heval, hrid, hrflags, hrdata⟩ := hserves.answer hhandlers hid hlabelled' hjson hroom
  obtain ⟨reply, rfl, hreply⟩ := hhandled r s heval hrid hrflags
  rw [hrdata] at hreply
  refine ⟨msg, reply, rfl, hlabelled', fun tmo chunks htmo hne hw' => ?_⟩
  set answer := answerTo parse handler es method (json.getD []) msg with hanswer
  obtain ⟨m', hcall, hcontent, hkept⟩ := reply_received hplain hasks.flags huser hvalid
    (by rw [Ipc.ipcMsgHdrlen]; omega : Ipc.ipcMsgHdrlen ≤ size - 1) htmo hreply hne hw'
  rw [List.length_append, List.length_singleton] at hcall hcontent
  have heval' : uapiMethodInvoke pid client ⟨true, (Ipc.delivered (size - 1) chunks).map .bytes⟩
      false buf method json size tmo =
        some ⟨if Ipc.ipcMsgHdrlen + (answer.length + 1) ≤ size - 1 then some (requestEnd false m')
          else none, some (requestFrame client (requestFields false m))⟩ := by
    unfold uapiMethodInvoke uapiRequestMsg
    rw [hbuffer]
    simp only [hcall]
    by_cases hfits : Ipc.ipcMsgHdrlen + (answer.length + 1) ≤ size - 1
    · simp [hfits]
    · simp [hfits]
  refine ⟨_, heval', rfl, fun hfits => ?_, fun hlong => if_neg (not_le.mpr hlong)⟩
  obtain ⟨hread, hlength⟩ := hcontent hfits
  rw [Ipc.ipcMsgHdrlen] at hfits
  have hend : requestEnd false m' = m'.write (12 + (answer.length + 1)) [0] := by
    rw [← hlength]
    rfl
  refine ⟨requestEnd false m', if_pos hfits, ?_, fun k n hk => ?_⟩
  · rw [hend, Mem.read_write_below _ _ (le_refl _)]
    exact hread
  · rw [hend, Mem.read_write_above _ _ (by
      rw [List.length_singleton]
      omega)]
    exact (hkept k n (by omega)).trans (hbeyond k n hk)

/-- Two entries for the method `b` and one for `a`. -/
def sampleEntries : List UapiEntry :=
  [⟨1, asciiBytes "b", asciiBytes "x"⟩, ⟨2, asciiBytes "a", asciiBytes "y"⟩,
    ⟨3, asciiBytes "b", asciiBytes "z"⟩]

/-- A handler that answers with the number of its entry and the parameter. -/
def sampleHandler (e : UapiEntry) (msg : Ipc.IpcMsg) (j : Option (List UInt8)) : Ipc.IpcMsg :=
  withData msg (UInt8.ofNat (48 + e.addr) :: (j.getD []).take 9)

def sampleInit : InitEnv := ⟨true, true, true, fun _ _ => none, fun _ => none⟩

lemma length_no_data : ([] : List UInt8).length < 2 ^ 16 := by decide

/-- The size of the buffer of the server. -/
def sampleRoom : ℕ := 256

/-- A list is asked for before the call. -/
def sampleBefore : List (Ipc.IpcMsg × List UInt8) :=
  [(⟨9, uapiMsgList, Ipc.ipcFlagReply, [], length_no_data⟩, [])]

lemma length_sampleHandler (e : UapiEntry) (msg : Ipc.IpcMsg) (j : Option (List UInt8)) :
    (sampleHandler e msg j).data.length ≤ 10 := by
  change (List.take _ _).length ≤ 10
  rw [List.length_take, List.length_cons, List.length_take]
  omega

lemma replies_sampleHandler (e : UapiEntry) : Replies sampleRoom (sampleHandler e) where
  id _ _ := rfl
  flags _ _ := rfl
  short msg j := by
    have hlength := length_sampleHandler e msg j
    omega
  fits msg j _ := by
    have hlength := length_sampleHandler e msg j
    rw [Ipc.ipcMsgHdrlen, sampleRoom]
    omega

/-- The state of the server after its start and the list. -/
def sampleServer : Option (UapiServer × UapiServer) :=
  match uapiIpcInit sampleInit 10 (asciiBytes "uapi:x") sampleEntries with
  | .ok (some s₀) =>
      (run (uapiServerStep some sampleHandler none sampleRoom) sampleBefore s₀).map
        fun r => (s₀, r.1)
  | _ => none

lemma sampleServer_eq {s₀ s : UapiServer} (h : sampleServer = some (s₀, s)) :
    uapiIpcInit sampleInit 10 (asciiBytes "uapi:x") sampleEntries = .ok (some s₀) ∧
      ∃ replies, run (uapiServerStep some sampleHandler none sampleRoom) sampleBefore s₀ =
        some (s, replies) := by
  unfold sampleServer at h
  split at h
  · rename_i s₁ hinit
    obtain ⟨⟨s', replies⟩, hrun, heq⟩ := Option.map_eq_some_iff.mp h
    obtain ⟨rfl, rfl⟩ := Prod.mk.inj heq
    exact ⟨hinit, replies, hrun⟩
  · cases h

/-- The request for `b`, in two pieces. -/
def sampleWay (f : Ipc.IpcMsg) : Ipc.Via := .temporary (Ipc.chop [20] f.encode) zeros

lemma encode_single_ne_nil (reply : Ipc.IpcMsg) : ∀ b ∈ [reply.encode], b ≠ [] := by
  intro b hb hnil
  rw [List.mem_singleton] at hb
  have hlen := Ipc.IpcMsg.length_encode reply
  rw [← hb, hnil] at hlen
  exact absurd reply.length_pos (by rw [← hlen]; decide)

/-- The first entry for `b` answers. -/
theorem method_call_answered_sample : ∃ (s : UapiServer) (f reply : Ipc.IpcMsg) (r : MethodCall)
    (m : Mem), sampleServer.map Prod.snd = some s ∧
      methodFrame Ipc.sampleHandle zeros [98] (some [55]) 64 = some f ∧
      (sampleWay f).handled (methodBranch some sampleHandler none sampleRoom .dummy s [])
        sampleRoom = some [.ok (some (reply, true))] ∧
      uapiMethodInvoke 41 Ipc.sampleHandle ⟨true, (Ipc.delivered 63 [reply.encode]).map .bytes⟩ false
        zeros [98] (some [55]) 64 1 = some r ∧
      r.result = some m ∧ m.read 12 3 = [49, 55, 0] := by
  have heval : (sampleServer.bind fun r =>
      (methodFrame Ipc.sampleHandle zeros [98] (some [55]) 64).map fun f =>
        (((sampleWay f).handled (methodBranch some sampleHandler none sampleRoom .dummy r.2 [])
            sampleRoom).isSome,
          decide ((sampleWay f).chunks.flatten = f.encode), decide (f.length ≤ sampleRoom))) =
      some (true, true, true) := by decide +kernel
  obtain ⟨⟨s₀, s⟩, hserver, heval⟩ := Option.bind_eq_some_iff.mp heval
  obtain ⟨f, hframe, heval⟩ := Option.map_eq_some_iff.mp heval
  obtain ⟨hhandled, heval⟩ := Prod.mk.inj heval
  obtain ⟨hw, hlength⟩ := Prod.mk.inj heval
  obtain ⟨out, hout⟩ := Option.isSome_iff_exists.mp hhandled
  obtain ⟨hinit, replies, hrun⟩ := sampleServer_eq hserver
  obtain ⟨msg, reply, rfl, -, hcall⟩ := method_call_answered (by decide) hinit hrun
    (fun e _ => replies_sampleHandler e) (by decide : Ipc.clientValid 41 Ipc.sampleHandle = true)
    (by decide) (by decide) (by decide) hframe (of_decide_eq_true hlength) (.inl rfl)
    (of_decide_eq_true hw) hout
  obtain ⟨r, hr, -, hfits, -⟩ :=
    hcall 1 [reply.encode] (by decide) (encode_single_ne_nil reply) (by simp)
  have hanswer : answerTo some sampleHandler sampleEntries [98] [55] msg = [49, 55] := rfl
  rw [Option.getD_some, hanswer] at hfits
  obtain ⟨m, hm, hread, -⟩ := hfits (by decide)
  exact ⟨s, f, reply, r, m, by rw [hserver]; rfl, hframe, hout, hr, hm, hread⟩

/-- **The methods are listed.**  Take a server that has been started with some entries and has
handled any messages since, and whose buffer has space for the text.  A call of `uapi_method_list`
returns the path of the server with one line for every method, in ascending order, with the
parameter of the first entry with this method. -/
theorem method_list_answered {env : InitEnv} {fuel : ℕ} (hfuel : 2 * es.length + 4 ≤ fuel)
    (hinit : uapiIpcInit env fuel path es = .ok (some s₀)) {ls : List (Ipc.IpcMsg × List UInt8)}
    {replies : List Ipc.IpcMsg}
    (hrun : run (uapiServerStep parse handler priv bufSize) ls s₀ = some (s, replies))
    (hvalid : Ipc.clientValid pid client = true) (hsize : Ipc.ipcMsgHdrlen ≤ size)
    (hclazz : Requesting clazz) (buf : Mem) (rest : List UInt8) :
    ∃ xs, Sorted uapiComparator xs ∧ FirstOf es xs ∧ ((listText path xs).length + 1 < 2 ^ 16 →
      Ipc.ipcMsgHdrlen + ((listText path xs).length + 1) ≤ bufSize →
      ∀ (via : Ipc.Via) (out : List (Except Fault (Option (Ipc.IpcMsg × Bool)))),
        via.chunks.flatten = (requestFrame client (listBuffer buf)).encode →
        via.handled (methodBranch parse handler priv bufSize clazz s rest) bufSize = some out →
        ∃ reply, out = [.ok (some (reply, true))] ∧
          ∀ (tmo : ℤ) (chunks : List (List UInt8)), 0 ≤ tmo → (∀ b ∈ chunks, b ≠ []) →
            chunks.flatten = reply.encode →
            ∃ r, uapiMethodList pid client ⟨true, (Ipc.delivered size chunks).map .bytes⟩ buf size
                tmo = some r ∧
              r.frame = some (requestFrame client (listBuffer buf)) ∧
              Answered buf size size (listText path xs) r) := by
  have hserves : Serves es path s := serves_of_run hfuel hinit hrun
  obtain ⟨xs, hsorted, hfirst, s', -, hlisted⟩ := hserves.list
  have hasks := listBuffer_asks buf
  have hplain : Plain uapiMsgList := by decide
  have huser : Ipc.usersMsg (listBuffer buf) = true := by
    rw [Ipc.usersMsg, hasks.id]
    decide
  refine ⟨xs, hsorted, hfirst, fun hshort hspace via out hw hout => ?_⟩
  have hlength : (listText path xs ++ [0]).length = (listText path xs).length + 1 := by
    rw [List.length_append, List.length_singleton]
  rw [← hlength] at hspace
  obtain ⟨msg, hid, -, hhandled⟩ := handled_reply hplain hasks
    ((Nat.le_add_right _ _).trans hspace) hclazz hw hout
  have hhandler : uapiIpcHandler parse handler priv bufSize s msg rest =
      .ok (withData msg (listText path xs ++ [0]), s') := by
    unfold uapiIpcHandler
    rw [if_neg (by rw [hid]; decide), if_pos hid, hlisted, writeData_ok hspace]
    rfl
  obtain ⟨reply, rfl, hreply⟩ := hhandled _ s' hhandler hid rfl
  rw [data_withData (by rw [hlength]; exact hshort)] at hreply
  refine ⟨reply, rfl, fun tmo chunks htmo hne hw' => ?_⟩
  obtain ⟨m', hcall, hcontent, hkept⟩ :=
    reply_received hplain hasks.flags huser hvalid hsize htmo hreply hne hw'
  rw [List.length_append, List.length_singleton] at hcall hcontent
  have heval' : uapiMethodList pid client ⟨true, (Ipc.delivered size chunks).map .bytes⟩ buf size
      tmo =
        some ⟨if Ipc.ipcMsgHdrlen + ((listText path xs).length + 1) ≤ size then some m' else none,
          some (requestFrame client (listBuffer buf))⟩ := by
    unfold uapiMethodList
    simp only [hcall]
    by_cases hfits : Ipc.ipcMsgHdrlen + ((listText path xs).length + 1) ≤ size
    · simp [hfits]
    · simp [hfits]
  refine ⟨_, heval', rfl, fun hfits => ?_, fun hlong => if_neg (not_le.mpr hlong)⟩
  refine ⟨m', if_pos hfits, (hcontent hfits).1, fun k n hk => ?_⟩
  have hk' : 12 ≤ k := hsize.trans hk
  rw [hkept k n hk, listBuffer, Mem.read_write_above _ _ (by rw [length_toLE]; omega),
    Mem.read_write_above _ _ (by rw [length_toLE]; omega),
    Mem.read_write_above _ _ (by rw [length_toLE]; omega)]

/-- The two methods of `sampleServer`, in order. -/
def sampleMethods : List UapiEntry :=
  [⟨2, asciiBytes "a", asciiBytes "y"⟩, ⟨1, asciiBytes "b", asciiBytes "x"⟩]

lemma eq_sampleMethods {xs : List UapiEntry} (hsorted : Sorted uapiComparator xs)
    (hfirst : FirstOf sampleEntries xs) : xs = sampleMethods := by
  have hsample : Sorted uapiComparator sampleMethods := by
    unfold Sorted
    decide
  refine comparator_uapi.eq_of_mem_iff hsorted hsample fun e => ?_
  rw [hfirst e]
  constructor
  · intro hfind
    have hmem := List.mem_of_find?_eq_some hfind
    revert hfind
    fin_cases hmem <;> decide
  · intro hmem
    fin_cases hmem <;> rfl

/-- The request for the list, in two pieces. -/
def sampleListWay : Ipc.Via :=
  .temporary (Ipc.chop [5] (requestFrame Ipc.sampleHandle (listBuffer zeros)).encode) zeros

/-- The reply has the two methods. -/
theorem method_list_answered_sample : ∃ (s : UapiServer) (reply : Ipc.IpcMsg) (r : MethodCall)
    (m : Mem), sampleServer.map Prod.snd = some s ∧
      sampleListWay.handled
        (methodBranch some sampleHandler none sampleRoom .dummy s []) sampleRoom =
        some [.ok (some (reply, true))] ∧
      uapiMethodList 41 Ipc.sampleHandle ⟨true, (Ipc.delivered 512 [reply.encode]).map .bytes⟩ zeros
        512 1 = some r ∧
      r.result = some m ∧
      m.read 12 118 = listText (asciiBytes "uapi:x") sampleMethods ++ [0] := by
  have heval : (sampleServer.map fun r =>
      ((sampleListWay.handled
          (methodBranch some sampleHandler none sampleRoom .dummy r.2 []) sampleRoom).isSome,
        decide (sampleListWay.chunks.flatten =
          (requestFrame Ipc.sampleHandle (listBuffer zeros)).encode))) =
      some (true, true) := by decide +kernel
  obtain ⟨⟨s₀, s⟩, hserver, heval⟩ := Option.map_eq_some_iff.mp heval
  obtain ⟨hhandled, hw⟩ := Prod.mk.inj heval
  obtain ⟨out, hout⟩ := Option.isSome_iff_exists.mp hhandled
  obtain ⟨hinit, replies, hrun⟩ := sampleServer_eq hserver
  obtain ⟨xs, hsorted, hfirst, hlist⟩ := method_list_answered (by decide) hinit hrun
    (by decide : Ipc.clientValid 41 Ipc.sampleHandle = true)
    (by decide : Ipc.ipcMsgHdrlen ≤ 512) (.inl rfl) zeros []
  obtain rfl := eq_sampleMethods hsorted hfirst
  have hlength : (listText (asciiBytes "uapi:x") sampleMethods).length = 117 := by decide +kernel
  rw [hlength] at hlist
  obtain ⟨reply, rfl, hcall⟩ :=
    hlist (by decide) (by decide) _ out (of_decide_eq_true hw) hout
  obtain ⟨r, hr, -, hfits, -⟩ :=
    hcall 1 [reply.encode] (by decide) (encode_single_ne_nil reply) (by simp)
  rw [hlength] at hfits
  obtain ⟨m, hm, hread, -⟩ := hfits (by decide)
  exact ⟨s, reply, r, m, by rw [hserver]; rfl, hout, hr, hm, hread⟩

end Call

end LinuxC.Uapi
