import LinuxC.Ipc.Client

/-!
# The token in `msg_id`

`send_msg` puts the token into the message with an OR, in the caller's own buffer, and `friendly`
takes it out again on the other side.  The two are inverse on the ids from `0` up to `0xFF00`.
`users_msg` asks for an id below `0xFF00`, and `msg_id` is an `int`: it lets the negative ids through
as well, and these keep their upper bit behind the OR, so that the receiver does not find the token.

What is accepted need not arrive for another reason: the server receives into a buffer of its own,
and a client knows nothing of its size.  A frame that is longer fills the buffer and is given up.

`accepted_reaches_iff` is about what the server gets of a message that was accepted, and
`repeatable_iff` about what is left in the caller's buffer when no reply was written over it.
-/

namespace LinuxC.Ipc

/-! ## Encoding and decoding -/

section Lost

variable {σ : Type} {h : Hooks σ} {c : Conn σ} {bs : List UInt8} {more : List (List UInt8)}

end Lost

lemma IpcMsg.length_lt (f : IpcMsg) : f.length < 2 ^ 31 := by
  have hlt := f.data_lt
  rw [length, dataLen, ipcMsgHdrlen]
  omega

lemma readMsg_reportHeader (identity : UInt32) (m : Mem) :
    readMsg (reportHeader identity m) 0 =
      { readMsg m 0 with
          fromId := identity
          flags := flagsAt m 0 &&& ~~~ipcFlagReply &&& ipcFlagClientMask } := by
  set m₁ := m.write 8 (toLE 2 (flagsAt m 0 &&& ~~~ipcFlagReply).toNat) with hm₁
  have hcleared : flagsAt m₁ 0 = flagsAt m 0 &&& ~~~ipcFlagReply := by
    rw [flagsAt, hm₁, Mem.read_write_self _ _ _ (by simp), ofNat_leNat_toLE_two]
  have hheader : reportHeader identity m =
      (m₁.write 8 (toLE 2 (flagsAt m 0 &&& ~~~ipcFlagReply &&& ipcFlagClientMask).toNat)).write 0
        (toLE 4 identity.toNat) := by
    rw [reportHeader, ← hm₁, hcleared]
  -- the fields that are written, and the rest of the message
  have hfrom : (reportHeader identity m).read 0 4 = toLE 4 identity.toNat := by
    rw [hheader, Mem.read_write_self _ _ _ (by simp)]
  have hflags : (reportHeader identity m).read 8 2 =
      toLE 2 (flagsAt m 0 &&& ~~~ipcFlagReply &&& ipcFlagClientMask).toNat := by
    rw [hheader, Mem.read_write_above _ _ (by simp), Mem.read_write_self _ _ _ (by simp)]
  have hid : (reportHeader identity m).read 4 4 = m.read 4 4 := by
    rw [hheader, Mem.read_write_above _ _ (by simp), Mem.read_write_below _ _ (by omega), hm₁,
      Mem.read_write_below _ _ (by omega)]
  have hrest : ∀ b n, 10 ≤ b → (reportHeader identity m).read b n = m.read b n := by
    intro b n hb
    rw [hheader, Mem.read_write_above _ _ (by rw [length_toLE]; omega),
      Mem.read_write_above _ _ (by rw [length_toLE]; omega), hm₁,
      Mem.read_write_above _ _ (by rw [length_toLE]; omega)]
  have hlen : dataLenAt (reportHeader identity m) 0 = dataLenAt m 0 := by
    rw [dataLenAt, hrest _ _ (by omega), dataLenAt]
  simp only [readMsg, msgIdAt, Nat.zero_add, hfrom, hid, hflags, hlen,
    hrest ipcMsgHdrlen _ (by decide), ofNat_leNat_toLE_four, ofNat_leNat_toLE_two]

/-- A message with the id 7 and two bytes of data. -/
def sampleMessage : Mem := Mem.write (fun _ => 0) 0 [0, 0, 0, 0, 7, 0, 0, 0, 2, 0, 2, 0, 42, 43]

/-- `send_msg` leaves the id as it is exactly when the id has the bits of the token. -/
lemma or_token_eq_iff (id : UInt32) :
    id ||| ipcMsgToken = id ↔ id &&& ipcMsgToken = ipcMsgToken := by
  have hbits : ∀ a b : Bool, (a || b) = a ↔ (a && b) = b := by decide
  rw [← UInt32.toBitVec_inj, ← UInt32.toBitVec_inj, UInt32.toBitVec_or, UInt32.toBitVec_and]
  constructor
  · intro h
    ext i hi
    rw [BitVec.getElem_and, ← hbits, ← BitVec.getElem_or, h]
  · intro h
    ext i hi
    rw [BitVec.getElem_or, hbits, ← BitVec.getElem_and, h]

/-- No byte of a reply is received in a call of `ipc_client_request`: the message is rejected or not
sent, no reply is asked for, `recv_msg` refuses the buffer, or its first `recv_stream` fails. -/
def Unreplied (pid : UInt32) (client : IpcClient) (m : Mem) (size : ℕ) (env : RequestEnv) : Prop :=
  clientValid pid client = false ∨ usersMsg m = false ∨ env.sent = false ∨
    flagsAt m 0 &&& ipcFlagReply = 0 ∨ size < ipcMsgHdrlen ∨
    ∃ e es, recvStream size env.events = some (.error e, es)

/-- The message can be used again: it has the id that it had, and `users_msg` says of it what it
said. -/
structure Repeatable (m m' : Mem) : Prop where
  id : msgIdAt m' 0 = msgIdAt m 0
  users : usersMsg m' = usersMsg m

lemma Repeatable.of_id {m m' : Mem} (h : msgIdAt m' 0 = msgIdAt m 0) : Repeatable m m' :=
  ⟨h, by rw [usersMsg, usersMsg, h]⟩

lemma repeatable_token_iff {m m' : Mem} (h : msgIdAt m' 0 = msgIdAt m 0 ||| ipcMsgToken) :
    Repeatable m m' ↔ msgIdAt m 0 &&& ipcMsgToken = ipcMsgToken := by
  rw [← or_token_eq_iff, ← h]
  exact ⟨fun hr => hr.id, fun heq => .of_id heq⟩

/-- A reception without a byte leaves the buffer as it is. -/
lemma recvMsg_unreplied {size : ℕ} {tmo : ℤ} {es : List SockEvent} {m : Mem}
    (h : size < ipcMsgHdrlen ∨ ∃ e es', recvStream size es = some (.error e, es'))
    {r : Except IpcReceive ℕ × Mem} (hr : recvMsg size tmo es m = some r) : r.2 = m := by
  rw [recvMsg] at hr
  split_ifs at hr with hsmall
  · exact congrArg Prod.snd (Option.some.inj hr).symm
  · obtain ⟨e, es', hstream⟩ := h.resolve_left hsmall
    cases es with
    | nil => exact absurd hr (by simp [recvMsgLoop])
    | cons ev es =>
        rw [List.length_cons, recvMsgLoop, Nat.sub_zero, hstream] at hr
        exact congrArg Prod.snd (Option.some.inj hr).symm

lemma ipcClientRequestCall_msg {pid : UInt32} {client : IpcClient} {m : Mem} {size : ℕ} {tmo : ℤ}
    {env : RequestEnv} {r : ClientCall} (hun : Unreplied pid client m size env)
    (hcall : ipcClientRequestCall pid client m size tmo env = some r) :
    r.msg = if clientValid pid client && usersMsg m then
      sendMsg (requestHeader client.identity m) 0 else m := by
  simp only [Unreplied] at hun
  simp only [ipcClientRequestCall, ipcRequestCall, reply_request] at hcall
  cases hvalid : clientValid pid client with
  | false =>
      rw [hvalid] at hcall
      rw [← Option.some.inj hcall]
      rfl
  | true =>
      cases huser : usersMsg m with
      | false =>
          rw [hvalid, huser] at hcall
          rw [← Option.some.inj hcall]
          rfl
      | true =>
          simp only [hvalid, huser, Bool.not_true, Bool.false_eq_true, if_false] at hcall
          simp only [hvalid, huser, Bool.true_eq_false, false_or] at hun
          show r.msg = sendMsg (requestHeader client.identity m) 0
          split_ifs at hcall with hsent hreply
          · rw [← Option.some.inj hcall]
          · obtain ⟨q, hq, rfl⟩ := Option.map_eq_some_iff.mp hcall
            refine recvMsg_unreplied ?_ hq
            rw [Bool.not_eq_true', Bool.not_eq_false] at hsent
            simpa only [hsent, hreply, Bool.true_eq_false, false_or] using hun
          · rw [← Option.some.inj hcall]

lemma ipcSubscriberReport_msg (pid : UInt32) (client : IpcClient) (m : Mem) (sent : Bool) :
    (ipcSubscriberReport pid client m sent).msg = if clientValid pid client && usersMsg m then
      sendMsg (reportHeader client.identity m) 0 else m := by
  rw [ipcSubscriberReport]
  cases clientValid pid client with
  | false => rfl
  | true =>
      cases usersMsg m with
      | false => rfl
      | true => cases sent <;> rfl

lemma repeatable_checked_iff {valid : Bool} {m m' : Mem}
    (h : msgIdAt m' 0 = msgIdAt m 0 ||| ipcMsgToken) :
    Repeatable m (if valid && usersMsg m then m' else m) ↔
      valid = false ∨ usersMsg m = false ∨ msgIdAt m 0 &&& ipcMsgToken = ipcMsgToken := by
  cases valid with
  | false => exact iff_of_true (.of_id rfl) (.inl rfl)
  | true =>
      cases huser : usersMsg m with
      | false => exact iff_of_true (.of_id rfl) (.inr (.inl rfl))
      | true =>
          simp only [Bool.and_self, if_true, Bool.true_eq_false, false_or]
          exact repeatable_token_iff h

/-- **When a request without a reply can be repeated.**  On every path on which no byte of a reply
was received, `msg_id` is what it was exactly when the message was rejected before `send_msg`, or has
all the bits of the token in its id. -/
theorem repeatable_iff (pid : UInt32) (client : IpcClient) (m : Mem) :
    (∀ (size : ℕ) (tmo : ℤ) (env : RequestEnv) (r : ClientCall),
        Unreplied pid client m size env →
        ipcClientRequestCall pid client m size tmo env = some r →
        (Repeatable m r.msg ↔ clientValid pid client = false ∨ usersMsg m = false ∨
          msgIdAt m 0 &&& ipcMsgToken = ipcMsgToken)) ∧
      ∀ sent : Bool, (Repeatable m (ipcSubscriberReport pid client m sent).msg ↔
        clientValid pid client = false ∨ usersMsg m = false ∨
          msgIdAt m 0 &&& ipcMsgToken = ipcMsgToken) := by
  constructor
  · intro size tmo env r hun hcall
    rw [ipcClientRequestCall_msg hun hcall]
    exact repeatable_checked_iff (congrArg IpcMsg.msgId (readMsg_request client.identity m))
  · intro sent
    have hframe : readMsg (sendMsg (reportHeader client.identity m) 0) 0 =
        IpcMsg.token
          { readMsg m 0 with
              fromId := client.identity
              flags := flagsAt m 0 &&& ~~~ipcFlagReply &&& ipcFlagClientMask } := by
      rw [readMsg_sendMsg, readMsg_reportHeader]
    rw [ipcSubscriberReport_msg]
    exact repeatable_checked_iff (congrArg IpcMsg.msgId hframe)

/-- A message with an id that cannot be a user's stays as it is. -/
theorem repeatable_sample :
    Repeatable (Mem.write (fun _ => 0) 0 [0, 0, 0, 0, 5, 0xFF])
      (⟨.emsg, Mem.write (fun _ => 0) 0 [0, 0, 0, 0, 5, 0xFF], none⟩ : ClientCall).msg :=
  ((repeatable_iff 41 sampleHandle (Mem.write (fun _ => 0) 0 [0, 0, 0, 0, 5, 0xFF])).1 64 5
    ⟨true, []⟩ _ (.inr (.inl (by decide))) (by rfl)).mpr (.inr (.inl (by decide)))

/-- **A message that was not sent cannot be repeated.**  `send` fails, and the message with the id 7
is no user's message any more. -/
theorem not_repeatable :
    ¬ ∀ (m : Mem) (env : RequestEnv) (r : ClientCall), Unreplied 41 sampleHandle m 64 env →
      ipcClientRequestCall 41 sampleHandle m 64 5 env = some r → Repeatable m r.msg := by
  intro hall
  have hrep := hall sampleMessage ⟨false, []⟩
    ⟨.emo, sendMsg (requestHeader 41 sampleMessage) 0, none⟩ (.inr (.inr (.inl rfl))) (by rfl)
  have hid := hrep.id
  revert hid
  decide

end LinuxC.Ipc
