import LinuxC.Ipc.Request
import LinuxC.Ipc.Subscriber

/-!
# Packing a notification (`ipc/ipc_base.h`, `ipc/ipc_client.c`)

Two macros put a notification into a message: `ipc_notify_pack` copies the payload into the buffer,
`ipc_notify_fill` finds it there.  Neither of them writes `from`, and `ipc_notify_pack` does not
write `flags`; `ipc_server_publish` calls it on a buffer that was never initialised.

The buffer is a block of memory with any content.  What counts for the receiver is that the frame
`Carries` the notification: it has the message id of a notification, the token, and the payload
`notifyData`.  A frame that carries a notification makes every subscriber's task that receives it
call its handler with the same arguments, whatever stands in its other fields (`Carries.calls`).
-/

namespace LinuxC.Ipc

/-! ## The two macros -/

section Macros

variable (dest : UInt32) (topic : UInt64) (msgId : UInt32)

/-- The fields `topic`, `msg_id` and `to` of the notification. -/
def notifyHeader (m : Mem) : Mem :=
  ((m.write 16 (toLE 8 topic.toNat)).write 24 (toLE 4 msgId.toNat)).write 12 (toLE 4 dest.toNat)

/-- The fields `msg_id` and `data_len` of the message, at the end of both macros. -/
def notifyFinish (m : Mem) : Mem :=
  (m.write 4 (toLE 4 ipcSdkMsgNotify.toNat)).write 10
    (toLE 2 (ipcNotifyHdrlen + leNat (m.read 28 4)))

def ipcNotifyPack (data : Option Mem) (size : ℕ) (m : Mem) : Mem :=
  notifyFinish <|
    match data with
    | some d => ((notifyHeader dest topic msgId m).write 32 (d.read 0 size)).write 28 (toLE 4 size)
    | none => (notifyHeader dest topic msgId m).write 28 (toLE 4 0)

def ipcNotifyFill (dataLen : ℕ) (m : Mem) : Mem :=
  notifyFinish (((notifyHeader dest topic msgId m).write 28 (toLE 4 dataLen)).write 8 (toLE 2 0))

/-- The payload of a call with these arguments. -/
def notifyPayload (data : Option Mem) (size : ℕ) : List UInt8 :=
  match data with
  | some d => d.read 0 size
  | none => []

/-- The payload of the message: the notify header and the data. -/
def notifyData (bs : List UInt8) : List UInt8 :=
  toLE 4 dest.toNat ++ (toLE 8 topic.toNat ++ (toLE 4 msgId.toNat ++ (toLE 4 bs.length ++ bs)))

end Macros

variable {dest : UInt32} {topic : UInt64} {msgId : UInt32} {bs : List UInt8}

@[simp] lemma length_notifyData : (notifyData dest topic msgId bs).length =
    ipcNotifyHdrlen + bs.length := by
  simp only [notifyData, List.length_append, length_toLE, ipcNotifyHdrlen]
  omega

lemma read_fields (m : Mem) (n : ℕ) :
    m.read 12 (ipcNotifyHdrlen + n) =
      m.read 12 4 ++ (m.read 16 8 ++ (m.read 24 4 ++ (m.read 28 4 ++ m.read 32 n))) := by
  rw [← Mem.read_add m 28, ← Mem.read_add m 24, ← Mem.read_add m 16, ← Mem.read_add m 12]
  congr 1
  simp only [ipcNotifyHdrlen]
  omega

/-- The notification lies in the buffer, before the header of the message is filled in. -/
lemma read_notifyData {m : Mem} (hto : m.read 12 4 = toLE 4 dest.toNat)
    (htopic : m.read 16 8 = toLE 8 topic.toNat) (hid : m.read 24 4 = toLE 4 msgId.toNat)
    (hlen : m.read 28 4 = toLE 4 bs.length) (hdata : m.read 32 bs.length = bs) :
    m.read 12 (ipcNotifyHdrlen + bs.length) = notifyData dest topic msgId bs := by
  rw [read_fields, hto, htopic, hid, hlen, hdata]
  rfl

lemma notifyHeader_fields (dest : UInt32) (topic : UInt64) (msgId : UInt32) (m : Mem) :
    (notifyHeader dest topic msgId m).read 12 4 = toLE 4 dest.toNat ∧
      (notifyHeader dest topic msgId m).read 16 8 = toLE 8 topic.toNat ∧
      (notifyHeader dest topic msgId m).read 24 4 = toLE 4 msgId.toNat := by
  refine ⟨Mem.read_write_self _ _ _ (by simp), ?_, ?_⟩
  · rw [notifyHeader, Mem.read_write_apart _ _ (by simp), Mem.read_write_apart _ _ (by simp),
      Mem.read_write_self _ _ _ (by simp)]
  · rw [notifyHeader, Mem.read_write_apart _ _ (by simp), Mem.read_write_self _ _ _ (by simp)]

lemma notifyHeader_above (dest : UInt32) (topic : UInt64) (msgId : UInt32) (m : Mem) {b : ℕ}
    (hb : 28 ≤ b) (n : ℕ) : (notifyHeader dest topic msgId m).read b n = m.read b n := by
  rw [notifyHeader, Mem.read_write_above _ _ (by rw [length_toLE]; omega),
    Mem.read_write_above _ _ (by rw [length_toLE]; omega),
    Mem.read_write_above _ _ (by rw [length_toLE]; omega)]

/-- **The message that the macros leave.**  Its id is that of a notification and its payload the
notification in the buffer. -/
lemma readMsg_notifyFinish {m : Mem}
    (h : m.read 12 (ipcNotifyHdrlen + bs.length) = notifyData dest topic msgId bs)
    (hlen : m.read 28 4 = toLE 4 bs.length) (hbs : ipcNotifyHdrlen + bs.length ≤ 65535) :
    (readMsg (notifyFinish m) 0).msgId = ipcSdkMsgNotify ∧
      (readMsg (notifyFinish m) 0).data = notifyData dest topic msgId bs := by
  have hsize : leNat (m.read 28 4) = bs.length := by
    rw [hlen, leNat_toLE_of_lt (by omega)]
  have hdata : dataLenAt (notifyFinish m) 0 = ipcNotifyHdrlen + bs.length := by
    rw [dataLenAt, notifyFinish, Mem.read_write_self _ _ _ (by simp), hsize,
      leNat_toLE_of_lt (by omega)]
  refine ⟨?_, ?_⟩
  · show UInt32.ofNat (leNat ((notifyFinish m).read 4 4)) = _
    rw [notifyFinish, Mem.read_write_apart _ _ (by simp), Mem.read_write_self _ _ _ (by simp)]
    rfl
  · show (notifyFinish m).read 12 (dataLenAt (notifyFinish m) 0) = _
    rw [hdata, notifyFinish, Mem.read_write_above _ _ (by rw [length_toLE]),
      Mem.read_write_above _ _ (by rw [length_toLE]; omega), h]

lemma read_flags_notifyFinish (m : Mem) : (notifyFinish m).read 8 2 = m.read 8 2 := by
  rw [notifyFinish, Mem.read_write_apart _ _ (by simp), Mem.read_write_apart _ _ (by simp)]

/-- The message is a notification with this payload: behind the header of the notification, with its
destination, its topic and its own id, stand the data. -/
structure Packed (dest : UInt32) (topic : UInt64) (msgId : UInt32) (bs : List UInt8)
    (f : IpcMsg) : Prop where
  id : f.msgId = ipcSdkMsgNotify
  data : f.data = notifyData dest topic msgId bs

/-- A buffer whose notify header was written is packed, once its length and its data are there. -/
lemma packed_finish {m m' : Mem}
    (hbelow : ∀ b n, b + n ≤ 28 → ¬ (b < 10 ∧ 8 < b + n) →
      m'.read b n = (notifyHeader dest topic msgId m).read b n)
    (hlen : m'.read 28 4 = toLE 4 bs.length) (hdata : m'.read 32 bs.length = bs)
    (hbs : ipcNotifyHdrlen + bs.length ≤ 65535) :
    Packed dest topic msgId bs (readMsg (notifyFinish m') 0) := by
  obtain ⟨hto, htopic, hid⟩ := notifyHeader_fields dest topic msgId m
  have hread : m'.read 12 (ipcNotifyHdrlen + bs.length) = notifyData dest topic msgId bs := by
    apply read_notifyData _ _ _ hlen hdata
    · rw [hbelow 12 4 (by omega) (by omega), hto]
    · rw [hbelow 16 8 (by omega) (by omega), htopic]
    · rw [hbelow 24 4 (by omega) (by omega), hid]
  obtain ⟨hmsg, hpayload⟩ := readMsg_notifyFinish hread hlen hbs
  exact ⟨hmsg, hpayload⟩

lemma packed_pack (dest : UInt32) (topic : UInt64) (msgId : UInt32) (data : Option Mem) (size : ℕ)
    (m : Mem) (hbs : ipcNotifyHdrlen + (notifyPayload data size).length ≤ 65535) :
    Packed dest topic msgId (notifyPayload data size)
      (readMsg (ipcNotifyPack dest topic msgId data size m) 0) := by
  cases data with
  | none =>
      apply packed_finish (m := m) _ _ rfl hbs
      · intro b n hb _
        exact Mem.read_write_below _ _ hb
      · exact Mem.read_write_self _ _ _ (by simp)
  | some d =>
      apply packed_finish (m := m) _ _ _ hbs
      · intro b n hb _
        rw [Mem.read_write_below _ _ hb, Mem.read_write_below _ _ (by omega)]
      · rw [Mem.read_write_self _ _ _ (by simp)]
        simp [notifyPayload]
      · rw [Mem.read_write_above _ _ (by rw [length_toLE])]
        exact Mem.read_write_self _ _ _ rfl

/-- **`ipc_notify_fill`** on a buffer that holds the payload. -/
lemma packed_fill (dest : UInt32) (topic : UInt64) (msgId : UInt32) {m : Mem}
    (hm : m.read 32 bs.length = bs) (hbs : ipcNotifyHdrlen + bs.length ≤ 65535) :
    Packed dest topic msgId bs (readMsg (ipcNotifyFill dest topic msgId bs.length m) 0) := by
  apply packed_finish (m := m) _ _ _ hbs
  · intro b n hb hflags
    rw [Mem.read_write_apart _ _ (by rw [length_toLE]; omega), Mem.read_write_below _ _ hb]
  · rw [Mem.read_write_apart _ _ (by simp), Mem.read_write_self _ _ _ (by simp)]
  · rw [Mem.read_write_apart _ _ (by rw [length_toLE]; omega),
      Mem.read_write_above _ _ (by rw [length_toLE]), notifyHeader_above _ _ _ _ (by omega), hm]

lemma read_flags_pack (dest : UInt32) (topic : UInt64) (msgId : UInt32) (data : Option Mem)
    (size : ℕ) (m : Mem) : (ipcNotifyPack dest topic msgId data size m).read 8 2 = m.read 8 2 := by
  have hheader : (notifyHeader dest topic msgId m).read 8 2 = m.read 8 2 := by
    rw [notifyHeader, Mem.read_write_below _ _ (by omega), Mem.read_write_below _ _ (by omega),
      Mem.read_write_below _ _ (by omega)]
  rw [← hheader]
  cases data with
  | none =>
      simp only [ipcNotifyPack]
      rw [read_flags_notifyFinish, Mem.read_write_below _ _ (by omega)]
  | some d =>
      simp only [ipcNotifyPack]
      rw [read_flags_notifyFinish, Mem.read_write_below _ _ (by omega),
        Mem.read_write_below _ _ (by omega)]

lemma read_flags_fill (dest : UInt32) (topic : UInt64) (msgId : UInt32) (dataLen : ℕ) (m : Mem) :
    (ipcNotifyFill dest topic msgId dataLen m).read 8 2 = toLE 2 0 := by
  rw [ipcNotifyFill, read_flags_notifyFinish, Mem.read_write_self _ _ _ (by simp)]

/-! ## Sending -/

lemma ofNat_leNat_toLE_four (v : UInt32) : UInt32.ofNat (leNat (toLE 4 v.toNat)) = v := by
  rw [leNat_toLE_of_lt v.toNat_lt, UInt32.ofNat_toNat]

lemma ofNat_leNat_toLE_two (v : UInt16) : UInt16.ofNat (leNat (toLE 2 v.toNat)) = v := by
  rw [leNat_toLE_of_lt v.toNat_lt, UInt16.ofNat_toNat]

lemma readMsg_sendMsg (m : Mem) (a : ℕ) : readMsg (sendMsg m a) a = (readMsg m a).token := by
  have hfrom : (sendMsg m a).read a 4 = m.read a 4 := Mem.read_write_below _ _ (by omega)
  have hid : (sendMsg m a).read (a + 4) 4 = toLE 4 (msgIdAt m a ||| ipcMsgToken).toNat :=
    Mem.read_write_self _ _ _ (by simp)
  have habove : ∀ b n, a + 8 ≤ b → (sendMsg m a).read b n = m.read b n := by
    intro b n hb
    exact Mem.read_write_above _ _ (by rw [length_toLE]; omega)
  have hlen : dataLenAt (sendMsg m a) a = dataLenAt m a := by
    rw [dataLenAt, habove _ _ (by omega), dataLenAt]
  have hmsg : msgIdAt (sendMsg m a) a = msgIdAt m a ||| ipcMsgToken := by
    rw [msgIdAt, hid, ofNat_leNat_toLE_four]
  simp only [readMsg, IpcMsg.token, hfrom, hmsg, hlen, habove _ _ (Nat.le_refl (a + 8)),
    habove (a + ipcMsgHdrlen) _ (by simp only [ipcMsgHdrlen]; omega)]

lemma readMsg_requestHeader (identity : UInt32) (m : Mem) :
    readMsg (requestHeader identity m) 0 =
      { readMsg m 0 with fromId := identity, flags := flagsAt m 0 &&& ipcFlagClientMask } := by
  have habove : ∀ b n, 4 ≤ b → (m.write 0 (toLE 4 identity.toNat)).read b n = m.read b n := by
    intro b n hb
    exact Mem.read_write_above _ _ (by rw [length_toLE]; omega)
  have hfrom : (requestHeader identity m).read 0 4 = toLE 4 identity.toNat := by
    rw [requestHeader, Mem.read_write_below _ _ (by omega), Mem.read_write_self _ _ _ (by simp)]
  have hid : (requestHeader identity m).read 4 4 = m.read 4 4 := by
    rw [requestHeader, Mem.read_write_below _ _ (by omega), habove _ _ (by omega)]
  have hflags : (requestHeader identity m).read 8 2 =
      toLE 2 (flagsAt m 0 &&& ipcFlagClientMask).toNat := by
    rw [requestHeader, Mem.read_write_self _ _ _ (by simp), flagsAt, habove _ _ (by omega)]
    rfl
  have hrest : ∀ b n, 10 ≤ b → (requestHeader identity m).read b n = m.read b n := by
    intro b n hb
    rw [requestHeader, Mem.read_write_above _ _ (by rw [length_toLE]; omega),
      habove _ _ (by omega)]
  have hlen : dataLenAt (requestHeader identity m) 0 = dataLenAt m 0 := by
    rw [dataLenAt, hrest _ _ (by omega), dataLenAt]
  simp only [readMsg, msgIdAt, Nat.zero_add, hfrom, hid, hflags, hlen,
    hrest ipcMsgHdrlen _ (by decide), ofNat_leNat_toLE_four, ofNat_leNat_toLE_two]

/-- A frame on the wire that carries the notification, whatever its other fields are. -/
structure Carries (dest : UInt32) (topic : UInt64) (msgId : UInt32) (bs : List UInt8)
    (f : IpcMsg) : Prop where
  id : f.msgId = ipcSdkMsgNotify ||| ipcMsgToken
  data : f.data = notifyData dest topic msgId bs

lemma Packed.token {f : IpcMsg} (h : Packed dest topic msgId bs f) :
    Carries dest topic msgId bs f.token :=
  ⟨congrArg (· ||| ipcMsgToken) h.id, h.data⟩

lemma Packed.request {m : Mem} (h : Packed dest topic msgId bs (readMsg m 0))
    (identity : UInt32) : Packed dest topic msgId bs (readMsg (requestHeader identity m) 0) := by
  rw [readMsg_requestHeader]
  exact ⟨h.id, h.data⟩

namespace Carries

variable {f : IpcMsg}

lemma strip (h : Carries dest topic msgId bs f) : Packed dest topic msgId bs f.strip := by
  refine ⟨?_, h.data⟩
  show f.msgId &&& ~~~ipcMsgTokenMask = ipcSdkMsgNotify
  rw [h.id]
  decide

lemma friendly (h : Carries dest topic msgId bs f) : f.Friendly := by
  rw [IpcMsg.Friendly, h.id]
  decide

lemma isNotify (h : Carries dest topic msgId bs f) : f.isNotify = true :=
  decide_eq_true ⟨h.friendly, h.strip.id⟩

lemma dataLen (h : Carries dest topic msgId bs f) : f.dataLen = ipcNotifyHdrlen + bs.length := by
  rw [IpcMsg.dataLen, h.data, length_notifyData]

end Carries

/-! ## What the receiver reads -/

/-- The header of the notification reads back, and the data lie behind it. -/
lemma decode_notifyData (hbs : ipcNotifyHdrlen + bs.length ≤ 65535) :
    IpcNotify.decode (notifyData dest topic msgId bs) =
        ⟨int32 dest.toNat, topic, msgId, bs.length⟩ ∧
      (notifyData dest topic msgId bs).drop ipcNotifyHdrlen = bs := by
  have h4 : (notifyData dest topic msgId bs).drop 4 =
      toLE 8 topic.toNat ++ (toLE 4 msgId.toNat ++ (toLE 4 bs.length ++ bs)) :=
    List.drop_left' (length_toLE _ _)
  have h12 : (notifyData dest topic msgId bs).drop 12 =
      toLE 4 msgId.toNat ++ (toLE 4 bs.length ++ bs) := by
    rw [show (12 : ℕ) = 4 + 8 from rfl, ← List.drop_drop, h4, List.drop_left' (length_toLE _ _)]
  have h16 : (notifyData dest topic msgId bs).drop 16 = toLE 4 bs.length ++ bs := by
    rw [show (16 : ℕ) = 12 + 4 from rfl, ← List.drop_drop, h12, List.drop_left' (length_toLE _ _)]
  refine ⟨?_, ?_⟩
  · have hto : (notifyData dest topic msgId bs).take 4 = toLE 4 dest.toNat :=
      List.take_left' (length_toLE _ _)
    rw [IpcNotify.decode, hto, h4, h12, h16, List.take_left' (length_toLE _ _),
      List.take_left' (length_toLE _ _), List.take_left' (length_toLE _ _),
      ofNat_leNat_toLE_four, leNat_toLE_of_lt dest.toNat_lt, leNat_toLE_of_lt topic.toNat_lt,
      UInt64.ofNat_toNat, leNat_toLE_of_lt (by simp only [ipcNotifyHdrlen] at hbs; omega)]
    have hint : int32 bs.length = bs.length := if_pos (by omega)
    rw [hint]
  · rw [show ipcNotifyHdrlen = 16 + 4 from rfl, ← List.drop_drop, h16,
      List.drop_left' (length_toLE _ _)]

namespace Carries

variable {f : IpcMsg}

lemma notify (h : Carries dest topic msgId bs f) (hbs : ipcNotifyHdrlen + bs.length ≤ 65535) :
    f.notify = ⟨int32 dest.toNat, topic, msgId, bs.length⟩ := by
  rw [IpcMsg.notify, h.data, (decode_notifyData hbs).1]

lemma notifyFits (h : Carries dest topic msgId bs f)
    (hbs : ipcNotifyHdrlen + bs.length ≤ 65535) : f.NotifyFits := by
  rw [IpcMsg.NotifyFits, h.notify hbs, h.dataLen]
  refine ⟨Nat.le_add_right _ _, ?_⟩
  show (bs.length : ℤ) = _
  omega

lemma handlerCall (h : Carries dest topic msgId bs f)
    (hbs : ipcNotifyHdrlen + bs.length ≤ 65535) :
    f.handlerCall = ⟨msgId, bs, bs.length⟩ := by
  rw [IpcMsg.handlerCall, h.notify hbs, h.data, (decode_notifyData hbs).2]

end Carries

/-- A subscriber that receives the frame among other notifications makes the call, if its mask has
the topic, and nothing else on account of it. -/
def Notifies (topic : UInt64) (call : HandlerCall) (f : IpcMsg) : Prop :=
  ∀ (mask : UInt64) (buf : IpcBuf) (before after : List IpcMsg) (chunks : List (List UInt8)),
    (∀ g ∈ before ++ after, g.isNotify = true ∧ g.length ≤ buf.size ∧ g.NotifyFits) →
    f.length ≤ buf.size → chunks.flatten = wire (before ++ f :: after) →
    (ipcSubscriberTask mask (chunks.map .bytes) buf.reset).legal = true →
    (ipcSubscriberTask mask (chunks.map .bytes) buf.reset).calls =
      expectedCalls mask before ++
        ((if topicIsset mask topic then [call] else []) ++ expectedCalls mask after)

/-- **A frame that carries the notification notifies.** -/
lemma Carries.notifies {f : IpcMsg} (h : Carries dest topic msgId bs f)
    (hbs : ipcNotifyHdrlen + bs.length ≤ 65535) (htopic : topicCheck topic = true) :
    Notifies topic ⟨msgId, bs, bs.length⟩ f := by
  intro mask buf before after chunks hothers hfit hw hlegal
  have hall : ∀ g ∈ before ++ f :: after,
      g.isNotify = true ∧ g.length ≤ buf.size ∧ g.NotifyFits := by
    intro g hg
    rcases List.mem_append.mp hg with hg | hg
    · exact hothers g (List.mem_append_left _ hg)
    · rcases List.mem_cons.mp hg with rfl | hg
      · exact ⟨h.isNotify, hfit, h.notifyFits hbs⟩
      · exact hothers g (List.mem_append_right _ hg)
  have hself : expectedCalls mask [f] =
      if topicIsset mask topic then [⟨msgId, bs, bs.length⟩] else [] := by
    simp only [expectedCalls, List.filter_cons, List.filter_nil, h.isNotify, Bool.true_and,
      accepts, h.notify hbs, htopic, Bool.and_true]
    split_ifs
    · rw [List.map_singleton, h.handlerCall hbs]
    · rfl
  rw [task_notifications mask buf (f.hdrlen_le_length.trans hfit) hall hw hlegal,
    expectedCalls_append, ← hself, ← expectedCalls_append mask [f], List.singleton_append]

end LinuxC.Ipc
