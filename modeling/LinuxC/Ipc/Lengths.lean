import LinuxC.Ipc.Publish

/-!
# The lengths of a notification (`ipc/ipc_base.h`, `ipc/ipc_server.c`)

A notification has two lengths: `data_len` of the message, an `unsigned short`, and `data_len` of the
notify header behind it, an `int`.  The macros that pack a notification compute the first from the
second and narrow it.

`published_faithful_iff` says for which payloads the receiver gets back what was published, for the
three entry points that copy the payload.
-/

namespace LinuxC.Ipc

/-! ## `ipc_server_notify` -/

def ipcToNotify : UInt32 := 0x7FFFFFFE

/-- `ipc_server_notify` for the handle `p`: nothing if it is not the address of a handle. -/
def ipcServerNotifyMsg (p : Ptr) (topic : UInt64) (msgId : UInt32) (stack heap : Mem) (alloc : Bool)
    (data : Option Mem) (size : ℕ) (core : IpcCore) : Publication :=
  if !core.running then some (-1, [])
  else
    (core.handle p).map fun sevr =>
      if sevr.clazz ≠ .subscriber ∨ !topicCheck topic ∨ !topicIsset sevr.mask topic then (-1, [])
      -- without `IPC_SDK_MSG_SYNC` the callback of the client may not be ready
      else if !sevr.node.getD (bitCount (sevr.mask &&& (topic - 1))) false then (-1, [])
      else if !(ipcNotifySpaceCheck ipcNotifyMsgMaxSize size || alloc) then (-1, [])
      else
        msgReport (ipcNotifyPack ipcToNotify topic msgId data size (packBuffer stack heap size)) 0
          (0, [p])

/-! ## Faithful frames -/

/-- The frame has the length of what was packed, and decoding it gives back the notification. -/
structure Faithful (dest : UInt32) (topic : UInt64) (msgId : UInt32) (bs : List UInt8) (f : IpcMsg) :
    Prop where
  length : f.length = ipcMsgHdrlen + ipcNotifyHdrlen + bs.length
  isNotify : f.isNotify = true
  header : f.notify = ⟨int32 dest.toNat, topic, msgId, bs.length⟩
  payload : f.data.drop ipcNotifyHdrlen = bs

variable {dest : UInt32} {topic : UInt64} {msgId : UInt32} {bs : List UInt8}

lemma Carries.faithful {f : IpcMsg} (h : Carries dest topic msgId bs f)
    (hbs : ipcNotifyHdrlen + bs.length ≤ 65535) : Faithful dest topic msgId bs f where
  length := by rw [IpcMsg.length, h.dataLen, Nat.add_assoc]
  isNotify := h.isNotify
  header := h.notify hbs
  payload := by rw [h.data, (decode_notifyData hbs).2]

lemma Faithful.le {f : IpcMsg} (h : Faithful dest topic msgId bs f) :
    ipcNotifyHdrlen + bs.length ≤ 65535 := by
  have hlen := h.length
  have hlt := f.data_lt
  rw [IpcMsg.length, IpcMsg.dataLen] at hlen
  omega

/-- A frame that `ipc_notify_pack` has packed, whatever is done to its header before it is sent. -/
lemma faithful_iff {m : Mem} {data : Option Mem} {size : ℕ} {f : IpcMsg}
    (h : Packed dest topic msgId (notifyPayload data size)
        (readMsg (ipcNotifyPack dest topic msgId data size m) 0) →
      Carries dest topic msgId (notifyPayload data size) f) :
    Faithful dest topic msgId (notifyPayload data size) f ↔
      ipcNotifyHdrlen + (notifyPayload data size).length ≤ 65535 :=
  ⟨fun hf => hf.le, fun hbs => (h (packed_pack dest topic msgId data size m hbs)).faithful hbs⟩

lemma faithful_msgReport_iff {m : Mem} {data : Option Mem} {size : ℕ} {r : ℤ × List Ptr}
    {q : Ptr × IpcMsg}
    (hq : q ∈ (msgReport (ipcNotifyPack dest topic msgId data size m) 0 r).2) :
    Faithful dest topic msgId (notifyPayload data size) q.2 ↔
      ipcNotifyHdrlen + (notifyPayload data size).length ≤ 65535 := by
  obtain ⟨p, -, rfl⟩ := List.mem_map.mp hq
  apply faithful_iff (m := m)
  intro hpacked
  show Carries _ _ _ _ (readMsg (sendMsg _ 0) 0)
  rw [readMsg_sendMsg]
  exact hpacked.token

lemma faithful_requestOneway_iff {m : Mem} {data : Option Mem} {size : ℕ} {identity : UInt32}
    {sent : Bool} {code : IpcRequest} {f : IpcMsg}
    (hf : requestOneway identity sent (ipcNotifyPack dest topic msgId data size m) =
      some (code, some f)) :
    Faithful dest topic msgId (notifyPayload data size) f ↔
      ipcNotifyHdrlen + (notifyPayload data size).length ≤ 65535 := by
  rw [requestOneway] at hf
  split_ifs at hf
  · exact absurd hf (by simp)
  · obtain ⟨-, hframe⟩ := Prod.mk.inj (Option.some.inj hf)
    obtain rfl := Option.some.inj hframe
    apply faithful_iff (m := m)
    intro hpacked
    rw [readMsg_sendMsg]
    exact (hpacked.request identity).token

/-- **When the length of a notification is encoded faithfully.**  A frame that `ipc_server_publish`,
`ipc_server_notify` or `ipc_client_publish` has sent when it reports success is as long as what was
packed, and decodes to what was published, exactly when the notify header and the payload together
fit the `unsigned short` of the message. -/
theorem published_faithful_iff (topic : UInt64) (msgId : UInt32) (data : Option Mem) (size : ℕ) :
    (∀ (dest : UInt32) (stack heap : Mem) (alloc : Bool) (core : IpcCore)
        (out : List (Ptr × IpcMsg)),
        ipcServerPublishMsg dest topic msgId stack heap alloc data size core = some (0, out) →
        ∀ q ∈ out, (Faithful dest topic msgId (notifyPayload data size) q.2 ↔
          ipcNotifyHdrlen + (notifyPayload data size).length ≤ 65535)) ∧
      (∀ (p : Ptr) (stack heap : Mem) (alloc : Bool) (core : IpcCore) (out : List (Ptr × IpcMsg)),
        ipcServerNotifyMsg p topic msgId stack heap alloc data size core = some (0, out) →
        ∀ q ∈ out, (Faithful ipcToNotify topic msgId (notifyPayload data size) q.2 ↔
          ipcNotifyHdrlen + (notifyPayload data size).length ≤ 65535)) ∧
      ∀ (dest identity : UInt32) (valid alloc sent : Bool) (heap : Mem) (f : IpcMsg),
        ipcClientPublish dest topic msgId identity valid alloc sent heap data size =
          some (.success, some f) →
        (Faithful dest topic msgId (notifyPayload data size) f ↔
          ipcNotifyHdrlen + (notifyPayload data size).length ≤ 65535) := by
  refine ⟨fun dest stack heap alloc core out h q hq => ?_,
    fun p stack heap alloc core out h q hq => ?_, fun dest identity valid alloc sent heap f h => ?_⟩
  · obtain ⟨r, -, hr⟩ := Option.map_eq_some_iff.mp h
    obtain rfl : _ = out := congrArg Prod.snd hr
    exact faithful_msgReport_iff hq
  · rw [ipcServerNotifyMsg] at h
    by_cases hrun : core.running = true
    · rw [if_neg (by simp [hrun])] at h
      obtain ⟨sevr, -, hr⟩ := Option.map_eq_some_iff.mp h
      have hfail : ((-1, []) : ℤ × List (Ptr × IpcMsg)) ≠ (0, out) := by simp
      split_ifs at hr
      · exact absurd hr hfail
      · exact absurd hr hfail
      · exact absurd hr hfail
      · obtain rfl : _ = out := congrArg Prod.snd hr
        exact faithful_msgReport_iff hq
    · rw [if_pos (by simpa using hrun)] at h
      have hcode : (-1 : ℤ) = 0 := congrArg Prod.fst (Option.some.inj h)
      omega
  · rw [ipcClientPublish] at h
    split_ifs at h with hvalid hmem
    · exact absurd h (by simp)
    · exact absurd h (by simp)
    · exact faithful_requestOneway_iff h

/-- A client publishes two bytes. -/
theorem published_faithful_sample : ∃ f,
    ipcClientPublish 0x7FFFFFFF 4 9 41 true true true blank samplePayload 2 =
        some (.success, some f) ∧
      Faithful 0x7FFFFFFF 4 9 (notifyPayload samplePayload 2) f := by
  obtain ⟨f, hf⟩ : ∃ f, ipcClientPublish 0x7FFFFFFF 4 9 41 true true true blank samplePayload 2 =
      some (.success, some f) := ⟨_, rfl⟩
  exact ⟨f, hf, ((published_faithful_iff 4 9 samplePayload 2).2.2 _ _ _ _ _ _ f hf).mpr (by decide)⟩

/-- **The length of a notification can be narrowed.**  A client publishes 65516 bytes, and the call
reports success. -/
theorem published_not_faithful :
    ¬ ∀ (data : Option Mem) (size : ℕ) (f : IpcMsg),
      ipcClientPublish 0x7FFFFFFF 4 9 41 true true true blank data size =
          some (.success, some f) →
        Faithful 0x7FFFFFFF 4 9 (notifyPayload data size) f := by
  intro hall
  have hsent := requestOneway_sent
    ((read_flags_pack 0x7FFFFFFF 4 9 (some blank) 65516 _).trans (read_flags_packBuffer blank 65516))
    41
  have hle := (hall (some blank) 65516 _ (by
    rw [ipcClientPublish, Bool.not_true, Bool.and_false]
    exact hsent)).le
  rw [notifyPayload, Mem.length_read] at hle
  exact absurd hle (by decide)

end LinuxC.Ipc
