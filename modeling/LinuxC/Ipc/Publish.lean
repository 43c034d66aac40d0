import LinuxC.Ipc.Buckets
import LinuxC.Ipc.Notify
import LinuxC.Ipc.Reception

/-!
# The ways to publish (`ipc/ipc_server.c`, `ipc/ipc_client.c`)

A notification is published by the server (`ipc_server_publish`, `ipc_server_publishx`) or by a
client (`ipc_client_publish`, `ipc_client_publishx`), whose message the server passes on with
`ipc_broker_publish`.  The client's message reaches the server on a connection of its own, where
`recv_msg` receives it, or on the connection of a requester or a subscriber, where `find_msg` takes
it out of the shared buffer.

`Server.lean` says to which handles a publication is sent.  Here the message comes in: an entry
point is a function to the `Publication`, the handles with the frame that is sent to each of them.
`publish_entry_points_agree` says that all four send to the same handles, and that every subscriber
among them calls its handler with the same arguments.
-/

namespace LinuxC.Ipc

def ipcNotifyMsgMaxSize : ℕ := 1024

def ipcNotifySpaceCheck (max size : ℕ) : Bool := ipcMsgHdrlen + (ipcNotifyHdrlen + size) ≤ max

/-- `ipc_alloc_msg`, on the block `m` that `malloc` returned. -/
def ipcAllocMsg (m : Mem) : Mem := ((m.write 4 (toLE 4 0)).write 8 (toLE 2 0)).write 10 (toLE 2 0)

/-- The buffer that is packed: the one on the stack if the message fits, else one of the heap. -/
def packBuffer (stack heap : Mem) (size : ℕ) : Mem :=
  if ipcNotifySpaceCheck ipcNotifyMsgMaxSize size then stack else ipcAllocMsg heap

/-- A publication: its result and, for each handle it is sent to, the frame.  It is `none` if the
loop over the bucket does not end. -/
abbrev Publication := Option (ℤ × List (Ptr × IpcMsg))

/-- `msg_report` for each of the handles, with the message at offset `a`. -/
def msgReport (m : Mem) (a : ℕ) (r : ℤ × List Ptr) : ℤ × List (Ptr × IpcMsg) :=
  (r.1, r.2.map fun p => (p, readMsg (sendMsg m a) a))

/-! ## The entry points -/

section EntryPoints

variable (dest : UInt32) (topic : UInt64) (msgId : UInt32)

/-- `ipc_server_publish`.  The buffer on the stack is not initialised. -/
def ipcServerPublishMsg (stack heap : Mem) (alloc : Bool) (data : Option Mem) (size : ℕ)
    (core : IpcCore) : Publication :=
  (ipcServerPublish (int32 dest.toNat) topic
    (ipcNotifySpaceCheck ipcNotifyMsgMaxSize size || alloc) core).map
    (msgReport (ipcNotifyPack dest topic msgId data size (packBuffer stack heap size)) 0)

/-- `ipc_server_publishx`, on the caller's buffer. -/
def ipcServerPublishxMsg (msg : Mem) (dataLen : ℕ) (core : IpcCore) : Publication :=
  (ipcServerPublish (int32 dest.toNat) topic true core).map
    (msgReport (ipcNotifyFill dest topic msgId dataLen msg) 0)

/-- `ipc_request` on a message that expects no reply: the result, and the frame that is sent.  It
is `none` if the call goes on to receive a reply. -/
def requestOneway (identity : UInt32) (sent : Bool) (msg : Mem) :
    Option (IpcRequest × Option IpcMsg) :=
  let m := sendMsg (requestHeader identity msg) 0
  if !sent then some (.emo, none)
  else if flagsAt m 0 &&& ipcFlagReply ≠ 0 then none
  else some (.success, some (readMsg m 0))

/-- `ipc_client_publish`.  The buffer on the stack is zero. -/
def ipcClientPublish (identity : UInt32) (valid alloc sent : Bool) (heap : Mem)
    (data : Option Mem) (size : ℕ) : Option (IpcRequest × Option IpcMsg) :=
  if !valid then some (.eval, none)
  else if !ipcNotifySpaceCheck ipcNotifyMsgMaxSize size && !alloc then some (.emem, none)
  else
    requestOneway identity sent
      (ipcNotifyPack dest topic msgId data size (packBuffer blank heap size))

/-- `ipc_client_publishx`, on the caller's buffer. -/
def ipcClientPublishx (identity : UInt32) (sent : Bool) (msg : Mem) (dataLen : ℕ) :
    Option (IpcRequest × Option IpcMsg) :=
  requestOneway identity sent (ipcNotifyFill dest topic msgId dataLen msg)

end EntryPoints

/-! ## The broker -/

section Broker

variable (filter : Option (IpcNotify → List UInt8 → ℤ)) (core : IpcCore)

/-- `ipc_broker_publish` for the message at offset `a`.  The filter sees the notify header and the
data behind it. -/
def ipcBrokerPublishMsg (m : Mem) (a : ℕ) : Publication :=
  (ipcBrokerPublish
    (filter.map fun f n => f n (m.read (a + ipcMsgHdrlen + ipcNotifyHdrlen) n.dataLen.toNat))
    (notifyAt m (a + ipcMsgHdrlen)) core).map (msgReport m a)

/-- The branch `IPC_SDK_MSG_NOTIFY` of `ipc_common_socket_handler`: the state is the list of the
publications made.  A message that was sent on keeps the token. -/
def publishHooks : Hooks (List Publication) where
  dispatch s m a :=
    if msgIdAt m a = ipcSdkMsgNotify then
      ⟨s ++ [ipcBrokerPublishMsg filter core m a],
        match ipcBrokerPublishMsg filter core m a with
        | some (code, _) => if code = 0 ∧ core.nodeHb then (readMsg m a).token.encode else []
        | none => [], true⟩
    else ⟨s, [], true⟩
  shutdown s := s
  release s := s

/-- The publications that the server makes of what arrives on the connection of a client. -/
def clientPublications (chunks : List (List UInt8)) (c : Conn (List Publication)) :
    List Publication :=
  (lastConn c (serve (publishHooks filter core) chunks.length (chunks.map .bytes) c)).state

end Broker

/-! ## The same publication -/

/-- The publication is sent to exactly these handles, and every subscriber among them that has the
topic in its mask makes the call. -/
def Publishes (sends : Option (List Ptr)) (topic : UInt64) (call : HandlerCall)
    (out : Publication) : Prop :=
  ∃ f, out = sends.map (fun ps => (0, ps.map fun p => (p, f))) ∧ Notifies topic call f

/-- A frame that a client sends: however its bytes are cut, it is published, both on the connection
of a client and on a new one. -/
def Relayed (filter : Option (IpcNotify → List UInt8 → ℤ)) (core : IpcCore)
    (sends : Option (List Ptr)) (topic : UInt64) (call : HandlerCall) (f : IpcMsg) : Prop :=
  (∀ (c : Conn (List Publication)) (chunks : List (List UInt8)), c.state = [] →
    f.length ≤ c.buf.size → chunks.flatten = f.encode →
    (∀ r ∈ serve (publishHooks filter core) chunks.length (chunks.map .bytes) c,
      r.exit ≠ .illegal) →
    ∃ out, clientPublications filter core chunks c = [out] ∧ Publishes sends topic call out) ∧
  ∀ (size : ℕ) (m : Mem) (chunks : List (List UInt8)), f.length ≤ size →
    chunks.flatten = f.encode → (∀ b ∈ chunks, b ≠ []) →
    ∃ n m', recvMsg size 1 (chunks.map .bytes) m = some (.ok n, m') ∧
      Publishes sends topic call (ipcBrokerPublishMsg filter core m' 0)

variable {dest : UInt32} {topic : UInt64} {msgId : UInt32} {bs : List UInt8}

/-- A packed message that is sent to the handles notifies them. -/
lemma publishes_of_packed {m : Mem} {a : ℕ} (hm : Packed dest topic msgId bs (readMsg m a))
    (hbs : ipcNotifyHdrlen + bs.length ≤ 65535) (htopic : topicCheck topic = true)
    (sends : Option (List Ptr)) :
    Publishes sends topic ⟨msgId, bs, bs.length⟩
      ((sends.map fun ps => ((0 : ℤ), ps)).map (msgReport m a)) := by
  refine ⟨readMsg (sendMsg m a) a, ?_, ?_⟩
  · rw [Option.map_map]
    rfl
  · rw [readMsg_sendMsg]
    exact hm.token.notifies hbs htopic

/-- **`ipc_broker_publish`** of a message that carries the notification. -/
lemma publishes_broker {filter : Option (IpcNotify → List UInt8 → ℤ)} {m : Mem} {a : ℕ}
    {f : IpcMsg} (hf : Carries dest topic msgId bs f) (hm : m.read a f.length = f.strip.encode)
    (hbs : ipcNotifyHdrlen + bs.length ≤ 65535) (htopic : topicCheck topic = true)
    (hfilter : ∀ g ∈ filter, 0 ≤ g ⟨int32 dest.toNat, topic, msgId, bs.length⟩ bs)
    (core : IpcCore) :
    Publishes (publishSends (int32 dest.toNat) topic core) topic ⟨msgId, bs, bs.length⟩
      (ipcBrokerPublishMsg filter core m a) := by
  have hfits := hf.notifyFits hbs
  have hnotify : notifyAt m (a + ipcMsgHdrlen) = ⟨int32 dest.toNat, topic, msgId, bs.length⟩ :=
    (notifyAt_of_read hm hfits.1).trans (hf.notify hbs)
  have hdata : m.read (a + ipcMsgHdrlen + ipcNotifyHdrlen) bs.length = bs := by
    have hcall := congrArg HandlerCall.data (handlerCallAt_of_read hm hfits)
    rw [hf.handlerCall hbs, handlerCallAt, hnotify] at hcall
    simpa using hcall
  have hmsg : readMsg m a = f.strip := by
    rw [← IpcMsg.length_strip] at hm
    exact readMsg_of_read hm
  rw [ipcBrokerPublishMsg, hnotify, ipcBrokerPublish_eq htopic]
  · exact publishes_of_packed (hmsg ▸ hf.strip) hbs htopic _
  · intro g hg
    obtain ⟨g', hg', rfl⟩ := Option.map_eq_some_iff.mp hg
    show 0 ≤ g' _ (m.read _ (bs.length : ℤ).toNat)
    rw [Int.toNat_natCast, hdata]
    exact hfilter g' hg'

/-! ## The client's message at the server -/

/-- The publications made are those of the notifications dispatched. -/
def PublishedAs (filter : Option (IpcNotify → List UInt8 → ℤ)) (core : IpcCore)
    (s : List Publication) (l : List IpcMsg) : Prop :=
  List.Forall₂ (fun msg out => ∃ m a, readMsg m a = msg ∧ out = ipcBrokerPublishMsg filter core m a)
    (l.filter fun msg => msg.msgId = ipcSdkMsgNotify) s

lemma tracks_publishHooks (filter : Option (IpcNotify → List UInt8 → ℤ)) (core : IpcCore) :
    Tracks (publishHooks filter core) (PublishedAs filter core) where
  shutdown h := h
  release h := h
  dispatch := by
    intro s l m a h
    by_cases hid : msgIdAt m a = ipcSdkMsgNotify
    · have hlast : [readMsg m a].filter (fun msg => msg.msgId = ipcSdkMsgNotify) =
          [readMsg m a] := List.filter_cons_of_pos (decide_eq_true hid)
      simp only [publishHooks, if_pos hid]
      rw [PublishedAs, List.filter_append, hlast]
      exact List.rel_append h (List.Forall₂.cons ⟨m, a, rfl, rfl⟩ List.Forall₂.nil)
    · have hlast : [readMsg m a].filter (fun msg => msg.msgId = ipcSdkMsgNotify) = [] :=
        List.filter_cons_of_neg fun hpos => hid (of_decide_eq_true hpos)
      simp only [publishHooks, if_neg hid]
      rw [PublishedAs, List.filter_append, hlast, List.append_nil]
      exact h

/-- **The relay.**  A frame that carries the notification is received as a whole and published. -/
lemma relayed_of_carries {filter : Option (IpcNotify → List UInt8 → ℤ)} {f : IpcMsg}
    (hf : Carries dest topic msgId bs f) (hbs : ipcNotifyHdrlen + bs.length ≤ 65535)
    (htopic : topicCheck topic = true)
    (hfilter : ∀ g ∈ filter, 0 ≤ g ⟨int32 dest.toNat, topic, msgId, bs.length⟩ bs)
    (core : IpcCore) :
    Relayed filter core (publishSends (int32 dest.toNat) topic core) topic
      ⟨msgId, bs, bs.length⟩ f := by
  constructor
  · intro c chunks hstate hfit hw hlegal
    have hok : ∀ s m a, ((publishHooks filter core).dispatch s m a).ok = true := by
      intro s m a
      simp only [publishHooks]
      split_ifs <;> rfl
    have hS : 0 < c.buf.size := lt_of_lt_of_le f.length_pos hfit
    obtain ⟨hlog, -⟩ := serve_frames (publishHooks filter core) hok hS chunks.length chunks [f] c
      (le_refl _) rfl (by simpa using ⟨hf.friendly, hfit⟩) (by simpa using hw) hlegal
    have htrack := (tracks_publishHooks filter core).serve chunks.length (chunks.map .bytes) c
      (l := []) (by rw [hstate]; exact List.Forall₂.nil)
    have honly : ([] ++ [f].map IpcMsg.strip).filter (fun msg => msg.msgId = ipcSdkMsgNotify) =
        [f.strip] := List.filter_cons_of_pos (decide_eq_true hf.strip.id)
    rw [hlog, PublishedAs, honly] at htrack
    obtain ⟨out, outs, ⟨m, a, hmsg, rfl⟩, hnil, hstate'⟩ := List.forall₂_cons_left_iff.mp htrack
    rw [List.forall₂_nil_left_iff] at hnil
    have hread : m.read a f.length = f.strip.encode := by
      have hm := read_eq_encode_readMsg m a
      rwa [hmsg, IpcMsg.length_strip] at hm
    refine ⟨_, ?_, publishes_broker hf hread hbs htopic hfilter core⟩
    rw [clientPublications, hstate', hnil]
  · intro size m chunks hfit hw hne
    obtain ⟨n, m', hrecv, hread⟩ := recvMsg_frame hf.friendly hfit Int.one_nonneg hne hw m
    exact ⟨n, m', hrecv, publishes_broker hf hread hbs htopic hfilter core⟩

lemma requestOneway_sent {m : Mem} (hflags : m.read 8 2 = toLE 2 0) (identity : UInt32) :
    requestOneway identity true m =
      some (.success, some (readMsg (sendMsg (requestHeader identity m) 0) 0)) := by
  have hframe := readMsg_sendMsg (requestHeader identity m) 0
  have hzero : flagsAt (sendMsg (requestHeader identity m) 0) 0 = 0 := by
    have hf := congrArg IpcMsg.flags hframe
    rw [readMsg_requestHeader, flagsAt, hflags] at hf
    exact hf
  simp only [requestOneway, hzero]
  rfl

lemma requestOneway_eq {m : Mem} (hm : Packed dest topic msgId bs (readMsg m 0))
    (hflags : m.read 8 2 = toLE 2 0) (identity : UInt32) :
    ∃ f, requestOneway identity true m = some (.success, some f) ∧
      Carries dest topic msgId bs f :=
  ⟨_, requestOneway_sent hflags identity,
    readMsg_sendMsg (requestHeader identity m) 0 ▸ (hm.request identity).token⟩

/-- The flags of the buffer that a client packs are zero. -/
lemma read_flags_packBuffer (heap : Mem) (size : ℕ) :
    (packBuffer blank heap size).read 8 2 = toLE 2 0 := by
  rw [packBuffer]
  split_ifs
  · rfl
  · rw [ipcAllocMsg, Mem.read_write_below _ _ (by omega), Mem.read_write_self _ _ _ (by simp)]

/-- **All ways to publish are equivalent.**  Take a running server with any content of its buckets,
a topic of one bit, any destination and message id, and a payload that fits the length field of a
message; let memory for a long message be there, and let `send` take the client's message.
`ipc_server_publish`, `ipc_server_publishx` on a buffer that holds the payload, and the
messages of `ipc_client_publish` and `ipc_client_publishx`, received by the server in any pieces
and passed on without a filter or by one that accepts, are sent to the same handles; and every
subscriber that receives such a frame, among other notifications and in any pieces, calls its
handler with the same message id, data and length. -/
theorem publish_entry_points_agree {core : IpcCore} (hrun : core.running = true) (topic : UInt64)
    {i : ℕ} (htopic : topic.toNat = 2 ^ i) (dest msgId : UInt32) (data : Option Mem) (size : ℕ)
    (hbs : 20 + (notifyPayload data size).length ≤ 65535)
    (filter : Option (IpcNotify → List UInt8 → ℤ))
    (hfilter : ∀ g ∈ filter, 0 ≤ g ⟨int32 dest.toNat, topic, msgId, (notifyPayload data size).length⟩
      (notifyPayload data size)) :
    let bs := notifyPayload data size
    let sends := publishSends (int32 dest.toNat) topic core
    let call : HandlerCall := ⟨msgId, bs, bs.length⟩
    (∀ stack heap, Publishes sends topic call
        (ipcServerPublishMsg dest topic msgId stack heap true data size core)) ∧
      (∀ msg : Mem, msg.read 32 bs.length = bs → Publishes sends topic call
        (ipcServerPublishxMsg dest topic msgId msg bs.length core)) ∧
      (∀ identity heap, ∃ f,
        ipcClientPublish dest topic msgId identity true true true heap data size =
            some (.success, some f) ∧ Relayed filter core sends topic call f) ∧
      ∀ (identity : UInt32) (msg : Mem), msg.read 32 bs.length = bs → ∃ f,
        ipcClientPublishx dest topic msgId identity true msg bs.length =
            some (.success, some f) ∧ Relayed filter core sends topic call f := by
  intro bs sends call
  have hcheck := topicCheck_single htopic
  have hserver := ipcServerPublish_eq hrun hcheck (int32 dest.toNat)
  refine ⟨fun stack heap => ?_, fun msg hmsg => ?_, fun identity heap => ?_,
    fun identity msg hmsg => ?_⟩
  · rw [ipcServerPublishMsg, Bool.or_true, hserver]
    exact publishes_of_packed (packed_pack dest topic msgId data size _ hbs) hbs hcheck sends
  · rw [ipcServerPublishxMsg, hserver]
    exact publishes_of_packed (packed_fill dest topic msgId hmsg hbs) hbs hcheck sends
  · obtain ⟨f, hsent, hf⟩ := requestOneway_eq
      (packed_pack dest topic msgId data size (packBuffer blank heap size) hbs)
      ((read_flags_pack dest topic msgId data size _).trans (read_flags_packBuffer heap size))
      identity
    refine ⟨f, ?_, relayed_of_carries hf hbs hcheck hfilter core⟩
    simp [ipcClientPublish, hsent]
  · obtain ⟨f, hsent, hf⟩ := requestOneway_eq (packed_fill dest topic msgId hmsg hbs)
      (read_flags_fill dest topic msgId bs.length msg) identity
    exact ⟨f, hsent, relayed_of_carries hf hbs hcheck hfilter core⟩

/-- A payload of two bytes. -/
def samplePayload : Option Mem := some (blank.write 0 [42, 43])

/-- A broadcast of the topic 2 to the two peers of `peerRun`, by the server and by a client. -/
theorem publish_entry_points_agree_sample :
    ∃ core es, run peerStep peerRun (IpcCore.boot 3) = some (core, es) ∧
      publishSends ipcToBroadcast 4 core = some [3, 2] ∧
      Publishes (publishSends ipcToBroadcast 4 core) 4 ⟨9, [42, 43], 2⟩
        (ipcServerPublishMsg 0x7FFFFFFF 4 9 blank blank true samplePayload 2 core) ∧
      ∃ f, ipcClientPublish 0x7FFFFFFF 4 9 41 true true true blank samplePayload 2 =
          some (.success, some f) ∧
        Relayed none core (publishSends ipcToBroadcast 4 core) 4 ⟨9, [42, 43], 2⟩ f := by
  obtain ⟨core, es, hrun, hrunning, hsends⟩ : ∃ core es,
      run peerStep peerRun (IpcCore.boot 3) = some (core, es) ∧ core.running = true ∧
        publishSends ipcToBroadcast 4 core = some [3, 2] :=
    ⟨_, _, rfl, by decide, by decide⟩
  have hpayload : notifyPayload samplePayload 2 = [42, 43] := by decide
  have h := publish_entry_points_agree hrunning 4 (i := 2) (by decide) 0x7FFFFFFF 9 samplePayload 2
    (by decide) none (by simp)
  simp only [hpayload] at h
  exact ⟨core, es, hrun, hsends, h.1 blank blank, h.2.2.1 41 blank⟩

end LinuxC.Ipc
