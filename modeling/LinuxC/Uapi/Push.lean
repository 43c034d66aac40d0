import LinuxC.Ipc.Publish
import LinuxC.Ipc.Ways
import LinuxC.Uapi.Events

/-!
# Pushing an event (`uapi/uapi_client.c`, `uapi/broker.c`)

`uapi_event_push` lays a `struct uapi_notify`, the name of the event and the JSON text behind it,
into an array on its stack and publishes it with the topic `UAPI_EVENT_MASK`.  The broker's filter
looks the event up and forwards the message to its subscribers itself; it returns `-1`, so that the
server does not dispatch it once more.

A client that has registered publishes on the connection of its subscriber, another one on a new
connection.  The array is not initialised: what stands between the name and the text is whatever was
on the stack.
-/

namespace LinuxC.Uapi

open Bst

/-! ## The client -/

def uapiEventMask : UInt64 := (1 : UInt64) <<< 63

def uapiEvent : UInt32 := 1

def uapiBroadcast : ℤ := 0

/-- `sizeof(struct uapi_notify)`. -/
def uapiNotifyHdrlen : ℕ := 32

/-- `uapi_event_push` up to the call of `uapi_publish`: the buffer, with the length of the payload.
`none` is the result `-1`. -/
def eventPushBuffer (stack : Mem) (event : List UInt8) (json : Option (List UInt8)) (dest : ℤ) :
    Option (Mem × ℕ) :=
  if dest < uapiBroadcast then none
  else if uapiEventMaxLength < event.length then none
  else
    let json := json.getD []
    some ((stack.write 32 (event ++ [0])).write 64 (json ++ [0]),
      json.length + 1 + uapiNotifyHdrlen)

/-- The destination that `uapi_publish` passes on. -/
def publishDest (dest : ℤ) : ℤ := if dest = uapiBroadcast then ipcToBroadcast else dest

/-- `uapi_publish`, when the connection is there. -/
def uapiPublish (identity : UInt32) (sent : Bool) (msg : Mem) (notifyLen : ℕ) (dest : ℤ) :
    Option (Ipc.IpcRequest × Option Ipc.IpcMsg) :=
  Ipc.ipcClientPublishx (UInt32.ofNat (publishDest dest).toNat) uapiEventMask uapiEvent identity
    sent msg notifyLen

/-- `uapi_event_push`: the frame that is sent, if there is one. -/
def uapiEventPush (identity : UInt32) (sent : Bool) (stack : Mem) (event : List UInt8)
    (json : Option (List UInt8)) (dest : ℤ) : Option Ipc.IpcMsg :=
  (eventPushBuffer stack event json dest).bind fun r =>
    (uapiPublish identity sent r.1 r.2 dest).bind Prod.snd

/-! ## The broker -/

section Broker

variable {P : Type} (identity : P → ℤ) (publish : Ipc.IpcNotify → List P)

/-- `uapi_broker_ipc_notify_filter`: its result, and the handles that the message is forwarded to. -/
def uapiBrokerIpcNotifyFilter (notify : Ipc.IpcNotify) (data : List UInt8) (b : UapiBroker P) :
    Except Fault (ℤ × List P) :=
  if notify.msgId = uapiEvent then do
    let forwarded ← uapiBrokerEventDeliver identity ⟨notify.dest, cString data⟩ b
    -- always `-1`
    .ok (-1, forwarded)
  else .ok (0, [])

/-- `ipc_broker_publish` with this filter: the frames that are sent, each with its handle.  `publish`
says which handles the buckets of the server hold for a notification. -/
def brokerRelay (b : UapiBroker P) (msg : Ipc.IpcMsg) : Except Fault (List (P × Ipc.IpcMsg)) :=
  let notify := msg.notify
  if !Ipc.topicCheck notify.topic then .ok []
  else do
    let r ← uapiBrokerIpcNotifyFilter identity notify (msg.data.drop Ipc.ipcNotifyHdrlen) b
    let handles := if r.1 < 0 then r.2 else r.2 ++ publish notify
    .ok (handles.map fun p => (p, msg.token))

/-- The branch `IPC_SDK_MSG_NOTIFY`.  A message that is sent on keeps the token. -/
def relayBranch (b : UapiBroker P) : Ipc.Branch (Except Fault (List (P × Ipc.IpcMsg))) where
  takes msg := msg.msgId = Ipc.ipcSdkMsgNotify
  handle := brokerRelay identity publish b
  leaves msg sent := match sent with | .ok (_ :: _) => msg.token.encode | _ => []

end Broker

/-! ## What is pushed -/

section Push

variable {stack : Mem} {event : List UInt8} {json : Option (List UInt8)} {dest : ℤ}
  {identity : UInt32}

/-- A payload that starts with a name in a field of 32 bytes, and has a text behind it. -/
structure Labelled (name text bs : List UInt8) : Prop where
  length : bs.length = text.length + 33
  name : cString bs = name
  text : bs.drop 32 = text ++ [0]

/-- A frame with the event for a destination: the notification in it has the topic and the id of all
events of the application, and its data are the name, in a field of 32 bytes, and the text behind
it. -/
def PushFrame (dest : ℤ) (event json : List UInt8) (f : Ipc.IpcMsg) : Prop :=
  ∃ bs, Labelled event json bs ∧
    Ipc.Carries (UInt32.ofNat (publishDest dest).toNat) uapiEventMask uapiEvent bs f

/-- An event that can be pushed: its name is a string that fits, and so does the whole message into
buffers of this size. -/
structure Pushable (size : ℕ) (event json : List UInt8) : Prop where
  zero : 0 ∉ event
  fits : json.length + 65 ≤ size
  short : json.length + 53 ≤ 65535

/-- **A name and a text** that are written one after the other. -/
lemma labelled_write (m : Mem) (a : ℕ) {name text : List UInt8} (hzero : 0 ∉ name)
    (hlen : name.length ≤ 31) :
    Labelled name text (((m.write a (name ++ [0])).write (a + 32) (text ++ [0])).read a
      (32 + (text.length + 1))) := by
  set m' := (m.write a (name ++ [0])).write (a + 32) (text ++ [0]) with hm'
  have htext : m'.read (a + 32) (text.length + 1) = text ++ [0] :=
    Mem.read_write_self _ _ _ (by simp)
  have hname : ∃ garbage, m'.read a 32 = name ++ 0 :: garbage := by
    refine ⟨m.read (a + (name.length + 1)) (32 - (name.length + 1)), ?_⟩
    have hinside := Mem.read_write_inside m a 0 (name ++ [0]) (n := 32) (by simp; omega)
    rw [hm', Mem.read_write_below _ _ (le_refl (a + 32))]
    simpa using hinside
  obtain ⟨garbage, hname⟩ := hname
  rw [Mem.read_add, htext]
  refine ⟨?_, ?_, ?_⟩
  · simp only [List.length_append, Mem.length_read, List.length_singleton]
    omega
  · rw [hname, List.append_assoc, List.cons_append, cString_append hzero]
  · exact List.drop_left' (by simp)

lemma labelled_buffer (stack : Mem) {event json : List UInt8} (hzero : 0 ∉ event)
    (hlen : event.length ≤ uapiEventMaxLength) :
    Labelled event json (((stack.write 32 (event ++ [0])).write 64 (json ++ [0])).read 32
      (json.length + 1 + uapiNotifyHdrlen)) := by
  rw [Nat.add_comm (json.length + 1)]
  exact labelled_write stack 32 hzero hlen

lemma uapiEventPush_frame {size : ℕ} (hdest : 0 ≤ dest) (hlen : event.length ≤ uapiEventMaxLength)
    (hpush : Pushable size event (json.getD [])) :
    ∃ f, uapiEventPush identity true stack event json dest = some f ∧
      PushFrame dest event (json.getD []) f ∧ f.length ≤ size := by
  have hbuffer : eventPushBuffer stack event json dest = some
      ((stack.write 32 (event ++ [0])).write 64 (json.getD [] ++ [0]),
        (json.getD []).length + 1 + uapiNotifyHdrlen) := by
    have hdest' : ¬ dest < uapiBroadcast := not_lt.mpr hdest
    rw [eventPushBuffer, if_neg hdest', if_neg (not_lt.mpr hlen)]
  set m := (stack.write 32 (event ++ [0])).write 64 (json.getD [] ++ [0]) with hm
  set bs := m.read 32 ((json.getD []).length + 1 + uapiNotifyHdrlen) with hbs
  have hnotify : Labelled event (json.getD []) bs := labelled_buffer stack hpush.zero hlen
  have hlength : (json.getD []).length + 1 + uapiNotifyHdrlen = bs.length := by simp [hbs]
  have hshort : Ipc.ipcNotifyHdrlen + bs.length ≤ 65535 := by
    have := hpush.short
    rw [hnotify.length, Ipc.ipcNotifyHdrlen]
    omega
  have hread : m.read 32 bs.length = bs := by rw [← hlength]
  obtain ⟨f, hsent, hf⟩ := Ipc.requestOneway_eq
    (Ipc.packed_fill (UInt32.ofNat (publishDest dest).toNat) uapiEventMask uapiEvent hread hshort)
    (Ipc.read_flags_fill _ uapiEventMask uapiEvent bs.length m) identity
  refine ⟨f, ?_, ⟨bs, hnotify, hf⟩, ?_⟩
  · rw [uapiEventPush, hbuffer, Option.bind_some, uapiPublish, Ipc.ipcClientPublishx, hlength,
      hsent]
    rfl
  · rw [Ipc.IpcMsg.length, hf.dataLen, hnotify.length]
    have := hpush.fits
    simp only [Ipc.ipcMsgHdrlen, Ipc.ipcNotifyHdrlen]
    omega

lemma uapiEventPush_some {size : ℕ} {sent : Bool} {f : Ipc.IpcMsg}
    (hpush : Pushable size event (json.getD []))
    (h : uapiEventPush identity sent stack event json dest = some f) :
    0 ≤ dest ∧ PushFrame dest event (json.getD []) f ∧ f.length ≤ size := by
  obtain ⟨r, hbuffer, hpublish⟩ := Option.bind_eq_some_iff.mp h
  unfold eventPushBuffer at hbuffer
  split_ifs at hbuffer with hdest hlen
  have h0 : 0 ≤ dest := not_lt.mp hdest
  have hsent : sent = true := by
    by_contra hnot
    rw [Bool.not_eq_true] at hnot
    subst hnot
    rw [uapiPublish, Ipc.ipcClientPublishx, Ipc.requestOneway] at hpublish
    simp at hpublish
  subst hsent
  obtain ⟨f', hf', hframe⟩ : ∃ f', uapiEventPush identity true stack event json dest = some f' ∧
      PushFrame dest event (json.getD []) f' ∧ f'.length ≤ size :=
    uapiEventPush_frame h0 (not_lt.mp hlen) hpush
  obtain rfl := Option.some.inj (h.symm.trans hf')
  exact ⟨h0, hframe⟩

end Push

/-! ## What the broker relays -/

section Relay

variable {P : Type} {identity : P → ℤ} {publish : Ipc.IpcNotify → List P} {b : UapiBroker P}
  {dest : ℤ} {event json : List UInt8} {f : Ipc.IpcMsg} {size : ℕ}

lemma int32_publishDest (h0 : 0 ≤ dest) (h : dest < 2 ^ 31) :
    Ipc.int32 (UInt32.ofNat (publishDest dest).toNat).toNat = publishDest dest := by
  have hrange : 0 ≤ publishDest dest ∧ publishDest dest < 2 ^ 31 := by
    unfold publishDest ipcToBroadcast
    split_ifs <;> omega
  rw [UInt32.toNat_ofNat', Nat.mod_eq_of_lt (by omega), Ipc.int32, if_pos (by omega)]
  omega

/-- The message is still a frame with the event when the broker sends it on. -/
lemma PushFrame.token (h : PushFrame dest event json f) :
    PushFrame dest event json f.strip.token := by
  obtain ⟨bs, hbs, hf⟩ := h
  exact ⟨bs, hbs, hf.strip.token⟩

/-- **The relay** of an event that was pushed. -/
lemma brokerRelay_push (h0 : 0 ≤ dest) (hdest : dest < 2 ^ 31)
    (hshort : json.length + 53 ≤ 65535) (hf : PushFrame dest event json f) :
    brokerRelay identity publish b f.strip =
      (uapiBrokerEventDeliver identity ⟨publishDest dest, event⟩ b >>= fun ps =>
        .ok (ps.map fun p => (p, f.strip.token))) := by
  obtain ⟨bs, hbs, hf⟩ := hf
  have hfit : Ipc.ipcNotifyHdrlen + bs.length ≤ 65535 := by
    rw [hbs.length, Ipc.ipcNotifyHdrlen]
    omega
  have hnotify : f.strip.notify = ⟨publishDest dest, uapiEventMask, uapiEvent, bs.length⟩ := by
    have := hf.notify hfit
    rw [int32_publishDest h0 hdest] at this
    exact this
  have hdata : f.strip.data.drop Ipc.ipcNotifyHdrlen = bs := by
    change f.data.drop _ = bs
    rw [hf.data, (Ipc.decode_notifyData hfit).2]
  have hcheck : (!Ipc.topicCheck uapiEventMask) = false := by decide
  unfold brokerRelay
  simp only [hnotify, hdata, hcheck, Bool.false_eq_true, if_false, uapiBrokerIpcNotifyFilter,
    if_true, hbs.name]
  cases uapiBrokerEventDeliver identity ⟨publishDest dest, event⟩ b <;> rfl

/-- **The way into the broker** does not matter. -/
lemma relay_push {via : Ipc.Via} (hf : PushFrame dest event json f) (hsize : f.length ≤ size)
    (hw : via.chunks.flatten = f.encode) {out : List (Except Fault (List (P × Ipc.IpcMsg)))}
    (hrelay : via.handled (relayBranch identity publish b) size = some out) :
    out = [brokerRelay identity publish b f.strip] := by
  obtain ⟨bs, -, hcarries⟩ := hf
  exact Ipc.Via.handled_frame hcarries.friendly hsize (decide_eq_true hcarries.strip.id) hw hrelay

end Relay

end LinuxC.Uapi
