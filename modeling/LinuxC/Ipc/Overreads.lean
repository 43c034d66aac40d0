import LinuxC.Ipc.Bounds

/-!
# Notifications that reach behind their frame (`ipc/ipc_client.c`, `ipc/ipc_server.c`)

A notification is a message that holds a notify header, and the lengths of both are set by the peer.
`ipc_subscriber_process` passes the inner length to the handler of the user and `ipc_broker_publish`
reads the notify header; neither of them looks at the lengths.

So it depends on the frames that arrive whether the bytes are those of the frame.  `Fits` is what is
asked of a frame, and `notification_within` says that it is enough: in every run of the two receive
loops in which each notification that `find_msg` takes off the queue fits, what is handed to the
user's code and what the broker reads lies inside the frame.  `within_iff` says that no less is
enough.
-/

namespace LinuxC.Ipc

/-! ## What a frame must announce -/

/-- The notification lies inside the message. -/
def IpcMsg.Encloses (f : IpcMsg) : Prop :=
  ipcNotifyHdrlen ≤ f.dataLen ∧ 0 ≤ f.notify.dataLen ∧
    f.notify.dataLen ≤ (f.dataLen : ℤ) - ipcNotifyHdrlen

instance (f : IpcMsg) : Decidable f.Encloses := inferInstanceAs (Decidable (_ ∧ _))

/-- The end of the field `topic` in the payload. -/
def topicEnd : ℕ := 12

/-- What is asked of a notification: the broker reads the header; the subscriber reads the rest if
the topic is in its mask. -/
def Fits (mask : UInt64) (f : IpcMsg) : ReceiveLoop → Prop
  | .server => ipcNotifyHdrlen ≤ f.dataLen
  | .subscriber => f.Encloses ∨ (topicEnd ≤ f.dataLen ∧ accepts mask f.notify.topic = false)

instance (mask : UInt64) (f : IpcMsg) : ∀ k, Decidable (Fits mask f k)
  | .server => inferInstanceAs (Decidable (_ ≤ _))
  | .subscriber => inferInstanceAs (Decidable (_ ∨ _))

/-- The message at the head of the queue. -/
def Receiver.next (r : Receiver) : IpcMsg := readMsg r.buf.data r.buf.head

/-- A pass of `find_msg` that takes a notification off the queue takes one that fits. -/
def PassFits (k : ReceiveLoop) (mask : UInt64) (r : Receiver) : ReceiveLabel → Prop
  | .pass =>
      r.next.length ≤ r.buf.tail - r.buf.head → r.next.isNotify = true → Fits mask r.next k
  | _ => True

instance (k : ReceiveLoop) (mask : UInt64) : ∀ r l, Decidable (PassFits k mask r l)
  | _, .pass => inferInstanceAs (Decidable (_ → _))
  | _, .call _ | _, .quit | _, .recv _ | _, .miss _ | _, .handle _ _ => instDecidableTrue

/-! ## What the code reads -/

namespace Receiver

variable {r : Receiver}

/-- The call `handler(msg_id, data, data_len)` that the subscriber makes for the message `p`. -/
def handlerCall (mask : UInt64) (r : Receiver) (p : MsgPtr) : Option HandlerCall :=
  let m := (r.result.deref p).1
  let a := (r.result.deref p).2 + ipcMsgHdrlen
  if (r.result.messageAt p).msgId = ipcSdkMsgNotify ∧ accepts mask (notifyAt m a).topic then
    some (handlerCallAt m a)
  else none

/-- The bytes that are handed to the user's code, and the ones that the broker reads, lie inside the
message that was found. -/
structure Within (k : ReceiveLoop) (mask : UInt64) (r : Receiver) : Prop where
  handed : k = .subscriber → ∀ p call, r.point = .found p → r.handlerCall mask p = some call →
    ipcNotifyHdrlen ≤ (r.result.messageAt p).dataLen ∧ 0 ≤ call.dataLen ∧
      call.dataLen ≤ ((r.result.messageAt p).dataLen : ℤ) - ipcNotifyHdrlen
  read : k = .server → ∀ p, r.point = .found p →
    (r.result.messageAt p).msgId = ipcSdkMsgNotify →
      ipcNotifyHdrlen ≤ (r.result.messageAt p).dataLen

/-- The message found is the frame `f` without its token. -/
def Holds (r : Receiver) (p : MsgPtr) (f : IpcMsg) : Prop :=
  (r.result.deref p).1.read (r.result.deref p).2 f.length = f.strip.encode

lemma Holds.messageAt {p : MsgPtr} {f : IpcMsg} (h : r.Holds p f) :
    r.result.messageAt p = f.strip := by
  rw [Holds, ← IpcMsg.length_strip] at h
  exact readMsg_of_read h

/-- The invariant: a message that was found is a frame that fits, if it is a notification. -/
def Fitting (k : ReceiveLoop) (mask : UInt64) (r : Receiver) : Prop :=
  ∀ p, r.point = .found p →
    ∃ f : IpcMsg, r.Holds p f ∧ (f.strip.msgId = ipcSdkMsgNotify → Fits mask f k)

lemma topicAt_of_read {m : Mem} {a : ℕ} {f : IpcMsg} (h : m.read a f.length = f.strip.encode)
    (hlen : topicEnd ≤ f.dataLen) : (notifyAt m (a + ipcMsgHdrlen)).topic = f.notify.topic := by
  have hsub : m.read (a + ipcMsgHdrlen) topicEnd = f.data.take topicEnd := by
    rw [read_sub h (by rw [IpcMsg.length]; omega), IpcMsg.encode,
      List.drop_left' f.strip.length_header]
    rfl
  have htake : m.read (a + ipcMsgHdrlen) topicEnd =
      (m.read (a + ipcMsgHdrlen) ipcNotifyHdrlen).take topicEnd :=
    (Mem.take_read m _ (by decide)).symm
  have hfield : ∀ bs : List UInt8,
      (IpcNotify.decode bs).topic = UInt64.ofNat (leNat ((bs.take topicEnd).drop 4)) := by
    intro bs
    simp only [IpcNotify.decode, List.drop_take, topicEnd]
  rw [notifyAt, hfield, ← htake, hsub, IpcMsg.notify, hfield]

/-- **What the code reads of the message found** lies inside it exactly if it fits. -/
lemma within_iff {k : ReceiveLoop} {mask : UInt64} {p : MsgPtr} {f : IpcMsg}
    (hp : r.point = .found p) (hf : r.Holds p f) (hlen : k = .subscriber → topicEnd ≤ f.dataLen) :
    r.Within k mask ↔ (f.strip.msgId = ipcSdkMsgNotify → Fits mask f k) := by
  have hread : (r.result.deref p).1.read (r.result.deref p).2 f.length = f.strip.encode := hf
  have hmsg := hf.messageAt
  cases k with
  | server =>
      constructor
      · intro h hid
        have := h.read rfl p hp (by rw [hmsg]; exact hid)
        rwa [hmsg] at this
      · intro h
        refine ⟨by simp, fun _ p' hp' hid => ?_⟩
        obtain rfl := ReceivePoint.found.inj (hp.symm.trans hp')
        rw [hmsg] at hid ⊢
        exact h hid
  | subscriber =>
      have htopic := topicAt_of_read hread (hlen rfl)
      constructor
      · intro h hid
        by_cases haccept : accepts mask f.notify.topic = true
        · have hcall : r.handlerCall mask p =
              some (handlerCallAt (r.result.deref p).1 ((r.result.deref p).2 + ipcMsgHdrlen)) :=
            if_pos ⟨by rw [hmsg]; exact hid, by rw [htopic]; exact haccept⟩
          obtain ⟨hhdr, hin⟩ := h.handed rfl p _ hp hcall
          rw [hmsg] at hhdr hin
          rw [handlerCallAt, notifyAt_of_read hread hhdr] at hin
          exact .inl ⟨hhdr, hin⟩
        · exact .inr ⟨hlen rfl, Bool.eq_false_iff.mpr haccept⟩
      · intro h
        refine ⟨fun _ p' call hp' hcall => ?_, by simp⟩
        obtain rfl := ReceivePoint.found.inj (hp.symm.trans hp')
        simp only [handlerCall] at hcall
        split_ifs at hcall with hcond
        obtain rfl := Option.some.inj hcall
        obtain ⟨hid, haccept⟩ := hcond
        rw [hmsg] at hid ⊢
        rcases h hid with hin | ⟨-, hreject⟩
        · rw [handlerCallAt, notifyAt_of_read hread hin.1]
          exact hin
        · rw [htopic, hreject] at haccept
          exact absurd haccept (by simp)

lemma topicEnd_le_of_fits {mask : UInt64} {f : IpcMsg} (h : Fits mask f .subscriber) :
    topicEnd ≤ f.dataLen := by
  rcases h with hin | hout
  · exact le_trans (by decide) hin.1
  · exact hout.1

/-- A message that was found and fits is read inside its bounds. -/
lemma Fitting.within {k : ReceiveLoop} {mask : UInt64} (h : r.Fitting k mask) :
    r.Within k mask := by
  by_cases hfound : ∃ p, r.point = .found p ∧ (r.result.messageAt p).msgId = ipcSdkMsgNotify
  · obtain ⟨p, hp, hid⟩ := hfound
    obtain ⟨f, hf, hfits⟩ := h p hp
    rw [hf.messageAt] at hid
    refine (within_iff hp hf ?_).mpr hfits
    rintro rfl
    exact topicEnd_le_of_fits (hfits hid)
  · refine ⟨fun _ p call hp hcall => ?_, fun _ p hp hid => absurd ⟨p, hp, hid⟩ hfound⟩
    simp only [handlerCall] at hcall
    split_ifs at hcall with hcond
    exact absurd ⟨p, hp, hcond.1⟩ hfound

/-! ## The step -/

lemma point_pass_of_not_friendly (hfind : r.point = .find) (hleft : r.left =
    (r.buf.tail - r.buf.head : ℕ)) {f : IpcMsg} {rest : List UInt8}
    (hpend : r.buf.pending = f.encode ++ rest) (hf : ¬ f.Friendly) : r.pass.1.point = .find := by
  obtain ⟨hle, hread, -⟩ := pending_advance hpend
  have hhdr := f.hdrlen_le_length
  have hpos : 0 < ipcMsgHdrlen := by decide
  rw [pass, hleft, hdrlen_add_dataLenAt hread, if_neg (by omega),
    if_neg (fun hlt => absurd (Int.ofNat_lt.mp hlt) (by omega))]
  dsimp only
  rw [body, if_neg (fun hlt => absurd (Int.ofNat_lt.mp hlt) (by omega)),
    friendly_of_not_friendly hread hf]
  exact hfind

/-- **A pass that finds a message** finds the one at the head of the queue, which has the token. -/
lemma exists_of_found (hfind : r.point = .find) (h : r.buf.Ok) (hsize : r.buf.size < 2 ^ 32)
    {p : MsgPtr} (hp : r.pass.1.point = .found p) :
    ∃ f rest, r.buf.pending = f.encode ++ rest ∧ f.Friendly ∧ r.pass.1.Holds p f := by
  have htail := h.tail_le
  have hzero : ¬ r.left ≤ 0 := by
    intro hle
    rw [pass, if_pos hle] at hp
    exact absurd hp (by simp)
  obtain ⟨hleft, hne⟩ := left_of_pos h hsize hzero
  have hhalf : r.buf.tail - r.buf.head < 2 ^ 31 := by
    by_contra hlt
    have hneg := int32_neg (by omega) (by omega : r.buf.tail - r.buf.head < 2 ^ 32)
    rw [← left_eq h hsize] at hneg
    omega
  have hresult : findMsg r.buf r.clone = r.pass.1.result := by
    rw [findMsg, findMsgLoop_pass hfind h hsize hhalf, if_neg (by simp [hp])]
  have hmsg : (findMsg r.buf r.clone).msg = some p := by
    rw [hresult, result, hp]
  -- the queue starts with a whole message
  have hlen : ipcMsgHdrlen + dataLenAt r.buf.data r.buf.head ≤ r.buf.tail - r.buf.head := by
    by_contra hlt
    have hinc : Incomplete r.buf.pending := by
      rw [Incomplete, IpcBuf.length_pending]
      by_cases hhdr : r.buf.tail - r.buf.head < ipcMsgHdrlen
      · exact .inl hhdr
      · rw [← dataLenAt_head r.buf (by rw [IpcBuf.length_pending]; omega)]
        exact .inr (Nat.lt_of_not_le hlt)
    rw [findMsg_incomplete r.clone (by rw [← List.length_pos_iff, IpcBuf.length_pending]; exact hne)
      hinc] at hmsg
    exact absurd hmsg (by simp)
  obtain ⟨rest, hpend⟩ := read_eq_message hlen
  by_cases hf : (readMsg r.buf.data r.buf.head).Friendly
  · obtain ⟨p', hfound⟩ := findMsg_found r.clone h hpend hf
    obtain rfl : p' = p := Option.some.inj (hfound.msg.symm.trans hmsg)
    refine ⟨_, rest, hpend, hf, ?_⟩
    rw [Holds, ← hresult]
    exact hfound.content
  · exact absurd (point_pass_of_not_friendly hfind hleft hpend hf) (by simp [hp])

lemma point_lost (r : Receiver) (k : ReceiveLoop) (p : MsgPtr) : (r.lost k).point ≠ .found p := by
  cases k <;> simp [lost]

lemma point_recv {k : ReceiveLoop} {window : ℕ} {e : SockEvent} {r' : Receiver}
    (hpoint : r.point = .recv) (hr : r.recv k window e = some r') (p : MsgPtr) :
    r'.point ≠ .found p := by
  rcases recv_cases hr with ⟨bs, -, -, rfl⟩ | rfl | rfl
  · simp
  · exact point_lost r k p
  · simp [hpoint]

lemma point_miss (r : Receiver) (k : ReceiveLoop) (more : Bool) (p : MsgPtr) :
    (r.miss k more).point ≠ .found p := by
  unfold miss
  cases k with
  | server =>
      dsimp only
      split_ifs
      · exact point_lost r .server p
      · simp
      · exact point_lost r .server p
  | subscriber =>
      dsimp only
      split_ifs
      · simp
      · simp

lemma point_handle (r : Receiver) (k : ReceiveLoop) (q : MsgPtr) (bs : List UInt8) (ok : Bool)
    (p : MsgPtr) : (r.handle k q bs ok).point ≠ .found p := by
  unfold handle
  cases k with
  | server =>
      dsimp only
      split_ifs
      · simp
      · simp
      · exact point_lost (r.store q bs) .server p
  | subscriber =>
      dsimp only
      split_ifs <;> simp

lemma point_ne_found {k : ReceiveLoop} {l : ReceiveLabel} {r' : Receiver} {es : List Access}
    (hl : l ≠ .pass) (hstep : receive k r l = some (r', es)) (p : MsgPtr) :
    r'.point ≠ .found p := by
  have hcases := receive_cases hstep
  cases l with
  | call data =>
      obtain ⟨-, rfl, -⟩ := hcases
      simp
  | quit =>
      obtain ⟨rfl, -⟩ := hcases
      simp
  | recv e =>
      obtain ⟨hpoint, hr, -⟩ := hcases
      exact point_recv hpoint hr p
  | pass => exact absurd rfl hl
  | miss more =>
      obtain ⟨-, rfl, -⟩ := hcases
      exact point_miss r k more p
  | handle bs ok =>
      obtain ⟨q, -, rfl, -⟩ := hcases
      exact point_handle r k q bs ok p

lemma Bounded.fitting_step {k : ReceiveLoop} {mask : UInt64} {size : ℕ} (h : r.Bounded size)
    (hlt : size < 2 ^ 32) {l : ReceiveLabel} (hl : PassFits k mask r l) {r' : Receiver}
    {es : List Access} (hstep : receive k r l = some (r', es)) : r'.Fitting k mask := by
  intro p hp
  by_cases hpass : l = .pass
  · subst hpass
    obtain ⟨hfind, rfl, -⟩ := receive_cases hstep
    obtain ⟨f, rest, hpend, hf, hholds⟩ :=
      exists_of_found hfind h.ok (by rw [h.size]; exact hlt) hp
    obtain ⟨hle, hread, -⟩ := pending_advance hpend
    have hnext : r.next = f := readMsg_of_read hread
    simp only [PassFits, hnext] at hl
    exact ⟨f, hholds, fun hid => hl (by omega) (decide_eq_true ⟨hf, hid⟩)⟩
  · exact absurd hp (point_ne_found hpass hstep p)

/-- A subscriber or a server whose buffer has no bytes. -/
structure Starved (r : Receiver) : Prop where
  size : r.buf.size = 0
  tail : r.buf.tail = 0
  point : r.point = .idle ∨ r.point = .recv ∨ r.point = .ended

lemma Starved.step (h : r.Starved) {k : ReceiveLoop} {l : ReceiveLabel} {r' : Receiver}
    {es : List Access} (hstep : receive k r l = some (r', es)) : r'.Starved := by
  have hcases := receive_cases hstep
  have hpoint := h.point
  cases l with
  | call data =>
      obtain ⟨⟨-, -, hsize⟩, -⟩ := hcases
      rw [h.size] at hsize
      exact absurd hsize (by decide)
  | quit =>
      obtain ⟨rfl, -⟩ := hcases
      exact ⟨h.size, h.tail, .inr (.inr rfl)⟩
  | recv e =>
      obtain ⟨-, hr, -⟩ := hcases
      rw [h.size, h.tail, show sub32 0 0 = 0 from rfl] at hr
      rcases recv_cases hr with ⟨bs, hne, hfit, -⟩ | rfl | rfl
      · exact absurd (List.length_eq_zero_iff.mp (Nat.le_zero.mp hfit)) hne
      · cases k with
        | server => exact ⟨h.size, h.tail, .inl rfl⟩
        | subscriber => exact ⟨h.size, rfl, .inr (.inl rfl)⟩
      · exact h
  | pass =>
      rw [hcases.1] at hpoint
      simp at hpoint
  | miss more =>
      rw [hcases.1] at hpoint
      simp at hpoint
  | handle bs ok =>
      obtain ⟨p, hfound, -⟩ := hcases
      rw [hfound] at hpoint
      simp at hpoint

end Receiver

/-! ## All runs -/

/-- A run in which every notification taken off the queue fits. -/
lemma fitting_run {k : ReceiveLoop} {mask : UInt64} {n : UInt32} {data clone : Mem}
    {ls : List ReceiveLabel} {r : Receiver} {es : List Access}
    (hfits : Along (receive k) (PassFits k mask) ls (startReceiver k n data clone))
    (hrun : run (receive k) ls (startReceiver k n data clone) = some (r, es)) :
    r.Fitting k mask := by
  by_cases hzero : allocBuf n.toNat = 0
  · have hstart : (startReceiver k n data clone).Starved := by
      cases k with
      | server => exact ⟨hzero, rfl, .inl rfl⟩
      | subscriber => exact ⟨hzero, rfl, .inr (.inl rfl)⟩
    have hr := run_invariant (I := Receiver.Starved) (fun hs _ hstep => hs.step hstep) hstart
      hfits hrun
    intro p hp
    rcases hr.point with h | h | h <;> exact absurd hp (by simp [h])
  · have hpos : 0 < allocBuf n.toNat := Nat.pos_of_ne_zero hzero
    have hlt := allocBuf_lt n.toNat
    have hstart : (startReceiver k n data clone).Fitting k mask := by
      intro p hp
      cases k <;> exact absurd hp (by simp [startReceiver])
    exact (run_invariant
      (I := fun r : Receiver => r.Bounded (allocBuf n.toNat) ∧ r.Fitting k mask)
      (fun hs hok hstep => ⟨(hs.1.step hpos hlt hstep).1, hs.1.fitting_step hlt hok hstep⟩)
      ⟨bounded_start k n data clone hpos, hstart⟩ hfits hrun).2

/-! ## The reception on the master socket -/

/-- The first message that the peer sends fits, if it is a notification. -/
def StreamFits (es : List SockEvent) : Prop :=
  ∀ (f : IpcMsg) (rest : List UInt8), streamBytes es = f.encode ++ rest → f.isNotify = true →
    ipcNotifyHdrlen ≤ f.dataLen

lemma streamFits_iff {size n : ℕ} {tmo : ℤ} {es : List SockEvent} {m m' : Mem}
    (hok : recvMsg size tmo es m = some (.ok n, m')) :
    StreamFits es ↔
      ((readMsg m' 0).msgId = ipcSdkMsgNotify → ipcNotifyHdrlen ≤ (readMsg m' 0).dataLen) := by
  obtain ⟨f, rest, hstream, hf, hm⟩ := exists_of_recvMsg_ok hok
  rw [← IpcMsg.length_strip] at hm
  rw [readMsg_of_read hm]
  constructor
  · intro h hid
    exact h f rest hstream (decide_eq_true ⟨hf, hid⟩)
  · intro h g rest' hstream' hg
    obtain rfl := eq_of_encode_append (hstream.symm.trans hstream')
    exact h (of_decide_eq_true hg).2

/-! ## What is handed to the user -/

/-- **Notifications that fit are read inside their frame**: in every run of the two receive loops in
which each notification that is taken off the queue fits, and in every reception on the master
socket, where it is the first message that has to fit. -/
theorem notification_within (mask : UInt64) (n : UInt32) (data clone : Mem) :
    (∀ (k : ReceiveLoop) (ls : List ReceiveLabel) (r : Receiver) (es : List Access),
      Along (receive k) (PassFits k mask) ls (startReceiver k n data clone) →
      run (receive k) ls (startReceiver k n data clone) = some (r, es) → r.Within k mask) ∧
    ∀ (size : ℕ) (tmo : ℤ) (es : List SockEvent) (m m' : Mem) (len : ℕ),
      recvMsg size tmo es m = some (.ok len, m') →
      (StreamFits es ↔
        ((readMsg m' 0).msgId = ipcSdkMsgNotify → ipcNotifyHdrlen ≤ (readMsg m' 0).dataLen)) :=
  ⟨fun _ _ _ _ hfits hrun => (fitting_run hfits hrun).within,
    fun _ _ _ _ _ _ hok => streamFits_iff hok⟩

/-- A subscriber of topic 1 receives a notification with one byte of payload. -/
theorem notification_within_sample : ∃ r es,
    run (receive .subscriber) [.recv (.bytes (notifyFrame 1 7 [42] (by decide)).encode), .pass]
        (startReceiver .subscriber 64 (fun _ => 0) (fun _ => 0)) = some (r, es) ∧
      r.Within .subscriber 1 := by
  obtain ⟨⟨r, es⟩, hrun⟩ := Option.isSome_iff_exists.mp (show (run (receive .subscriber)
    [.recv (.bytes (notifyFrame 1 7 [42] (by decide)).encode), .pass]
    (startReceiver .subscriber 64 (fun _ => 0) (fun _ => 0))).isSome = true by decide +kernel)
  exact ⟨r, es, hrun, (notification_within 1 64 _ _).1 .subscriber _ r es (by decide +kernel) hrun⟩

/-- A notification of topic 1 whose header says that a thousand bytes follow, and none does. -/
def overlongFrame : IpcMsg where
  fromId := 0
  msgId := ipcMsgToken ||| ipcSdkMsgNotify
  flags := 0
  data := toLE 4 0 ++ toLE 8 1 ++ toLE 4 7 ++ toLE 4 1000
  data_lt := by decide

/-- **A notification can reach behind its frame.**  The handler of the subscriber is told that there
are a thousand bytes of data in a frame that ends with the notify header. -/
theorem notification_reaches_out :
    ¬ ∀ (ls : List ReceiveLabel) (r : Receiver) (es : List Access),
      run (receive .subscriber) ls (startReceiver .subscriber 64 (fun _ => 0) (fun _ => 0)) =
          some (r, es) → r.Within .subscriber 1 := by
  intro hall
  have hseen : (run (receive .subscriber) [.recv (.bytes overlongFrame.encode), .pass]
      (startReceiver .subscriber 64 (fun _ => 0) (fun _ => 0))).map
        (fun x => (x.1.point, (x.1.handlerCall 1 (.inBuf 0)).map HandlerCall.dataLen,
          (x.1.result.messageAt (.inBuf 0)).dataLen)) =
      some (.found (.inBuf 0), some 1000, 20) := by
    decide +kernel
  obtain ⟨⟨r, es⟩, hrun, heq⟩ := Option.map_eq_some_iff.mp hseen
  obtain ⟨hpoint, heq⟩ := Prod.mk.inj heq
  obtain ⟨hcall, hlen⟩ := Prod.mk.inj heq
  obtain ⟨call, hcall, hdata⟩ := Option.map_eq_some_iff.mp hcall
  obtain ⟨-, -, hle⟩ := (hall _ r es hrun).handed rfl _ call hpoint hcall
  rw [hdata, hlen] at hle
  exact absurd hle (by decide)

end LinuxC.Ipc
