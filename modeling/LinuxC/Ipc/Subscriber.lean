import LinuxC.Ipc.SocketHandler

/-!
# The subscriber's receive loop (`ipc/ipc_client.c`)

`ipc_subscriber_task` receives into a buffer of its own and calls `ipc_subscriber_process`
after every `recv`.  Unlike the server it keeps the buffer between two receptions and takes
the messages out in place.  A notification whose topic is in the subscriber's mask is passed
to the user's handler; `IPC_SDK_MSG_UNREGISTER` ends the thread; any other message id makes
the loop `break`, and a `break` empties the buffer.

`HandlerCall` is a call of the user's handler: the message id, the `data_len` it is told, and
the bytes it finds at `data`.

Two theorems are about whole runs of the task.  `ipcSubscriberTask_calls` says that a stream of
well-formed notifications is delivered exactly, however it is cut.
`ipcSubscriberTask_calls_sublist` says when no byte of a payload is taken for a header on an
arbitrary stream: the two `break`s that empty the buffer forget how much of an unfinished
message is still to arrive, so the statement asks that every frame fits the buffer and that
no reception which completes a message of an unexpected id ends inside another message.
-/

namespace LinuxC.Ipc

/-- A call `handler(msg_id, data, data_len, arg)` of the user's handler. -/
structure HandlerCall where
  msgId : UInt32
  /-- The `data_len` bytes at `data`. -/
  data : List UInt8
  dataLen : ℤ
  deriving DecidableEq

/-- The call made for the notification at offset `a`. -/
def handlerCallAt (m : Mem) (a : ℕ) : HandlerCall where
  msgId := (notifyAt m a).msgId
  data := m.read (a + ipcNotifyHdrlen) (notifyAt m a).dataLen.toNat
  dataLen := (notifyAt m a).dataLen

/-! ## `ipc_subscriber_process` -/

/-- What a call of `ipc_subscriber_process` leaves behind. -/
structure ProcessResult where
  buf : IpcBuf
  calls : List HandlerCall
  /-- The thread has ended. -/
  exited : Bool

/-- The test in front of the user's handler. -/
def accepts (mask topic : UInt64) : Bool := topicIsset mask topic && topicCheck topic

/-- `ipc_subscriber_process`.  Every pass takes a message off the queue, so a fuel above the
queue's length is never used up. -/
def ipcSubscriberProcess (mask : UInt64) : ℕ → IpcBuf → ProcessResult
  | 0, buf => ⟨buf, [], false⟩
  | fuel + 1, buf =>
      let r := findMsg buf none
      match r.msg with
      | none => if r.buf.full then ⟨r.buf.reset, [], false⟩ else ⟨r.buf, [], false⟩
      | some p =>
          let a := (r.deref p).2 + ipcMsgHdrlen
          if (r.messageAt p).msgId = ipcSdkMsgNotify then
            let calls := if accepts mask (notifyAt (r.deref p).1 a).topic then
              [handlerCallAt (r.deref p).1 a] else []
            if r.buf.hasPending then
              let q := ipcSubscriberProcess mask fuel r.buf
              { q with calls := calls ++ q.calls }
            else ⟨r.buf.reset, calls, false⟩
          else if (r.messageAt p).msgId = ipcSdkMsgUnregister then ⟨r.buf, [], true⟩
          -- an unexpected message id: `break`
          else ⟨r.buf.reset, [], false⟩

/-! ## `ipc_subscriber_task` -/

/-- A run of the task: the calls made so far, and whether every event was one the kernel can
deliver. -/
structure TaskRun where
  calls : List HandlerCall
  legal : Bool

/-- `ipc_subscriber_task` over the events of its socket.  A socket that is closed or fails is
replaced by a new connection, whose events follow. -/
def ipcSubscriberTask (mask : UInt64) : List SockEvent → IpcBuf → TaskRun
  | [], _ => ⟨[], true⟩
  | e :: es, buf =>
      if mask = 0 then ⟨[], true⟩
      -- a window of no bytes makes `recv` return 0: `IPC_RECEIVE_EOF`
      else if buf.window = 0 then ipcSubscriberTask mask es buf.reset
      else
        match e with
        | .bytes bs =>
            if buf.Undeliverable bs then ⟨[], false⟩
            else
              let q := ipcSubscriberProcess mask ((buf.append bs).pending.length + 1)
                (buf.append bs)
              if q.exited then ⟨q.calls, true⟩
              else
                let t := ipcSubscriberTask mask es q.buf
                { t with calls := q.calls ++ t.calls }
        | .idle => ipcSubscriberTask mask es buf
        | .err .eintr => ipcSubscriberTask mask es buf
        | .eof => ipcSubscriberTask mask es buf.reset
        | .err _ => ipcSubscriberTask mask es buf.reset

/-! ## What a frame asks for -/

namespace IpcMsg

/-- The notification in the payload. -/
def notify (f : IpcMsg) : IpcNotify := IpcNotify.decode f.data

/-- A message with the token and the id of a notification. -/
def isNotify (f : IpcMsg) : Bool := f.Friendly ∧ f.strip.msgId = ipcSdkMsgNotify

/-- A message with the token that is neither a notification nor the end of the
registration. -/
def isUnexpected (f : IpcMsg) : Bool :=
  f.Friendly ∧ f.strip.msgId ≠ ipcSdkMsgNotify ∧ f.strip.msgId ≠ ipcSdkMsgUnregister

/-- The call a notification asks for. -/
def handlerCall (f : IpcMsg) : HandlerCall :=
  ⟨f.notify.msgId, f.data.drop ipcNotifyHdrlen, f.notify.dataLen⟩

/-- The payload is a notify header followed by as many bytes as it announces. -/
def NotifyFits (f : IpcMsg) : Prop :=
  ipcNotifyHdrlen ≤ f.dataLen ∧ f.notify.dataLen = (f.dataLen : ℤ) - ipcNotifyHdrlen

instance (f : IpcMsg) : Decidable f.NotifyFits := inferInstanceAs (Decidable (_ ∧ _))

end IpcMsg

/-- The calls a sequence of messages asks for, for a subscriber with this mask. -/
def expectedCalls (mask : UInt64) (frames : List IpcMsg) : List HandlerCall :=
  (frames.filter fun f => f.isNotify && accepts mask f.notify.topic).map IpcMsg.handlerCall

/-- The header of a notification is read from the first twenty bytes of the payload. -/
lemma decode_take (bs : List UInt8) :
    IpcNotify.decode (bs.take ipcNotifyHdrlen) = IpcNotify.decode bs := by
  simp [IpcNotify.decode, ipcNotifyHdrlen, List.drop_take, List.take_take]

/-- What the code sees behind the header of a found message. -/
lemma notifyAt_of_read {m : Mem} {a : ℕ} {f : IpcMsg} (h : m.read a f.length = f.strip.encode)
    (hlen : ipcNotifyHdrlen ≤ f.dataLen) : notifyAt m (a + ipcMsgHdrlen) = f.notify := by
  have hsub : m.read (a + ipcMsgHdrlen) ipcNotifyHdrlen = f.data.take ipcNotifyHdrlen := by
    rw [read_sub h (by rw [IpcMsg.length]; omega), IpcMsg.encode,
      List.drop_left' f.strip.length_header]
    rfl
  rw [notifyAt, hsub, decode_take]
  rfl

/-- The call made for a found notification is the one it asks for. -/
lemma handlerCallAt_of_read {m : Mem} {a : ℕ} {f : IpcMsg}
    (h : m.read a f.length = f.strip.encode) (hfit : f.NotifyFits) :
    handlerCallAt m (a + ipcMsgHdrlen) = f.handlerCall := by
  have hn := notifyAt_of_read h hfit.1
  have hnat : f.notify.dataLen.toNat = f.dataLen - ipcNotifyHdrlen := by
    rw [hfit.2]
    omega
  have hlen : ipcMsgHdrlen + ipcNotifyHdrlen + (f.dataLen - ipcNotifyHdrlen) = f.length := by
    have := hfit.1
    rw [IpcMsg.length]
    omega
  have hdata : m.read (a + ipcMsgHdrlen + ipcNotifyHdrlen) (f.dataLen - ipcNotifyHdrlen) =
      f.data.drop ipcNotifyHdrlen := by
    rw [Nat.add_assoc, read_sub h (by omega), IpcMsg.encode, ← List.drop_drop,
      List.drop_left' f.strip.length_header]
    exact List.take_of_length_le (by rw [List.length_drop]; rfl)
  rw [handlerCallAt, hn, hnat, hdata]
  rfl

/-! ## One pass of the loop -/

lemma process_incomplete (mask : UInt64) (fuel : ℕ) {buf : IpcBuf} (hbuf : buf.Ok)
    (hne : buf.pending ≠ []) (hinc : Incomplete buf.pending)
    (hroom : buf.pending.length < buf.size) :
    ipcSubscriberProcess mask (fuel + 1) buf = ⟨moveFront buf, [], false⟩ ∧
      (moveFront buf).full = false := by
  have hnot := full_moveFront_eq_false hbuf hroom
  refine ⟨?_, hnot⟩
  simp [ipcSubscriberProcess, findMsg_incomplete none hne hinc, hnot]

/-- An emptied queue: the loop leaves the buffer as it is, or resets it when it was full. -/
lemma process_empty (mask : UInt64) (fuel : ℕ) {buf : IpcBuf} (hbuf : buf.Ok)
    (hsize : 0 < buf.size) (h : buf.pending = []) :
    ∃ buf', ipcSubscriberProcess mask (fuel + 1) buf = ⟨buf', [], false⟩ ∧ buf'.Ok ∧
      buf'.size = buf.size ∧ buf'.pending = [] ∧ buf'.full = false := by
  by_cases hfull : buf.full = true
  · refine ⟨buf.reset, ?_, buf.ok_reset, rfl, IpcBuf.pending_reset _, IpcBuf.full_reset hsize⟩
    simp [ipcSubscriberProcess, findMsg_empty none h, hfull]
  · rw [Bool.not_eq_true] at hfull
    refine ⟨buf, ?_, hbuf, rfl, h, hfull⟩
    simp [ipcSubscriberProcess, findMsg_empty none h, hfull]

lemma process_unfriendly (mask : UInt64) (fuel : ℕ) {buf : IpcBuf} {f : IpcMsg}
    {rest : List UInt8} (h : buf.pending = f.encode ++ rest) (hf : ¬ f.Friendly) :
    ipcSubscriberProcess mask (fuel + 1) buf =
      ipcSubscriberProcess mask (fuel + 1) { buf with head := buf.head + f.length } := by
  simp only [ipcSubscriberProcess, findMsg_unfriendly none h hf]

/-- A notification is readable for this subscriber: its header is there, and if it is going to
be delivered it announces the bytes it carries. -/
def NotifyOk (mask : UInt64) (f : IpcMsg) : Prop :=
  ipcNotifyHdrlen ≤ f.dataLen ∧ (accepts mask f.notify.topic = true → f.NotifyFits)

instance (mask : UInt64) (f : IpcMsg) : Decidable (NotifyOk mask f) :=
  inferInstanceAs (Decidable (_ ∧ _))

lemma process_notify (mask : UInt64) (fuel : ℕ) {buf : IpcBuf} {f : IpcMsg} {rest : List UInt8}
    (hbuf : buf.Ok) (hrest : buf.pending = f.encode ++ rest) (hf : f.isNotify = true)
    (hok : NotifyOk mask f) :
    ∃ buf', buf'.pending = rest ∧ buf'.Ok ∧ buf'.size = buf.size ∧
      ipcSubscriberProcess mask (fuel + 1) buf =
        if rest = [] then ⟨buf'.reset, expectedCalls mask [f], false⟩
        else
          { ipcSubscriberProcess mask fuel buf' with
            calls := expectedCalls mask [f] ++ (ipcSubscriberProcess mask fuel buf').calls } := by
  obtain ⟨hfr, hid⟩ := of_decide_eq_true hf
  obtain ⟨p, hp⟩ := findMsg_found none hbuf hrest hfr
  set r := findMsg buf none with hr
  refine ⟨r.buf, hp.pending, hp.ok, hp.size, ?_⟩
  have hmsg := hp.messageAt
  have htopic := notifyAt_of_read hp.content hok.1
  have hcalls : (if accepts mask (notifyAt (r.deref p).1 ((r.deref p).2 + ipcMsgHdrlen)).topic then
      [handlerCallAt (r.deref p).1 ((r.deref p).2 + ipcMsgHdrlen)] else []) =
      expectedCalls mask [f] := by
    rw [htopic]
    by_cases hacc : accepts mask f.notify.topic = true
    · simp [expectedCalls, hacc, hf, handlerCallAt_of_read hp.content (hok.2 hacc)]
    · simp [expectedCalls, hacc]
  by_cases hmt : rest = []
  · have hnp : r.buf.hasPending = false := by
      rw [← Bool.not_eq_true, IpcBuf.hasPending_iff, hp.pending, hmt]
      simp
    simp only [ipcSubscriberProcess, ← hr, hp.msg, hmsg, hid, if_true, hnp, hcalls, if_pos hmt]
    rfl
  · have hnp : r.buf.hasPending = true := by
      rw [IpcBuf.hasPending_iff, hp.pending]
      exact hmt
    simp only [ipcSubscriberProcess, ← hr, hp.msg, hmsg, hid, if_true, hnp, hcalls, if_neg hmt]

/-- A message that is not a notification ends the loop: the thread ends, or the buffer is
emptied. -/
lemma process_other (mask : UInt64) (fuel : ℕ) {buf : IpcBuf} {f : IpcMsg} {rest : List UInt8}
    (hbuf : buf.Ok) (hrest : buf.pending = f.encode ++ rest) (hfr : f.Friendly)
    (hf : f.isNotify = false) :
    ∃ buf', buf'.size = buf.size ∧
      ipcSubscriberProcess mask (fuel + 1) buf =
        if f.isUnexpected then ⟨buf'.reset, [], false⟩ else ⟨buf', [], true⟩ := by
  obtain ⟨p, hp⟩ := findMsg_found none hbuf hrest hfr
  refine ⟨_, hp.size, ?_⟩
  have hid : f.strip.msgId ≠ ipcSdkMsgNotify := by
    intro hid
    rw [IpcMsg.isNotify, decide_eq_false_iff_not] at hf
    exact hf ⟨hfr, hid⟩
  by_cases hun : f.strip.msgId = ipcSdkMsgUnregister
  · have hne : ipcSdkMsgUnregister ≠ ipcSdkMsgNotify := by decide
    simp [ipcSubscriberProcess, hp.msg, hp.messageAt, hun, hne, IpcMsg.isUnexpected]
  · simp [ipcSubscriberProcess, hp.msg, hp.messageAt, hid, hun, IpcMsg.isUnexpected, hfr]

/-! ## A whole call of `ipc_subscriber_process` -/

@[simp] lemma expectedCalls_nil (mask : UInt64) : expectedCalls mask [] = [] := rfl

lemma expectedCalls_append (mask : UInt64) (fs gs : List IpcMsg) :
    expectedCalls mask (fs ++ gs) = expectedCalls mask fs ++ expectedCalls mask gs := by
  simp [expectedCalls]

lemma expectedCalls_unfriendly (mask : UInt64) {f : IpcMsg} (h : ¬ f.Friendly) :
    expectedCalls mask [f] = [] := by
  simp [expectedCalls, IpcMsg.isNotify, h]

/-- When the first `n` bytes of the stream contain the whole of a message of an unexpected id,
they end between two messages. -/
def Clean (frames : List IpcMsg) (n : ℕ) : Prop :=
  ∀ pre u post, frames = pre ++ u :: post → u.isUnexpected = true →
    (wire (pre ++ [u])).length ≤ n →
    ∃ pre' post', frames = pre' ++ post' ∧ (wire pre').length = n

lemma Clean.tail {f : IpcMsg} {fs : List IpcMsg} {n : ℕ} (h : Clean (f :: fs) n)
    (hn : f.length ≤ n) : Clean fs (n - f.length) := by
  intro pre u post hsplit hu hlen
  have hlen' : (wire (f :: pre ++ [u])).length ≤ n := by
    rw [List.cons_append, wire_cons, List.length_append, IpcMsg.length_encode]
    omega
  obtain ⟨pre', post', hsplit', hpre⟩ := h (f :: pre) u post (by rw [hsplit]; rfl) hu hlen'
  cases pre' with
  | nil =>
      have hpos := f.length_pos
      rw [wire_nil, List.length_nil] at hpre
      omega
  | cons g pre' =>
      rw [List.cons_append, List.cons.injEq] at hsplit'
      obtain ⟨rfl, hsplit'⟩ := hsplit'
      rw [wire_cons, List.length_append, IpcMsg.length_encode] at hpre
      exact ⟨pre', post', hsplit', by omega⟩

/-- The state of the task between two receptions: room for more, and the first message not
yet taken out is unfinished. -/
structure Between (S : ℕ) (buf : IpcBuf) (more : List UInt8) (rem : List IpcMsg) : Prop extends
    Framed S buf more rem where
  room : buf.full = false
  unfinished : ∀ f fs, rem = f :: fs → buf.pending.length < f.length

lemma Between.of_empty {S : ℕ} {buf : IpcBuf} {more : List UInt8} {rem : List IpcMsg}
    (h : Framed S buf more rem) (hroom : buf.full = false) (hmt : buf.pending = []) :
    Between S buf more rem :=
  ⟨h, hroom, fun f _ _ => by rw [hmt]; exact f.length_pos⟩

/-- What one reception delivers of the stream `frames`: the calls that a first part `done` asks
for.  The messages `lost` behind it may be dropped, and unless the thread has ended the rest
of the stream is where it was.  Nothing is dropped of a stream of notifications. -/
def Delivers (mask : UInt64) (S : ℕ) (more : List UInt8) (frames : List IpcMsg)
    (q : ProcessResult) : Prop :=
  ∃ done lost rem, frames = done ++ (lost ++ rem) ∧ q.calls = expectedCalls mask done ∧
    (q.exited = false → Between S q.buf more rem) ∧
    ((∀ f ∈ frames, f.isNotify = true) → lost = [] ∧ q.exited = false)

lemma Delivers.cons {mask : UInt64} {S : ℕ} {more : List UInt8} {fs : List IpcMsg}
    {q q' : ProcessResult} (f : IpcMsg) (h : Delivers mask S more fs q)
    (hcalls : q'.calls = expectedCalls mask [f] ++ q.calls) (hbuf : q'.buf = q.buf)
    (hex : q'.exited = q.exited) : Delivers mask S more (f :: fs) q' := by
  obtain ⟨done, lost, rem, hsplit, hc, hbetween, hall⟩ := h
  refine ⟨f :: done, lost, rem, by rw [hsplit]; rfl, ?_, ?_, ?_⟩
  · rw [hcalls, hc, ← expectedCalls_append, List.singleton_append]
  · rw [hex, hbuf]
    exact hbetween
  · rw [hex]
    exact fun h => hall fun g hg => h g (List.mem_cons_of_mem _ hg)

lemma Delivers.last {mask : UInt64} {S : ℕ} {more : List UInt8} {fs : List IpcMsg} {buf : IpcBuf}
    (f : IpcMsg) (h : Between S buf more fs) :
    Delivers mask S more (f :: fs) ⟨buf, expectedCalls mask [f], false⟩ :=
  ⟨[f], [], fs, rfl, rfl, fun _ => h, fun _ => ⟨rfl, rfl⟩⟩

/-- The loop ends at a message that is not a notification. -/
lemma process_other_delivers (mask : UInt64) {S : ℕ} {more rest : List UInt8} {f : IpcMsg}
    {fs : List IpcMsg} (fuel : ℕ) {buf : IpcBuf} (hb : Framed S buf more (f :: fs))
    (hrest : buf.pending = f.encode ++ rest) (hfr : f.Friendly) (hnot : f.isNotify = false)
    (hclean : Clean (f :: fs) buf.pending.length) :
    Delivers mask S more (f :: fs) (ipcSubscriberProcess mask (fuel + 1) buf) := by
  obtain ⟨buf', hsize', hproc⟩ := process_other mask fuel hb.ok hrest hfr hnot
  have hsz : buf'.size = S := hsize'.trans hb.size
  have hpos := f.length_pos
  have hfit := hb.fits f (List.mem_cons_self ..)
  have hall : ¬ ∀ g ∈ f :: fs, g.isNotify = true := by
    intro h
    rw [h f (List.mem_cons_self ..)] at hnot
    exact absurd hnot (by decide)
  by_cases hun : f.isUnexpected = true
  · -- the buffer is emptied, and by `Clean` it ended between two messages
    rw [hproc, if_pos hun]
    have hlen : (wire ([] ++ [f])).length ≤ buf.pending.length := by
      rw [hrest, List.nil_append, wire_cons, wire_nil, List.append_nil, List.length_append]
      exact Nat.le_add_right _ _
    obtain ⟨pre, post, hsplit, hpre⟩ := hclean [] f fs rfl hun hlen
    have hpost : more = wire post := by
      have hst := hb.stream
      rw [hsplit, wire_append] at hst
      exact (List.append_inj hst hpre.symm).2
    have hfits : ∀ g ∈ post, g.length ≤ S := fun g hg =>
      hb.fits g (by rw [hsplit]; exact List.mem_append_right _ hg)
    exact ⟨[], pre, post, hsplit, rfl, fun _ => Between.of_empty (Framed.reset hsz hfits hpost)
      (IpcBuf.full_reset (by omega)) (IpcBuf.pending_reset _), fun h => absurd h hall⟩
  · rw [hproc, if_neg hun]
    exact ⟨[], [], f :: fs, rfl, rfl, by simp, fun h => absurd h hall⟩

lemma process_frames (mask : UInt64) {S : ℕ} {more : List UInt8} (frames : List IpcMsg)
    (hn : ∀ f ∈ frames, f.isNotify = true → NotifyOk mask f) (fuel : ℕ) (buf : IpcBuf)
    (hfuel : buf.pending.length < fuel) (hb : Framed S buf more frames)
    (hne : buf.pending ≠ []) (hclean : Clean frames buf.pending.length) :
    Delivers mask S more frames (ipcSubscriberProcess mask fuel buf) := by
  induction frames generalizing fuel buf with
  | nil =>
      have hw := hb.stream
      rw [wire_nil, List.append_eq_nil_iff] at hw
      exact absurd hw.1 hne
  | cons f fs ih =>
      obtain ⟨fuel, rfl⟩ : ∃ n, fuel = n + 1 := ⟨fuel - 1, by omega⟩
      have hfit := hb.fits f (List.mem_cons_self ..)
      have hpos := f.length_pos
      have hw := hb.stream
      rw [wire_cons] at hw
      by_cases hlt : buf.pending.length < f.length
      · -- the first message is unfinished
        obtain ⟨hproc, hnot⟩ := process_incomplete mask fuel hb.ok hne
          (incomplete_of_append hw hlt) (by rw [hb.size]; omega)
        rw [hproc]
        refine ⟨[], [], f :: fs, rfl, rfl, fun _ => ⟨hb.moveFront, hnot, ?_⟩, fun _ => ⟨rfl, rfl⟩⟩
        intro g gs hg
        rw [List.cons.injEq] at hg
        show (moveFront buf).pending.length < g.length
        rw [pending_moveFront, ← hg.1]
        exact hlt
      · obtain ⟨rest, hrest, hmore⟩ := exists_rest_of_length_le hw (by omega)
        have hfits : ∀ g ∈ fs, g.length ≤ S := fun g hg => hb.fits g (List.mem_cons_of_mem _ hg)
        have hn' : ∀ g ∈ fs, g.isNotify = true → NotifyOk mask g :=
          fun g hg => hn g (List.mem_cons_of_mem _ hg)
        have hlen : buf.pending.length = f.length + rest.length := by
          rw [hrest, List.length_append, IpcMsg.length_encode]
        have hclean' : Clean fs rest.length := by
          have := hclean.tail (by omega)
          rwa [hlen, Nat.add_sub_cancel_left] at this
        by_cases hfr : f.Friendly
        · cases hnot : f.isNotify with
          | true =>
              obtain ⟨buf', hpend, hok', hsize', hproc⟩ := process_notify mask fuel hb.ok hrest hnot
                (hn f (List.mem_cons_self ..) hnot)
              have hsz : buf'.size = S := hsize'.trans hb.size
              by_cases hmt : rest = []
              · rw [hproc, if_pos hmt]
                have hmore' : more = wire fs := by rw [← hmore, hmt, List.nil_append]
                exact Delivers.last f (Between.of_empty (Framed.reset hsz hfits hmore')
                  (IpcBuf.full_reset (by omega)) (IpcBuf.pending_reset _))
              · rw [hproc, if_neg hmt]
                subst hpend
                exact (ih hn' fuel buf' (by omega) ⟨hok', hsz, hfits, hmore⟩ hmt hclean').cons f
                  rfl rfl rfl
          | false => exact process_other_delivers mask fuel hb hrest hfr hnot hclean
        · -- a message without the token is skipped inside `find_msg`
          obtain ⟨hpend, hok'⟩ := pending_skip hb.ok hrest
          rw [process_unfriendly mask fuel hrest hfr]
          have hnone := expectedCalls_unfriendly mask hfr
          by_cases hmt : rest = []
          · obtain ⟨buf', hproc, hok'', hsize', hmt', hroom⟩ :=
              process_empty mask fuel hok' (by show 0 < buf.size; rw [hb.size]; omega)
                (hpend.trans hmt)
            rw [hproc, ← hnone]
            exact Delivers.last f (Between.of_empty ⟨hok'', hsize'.trans hb.size, hfits, by
              rw [hmt', ← hmore, hmt]⟩ hroom hmt')
          · subst hpend
            exact (ih hn' (fuel + 1) _ (by omega) ⟨hok', hb.size, hfits, hmore⟩ hmt hclean').cons f
              (by rw [hnone, List.nil_append]) rfl rfl

/-! ## Whole runs of the task -/

/-- No reception that completes a message of an unexpected id ends inside another message. -/
def Untorn (frames : List IpcMsg) (chunks : List (List UInt8)) : Prop :=
  ∀ c₀ b c₁, chunks = c₀ ++ b :: c₁ →
    ∀ pre u post, frames = pre ++ u :: post → u.isUnexpected = true →
      c₀.flatten.length < (wire (pre ++ [u])).length →
      (wire (pre ++ [u])).length ≤ (c₀ ++ [b]).flatten.length →
      ∃ pre' post', frames = pre' ++ post' ∧ (wire pre').length = (c₀ ++ [b]).flatten.length

/-- `Untorn` at one reception: `gone` are the messages already taken out. -/
lemma Untorn.clean {gone rem : List IpcMsg} {c₀ c₁ : List (List UInt8)} {b : List UInt8} {n : ℕ}
    (h : Untorn (gone ++ rem) (c₀ ++ b :: c₁))
    (hn : c₀.flatten.length = (wire gone).length + n)
    (hunf : ∀ f fs, rem = f :: fs → n < f.length) : Clean rem (n + b.length) := by
  intro pre u post hsplit hu hlen
  have hrecv : (c₀ ++ [b]).flatten.length = (wire gone).length + (n + b.length) := by
    rw [List.flatten_append, List.length_append, hn]
    simp [Nat.add_assoc]
  have hbefore : n < (wire (pre ++ [u])).length := by
    cases pre with
    | nil =>
        have := hunf u post hsplit
        simpa using this
    | cons f fs =>
        have := hunf f (fs ++ u :: post) hsplit
        rw [List.cons_append, wire_cons, List.length_append, IpcMsg.length_encode]
        omega
  have hend : wire ((gone ++ pre) ++ [u]) = wire gone ++ wire (pre ++ [u]) := by
    rw [List.append_assoc, wire_append]
  obtain ⟨pre', post', hsplit', hpre⟩ := h c₀ b c₁ rfl (gone ++ pre) u post
    (by rw [hsplit, List.append_assoc]) hu (by rw [hend, List.length_append]; omega)
    (by rw [hend, List.length_append]; omega)
  rw [hrecv] at hpre
  -- the boundary lies behind the messages already taken out
  obtain ⟨t, rfl, hrem⟩ | ⟨t, rfl, hpost⟩ := List.append_eq_append_iff.mp hsplit'
  · rw [wire_append, List.length_append] at hpre
    exact ⟨t, post', hrem, by omega⟩
  · rw [wire_append, List.length_append] at hpre
    have ht : t = [] := wire_eq_nil (List.length_eq_zero_iff.mp (by omega))
    subst ht
    rw [wire_nil, List.length_nil] at hpre
    exact ⟨[], rem, rfl, by rw [wire_nil, List.length_nil]; omega⟩

/-- The run lemma of the task: between any two receptions, the calls still to be made are what
some of the messages still to come ask for — all of them when they are notifications. -/
lemma task_frames (mask : UInt64) (hmask : mask ≠ 0) {S : ℕ} {frames : List IpcMsg}
    {received : List (List UInt8)}
    (hn : ∀ f ∈ frames, f.isNotify = true → NotifyOk mask f)
    (htorn : Untorn frames received) (chunks : List (List UInt8)) (c₀ : List (List UInt8))
    (gone rem : List IpcMsg) (buf : IpcBuf) (hchunks : received = c₀ ++ chunks)
    (hframes : frames = gone ++ rem)
    (hrecv : c₀.flatten.length = (wire gone).length + buf.pending.length)
    (hb : Between S buf chunks.flatten rem)
    (hlegal : (ipcSubscriberTask mask (chunks.map .bytes) buf).legal = true) :
    ∃ kept, kept.Sublist rem ∧
      (ipcSubscriberTask mask (chunks.map .bytes) buf).calls = expectedCalls mask kept ∧
      ((∀ f ∈ rem, f.isNotify = true) → kept = rem) := by
  induction chunks generalizing c₀ gone rem buf with
  | nil =>
      have hnil : rem = [] := by
        cases rem with
        | nil => rfl
        | cons f fs => exact absurd rfl (hb.more_ne_nil (hb.unfinished f fs rfl))
      exact ⟨[], by rw [hnil], rfl, fun _ => hnil.symm⟩
  | cons b chunks ih =>
      have hwin := IpcBuf.window_ne_zero hb.room
      simp only [List.map_cons, ipcSubscriberTask, if_neg hmask, if_neg hwin] at hlegal ⊢
      by_cases hill : buf.Undeliverable b
      · rw [if_pos hill] at hlegal
        exact absurd hlegal (by decide)
      · rw [if_neg hill] at hlegal ⊢
        rw [IpcBuf.not_undeliverable] at hill
        have hpend := IpcBuf.pending_append hb.ok b
        have hlen : (buf.append b).pending.length = buf.pending.length + b.length := by
          rw [hpend, List.length_append]
        have hclean : Clean rem (buf.append b).pending.length := by
          rw [hlen]
          rw [hframes, hchunks] at htorn
          exact htorn.clean hrecv hb.unfinished
        have hrem : ∀ f ∈ rem, f.isNotify = true → NotifyOk mask f := fun f hf =>
          hn f (by rw [hframes]; exact List.mem_append_right _ hf)
        have hframed : Framed S (buf.append b) chunks.flatten rem :=
          hb.toFramed.append hill.2.1
        obtain ⟨done, lost, rem', hsplit, hcalls, hbetween, hall⟩ := process_frames mask rem hrem
          ((buf.append b).pending.length + 1) (buf.append b) (Nat.lt_succ_self _) hframed
          (by rw [hpend]; simp [hill.1]) hclean
        set q := ipcSubscriberProcess mask ((buf.append b).pending.length + 1) (buf.append b)
        have hkept : ∀ kept, kept.Sublist rem' → (done ++ kept).Sublist rem := by
          intro kept hk
          rw [hsplit]
          exact (List.Sublist.refl done).append (hk.trans (List.sublist_append_right lost rem'))
        by_cases hex : q.exited = true
        · rw [if_pos hex]
          refine ⟨done ++ [], hkept [] (List.nil_sublist _), by rw [hcalls, List.append_nil], ?_⟩
          intro h
          rw [(hall h).2] at hex
          exact absurd hex (by decide)
        · rw [if_neg hex] at hlegal ⊢
          rw [Bool.not_eq_true] at hex
          have hb' := hbetween hex
          have hrecv' : (c₀ ++ [b]).flatten.length =
              (wire (gone ++ (done ++ lost))).length + q.buf.pending.length := by
            have h1 := congrArg List.length hframed.stream
            have h2 := congrArg List.length hb'.stream
            rw [hsplit, ← List.append_assoc, wire_append] at h1
            simp only [List.length_append] at h1 h2
            simp only [List.flatten_append, List.flatten_cons, List.flatten_nil, List.append_nil,
              wire_append gone, List.length_append]
            omega
          obtain ⟨kept, hsub, hcalls', hall'⟩ := ih (c₀ ++ [b]) (gone ++ (done ++ lost)) rem' q.buf
            (by rw [hchunks, List.append_assoc]; rfl)
            (by rw [hframes, hsplit]; simp only [List.append_assoc]) hrecv' hb' hlegal
          refine ⟨done ++ kept, hkept kept hsub, ?_, ?_⟩
          · show q.calls ++ _ = _
            rw [hcalls, expectedCalls_append]
            exact congrArg (_ ++ ·) hcalls'
          · intro h
            have hlost := (hall h).1
            rw [hsplit, hlost, List.nil_append] at h ⊢
            rw [hall' fun f hf => h f (List.mem_append_right _ hf)]

lemma untorn_of_expected {frames : List IpcMsg} (chunks : List (List UInt8))
    (h : ∀ f ∈ frames, f.isUnexpected = false) : Untorn frames chunks := by
  intro c₀ b c₁ _ pre u post hsplit hu _ _
  rw [h u (by rw [hsplit]; simp)] at hu
  exact absurd hu (by decide)

lemma isUnexpected_of_isNotify {f : IpcMsg} (h : f.isNotify = true) : f.isUnexpected = false := by
  obtain ⟨_, hid⟩ := of_decide_eq_true h
  simp [IpcMsg.isUnexpected, hid]

lemma task_frames_reset (mask : UInt64) (hmask : mask ≠ 0) (buf : IpcBuf)
    (hS : ipcMsgHdrlen ≤ buf.size) {frames : List IpcMsg} {chunks : List (List UInt8)}
    (hfits : ∀ f ∈ frames, f.length ≤ buf.size)
    (hn : ∀ f ∈ frames, f.isNotify = true → NotifyOk mask f)
    (htorn : Untorn frames chunks) (hw : chunks.flatten = wire frames)
    (hlegal : (ipcSubscriberTask mask (chunks.map .bytes) buf.reset).legal = true) :
    ∃ kept, kept.Sublist frames ∧
      (ipcSubscriberTask mask (chunks.map .bytes) buf.reset).calls = expectedCalls mask kept ∧
      ((∀ f ∈ frames, f.isNotify = true) → kept = frames) := by
  have hroom : buf.reset.full = false := IpcBuf.full_reset (lt_of_lt_of_le (by decide) hS)
  exact task_frames mask hmask hn htorn chunks [] [] frames buf.reset rfl rfl (by simp)
    (Between.of_empty (Framed.reset rfl hfits hw) hroom (IpcBuf.pending_reset _)) hlegal

/-- On a stream of notifications the task makes the calls they ask for. -/
lemma task_notifications (mask : UInt64) (buf : IpcBuf) (hS : ipcMsgHdrlen ≤ buf.size)
    {frames : List IpcMsg}
    (hf : ∀ f ∈ frames, f.isNotify = true ∧ f.length ≤ buf.size ∧ f.NotifyFits)
    {chunks : List (List UInt8)} (hw : chunks.flatten = wire frames)
    (hlegal : (ipcSubscriberTask mask (chunks.map .bytes) buf.reset).legal = true) :
    (ipcSubscriberTask mask (chunks.map .bytes) buf.reset).calls = expectedCalls mask frames := by
  by_cases hmask : mask = 0
  · -- the task ends at once, and no topic is in the mask
    subst hmask
    rw [expectedCalls, List.filter_eq_nil_iff.mpr (by simp [accepts, topicIsset])]
    cases chunks with
    | nil => rfl
    | cons b chunks => simp [ipcSubscriberTask]
  · obtain ⟨kept, -, hcalls, hall⟩ := task_frames_reset mask hmask buf hS
      (fun f hfm => (hf f hfm).2.1) (fun f hfm _ => ⟨(hf f hfm).2.2.1, fun _ => (hf f hfm).2.2⟩)
      (untorn_of_expected chunks fun f hfm => isUnexpected_of_isNotify (hf f hfm).1) hw hlegal
    rw [hcalls, hall fun f hfm => (hf f hfm).1]

/-- **Subscriber framing does not depend on chunking.**  Let `frames` be notifications that
fit the buffer and announce exactly the bytes they carry, and `chunks` a way the kernel cuts
their bytes into results of `recv` that are not empty, fit the window they are received into, and
leave no more bytes in the buffer than an `int` can count (`hlegal`).  The calls of the user's
handler over the whole run are the frames whose topic passes the two tests, in order, each once,
with their exact payload. -/
theorem ipcSubscriberTask_calls (mask : UInt64) (buf : IpcBuf) (hS : ipcMsgHdrlen ≤ buf.size)
    (frames : List IpcMsg)
    (hf : ∀ f ∈ frames, f.isNotify = true ∧ f.length ≤ buf.size ∧ f.NotifyFits)
    (chunks : List (List UInt8)) (hw : chunks.flatten = wire frames)
    (hlegal : (ipcSubscriberTask mask (chunks.map .bytes) buf.reset).legal = true) :
    (ipcSubscriberTask mask (chunks.map .bytes) buf.reset).calls =
      (frames.filter fun f =>
        topicIsset mask f.notify.topic && topicCheck f.notify.topic).map IpcMsg.handlerCall := by
  rw [task_notifications mask buf hS hf hw hlegal, expectedCalls]
  congr 1
  apply List.filter_congr
  intro f hfm
  rw [(hf f hfm).1, Bool.true_and, accepts]

/-- A notification of topic `t` with message id `id` and the payload `bs`. -/
def notifyFrame (t : ℕ) (id : ℕ) (bs : List UInt8) (h : bs.length < 64) : IpcMsg where
  fromId := 0
  msgId := ipcMsgToken ||| ipcSdkMsgNotify
  flags := 0
  data := toLE 4 0 ++ toLE 8 t ++ toLE 4 id ++ toLE 4 bs.length ++ bs
  data_lt := by
    simp only [List.length_append, length_toLE]
    omega

/-- A byte string cut into pieces of the given lengths and a last piece. -/
def chop : List ℕ → List UInt8 → List (List UInt8)
  | [], bs => [bs]
  | n :: ns, bs => bs.take n :: chop ns (bs.drop n)

/-- Three notifications of the topics 1, 2 and 4. -/
def sampleNotifications : List IpcMsg :=
  [notifyFrame 1 7 [42] (by decide), notifyFrame 2 8 [] (by decide),
    notifyFrame 4 9 [43, 44] (by decide)]

/-- The first reception fills the buffer of forty bytes and ends inside the second message, the
second one ends inside the third message, which the third one completes up to the end of the
buffer. -/
theorem ipcSubscriberTask_calls_sample :
    (ipcSubscriberTask 5 ((chop [40, 30, 3] (wire sampleNotifications)).map .bytes)
        (IpcBuf.reset ⟨0, 0, 40, fun _ => 0⟩)).calls =
      (sampleNotifications.filter fun f =>
        topicIsset 5 f.notify.topic && topicCheck f.notify.topic).map IpcMsg.handlerCall :=
  ipcSubscriberTask_calls 5 ⟨0, 0, 40, fun _ => 0⟩ (by decide) sampleNotifications
    (by decide +kernel) (chop [40, 30, 3] (wire sampleNotifications)) (by decide +kernel)
    (by decide +kernel)

/-- **When no payload byte is taken for a header.**  On an arbitrary stream of messages, every
call of the user's handler is the one some notification of the stream asks for, each
notification at most once and in order — provided that every message fits the buffer, that
every notification has its header and, if its topic passes, announces the bytes it carries,
and that no reception which completes a message of an unexpected id ends inside another
message. -/
theorem ipcSubscriberTask_calls_sublist (mask : UInt64) (buf : IpcBuf)
    (hS : ipcMsgHdrlen ≤ buf.size) (frames : List IpcMsg) (chunks : List (List UInt8))
    (hfits : ∀ f ∈ frames, f.length ≤ buf.size)
    (hn : ∀ f ∈ frames, f.isNotify = true → NotifyOk mask f)
    (htorn : Untorn frames chunks) (hw : chunks.flatten = wire frames)
    (hlegal : (ipcSubscriberTask mask (chunks.map .bytes) buf.reset).legal = true) :
    (ipcSubscriberTask mask (chunks.map .bytes) buf.reset).calls.Sublist
      ((frames.filter IpcMsg.isNotify).map IpcMsg.handlerCall) := by
  by_cases hmask : mask = 0
  · subst hmask
    cases chunks with
    | nil => exact List.nil_sublist _
    | cons b chunks => simp [ipcSubscriberTask]
  · obtain ⟨kept, hsub, hcalls, -⟩ :=
      task_frames_reset mask hmask buf hS hfits hn htorn hw hlegal
    have hnotify : (kept.filter fun f => f.isNotify && accepts mask f.notify.topic).Sublist
        (kept.filter IpcMsg.isNotify) := by
      apply List.monotone_filter_right
      intro f hacc
      rw [Bool.and_eq_true] at hacc
      exact hacc.1
    rw [hcalls]
    exact (hnotify.trans (hsub.filter _)).map _

/-- The three notifications, as a stream to which the condition applies. -/
theorem ipcSubscriberTask_calls_sublist_sample :
    (ipcSubscriberTask 5 ((chop [40, 30, 3] (wire sampleNotifications)).map .bytes)
        (IpcBuf.reset ⟨0, 0, 40, fun _ => 0⟩)).calls.Sublist
      ((sampleNotifications.filter IpcMsg.isNotify).map IpcMsg.handlerCall) :=
  ipcSubscriberTask_calls_sublist 5 ⟨0, 0, 40, fun _ => 0⟩ (by decide) sampleNotifications
    (chop [40, 30, 3] (wire sampleNotifications)) (by decide +kernel) (by decide +kernel)
    (untorn_of_expected _ (by decide +kernel)) (by decide +kernel) (by decide +kernel)

/-- A notification longer than a buffer of thirty-two bytes; the second half of it has the form
of a notification with the id 99. -/
def oversizedFrame : IpcMsg := notifyFrame 1 7 (notifyFrame 1 99 [] (by decide)).encode (by decide)

/-- **A payload taken for a header.**  The first half of the frame fills the buffer, which is
emptied; the second half is delivered as a message of its own. -/
theorem oversized_payload_delivered :
    (chop [32] (wire [oversizedFrame])).flatten = wire [oversizedFrame] ∧
      (ipcSubscriberTask 1 ((chop [32] (wire [oversizedFrame])).map .bytes)
        (IpcBuf.reset ⟨0, 0, 32, fun _ => 0⟩)).legal = true ∧
      ¬ ∀ c ∈ (ipcSubscriberTask 1 ((chop [32] (wire [oversizedFrame])).map .bytes)
          (IpcBuf.reset ⟨0, 0, 32, fun _ => 0⟩)).calls,
        ∃ f ∈ [oversizedFrame], f.isNotify = true ∧ c = f.handlerCall := by
  decide +kernel

end LinuxC.Ipc
