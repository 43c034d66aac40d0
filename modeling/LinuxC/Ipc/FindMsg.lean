import LinuxC.Ipc.Message

/-!
# The receive buffer and `find_msg` (`ipc/ipc_base.c`)

Both ends of a connection collect what they receive in a `struct ipc_buf` and take messages
out of it with `find_msg`.  The server passes a second block of memory, the *clone*, into
which a message is copied unless it is the only content of the buffer; the subscriber passes
no clone and gets the message inside the buffer, moved to the start when it is misaligned.

The buffer is read here as a queue of bytes: `IpcBuf.pending` is what has been received and
not yet taken out.  The specification of `find_msg` is stated on that queue, and it is all
that the two receive loops use:

* `findMsg_incomplete` — a queue that starts with an unfinished message gives none, keeps
  its content, and is moved to the front of the buffer when the buffer is full;
* `findMsg_unfriendly` — a message without the token is skipped;
* `findMsg_found` — a message with the token is handed out without it, and the queue holds
  exactly the bytes behind it.
-/

namespace LinuxC.Ipc

structure IpcBuf where
  head : ℕ
  tail : ℕ
  size : ℕ
  data : Mem

namespace IpcBuf

/-- `ipc_buf_full`. -/
def full (buf : IpcBuf) : Bool := buf.size ≤ buf.tail

/-- `ipc_buf_pending`. -/
def hasPending (buf : IpcBuf) : Bool := buf.head < buf.tail

/-- `ipc_buf_reset`. -/
def reset (buf : IpcBuf) : IpcBuf := { buf with head := 0, tail := 0 }

/-- The free window that `recv` is called with. -/
def window (buf : IpcBuf) : ℕ := buf.size - buf.tail

/-- `recv` stored `bs` at the tail. -/
def append (buf : IpcBuf) (bs : List UInt8) : IpcBuf :=
  { buf with data := buf.data.write buf.tail bs, tail := buf.tail + bs.length }

/-- The bytes received and not yet taken out. -/
def pending (buf : IpcBuf) : List UInt8 := buf.data.read buf.head (buf.tail - buf.head)

/-- What `recv` does not return: no bytes, more than the window holds, or more than an `int` can
count together with those that are pending, as `left` in `find_msg` has to (`findMsg_passes`). -/
def Undeliverable (buf : IpcBuf) (bs : List UInt8) : Prop :=
  bs = [] ∨ buf.window < bs.length ∨ 2 ^ 31 ≤ buf.tail - buf.head + bs.length

instance (buf : IpcBuf) (bs : List UInt8) : Decidable (buf.Undeliverable bs) :=
  inferInstanceAs (Decidable (_ ∨ _ ∨ _))

lemma not_undeliverable {buf : IpcBuf} {bs : List UInt8} :
    ¬ buf.Undeliverable bs ↔
      bs ≠ [] ∧ bs.length ≤ buf.window ∧ buf.tail - buf.head + bs.length < 2 ^ 31 := by
  rw [Undeliverable, not_or, not_or, Nat.not_lt, Nat.not_le]

structure Ok (buf : IpcBuf) : Prop where
  head_le : buf.head ≤ buf.tail
  tail_le : buf.tail ≤ buf.size

@[simp] lemma length_pending (buf : IpcBuf) : buf.pending.length = buf.tail - buf.head := by
  simp [pending]

@[simp] lemma pending_reset (buf : IpcBuf) : buf.reset.pending = [] := by
  simp [pending, reset]

@[simp] lemma size_reset (buf : IpcBuf) : buf.reset.size = buf.size := rfl

@[simp] lemma size_append (buf : IpcBuf) (bs : List UInt8) : (buf.append bs).size = buf.size :=
  rfl

lemma ok_reset (buf : IpcBuf) : buf.reset.Ok := ⟨le_refl _, Nat.zero_le _⟩

lemma full_reset {buf : IpcBuf} (h : 0 < buf.size) : buf.reset.full = false := by
  simp [full, reset, h.ne']

lemma window_ne_zero {buf : IpcBuf} (h : buf.full = false) : buf.window ≠ 0 := by
  simp only [full, decide_eq_false_iff_not] at h
  simp only [window]
  omega

lemma hasPending_iff (buf : IpcBuf) : buf.hasPending = true ↔ buf.pending ≠ [] := by
  rw [← List.length_pos_iff, length_pending, hasPending, decide_eq_true_iff]
  omega

lemma pending_append {buf : IpcBuf} (h : buf.Ok) (bs : List UInt8) :
    (buf.append bs).pending = buf.pending ++ bs := by
  have hsplit : buf.tail + bs.length - buf.head = (buf.tail - buf.head) + bs.length := by
    have := h.head_le
    omega
  have htail : buf.head + (buf.tail - buf.head) = buf.tail := by
    have := h.head_le
    omega
  simp only [pending, append]
  rw [hsplit, Mem.read_add, htail, Mem.read_write_below _ _ (by omega),
    Mem.read_write_self _ _ _ rfl]

lemma ok_append {buf : IpcBuf} (h : buf.Ok) {bs : List UInt8} (hbs : bs.length ≤ buf.window) :
    (buf.append bs).Ok := by
  have h1 := h.head_le
  have h2 := h.tail_le
  simp only [window] at hbs
  refine ⟨?_, ?_⟩
  · simp only [append]
    omega
  · simp only [append]
    omega

end IpcBuf

/-! ## `find_msg` -/

/-- The place a `struct ipc_msg *` returned by `find_msg` points to. -/
inductive MsgPtr
  /-- Inside the buffer, at this offset. -/
  | inBuf (off : ℕ)
  /-- The clone. -/
  | clone
  deriving DecidableEq

/-- What a call of `find_msg` leaves behind and returns. -/
structure FindResult where
  buf : IpcBuf
  clone : Option Mem
  msg : Option MsgPtr

/-- The label `__move`: an unfinished message in a full buffer is moved to the front. -/
def moveFront (buf : IpcBuf) : IpcBuf :=
  if buf.full ∧ buf.head ≠ 0 then
    { buf with data := buf.data.copy 0 buf.head (buf.tail - buf.head), head := 0,
               tail := buf.tail - buf.head }
  else buf

/-- The part of the loop body behind `friendly`: choose where the message is handed out. -/
def handOut (buf : IpcBuf) (clone : Option Mem) (msgLen : ℕ) : FindResult :=
  match clone with
  | some c =>
      if msgLen < buf.tail - buf.head ∨ buf.head ≠ 0 then
        -- `sticky`: the message shares the buffer with others
        { buf := { buf with head := buf.head + msgLen },
          clone := some (c.write 0 (buf.data.read buf.head msgLen)), msg := some .clone }
      else
        { buf := { buf with head := buf.head + msgLen }, clone := some c,
          msg := some (.inBuf buf.head) }
  | none =>
      if buf.head % 4 ≠ 0 then
        { buf := { buf with data := buf.data.copy 0 buf.head msgLen,
                            head := buf.head + msgLen },
          clone := none, msg := some (.inBuf 0) }
      else
        { buf := { buf with head := buf.head + msgLen }, clone := none,
          msg := some (.inBuf buf.head) }

/-- The loop of `find_msg`.  Every pass takes at least a header off the queue, so a fuel of
one more than the queue's length is never used up (`findMsgLoop_congr`). -/
def findMsgLoop : ℕ → IpcBuf → Option Mem → FindResult
  | 0, buf, clone => ⟨buf, clone, none⟩
  | fuel + 1, buf, clone =>
      if buf.tail - buf.head = 0 then ⟨buf, clone, none⟩
      else if buf.tail - buf.head < ipcMsgHdrlen then ⟨moveFront buf, clone, none⟩
      else if buf.tail - buf.head < ipcMsgHdrlen + dataLenAt buf.data buf.head then
        ⟨moveFront buf, clone, none⟩
      else
        match friendly buf.data buf.head with
        | none =>
            findMsgLoop fuel
              { buf with head := buf.head + (ipcMsgHdrlen + dataLenAt buf.data buf.head) } clone
        | some data =>
            handOut { buf with data := data } clone
              (ipcMsgHdrlen + dataLenAt buf.data buf.head)

def findMsg (buf : IpcBuf) (clone : Option Mem) : FindResult :=
  findMsgLoop (buf.tail - buf.head + 1) buf clone

/-- The block of memory and the offset a returned pointer denotes. -/
def FindResult.deref (r : FindResult) : MsgPtr → Mem × ℕ
  | .inBuf off => (r.buf.data, off)
  | .clone => (r.clone.getD r.buf.data, 0)

/-- The message a returned pointer shows. -/
def FindResult.messageAt (r : FindResult) (p : MsgPtr) : IpcMsg :=
  readMsg (r.deref p).1 (r.deref p).2

/-! ## Unfinished messages -/

/-- The byte string does not contain the whole of the message it starts with. -/
def Incomplete (bs : List UInt8) : Prop :=
  bs.length < ipcMsgHdrlen ∨ bs.length < ipcMsgHdrlen + leNat ((bs.drop 10).take 2)

lemma incomplete_of_append {f : IpcMsg} {p rest more : List UInt8}
    (h : p ++ rest = f.encode ++ more) (hlt : p.length < f.length) : Incomplete p := by
  by_cases hp : p.length < ipcMsgHdrlen
  · exact Or.inl hp
  · right
    have htake : p.take ipcMsgHdrlen = f.header := by
      have := congrArg (List.take ipcMsgHdrlen) h
      rw [List.take_append_of_le_length (by omega), IpcMsg.encode, List.append_assoc,
        List.take_left' f.length_header] at this
      exact this
    have hfield : (p.drop 10).take 2 = toLE 2 f.dataLen := by
      have hcomm : (p.drop 10).take 2 = (p.take ipcMsgHdrlen).drop 10 := by
        rw [List.drop_take]
        rfl
      rw [hcomm, htake]
      simp [IpcMsg.header, List.drop_append, List.drop_eq_nil_of_le]
    rw [hfield, leNat_toLE_of_lt f.data_lt]
    exact hlt

/-- The length field of the message at the head of the queue. -/
lemma dataLenAt_head (buf : IpcBuf) (h : ipcMsgHdrlen ≤ buf.pending.length) :
    dataLenAt buf.data buf.head = leNat ((buf.pending.drop 10).take 2) := by
  rw [IpcBuf.length_pending] at h
  rw [dataLenAt, read_sub (rfl : _ = buf.pending) (by simp only [ipcMsgHdrlen] at h; omega)]

/-! ### An unfinished message -/

@[simp] lemma size_moveFront (buf : IpcBuf) : (moveFront buf).size = buf.size := by
  unfold moveFront
  split <;> rfl

lemma pending_moveFront (buf : IpcBuf) : (moveFront buf).pending = buf.pending := by
  unfold moveFront
  split
  · simp only [IpcBuf.pending, Nat.sub_zero]
    exact Mem.read_write_self _ _ _ (by simp)
  · rfl

lemma ok_moveFront {buf : IpcBuf} (h : buf.Ok) : (moveFront buf).Ok := by
  have h2 := h.tail_le
  unfold moveFront
  split
  · refine ⟨Nat.zero_le _, ?_⟩
    show buf.tail - buf.head ≤ buf.size
    omega
  · exact h

/-- After the move the buffer is full only when the queue alone fills it. -/
lemma full_moveFront {buf : IpcBuf} (h : buf.Ok) (hfull : (moveFront buf).full = true) :
    buf.size ≤ buf.pending.length := by
  have h2 := h.tail_le
  rw [IpcBuf.length_pending]
  unfold moveFront at hfull
  split at hfull
  · rename_i hmove
    simp only [IpcBuf.full, decide_eq_true_eq] at hfull hmove
    omega
  · rename_i hstay
    simp only [IpcBuf.full, decide_eq_true_eq] at hfull hstay
    omega

lemma full_moveFront_eq_false {buf : IpcBuf} (h : buf.Ok)
    (hroom : buf.pending.length < buf.size) : (moveFront buf).full = false := by
  by_contra hfull
  rw [Bool.not_eq_false] at hfull
  have := full_moveFront h hfull
  omega

/-- **An unfinished message is left in the queue.** -/
lemma findMsg_incomplete {buf : IpcBuf} (clone : Option Mem) (hne : buf.pending ≠ [])
    (h : Incomplete buf.pending) : findMsg buf clone = ⟨moveFront buf, clone, none⟩ := by
  have hpos : 0 < buf.pending.length := List.length_pos_iff.mpr hne
  rw [IpcBuf.length_pending] at hpos
  rw [findMsg, findMsgLoop, if_neg (by omega)]
  by_cases hhdr : buf.tail - buf.head < ipcMsgHdrlen
  · rw [if_pos hhdr]
  · have hlen : buf.tail - buf.head < ipcMsgHdrlen + dataLenAt buf.data buf.head := by
      rw [dataLenAt_head buf (by rw [IpcBuf.length_pending]; omega), ← IpcBuf.length_pending]
      rcases h with h | h
      · rw [IpcBuf.length_pending] at h
        omega
      · exact h
    rw [if_neg hhdr, if_pos hlen]

/-! ### A whole message -/

/-- What `find_msg` guarantees when it hands out the message `f` and leaves `rest`. -/
structure Found (buf : IpcBuf) (clone : Option Mem) (f : IpcMsg) (rest : List UInt8)
    (r : FindResult) (p : MsgPtr) : Prop where
  msg : r.msg = some p
  /-- The pointer shows the message without its token. -/
  content : (r.deref p).1.read (r.deref p).2 f.length = f.strip.encode
  pending : r.buf.pending = rest
  ok : r.buf.Ok
  size : r.buf.size = buf.size
  clone_isSome : r.clone.isSome = clone.isSome
  /-- With a clone, a message is handed out inside the buffer only when it is alone there. -/
  alone : clone.isSome = true → p ≠ .clone → rest = []

/-- The queue behind a message of length `n` at its head. -/
lemma pending_advance {buf : IpcBuf} {f : IpcMsg} {rest : List UInt8}
    (h : buf.pending = f.encode ++ rest) :
    f.length ≤ buf.tail - buf.head ∧ buf.data.read buf.head f.length = f.encode ∧
      buf.data.read (buf.head + f.length) (buf.tail - (buf.head + f.length)) = rest := by
  have hlen : buf.tail - buf.head = f.length + rest.length := by
    rw [← IpcBuf.length_pending, h, List.length_append, IpcMsg.length_encode]
  refine ⟨by omega, ?_, ?_⟩
  · have := read_sub h (k := 0) (l := f.length) (by omega)
    rw [Nat.add_zero, List.drop_zero, List.take_left' f.length_encode] at this
    exact this
  · have := read_sub h (k := f.length) (l := rest.length) (by omega)
    rw [List.drop_left' f.length_encode, List.take_length] at this
    rw [show buf.tail - (buf.head + f.length) = rest.length from by omega]
    exact this

/-- Any two fuels above the length of the queue give the same result. -/
lemma findMsgLoop_congr (fuel fuel' : ℕ) (buf : IpcBuf) (clone : Option Mem)
    (h : buf.tail - buf.head < fuel) (h' : buf.tail - buf.head < fuel') :
    findMsgLoop fuel buf clone = findMsgLoop fuel' buf clone := by
  induction fuel generalizing fuel' buf with
  | zero => omega
  | succ fuel ih =>
      obtain ⟨fuel', rfl⟩ : ∃ n, fuel' = n + 1 := ⟨fuel' - 1, by omega⟩
      have hpos : 0 < ipcMsgHdrlen := by decide
      simp only [findMsgLoop]
      split_ifs with h1 h2 h3
      · rfl
      · rfl
      · rfl
      · cases friendly buf.data buf.head with
        | some data => rfl
        | none =>
            apply ih
            · show buf.tail - (buf.head + _) < fuel
              omega
            · show buf.tail - (buf.head + _) < fuel'
              omega

/-- The length the code computes for the message at the head of the queue. -/
lemma hdrlen_add_dataLenAt {m : Mem} {a : ℕ} {f : IpcMsg} (h : m.read a f.length = f.encode) :
    ipcMsgHdrlen + dataLenAt m a = f.length := by
  have hlen := congrArg IpcMsg.length (readMsg_of_read h)
  simpa [IpcMsg.length, IpcMsg.dataLen, readMsg] using hlen

/-- **A message without the token is skipped.** -/
lemma findMsg_unfriendly {buf : IpcBuf} (clone : Option Mem) {f : IpcMsg} {rest : List UInt8}
    (h : buf.pending = f.encode ++ rest) (hf : ¬ f.Friendly) :
    findMsg buf clone = findMsg { buf with head := buf.head + f.length } clone := by
  obtain ⟨hle, hread, -⟩ := pending_advance h
  have hhdr := f.hdrlen_le_length
  have hmsg := hdrlen_add_dataLenAt hread
  have hpos : 0 < ipcMsgHdrlen := by decide
  rw [findMsg, findMsgLoop, if_neg (by omega), if_neg (by omega), if_neg (by omega),
    friendly_of_not_friendly hread hf, hmsg]
  apply findMsgLoop_congr
  · show buf.tail - (buf.head + f.length) < _
    omega
  · exact Nat.lt_succ_self _

lemma pending_skip {buf : IpcBuf} {f : IpcMsg} {rest : List UInt8} (hok : buf.Ok)
    (h : buf.pending = f.encode ++ rest) :
    IpcBuf.pending { buf with head := buf.head + f.length } = rest ∧
      IpcBuf.Ok { buf with head := buf.head + f.length } := by
  obtain ⟨hle, -, hrest⟩ := pending_advance h
  have h1 := hok.head_le
  refine ⟨hrest, ?_, hok.tail_le⟩
  show buf.head + f.length ≤ buf.tail
  omega

lemma findMsg_empty {buf : IpcBuf} (clone : Option Mem) (h : buf.pending = []) :
    findMsg buf clone = ⟨buf, clone, none⟩ := by
  have hlen := congrArg List.length h
  rw [IpcBuf.length_pending, List.length_nil] at hlen
  rw [findMsg, findMsgLoop, if_pos hlen]

/-- Handing out keeps the queue behind the message, whichever place is chosen. -/
lemma found_handOut {buf : IpcBuf} (clone : Option Mem) {g : IpcMsg} {rest : List UInt8}
    (hok : buf.Ok) (hle : g.length ≤ buf.tail - buf.head)
    (hread : buf.data.read buf.head g.length = g.strip.encode)
    (hrest : buf.data.read (buf.head + g.length) (buf.tail - (buf.head + g.length)) = rest) :
    ∃ p, Found buf clone g rest (handOut buf clone g.length) p := by
  have h1 := hok.head_le
  have h2 := hok.tail_le
  have hcopy : ∀ m : Mem, (m.write 0 (buf.data.read buf.head g.length)).read 0 g.length =
      g.strip.encode := by
    intro m
    rw [Mem.read_write_self _ _ _ (by simp), hread]
  have hok' : ∀ d : Mem, IpcBuf.Ok { buf with head := buf.head + g.length, data := d } :=
    fun d => ⟨by show buf.head + g.length ≤ buf.tail; omega, h2⟩
  cases clone with
  | some c =>
      rw [handOut]
      split_ifs with hsticky
      · exact ⟨.clone, rfl, hcopy c, hrest, hok' _, rfl, rfl, fun _ hp => absurd rfl hp⟩
      · refine ⟨.inBuf buf.head, rfl, hread, hrest, hok' _, rfl, rfl, fun _ _ => ?_⟩
        have hnone : buf.tail - (buf.head + g.length) = 0 := by omega
        rw [← hrest, hnone, Mem.read_zero]
  | none =>
      rw [handOut]
      split_ifs with halign
      · refine ⟨.inBuf 0, rfl, hcopy _, ?_, hok' _, rfl, rfl, ?_⟩
        · -- the copy ends before the bytes behind the message
          have hend : 0 + (buf.data.read buf.head g.length).length ≤ buf.head + g.length := by
            rw [Mem.length_read]
            omega
          rw [← hrest]
          exact Mem.read_write_above _ _ hend
        · simp
      · exact ⟨.inBuf buf.head, rfl, hread, hrest, hok' _, rfl, rfl, by simp⟩

lemma tail_findMsgLoop (fuel : ℕ) (buf : IpcBuf) (clone : Option Mem)
    (h : (findMsgLoop fuel buf clone).msg ≠ none) :
    (findMsgLoop fuel buf clone).buf.tail = buf.tail := by
  induction fuel generalizing buf with
  | zero => exact absurd rfl h
  | succ fuel ih =>
      simp only [findMsgLoop] at h ⊢
      split_ifs at h ⊢
      · exact absurd rfl h
      · exact absurd rfl h
      · exact absurd rfl h
      · cases hfr : friendly buf.data buf.head with
        | none =>
            rw [hfr] at h
            exact ih _ h
        | some data =>
            simp only [handOut]
            split
            · split_ifs <;> rfl
            · split_ifs <;> rfl

lemma tail_findMsg {buf : IpcBuf} {clone : Option Mem} {p : MsgPtr}
    (h : (findMsg buf clone).msg = some p) : (findMsg buf clone).buf.tail = buf.tail :=
  tail_findMsgLoop _ buf clone (by rw [findMsg] at h; simp [h])

/-- **A message with the token is handed out without it.** -/
lemma findMsg_found {buf : IpcBuf} (clone : Option Mem) {f : IpcMsg} {rest : List UInt8}
    (hok : buf.Ok) (h : buf.pending = f.encode ++ rest) (hf : f.Friendly) :
    ∃ p, Found buf clone f rest (findMsg buf clone) p := by
  obtain ⟨hle, hread, hrest⟩ := pending_advance h
  obtain ⟨data, hfriendly, hdata, habove⟩ := friendly_of_friendly hread hf
  have hhdr := f.hdrlen_le_length
  have hmsg := hdrlen_add_dataLenAt hread
  have hpos : 0 < ipcMsgHdrlen := by decide
  rw [findMsg, findMsgLoop, if_neg (by omega), if_neg (by omega), if_neg (by omega), hfriendly,
    hmsg]
  have hrest' : data.read (buf.head + f.length) (buf.tail - (buf.head + f.length)) = rest := by
    rw [habove _ _ (le_refl _), hrest]
  have hok' : IpcBuf.Ok { buf with data := data } := ⟨hok.head_le, hok.tail_le⟩
  obtain ⟨p, hp⟩ := found_handOut clone hok' hle hdata hrest'
  exact ⟨p, hp.msg, hp.content, hp.pending, hp.ok, hp.size, hp.clone_isSome, hp.alone⟩

lemma Found.messageAt {buf : IpcBuf} {clone : Option Mem} {f : IpcMsg} {rest : List UInt8}
    {r : FindResult} {p : MsgPtr} (h : Found buf clone f rest r p) : r.messageAt p = f.strip :=
  readMsg_of_read h.content

/-! ## Streams of messages -/

/-- The bytes of a sequence of messages. -/
def wire (frames : List IpcMsg) : List UInt8 := (frames.map IpcMsg.encode).flatten

@[simp] lemma wire_nil : wire [] = [] := rfl

@[simp] lemma wire_cons (f : IpcMsg) (fs : List IpcMsg) : wire (f :: fs) = f.encode ++ wire fs :=
  rfl

lemma wire_append (fs gs : List IpcMsg) : wire (fs ++ gs) = wire fs ++ wire gs := by
  simp [wire]

lemma wire_eq_nil {frames : List IpcMsg} (h : wire frames = []) : frames = [] := by
  cases frames with
  | nil => rfl
  | cons f fs =>
      have hlen := congrArg List.length h
      have hpos := f.length_pos
      rw [wire_cons, List.length_append, IpcMsg.length_encode, List.length_nil] at hlen
      omega

/-- A queue that reaches over the first message of the stream starts with it. -/
lemma exists_rest_of_length_le {f : IpcMsg} {p more tail : List UInt8}
    (hw : p ++ more = f.encode ++ tail) (hle : f.length ≤ p.length) :
    ∃ rest, p = f.encode ++ rest ∧ rest ++ more = tail := by
  refine ⟨p.drop f.length, ?_, ?_⟩
  · have h := congrArg (List.take f.length) hw
    rw [List.take_append_of_le_length hle, List.take_left' f.length_encode] at h
    rw [← h, List.take_append_drop]
  · have h := congrArg (List.drop f.length) hw
    rwa [List.drop_append_of_le_length hle, List.drop_left' f.length_encode] at h

/-- The state of a receive loop on a stream of messages: `more` is still to come, the messages
`rem` are the ones not yet taken out, and they fit the buffer. -/
structure Framed (S : ℕ) (buf : IpcBuf) (more : List UInt8) (rem : List IpcMsg) : Prop where
  ok : buf.Ok
  size : buf.size = S
  fits : ∀ f ∈ rem, f.length ≤ S
  stream : buf.pending ++ more = wire rem

lemma Framed.append {S : ℕ} {buf : IpcBuf} {bs more : List UInt8} {rem : List IpcMsg}
    (h : Framed S buf (bs ++ more) rem) (hbs : bs.length ≤ buf.window) :
    Framed S (buf.append bs) more rem := by
  refine ⟨IpcBuf.ok_append h.ok hbs, h.size, h.fits, ?_⟩
  rw [IpcBuf.pending_append h.ok, List.append_assoc, h.stream]

lemma Framed.reset {S : ℕ} {buf : IpcBuf} {more : List UInt8} {rem : List IpcMsg}
    (hsize : buf.size = S) (hfits : ∀ f ∈ rem, f.length ≤ S) (hw : more = wire rem) :
    Framed S buf.reset more rem :=
  ⟨buf.ok_reset, hsize, hfits, by rw [IpcBuf.pending_reset, hw, List.nil_append]⟩

lemma Framed.moveFront {S : ℕ} {buf : IpcBuf} {more : List UInt8} {rem : List IpcMsg}
    (h : Framed S buf more rem) : Framed S (moveFront buf) more rem :=
  ⟨ok_moveFront h.ok, (size_moveFront buf).trans h.size, h.fits, by
    rw [pending_moveFront, h.stream]⟩

lemma Framed.more_ne_nil {S : ℕ} {buf : IpcBuf} {more : List UInt8} {f : IpcMsg}
    {fs : List IpcMsg} (h : Framed S buf more (f :: fs)) (hlt : buf.pending.length < f.length) :
    more ≠ [] := by
  rintro rfl
  have hlen := congrArg List.length h.stream
  rw [List.append_nil, wire_cons, List.length_append, IpcMsg.length_encode] at hlen
  omega

end LinuxC.Ipc
