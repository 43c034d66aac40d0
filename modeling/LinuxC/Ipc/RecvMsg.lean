import LinuxC.Ipc.ServerLoop

/-!
# `recv_msg`, one reception at a time (`ipc/ipc_base.c`)

`recvMsg` runs the loop of `recv_msg` on the events of a socket that nobody writes to meanwhile.
When the peer may write between two receptions the loop has to be cut there: a `Receiving` is a
call that waits in `recv_stream`, and `Receiving.pass` is what the loop does with the bytes it is
given.  `recvMsgLoop_eq` says that both are the same loop.

The call asks for all the space that the caller's buffer has left, and looks at the first message
only.  So a call that succeeds on a stream `f.encode ++ …` leaves the message `f` in the buffer,
but it may have taken more bytes off the stream than that (`Receiving.pass_ok`).

`recvMsg_single` is about a message that is alone on the stream: what the call returns does not
depend on how the message is cut.
-/

namespace LinuxC.Ipc

/-- A call of `recv_msg` that waits in `recv_stream`. -/
structure Receiving where
  size : ℕ
  tmo : ℤ
  offset : ℕ
  buf : Mem

/-- How a pass of the loop ends: with the variables of the next pass, or with the result of the
call. -/
inductive RecvPass
  /-- `continue`. -/
  | again (w : Receiving)
  /-- `return`, with the caller's buffer. -/
  | done (result : Except IpcReceive ℕ) (buf : Mem)

/-- `recv_msg` up to the first `recv_stream`. -/
def recvMsgEnter (size : ℕ) (tmo : ℤ) (m : Mem) : RecvPass :=
  if size < ipcMsgHdrlen then .done (.error .eval) m else .again ⟨size, tmo, 0, m⟩

namespace Receiving

/-- The bytes received so far. -/
def received (w : Receiving) : List UInt8 := w.buf.read 0 w.offset

/-- The space that `recv` is called with. -/
def window (w : Receiving) : ℕ := w.size - w.offset

/-- `recv_stream` stored `bs`. -/
def store (w : Receiving) (bs : List UInt8) : Receiving :=
  { w with offset := w.offset + bs.length, buf := w.buf.write w.offset bs }

/-- A pass of the loop in which `recv_stream` returns the bytes `bs`. -/
def pass (w : Receiving) (bs : List UInt8) : RecvPass :=
  if (w.store bs).offset < ipcMsgHdrlen ∨
      (w.store bs).offset < ipcMsgHdrlen + dataLenAt (w.store bs).buf 0 then
    if w.size ≤ (w.store bs).offset then .done (.error .emem) (w.store bs).buf
    else if w.tmo < 0 then .done (.error .emsg) (w.store bs).buf
    else .again (w.store bs)
  else
    match friendly (w.store bs).buf 0 with
    | some m => .done (.ok (w.store bs).offset) m
    | none => .done (.error .emsg) (w.store bs).buf

/-- A pass of the loop in which `recv_stream` fails. -/
def fail (w : Receiving) (e : IpcReceive) : RecvPass := .done (.error e) w.buf

end Receiving

/-! ## The same loop -/

/-- The rest of the loop after a pass. -/
def RecvPass.resume (fuel : ℕ) (es : List SockEvent) : RecvPass → Option (Except IpcReceive ℕ × Mem)
  | .again w => recvMsgLoop w.size w.tmo fuel es w.offset w.buf
  | .done r m => some (r, m)

lemma recvMsgLoop_eq (w : Receiving) (fuel : ℕ) (es : List SockEvent) :
    recvMsgLoop w.size w.tmo (fuel + 1) es w.offset w.buf =
      (recvStream w.window es).bind fun r =>
        match r.1 with
        | .ok bs => (w.pass bs).resume fuel r.2
        | .error e => (w.fail e).resume fuel r.2 := by
  rw [recvMsgLoop, Receiving.window]
  cases hs : recvStream (w.size - w.offset) es with
  | none => rfl
  | some r =>
      obtain ⟨r, es'⟩ := r
      cases r with
      | error e => rfl
      | ok bs =>
          show _ = (w.pass bs).resume fuel es'
          rw [Receiving.pass]
          by_cases hinc : (w.store bs).offset < ipcMsgHdrlen ∨
              (w.store bs).offset < ipcMsgHdrlen + dataLenAt (w.store bs).buf 0
          · rw [if_pos hinc]
            refine (if_pos hinc).trans ?_
            by_cases hmem : w.size ≤ (w.store bs).offset
            · rw [if_pos hmem]
              exact if_pos hmem
            · rw [if_neg hmem]
              refine (if_neg hmem).trans ?_
              split <;> rfl
          · rw [if_neg hinc]
            refine (if_neg hinc).trans ?_
            show (match friendly (w.store bs).buf 0 with
              | some m => some (Except.ok (w.store bs).offset, m)
              | none => some (Except.error IpcReceive.emsg, (w.store bs).buf)) = _
            cases friendly (w.store bs).buf 0 with
            | none => rfl
            | some m => rfl

lemma recvMsg_eq (size : ℕ) (tmo : ℤ) (es : List SockEvent) (m : Mem) :
    recvMsg size tmo es m = (recvMsgEnter size tmo m).resume es.length es := by
  rw [recvMsg, recvMsgEnter]
  split <;> rfl

/-! ## What a pass does -/

namespace Receiving

@[simp] lemma length_received (w : Receiving) : w.received.length = w.offset := by
  simp [received]

lemma received_store (w : Receiving) (bs : List UInt8) :
    (w.store bs).received = w.received ++ bs := by
  simp only [received, store]
  rw [Mem.read_add, Nat.zero_add, Mem.read_write_below _ _ (by omega),
    Mem.read_write_self _ _ _ rfl]

/-- The length field the loop reads is the one of the bytes received. -/
lemma dataLenAt_received (w : Receiving) (h : ipcMsgHdrlen ≤ w.offset) :
    dataLenAt w.buf 0 = leNat ((w.received.drop 10).take 2) := by
  simp only [ipcMsgHdrlen] at h
  rw [dataLenAt, read_sub (rfl : _ = w.received) (by omega)]

lemma unfinished_iff (w : Receiving) :
    (w.offset < ipcMsgHdrlen ∨ w.offset < ipcMsgHdrlen + dataLenAt w.buf 0) ↔
      Incomplete w.received := by
  rw [Incomplete, length_received]
  by_cases h : w.offset < ipcMsgHdrlen
  · simp [h]
  · rw [w.dataLenAt_received (by omega)]

/-- **A pass that goes on** has stored the bytes. -/
lemma pass_again {w w' : Receiving} {bs : List UInt8} (h : w.pass bs = .again w') :
    w' = w.store bs ∧ w'.offset < w'.size := by
  rw [pass] at h
  split_ifs at h with hinc hmem htmo
  · obtain rfl := RecvPass.again.inj h
    exact ⟨rfl, Nat.lt_of_not_le hmem⟩
  · split at h
    · exact absurd h (by simp)
    · exact absurd h (by simp)

/-- A message that is unfinished makes the loop go on, if there is time and room. -/
lemma pass_unfinished {w : Receiving} {bs : List UInt8} (hinc : Incomplete (w.received ++ bs))
    (hroom : (w.store bs).offset < w.size) (htmo : 0 ≤ w.tmo) :
    w.pass bs = .again (w.store bs) := by
  rw [← received_store, ← unfinished_iff] at hinc
  rw [pass]
  rw [if_pos hinc, if_neg (Nat.not_le_of_lt hroom), if_neg (by omega)]

lemma complete_of_received {w : Receiving} {f : IpcMsg} {rest : List UInt8}
    (h : w.received = f.encode ++ rest) :
    w.buf.read 0 f.length = f.encode ∧ ¬ Incomplete w.received := by
  have hlen : w.offset = f.length + rest.length := by
    rw [← length_received, h, List.length_append, IpcMsg.length_encode]
  have hread : w.buf.read 0 f.length = f.encode := by
    have := read_sub (h : w.buf.read 0 w.offset = _) (k := 0) (l := f.length) (by omega)
    rwa [Nat.add_zero, List.drop_zero, List.take_left' f.length_encode] at this
  refine ⟨hread, ?_⟩
  have hmsg := hdrlen_add_dataLenAt hread
  have hhdr := f.hdrlen_le_length
  rw [← unfinished_iff]
  omega

/-- **A pass that completes a message.**  With the token, the message is in the buffer without
it. -/
lemma pass_found {w : Receiving} {bs rest : List UInt8} {f : IpcMsg}
    (h : w.received ++ bs = f.encode ++ rest) (hf : f.Friendly) :
    ∃ m, w.pass bs = .done (.ok (w.store bs).offset) m ∧
      m.read 0 f.length = f.strip.encode := by
  rw [← received_store] at h
  obtain ⟨hread, hinc⟩ := complete_of_received h
  obtain ⟨m, hfriendly, hm, -⟩ := friendly_of_friendly hread hf
  refine ⟨m, ?_, hm⟩
  rw [← unfinished_iff] at hinc
  rw [pass]
  rw [if_neg hinc, hfriendly]

/-- **A pass that succeeds.**  On a stream that starts with the message `f`, the bytes received
reach over the whole of `f`, and the buffer holds `f` without its token. -/
lemma pass_ok {w : Receiving} {bs more tail : List UInt8} {f : IpcMsg} {n : ℕ} {m : Mem}
    (h : (w.received ++ bs) ++ more = f.encode ++ tail) (hok : w.pass bs = .done (.ok n) m) :
    (∃ rest, w.received ++ bs = f.encode ++ rest ∧ rest ++ more = tail) ∧
      m.read 0 f.length = f.strip.encode := by
  have hfin : ¬ Incomplete (w.received ++ bs) := by
    intro hinc
    rw [← received_store, ← unfinished_iff] at hinc
    rw [pass, if_pos hinc] at hok
    split_ifs at hok
    · exact absurd hok (by simp)
    · exact absurd hok (by simp)
  have hle : f.length ≤ (w.received ++ bs).length := by
    by_contra hlt
    exact hfin (incomplete_of_append h (Nat.lt_of_not_le hlt))
  obtain ⟨rest, hrest, hmore⟩ := exists_rest_of_length_le h hle
  refine ⟨⟨rest, hrest, hmore⟩, ?_⟩
  have hf : f.Friendly := by
    by_contra hf
    have hread := (complete_of_received ((w.received_store bs).trans hrest)).1
    rw [← received_store, ← unfinished_iff] at hfin
    rw [pass, if_neg hfin, friendly_of_not_friendly hread hf] at hok
    exact absurd hok (by simp)
  obtain ⟨m', hpass, hm⟩ := pass_found hrest hf
  rw [hok] at hpass
  obtain ⟨-, rfl⟩ := RecvPass.done.inj hpass
  exact hm

/-! ## A message alone on the stream -/

lemma pass_full {w : Receiving} {bs : List UInt8} (hinc : Incomplete (w.received ++ bs))
    (hfull : w.size ≤ (w.store bs).offset) : w.pass bs = .done (.error .emem) (w.store bs).buf := by
  rw [← received_store, ← unfinished_iff] at hinc
  rw [pass]
  rw [if_pos hinc, if_pos hfull]

lemma pass_unfriendly {w : Receiving} {bs rest : List UInt8} {f : IpcMsg}
    (h : w.received ++ bs = f.encode ++ rest) (hf : ¬ f.Friendly) :
    w.pass bs = .done (.error .emsg) (w.store bs).buf := by
  rw [← received_store] at h
  obtain ⟨hread, hinc⟩ := complete_of_received h
  rw [← unfinished_iff] at hinc
  rw [pass]
  rw [if_neg hinc, friendly_of_not_friendly hread hf]

end Receiving

/-- What `recv_msg` returns for a message that is alone on the stream. -/
def receiveVerdict (size : ℕ) (f : IpcMsg) : Except IpcReceive ℕ :=
  if size < f.length then .error .emem
  else if f.Friendly then .ok f.length
  else .error .emsg

/-- What `recv` returns of the chunks of a stream, to a caller with `window` bytes of space left: the
socket keeps what does not fit. -/
def delivered : ℕ → List (List UInt8) → List (List UInt8)
  | _, [] => []
  | window, b :: bs =>
      if b.length ≤ window then b :: delivered (window - b.length) bs else [b.take window]

lemma delivered_of_fits {window : ℕ} {chunks : List (List UInt8)}
    (h : chunks.flatten.length ≤ window) : delivered window chunks = chunks := by
  induction chunks generalizing window with
  | nil => rfl
  | cons b bs ih =>
      rw [List.flatten_cons, List.length_append] at h
      rw [delivered, if_pos (by omega), ih (by omega)]

namespace Receiving

/-- What a call has done to the caller's buffer: the message lies there without its token if it is
returned, and nothing is written behind the buffer's end. -/
structure Leaves (w : Receiving) (f : IpcMsg) (m : Mem) : Prop where
  content : f.length ≤ w.size → f.Friendly → m.read 0 f.length = f.strip.encode
  beyond : ∀ k n, w.size ≤ k → m.read k n = w.buf.read k n

lemma read_store_beyond {w : Receiving} {bs : List UInt8} (hbs : (w.store bs).offset ≤ w.size)
    {k n : ℕ} (hk : w.size ≤ k) : (w.store bs).buf.read k n = w.buf.read k n :=
  Mem.read_write_above _ _ (hbs.trans hk)

lemma Leaves.of_store {w : Receiving} {bs : List UInt8} {f : IpcMsg} {m : Mem}
    (h : (w.store bs).Leaves f m) (hbs : (w.store bs).offset ≤ w.size) : w.Leaves f m :=
  ⟨h.content, fun k n hk => (h.beyond k n hk).trans (read_store_beyond hbs hk)⟩

/-- **A pass on a part of the message.** -/
lemma pass_single {w : Receiving} {bs more : List UInt8} {f : IpcMsg} (htmo : 0 ≤ w.tmo)
    (h : (w.received ++ bs) ++ more = f.encode) (hbs : (w.store bs).offset ≤ w.size) :
    ((w.store bs).offset < f.length ∧ (w.store bs).offset < w.size ∧
        w.pass bs = .again (w.store bs)) ∨
      ∃ m, w.pass bs = .done (receiveVerdict w.size f) m ∧ w.Leaves f m := by
  have hlen := congrArg List.length h
  rw [List.length_append, ← received_store, length_received, IpcMsg.length_encode] at hlen
  rw [← List.append_nil f.encode] at h
  by_cases hlt : (w.store bs).offset < f.length
  · have hinc : Incomplete (w.received ++ bs) :=
      incomplete_of_append h (by rw [← received_store, length_received]; exact hlt)
    by_cases hroom : (w.store bs).offset < w.size
    · exact .inl ⟨hlt, hroom, pass_unfinished hinc hroom htmo⟩
    · refine .inr ⟨_, ?_, fun hle => absurd hle (by omega), fun k n hk => read_store_beyond hbs hk⟩
      rw [pass_full hinc (Nat.le_of_not_lt hroom), receiveVerdict, if_pos (by omega)]
  · -- the message is there
    obtain ⟨rest, hrest, -⟩ := exists_rest_of_length_le h (by
      rw [← received_store, length_received]
      omega)
    have hoffset : (w.store bs).offset = f.length := by omega
    by_cases hf : f.Friendly
    · obtain ⟨hread, hinc⟩ := complete_of_received ((w.received_store bs).trans hrest)
      obtain ⟨m, hm, hcontent, hbeyond⟩ := friendly_of_friendly hread hf
      refine .inr ⟨m, ?_, fun _ _ => hcontent, fun k n hk => ?_⟩
      · rw [← unfinished_iff] at hinc
        rw [pass, if_neg hinc, hm, receiveVerdict, if_neg (by omega), if_pos hf, hoffset]
      · rw [hbeyond k n (by omega), read_store_beyond hbs hk]
    · refine .inr ⟨_, ?_, fun _ h => absurd h hf, fun k n hk => read_store_beyond hbs hk⟩
      rw [pass_unfriendly hrest hf, receiveVerdict, if_neg (by omega), if_neg hf]

/-- The loop on the rest of a message, cut into any pieces. -/
lemma loop_single {f : IpcMsg} {w : Receiving} (htmo : 0 ≤ w.tmo) {chunks : List (List UInt8)}
    (hne : ∀ b ∈ chunks, b ≠ []) {fuel : ℕ} (hfuel : (delivered w.window chunks).length ≤ fuel)
    (hw : w.received ++ chunks.flatten = f.encode) (hlt : w.offset < f.length)
    (hroom : w.offset < w.size) :
    ∃ m, recvMsgLoop w.size w.tmo fuel ((delivered w.window chunks).map .bytes) w.offset w.buf =
        some (receiveVerdict w.size f, m) ∧ w.Leaves f m := by
  induction chunks generalizing w fuel with
  | nil =>
      have hlen := congrArg List.length hw
      simp only [List.flatten_nil, List.append_nil, length_received, IpcMsg.length_encode] at hlen
      omega
  | cons b chunks ih =>
      have hb := hne b (List.mem_cons_self ..)
      have hwin : 0 < w.window := by
        rw [window]
        omega
      rw [List.flatten_cons] at hw
      -- a pass in which `recv` returns `bs`, in front of `es`
      have hpass : ∀ (bs : List UInt8) (es : List SockEvent) (n : ℕ), bs ≠ [] →
          bs.length ≤ w.window → recvMsgLoop w.size w.tmo (n + 1) (.bytes bs :: es) w.offset w.buf =
            (w.pass bs).resume n es := by
        intro bs es n hbs hle
        have hstream : recvStream w.window (.bytes bs :: es) = some (.ok bs, es) :=
          if_neg (by rw [not_or, Nat.not_lt]; exact ⟨hbs, hle⟩)
        rw [recvMsgLoop_eq, hstream]
        rfl
      rw [delivered] at hfuel ⊢
      by_cases hfit : b.length ≤ w.window
      · rw [if_pos hfit, List.length_cons] at hfuel
        obtain ⟨fuel, rfl⟩ : ∃ n, fuel = n + 1 := ⟨fuel - 1, by omega⟩
        have hbs : (w.store b).offset ≤ w.size := by
          rw [window] at hfit
          show w.offset + b.length ≤ w.size
          omega
        rw [if_pos hfit, List.map_cons, hpass b _ _ hb hfit]
        rcases pass_single htmo ((List.append_assoc ..).trans hw) hbs with
          ⟨hlt', hroom', hagain⟩ | ⟨m, hdone, hm⟩
        · have hwindow : w.window - b.length = (w.store b).window := by
            simp only [window, store]
            omega
          rw [hwindow] at hfuel ⊢
          obtain ⟨m, hloop, hm⟩ := ih (w := w.store b) htmo
            (fun c hc => hne c (List.mem_cons_of_mem _ hc)) (Nat.le_of_succ_le_succ hfuel)
            (by rw [received_store, List.append_assoc, hw]) hlt' hroom'
          rw [hagain]
          exact ⟨m, hloop, hm.of_store hbs⟩
        · rw [hdone]
          exact ⟨m, rfl, hm⟩
      · -- the socket keeps a part of the chunk: the buffer is full
        rw [if_neg hfit, List.length_singleton] at hfuel
        obtain ⟨fuel, rfl⟩ : ∃ n, fuel = n + 1 := ⟨fuel - 1, by omega⟩
        have hlen : (b.take w.window).length = w.window := by
          rw [List.length_take]
          omega
        have hoffset : (w.store (b.take w.window)).offset = w.size := by
          show w.offset + (b.take w.window).length = w.size
          rw [hlen, window]
          omega
        rw [if_neg hfit, List.map_singleton,
          hpass _ _ _ (by rw [← List.length_pos_iff, hlen]; exact hwin) hlen.le]
        have hsplit : (w.received ++ b.take w.window) ++ (b.drop w.window ++ chunks.flatten) =
            f.encode := by
          rw [← hw, List.append_assoc, ← List.append_assoc (b.take w.window),
            List.take_append_drop]
        rcases pass_single htmo hsplit hoffset.le with ⟨-, hroom', -⟩ | ⟨m, hdone, hm⟩
        · exact absurd hroom' (by omega)
        · rw [hdone]
          exact ⟨m, rfl, hm⟩

/-- The windows that `recv` is called with. -/
def windows : ℕ → List SockEvent → Receiving → List ℕ
  | 0, _, _ => []
  | fuel + 1, es, w =>
      w.window ::
        match recvStream w.window es with
        | some (.ok bs, es') =>
            match w.pass bs with
            | .again w' => windows fuel es' w'
            | .done _ _ => []
        | _ => []

/-- **`recv` is never called with an empty window.** -/
lemma windows_pos {w : Receiving} (hroom : w.offset < w.size) (fuel : ℕ) (es : List SockEvent) :
    ∀ n ∈ w.windows fuel es, 0 < n := by
  induction fuel generalizing w es with
  | zero => simp [windows]
  | succ fuel ih =>
      rw [windows, List.forall_mem_cons]
      refine ⟨by rw [window]; omega, ?_⟩
      split
      · split
        · rename_i w' hagain
          exact ih (pass_again hagain).2 _
        · simp
      · simp

end Receiving

/-- The windows that a call of `recv_msg` calls `recv` with. -/
def recvMsgWindows (size : ℕ) (tmo : ℤ) (es : List SockEvent) (m : Mem) : List ℕ :=
  match recvMsgEnter size tmo m with
  | .again w => w.windows es.length es
  | .done _ _ => []

/-- The call on a message that is alone on the stream. -/
lemma recvMsg_delivered (f : IpcMsg) {size : ℕ} (hsize : ipcMsgHdrlen ≤ size) {tmo : ℤ}
    (htmo : 0 ≤ tmo) {chunks : List (List UInt8)} (hne : ∀ b ∈ chunks, b ≠ [])
    (hw : chunks.flatten = f.encode) (m : Mem) :
    ∃ m', recvMsg size tmo ((delivered size chunks).map .bytes) m =
        some (receiveVerdict size f, m') ∧ (⟨size, tmo, 0, m⟩ : Receiving).Leaves f m' := by
  have hpos : 0 < ipcMsgHdrlen := by decide
  rw [recvMsg_eq, recvMsgEnter, if_neg (Nat.not_lt_of_le hsize), List.length_map]
  exact Receiving.loop_single (w := ⟨size, tmo, 0, m⟩) htmo hne (le_refl _) hw f.length_pos
    (lt_of_lt_of_le hpos hsize)

/-- **A message alone on the stream**, cut into any chunks.  Whatever the size of the caller's buffer
is, `recv_msg` returns, with a result that depends on the message alone; it writes nothing behind the
end of the buffer and calls `recv` with no empty window. -/
theorem recvMsg_single (f : IpcMsg) {size : ℕ} (hsize : ipcMsgHdrlen ≤ size) {tmo : ℤ}
    (htmo : 0 ≤ tmo) (chunks : List (List UInt8)) (hne : ∀ b ∈ chunks, b ≠ [])
    (hw : chunks.flatten = f.encode) (m : Mem) :
    (∃ m', recvMsg size tmo ((delivered size chunks).map .bytes) m =
          some (receiveVerdict size f, m') ∧
        (f.length ≤ size → f.Friendly → m'.read 0 f.length = f.strip.encode) ∧
        ∀ k n, size ≤ k → m'.read k n = m.read k n) ∧
      ∀ n ∈ recvMsgWindows size tmo ((delivered size chunks).map .bytes) m, 0 < n := by
  have hpos : 0 < ipcMsgHdrlen := by decide
  obtain ⟨m', hrecv, hm⟩ := recvMsg_delivered f hsize htmo hne hw m
  refine ⟨⟨m', hrecv, hm.content, hm.beyond⟩, ?_⟩
  rw [recvMsgWindows, recvMsgEnter, if_neg (Nat.not_lt_of_le hsize)]
  exact Receiving.windows_pos (lt_of_lt_of_le hpos hsize) _ _

/-- A message with a payload of four bytes. -/
def singleMsg : IpcMsg := ⟨1, 0x56CE0007, 0, [10, 11, 12, 13], by decide⟩

/-- The message, cut inside its header and inside its payload. -/
def singleChunks : List (List UInt8) :=
  [[1, 0, 0], [0, 7, 0, 0xCE, 0x56, 0, 0, 4, 0, 10], [11, 12, 13]]

/-- It is received whole into a buffer of 20 bytes, and none of its payload into one of 14. -/
theorem recvMsg_single_sample :
    (∃ m', recvMsg 20 5 ((delivered 20 singleChunks).map .bytes) (fun _ => 0) =
        some (.ok 16, m') ∧ m'.read 0 16 = singleMsg.strip.encode) ∧
      ∃ m', recvMsg 14 5 ((delivered 14 singleChunks).map .bytes) (fun _ => 0) =
        some (receiveVerdict 14 singleMsg, m') ∧ m'.read 14 2 = [0, 0] := by
  have hne : ∀ b ∈ singleChunks, b ≠ [] := by decide
  obtain ⟨⟨m₁, hrecv₁, hread, -⟩, -⟩ := recvMsg_single singleMsg (by decide : ipcMsgHdrlen ≤ 20)
    (by decide : (0 : ℤ) ≤ 5) singleChunks hne (by decide) (fun _ => 0)
  obtain ⟨⟨m₂, hrecv₂, -, hbeyond⟩, -⟩ := recvMsg_single singleMsg
    (by decide : ipcMsgHdrlen ≤ 14) (by decide : (0 : ℤ) ≤ 5) singleChunks hne (by decide)
    (fun _ => 0)
  exact ⟨⟨m₁, hrecv₁, hread (by decide) (by decide)⟩, m₂, hrecv₂, hbeyond 14 2 le_rfl⟩

/-- **A message alone on the stream is received**, however it is cut. -/
lemma recvMsg_frame {f : IpcMsg} (hf : f.Friendly) {size : ℕ} (hsize : f.length ≤ size) {tmo : ℤ}
    (htmo : 0 ≤ tmo) {chunks : List (List UInt8)} (hne : ∀ b ∈ chunks, b ≠ [])
    (hw : chunks.flatten = f.encode) (m : Mem) :
    ∃ n m', recvMsg size tmo (chunks.map .bytes) m = some (.ok n, m') ∧
      m'.read 0 f.length = f.strip.encode := by
  obtain ⟨m', hrecv, hm⟩ :=
    recvMsg_delivered f (f.hdrlen_le_length.trans hsize) htmo hne hw m
  rw [delivered_of_fits (by rw [hw, IpcMsg.length_encode]; exact hsize), receiveVerdict,
    if_neg (Nat.not_lt_of_le hsize), if_pos hf] at hrecv
  exact ⟨f.length, m', hrecv, hm.content hsize hf⟩

/-! ## What a call that succeeds has received -/

/-- The bytes that a socket returns. -/
def streamBytes : List SockEvent → List UInt8
  | [] => []
  | .bytes bs :: es => bs ++ streamBytes es
  | .eof :: es => streamBytes es
  | .err _ :: es => streamBytes es
  | .idle :: es => streamBytes es

lemma streamBytes_recvLoop {size : ℕ} {es es' : List SockEvent} {bs : List UInt8}
    (h : recvLoop size es = some (.ok bs, es')) : streamBytes es = bs ++ streamBytes es' := by
  induction es with
  | nil => exact absurd h (by simp [recvLoop])
  | cons e es ih =>
      cases e with
      | bytes cs =>
          rw [recvLoop] at h
          split_ifs at h
          obtain ⟨hbs, rfl⟩ := Prod.mk.inj (Option.some.inj h)
          obtain rfl := Except.ok.inj hbs
          rfl
      | eof => exact absurd h (by simp [recvLoop])
      | err e =>
          cases e with
          | eintr => exact ih h
          | econnreset | eagain | other => exact absurd h (by simp [recvLoop])
      | idle => exact absurd h (by simp [recvLoop])

lemma streamBytes_recvStream {size : ℕ} {es es' : List SockEvent} {bs : List UInt8}
    (h : recvStream size es = some (.ok bs, es')) : streamBytes es = bs ++ streamBytes es' := by
  rw [recvStream.eq_def] at h
  split at h
  · exact absurd h (by simp)
  · exact streamBytes_recvLoop h

namespace Receiving

/-- A pass that succeeds has received a whole message with the token. -/
lemma exists_of_pass_ok {w : Receiving} {bs : List UInt8} {n : ℕ} {m : Mem}
    (hok : w.pass bs = .done (.ok n) m) :
    ∃ (f : IpcMsg) (rest : List UInt8), w.received ++ bs = f.encode ++ rest ∧
      f.Friendly ∧ m.read 0 f.length = f.strip.encode := by
  have hfin : ¬ ((w.store bs).offset < ipcMsgHdrlen ∨
      (w.store bs).offset < ipcMsgHdrlen + dataLenAt (w.store bs).buf 0) := by
    intro hinc
    rw [pass, if_pos hinc] at hok
    split_ifs at hok
    · exact absurd hok (by simp)
    · exact absurd hok (by simp)
  rw [not_or, Nat.not_lt, Nat.not_lt] at hfin
  obtain ⟨rest, hrest⟩ := read_eq_message hfin.2
  have hreceived : w.received ++ bs = _ := (w.received_store bs).symm.trans hrest
  by_cases hf : (readMsg (w.store bs).buf 0).Friendly
  · obtain ⟨m', hpass, hm⟩ := pass_found hreceived hf
    rw [hok] at hpass
    obtain ⟨-, rfl⟩ := RecvPass.done.inj hpass
    exact ⟨_, rest, hreceived, hf, hm⟩
  · rw [pass_unfriendly hreceived hf] at hok
    exact absurd hok (by simp)

/-- The loop: the message is the first one of the bytes received and the rest of the stream. -/
lemma exists_of_loop_ok {w : Receiving} {fuel n : ℕ} {es : List SockEvent} {m : Mem}
    (hok : recvMsgLoop w.size w.tmo fuel es w.offset w.buf = some (.ok n, m)) :
    ∃ (f : IpcMsg) (rest : List UInt8), w.received ++ streamBytes es = f.encode ++ rest ∧
      f.Friendly ∧ m.read 0 f.length = f.strip.encode := by
  induction fuel generalizing w es with
  | zero => exact absurd hok (by simp [recvMsgLoop])
  | succ fuel ih =>
      rw [recvMsgLoop_eq] at hok
      obtain ⟨⟨res, es'⟩, hstream, hpass⟩ := Option.bind_eq_some_iff.mp hok
      cases res with
      | error e =>
          obtain ⟨hres, -⟩ := Prod.mk.inj (Option.some.inj hpass)
          exact absurd hres (by simp)
      | ok bs =>
          rw [streamBytes_recvStream hstream]
          dsimp only at hpass
          cases hp : w.pass bs with
          | again w' =>
              obtain ⟨rfl, -⟩ := pass_again hp
              rw [hp] at hpass
              obtain ⟨f, rest, hrest, hf, hm⟩ := ih hpass
              rw [received_store, List.append_assoc] at hrest
              exact ⟨f, rest, hrest, hf, hm⟩
          | done res' m' =>
              rw [hp] at hpass
              obtain ⟨rfl, rfl⟩ := Prod.mk.inj (Option.some.inj hpass)
              obtain ⟨f, rest, hrest, hf, hm⟩ := exists_of_pass_ok hp
              refine ⟨f, rest ++ streamBytes es', ?_, hf, hm⟩
              rw [← List.append_assoc, hrest, List.append_assoc]

end Receiving

/-- **A call that succeeds** returns the first message of the stream, and that has the token. -/
lemma exists_of_recvMsg_ok {size n : ℕ} {tmo : ℤ} {es : List SockEvent} {m m' : Mem}
    (hok : recvMsg size tmo es m = some (.ok n, m')) :
    ∃ (f : IpcMsg) (rest : List UInt8), streamBytes es = f.encode ++ rest ∧ f.Friendly ∧
      m'.read 0 f.length = f.strip.encode := by
  rw [recvMsg_eq, recvMsgEnter] at hok
  split_ifs at hok with hsize
  · obtain ⟨hres, -⟩ := Prod.mk.inj (Option.some.inj hok)
    exact absurd hres (by simp)
  · exact Receiving.exists_of_loop_ok (w := ⟨size, tmo, 0, m⟩) hok

end LinuxC.Ipc
