import LinuxC.Framework.Transition
import LinuxC.Ipc.Handshake

/-!
# The bounds of the receive buffers

The two receive loops on bytes that may be anything.  `Receiver` is a loop with its buffer and, on
the server's side, the clone; `receive` is one step of it, down to a pass of the loop in `find_msg`,
with the arithmetic of the source: `head`, `tail` and `size` are `unsigned int`, and `left` is an
`int`.  A step shows its accesses to the buffer and to the clone.

`Bounded` is the invariant: the indices are in order, and in front of `recv` the buffer is not full.
A buffer of no bytes does not have it, and `alloc_buf` allocates one when the size asked for wraps.

`findMsg_passes` says that a call of `find_msg`, which the loops make pass by pass, is `findMsg`.
-/

namespace LinuxC.Ipc

/-! ## The arithmetic of `unsigned int` -/

/-- `a - b`. -/
def sub32 (a b : ℕ) : ℕ := (a + (2 ^ 32 - b)) % 2 ^ 32

/-- `a + b`. -/
def add32 (a b : ℕ) : ℕ := (a + b) % 2 ^ 32

lemma sub32_of_le {a b : ℕ} (hba : b ≤ a) (ha : a < 2 ^ 32) : sub32 a b = a - b := by
  rw [sub32, show a + (2 ^ 32 - b) = a - b + 2 ^ 32 by omega, Nat.add_mod_right,
    Nat.mod_eq_of_lt (by omega)]

lemma add32_of_lt {a b : ℕ} (h : a + b < 2 ^ 32) : add32 a b = a + b := Nat.mod_eq_of_lt h

/-! ## The accesses -/

/-- What a receive loop does to the buffer and to the clone. -/
inductive Access
  /-- `recv` is called with the window of `len` bytes at offset `off` of the buffer. -/
  | recv (off len : ℕ)
  /-- The header at offset `off` of the buffer is read, and its `msg_id` may be written. -/
  | header (off tail : ℕ)
  /-- `memcpy(buf->data, buf->data + off, len)`. -/
  | toFront (off len : ℕ)
  /-- `memcpy(clone, buf->data + off, len)`. -/
  | toClone (off len : ℕ)
  /-- `find_msg` returns `p` for the message of `len` bytes at offset `off` of the buffer. -/
  | found (p : MsgPtr) (off len tail : ℕ)
  deriving DecidableEq

/-- The access stays inside a buffer of `size` bytes, of which `tail` are received, and inside a
clone of `cloneSize` bytes; `recv` is given a window that is not empty. -/
def Access.Ok (size cloneSize : ℕ) : Access → Prop
  | .recv off len => 0 < len ∧ off + len ≤ size
  | .header off tail => off + ipcMsgHdrlen ≤ tail ∧ tail ≤ size
  | .toFront off len => off + len ≤ size
  | .toClone off len => off + len ≤ size ∧ len ≤ cloneSize
  | .found p off len tail =>
      off + len ≤ tail ∧ tail ≤ size ∧
        match p with
        | .inBuf a => a + len ≤ tail
        | .clone => len ≤ cloneSize

instance (size cloneSize : ℕ) : DecidablePred (Access.Ok size cloneSize)
  | .recv _ _ => inferInstanceAs (Decidable (_ ∧ _))
  | .header _ _ => inferInstanceAs (Decidable (_ ∧ _))
  | .toFront _ _ => inferInstanceAs (Decidable (_ ≤ _))
  | .toClone _ _ => inferInstanceAs (Decidable (_ ∧ _))
  | .found (.inBuf _) _ _ _ => inferInstanceAs (Decidable (_ ∧ _ ∧ _))
  | .found .clone _ _ _ => inferInstanceAs (Decidable (_ ∧ _ ∧ _))

/-! ## The two loops -/

/-- The two callers of `find_msg`. -/
inductive ReceiveLoop
  /-- `ipc_common_socket_handler`, for one handle after the other. -/
  | server
  /-- `ipc_subscriber_task` with `ipc_subscriber_process`. -/
  | subscriber
  deriving DecidableEq

/-- Where a loop is. -/
inductive ReceivePoint
  /-- The server is between two calls of the handler. -/
  | idle
  /-- In front of `recv`. -/
  | recv
  /-- At the head of the loop in `find_msg`. -/
  | find
  /-- `find_msg` has returned NULL. -/
  | missing
  /-- `find_msg` has returned a message. -/
  | found (p : MsgPtr)
  /-- The thread of the subscriber has ended. -/
  | ended
  deriving DecidableEq

/-- A receive loop. -/
structure Receiver where
  point : ReceivePoint
  buf : IpcBuf
  clone : Option Mem

/-- What happens next in one of the two loops: a system call returns, or the code goes on to the
next place where it may write into the buffer. -/
inductive ReceiveLabel
  /-- The handler is called; the handlers of other sockets have left `data` in the buffer. -/
  | call (data : Mem)
  /-- The loop of the subscriber finds `mask` cleared. -/
  | quit
  /-- `recv` is called, and the socket does this. -/
  | recv (e : SockEvent)
  /-- A pass of the loop in `find_msg`. -/
  | pass
  /-- NULL is acted on; `more` says whether `recv_wait` sees more bytes. -/
  | miss (more : Bool)
  /-- The message is acted on, which leaves `bs` at its place. -/
  | handle (bs : List UInt8) (ok : Bool)

namespace Receiver

variable (r : Receiver)

/-- `buf->tail - buf->head`, assigned to an `int`. -/
def left : ℤ := int32 (sub32 r.buf.tail r.buf.head)

/-- The label `__move`. -/
def move (left : ℤ) : Receiver × List Access :=
  if r.buf.full ∧ r.buf.head ≠ 0 then
    ({ r with
        point := .missing
        buf := { r.buf with
          data := r.buf.data.copy 0 r.buf.head left.toNat, head := 0, tail := left.toNat } },
      [.toFront r.buf.head left.toNat])
  else ({ r with point := .missing }, [])

/-- The part of the loop body of `find_msg` behind `friendly`. -/
def hand (left : ℤ) (msgLen : ℕ) : Receiver × List Access :=
  let buf := { r.buf with head := add32 r.buf.head msgLen }
  let found p := Access.found p r.buf.head msgLen r.buf.tail
  match r.clone with
  | some c =>
      if (msgLen : ℤ) < left ∨ r.buf.head ≠ 0 then
        ({ point := .found .clone, buf := buf,
           clone := some (c.write 0 (r.buf.data.read r.buf.head msgLen)) },
          [.toClone r.buf.head msgLen, found .clone])
      else ({ r with point := .found (.inBuf r.buf.head), buf := buf },
        [found (.inBuf r.buf.head)])
  | none =>
      if r.buf.head % 4 ≠ 0 then
        ({ r with
            point := .found (.inBuf 0)
            buf := { buf with data := r.buf.data.copy 0 r.buf.head msgLen } },
          [.toFront r.buf.head msgLen, found (.inBuf 0)])
      else ({ r with point := .found (.inBuf r.buf.head), buf := buf },
        [found (.inBuf r.buf.head)])

/-- The loop body of `find_msg` from the second test on. -/
def body (left : ℤ) (msgLen : ℕ) : Receiver × List Access :=
  if left < msgLen then r.move left
  else
    match friendly r.buf.data r.buf.head with
    | none => ({ r with buf := { r.buf with head := add32 r.buf.head msgLen } }, [])
    | some data => { r with buf := { r.buf with data := data } }.hand left msgLen

/-- A pass of the loop in `find_msg`, with the test in front of it. -/
def pass : Receiver × List Access :=
  if r.left ≤ 0 then ({ r with point := .missing }, [])
  else if r.left < ipcMsgHdrlen then r.move r.left
  else
    let q := r.body r.left (ipcMsgHdrlen + dataLenAt r.buf.data r.buf.head)
    (q.1, .header r.buf.head r.buf.tail :: q.2)

/-- The connection is lost: the server releases the handle, the subscriber connects again and empties
the buffer. -/
def lost : ReceiveLoop → Receiver
  | .server => { r with point := .idle }
  | .subscriber => { r with point := .recv, buf := r.buf.reset }

/-- What the loop does with the result of `recv`, called with a window of `window` bytes. -/
def recv (k : ReceiveLoop) (window : ℕ) : SockEvent → Option Receiver
  | .bytes bs =>
      -- `recv` does not return this
      if bs = [] ∨ window < bs.length then none
      else if 0 < int32 bs.length then
        some { r with
          point := .find
          buf := { r.buf with
            data := r.buf.data.write r.buf.tail bs, tail := add32 r.buf.tail bs.length } }
      else some (r.lost k)
  | .eof => some (r.lost k)
  | .err .eintr => some r
  | .err _ => some (r.lost k)
  | .idle =>
      match k with
      | .server => some (r.lost k)
      | .subscriber => some r

/-- What the loop does with NULL. -/
def miss (k : ReceiveLoop) (more : Bool) : Receiver :=
  match k with
  | .server => if r.buf.full then r.lost k else if more then { r with point := .recv } else r.lost k
  | .subscriber =>
      if r.buf.full then { r with point := .recv, buf := r.buf.reset }
      else { r with point := .recv }

/-- The block in which the message lies, after the bytes `bs` were left there. -/
def store (p : MsgPtr) (bs : List UInt8) : Receiver :=
  match p with
  | .inBuf a => { r with buf := { r.buf with data := r.buf.data.write a bs } }
  | .clone => { r with clone := r.clone.map fun c => c.write 0 bs }

/-- The `msg_id` of the message found. -/
def msgId (p : MsgPtr) : UInt32 :=
  match p with
  | .inBuf a => msgIdAt r.buf.data a
  | .clone => msgIdAt (r.clone.getD r.buf.data) 0

/-- What the loop does with the message `p`. -/
def handle (k : ReceiveLoop) (p : MsgPtr) (bs : List UInt8) (ok : Bool) : Receiver :=
  match k with
  | .server =>
      if ok then { r.store p bs with point := if r.buf.hasPending then .find else .idle }
      else (r.store p bs).lost k
  | .subscriber =>
      if r.msgId p = ipcSdkMsgNotify then
        if r.buf.hasPending then { r.store p bs with point := .find }
        else { r.store p bs with point := .recv, buf := (r.store p bs).buf.reset }
      else if r.msgId p = ipcSdkMsgUnregister then { r with point := .ended }
      else { r with point := .recv, buf := r.buf.reset }

end Receiver

/-- **A step of a receive loop**, with its accesses.  The handler of the server is called for a
handle only, and `ipc_master_handler` makes handles of the messages it has received into the same
buffer with `recv_msg`, which a buffer below the size of a header refuses
(`hdrlen_le_of_recvMsg`). -/
def receive (k : ReceiveLoop) (r : Receiver) : ReceiveLabel → Option (Receiver × List Access)
  | .call data =>
      if k = .server ∧ r.point = .idle ∧ ipcMsgHdrlen ≤ r.buf.size then
        some ({ r with point := .recv, buf := { r.buf with data := data }.reset }, [])
      else none
  | .quit =>
      if k = .subscriber ∧ r.point = .recv then some ({ r with point := .ended }, []) else none
  | .recv e =>
      if r.point = .recv then
        let window := sub32 r.buf.size r.buf.tail
        (r.recv k window e).map fun r' => (r', [.recv r.buf.tail window])
      else none
  | .pass => if r.point = .find then some r.pass else none
  | .miss more => if r.point = .missing then some (r.miss k more, []) else none
  | .handle bs ok =>
      match r.point with
      | .found p => some (r.handle k p bs ok, [])
      | _ => none

/-- A loop at its beginning, with the buffer that `alloc_buf` has allocated for `n` bytes and, on the
server's side, the clone. -/
def startReceiver (k : ReceiveLoop) (n : UInt32) (data clone : Mem) : Receiver :=
  match k with
  | .server => ⟨.idle, ⟨0, 0, allocBuf n.toNat, data⟩, some clone⟩
  | .subscriber => ⟨.recv, ⟨0, 0, allocBuf n.toNat, data⟩, none⟩

/-! ## What a step does -/

/-- **The steps**, one case for each label. -/
lemma receive_cases {k : ReceiveLoop} {r r' : Receiver} {l : ReceiveLabel} {es : List Access}
    (hstep : receive k r l = some (r', es)) :
    match l with
    | .call data =>
        (k = .server ∧ r.point = .idle ∧ ipcMsgHdrlen ≤ r.buf.size) ∧
          r' = { r with point := .recv, buf := { r.buf with data := data }.reset } ∧ es = []
    | .quit => r' = { r with point := .ended } ∧ es = []
    | .recv e =>
        r.point = .recv ∧ r.recv k (sub32 r.buf.size r.buf.tail) e = some r' ∧
          es = [.recv r.buf.tail (sub32 r.buf.size r.buf.tail)]
    | .pass => r.point = .find ∧ r' = r.pass.1 ∧ es = r.pass.2
    | .miss more => r.point = .missing ∧ r' = r.miss k more ∧ es = []
    | .handle bs ok => ∃ p, r.point = .found p ∧ r' = r.handle k p bs ok ∧ es = [] := by
  cases l with
  | call data =>
      simp only [receive] at hstep
      split_ifs at hstep with hguard
      obtain ⟨rfl, rfl⟩ := Prod.mk.inj (Option.some.inj hstep)
      exact ⟨hguard, rfl, rfl⟩
  | quit =>
      simp only [receive] at hstep
      split_ifs at hstep
      obtain ⟨rfl, rfl⟩ := Prod.mk.inj (Option.some.inj hstep)
      exact ⟨rfl, rfl⟩
  | recv e =>
      simp only [receive] at hstep
      split_ifs at hstep with hpoint
      obtain ⟨r₁, hr, heq⟩ := Option.map_eq_some_iff.mp hstep
      obtain ⟨rfl, rfl⟩ := Prod.mk.inj heq
      exact ⟨hpoint, hr, rfl⟩
  | pass =>
      simp only [receive] at hstep
      split_ifs at hstep with hpoint
      obtain ⟨rfl, rfl⟩ := Prod.mk.inj (Option.some.inj hstep)
      exact ⟨hpoint, rfl, rfl⟩
  | miss more =>
      simp only [receive] at hstep
      split_ifs at hstep with hpoint
      obtain ⟨rfl, rfl⟩ := Prod.mk.inj (Option.some.inj hstep)
      exact ⟨hpoint, rfl, rfl⟩
  | handle bs ok =>
      simp only [receive] at hstep
      split at hstep
      · rename_i p hpoint
        obtain ⟨rfl, rfl⟩ := Prod.mk.inj (Option.some.inj hstep)
        exact ⟨p, hpoint, rfl, rfl⟩
      · exact absurd hstep (by simp)

/-- **What `recv` does**: it returns bytes, the connection is lost, or nothing happens. -/
lemma Receiver.recv_cases {k : ReceiveLoop} {r r' : Receiver} {window : ℕ} {e : SockEvent}
    (hr : r.recv k window e = some r') :
    (∃ bs : List UInt8, bs ≠ [] ∧ bs.length ≤ window ∧
        r' = { r with
          point := .find
          buf := { r.buf with
            data := r.buf.data.write r.buf.tail bs, tail := add32 r.buf.tail bs.length } }) ∨
      r' = r.lost k ∨ r' = r := by
  cases e with
  | bytes bs =>
      rw [Receiver.recv] at hr
      split_ifs at hr with hill hpos
      · rw [not_or, Nat.not_lt] at hill
        exact .inl ⟨bs, hill.1, hill.2, (Option.some.inj hr).symm⟩
      · exact .inr (.inl (Option.some.inj hr).symm)
  | eof => exact .inr (.inl (Option.some.inj hr).symm)
  | err e =>
      cases e with
      | eintr => exact .inr (.inr (Option.some.inj hr).symm)
      | econnreset | eagain | other => exact .inr (.inl (Option.some.inj hr).symm)
  | idle =>
      cases k with
      | server => exact .inr (.inl (Option.some.inj hr).symm)
      | subscriber => exact .inr (.inr (Option.some.inj hr).symm)

/-! ## A pass of `find_msg` -/

lemma int32_of_lt_half {n : ℕ} (h : n < 2 ^ 31) : int32 n = n := if_pos h

lemma int32_neg {n : ℕ} (h : 2 ^ 31 ≤ n) (hn : n < 2 ^ 32) : int32 n < 0 := by
  rw [int32, if_neg (by omega)]
  omega

namespace Receiver

variable {r : Receiver}

lemma left_eq (h : r.buf.Ok) (hsize : r.buf.size < 2 ^ 32) :
    r.left = int32 (r.buf.tail - r.buf.head) := by
  have := h.tail_le
  rw [left, sub32_of_le h.head_le (by omega)]

/-- A positive `left` is the number of bytes in the queue. -/
lemma left_of_pos (h : r.buf.Ok) (hsize : r.buf.size < 2 ^ 32) (hpos : ¬ r.left ≤ 0) :
    r.left = (r.buf.tail - r.buf.head : ℕ) ∧ 0 < r.buf.tail - r.buf.head := by
  have htail := h.tail_le
  rw [left_eq h hsize] at hpos ⊢
  by_cases hhalf : r.buf.tail - r.buf.head < 2 ^ 31
  · rw [int32_of_lt_half hhalf] at hpos ⊢
    omega
  · have := int32_neg (by omega) (by omega : r.buf.tail - r.buf.head < 2 ^ 32)
    omega

/-- What a piece of a pass does, from a buffer whose indices are in order. -/
structure Passed (r : Receiver) (q : Receiver × List Access) : Prop where
  ok : q.1.buf.Ok
  size : q.1.buf.size = r.buf.size
  point : q.1.point ≠ .recv
  accesses : ∀ a ∈ q.2, a.Ok r.buf.size (ipcMsgHdrlen + r.buf.size)
  /-- A pass that goes on has taken bytes off the queue. -/
  shorter : q.1.point = .find → q.1.buf.tail - q.1.buf.head < r.buf.tail - r.buf.head

lemma passed_move (h : r.buf.Ok) : r.Passed (r.move (r.buf.tail - r.buf.head : ℕ)) := by
  have hhead := h.head_le
  have htail := h.tail_le
  rw [move, Int.toNat_natCast]
  split_ifs
  · refine ⟨⟨Nat.zero_le _, ?_⟩, rfl, by simp, ?_, by simp⟩
    · show r.buf.tail - r.buf.head ≤ r.buf.size
      omega
    · simp only [List.mem_singleton, forall_eq, Access.Ok]
      omega
  · exact ⟨h, rfl, by simp, by simp, by simp⟩

lemma passed_hand (h : r.buf.Ok) (hsize : r.buf.size < 2 ^ 32) (left : ℤ) {len : ℕ}
    (hlen : len ≤ r.buf.tail - r.buf.head) : r.Passed (r.hand left len) := by
  have hhead := h.head_le
  have htail := h.tail_le
  have hadd : add32 r.buf.head len = r.buf.head + len := add32_of_lt (by omega)
  have hok : (⟨r.buf.head + len, r.buf.tail, r.buf.size, r.buf.data⟩ : IpcBuf).Ok :=
    ⟨by show r.buf.head + len ≤ r.buf.tail; omega, htail⟩
  rw [hand, hadd]
  cases r.clone with
  | some c =>
      dsimp only
      split_ifs
      · refine ⟨⟨hok.head_le, htail⟩, rfl, by simp, ?_, by simp⟩
        simp only [List.forall_mem_cons, List.not_mem_nil, false_implies, implies_true, and_true,
          Access.Ok]
        omega
      · refine ⟨⟨hok.head_le, htail⟩, rfl, by simp, ?_, by simp⟩
        simp only [List.mem_singleton, forall_eq, Access.Ok]
        omega
  | none =>
      dsimp only
      split_ifs
      · refine ⟨⟨hok.head_le, htail⟩, rfl, by simp, ?_, by simp⟩
        simp only [List.forall_mem_cons, List.not_mem_nil, false_implies, implies_true, and_true,
          Access.Ok]
        omega
      · refine ⟨⟨hok.head_le, htail⟩, rfl, by simp, ?_, by simp⟩
        simp only [List.mem_singleton, forall_eq, Access.Ok]
        omega

lemma passed_body (hfind : r.point = .find) (h : r.buf.Ok) (hsize : r.buf.size < 2 ^ 32) {len : ℕ}
    (hpos : 0 < len) : r.Passed (r.body (r.buf.tail - r.buf.head : ℕ) len) := by
  have hhead := h.head_le
  have htail := h.tail_le
  rw [body]
  by_cases hshort : r.buf.tail - r.buf.head < len
  · rw [if_pos (Int.ofNat_lt.mpr hshort)]
    exact passed_move h
  · rw [if_neg (fun hlt => hshort (Int.ofNat_lt.mp hlt))]
    cases friendly r.buf.data r.buf.head with
    | none =>
        have hadd : add32 r.buf.head len = r.buf.head + len := add32_of_lt (by omega)
        refine ⟨⟨?_, htail⟩, rfl, by simp [hfind], by simp, fun _ => ?_⟩
        · show add32 r.buf.head len ≤ r.buf.tail
          omega
        · show r.buf.tail - add32 r.buf.head len < _
          omega
    | some data =>
        have hq := passed_hand (r := { r with buf := { r.buf with data := data } })
          ⟨hhead, htail⟩ hsize (r.buf.tail - r.buf.head : ℕ) (Nat.le_of_not_lt hshort)
        exact ⟨hq.ok, hq.size, hq.point, hq.accesses, hq.shorter⟩

/-- **A pass keeps to the bounds**, whatever the buffer holds. -/
lemma passed_pass (hfind : r.point = .find) (h : r.buf.Ok) (hsize : r.buf.size < 2 ^ 32) :
    r.Passed r.pass := by
  rw [pass]
  by_cases hzero : r.left ≤ 0
  · rw [if_pos hzero]
    exact ⟨h, rfl, by simp, by simp, by simp⟩
  · obtain ⟨hleft, -⟩ := left_of_pos h hsize hzero
    rw [if_neg hzero, hleft]
    by_cases hhdr : r.buf.tail - r.buf.head < ipcMsgHdrlen
    · rw [if_pos (Int.ofNat_lt.mpr hhdr)]
      exact passed_move h
    · rw [if_neg (fun hlt => hhdr (Int.ofNat_lt.mp hlt))]
      have hpos : 0 < ipcMsgHdrlen := by decide
      have hq := passed_body hfind h hsize
        (show 0 < ipcMsgHdrlen + dataLenAt r.buf.data r.buf.head by omega)
      refine ⟨hq.ok, hq.size, hq.point, ?_, hq.shorter⟩
      rw [List.forall_mem_cons]
      refine ⟨⟨?_, h.tail_le⟩, hq.accesses⟩
      omega

/-! ## A call of `find_msg` -/

/-- What a call of `find_msg` that has ended here has returned. -/
def result (r : Receiver) : FindResult where
  buf := r.buf
  clone := r.clone
  msg := match r.point with
    | .found p => some p
    | _ => none

lemma result_move :
    (r.move (r.buf.tail - r.buf.head : ℕ)).1.result = ⟨moveFront r.buf, r.clone, none⟩ ∧
      (r.move (r.buf.tail - r.buf.head : ℕ)).1.point = .missing := by
  rw [move, Int.toNat_natCast, moveFront]
  split_ifs <;> exact ⟨rfl, rfl⟩

lemma result_hand (h : r.buf.Ok) (hsize : r.buf.size < 2 ^ 32) {len : ℕ}
    (hlen : len ≤ r.buf.tail - r.buf.head) :
    (r.hand (r.buf.tail - r.buf.head : ℕ) len).1.result = handOut r.buf r.clone len ∧
      (r.hand (r.buf.tail - r.buf.head : ℕ) len).1.point ≠ .find := by
  have hhead := h.head_le
  have htail := h.tail_le
  have hadd : add32 r.buf.head len = r.buf.head + len := add32_of_lt (by omega)
  cases hclone : r.clone with
  | some c =>
      simp only [hand, handOut, hclone, hadd, Nat.cast_lt]
      split_ifs
      · exact ⟨rfl, by simp⟩
      · exact ⟨by simp [result], by simp⟩
  | none =>
      simp only [hand, handOut, hclone, hadd]
      split_ifs
      · exact ⟨by simp [result], by simp⟩
      · exact ⟨by simp [result], by simp⟩

lemma findMsgLoop_body (hfind : r.point = .find) (h : r.buf.Ok) (hsize : r.buf.size < 2 ^ 32)
    (len fuel : ℕ) :
    (if r.buf.tail - r.buf.head < len then ⟨moveFront r.buf, r.clone, none⟩
      else
        match friendly r.buf.data r.buf.head with
        | none => findMsgLoop fuel { r.buf with head := r.buf.head + len } r.clone
        | some data => handOut { r.buf with data := data } r.clone len) =
      if (r.body (r.buf.tail - r.buf.head : ℕ) len).1.point = .find then
        findMsgLoop fuel (r.body (r.buf.tail - r.buf.head : ℕ) len).1.buf
          (r.body (r.buf.tail - r.buf.head : ℕ) len).1.clone
      else (r.body (r.buf.tail - r.buf.head : ℕ) len).1.result := by
  have hhead := h.head_le
  have htail := h.tail_le
  rw [body]
  by_cases hshort : r.buf.tail - r.buf.head < len
  · obtain ⟨hmove, hpoint⟩ := result_move (r := r)
    rw [if_pos hshort, if_pos (Int.ofNat_lt.mpr hshort), hmove, hpoint]
    rfl
  · rw [if_neg hshort, if_neg (fun hlt => hshort (Int.ofNat_lt.mp hlt))]
    cases friendly r.buf.data r.buf.head with
    | none =>
        have hadd : add32 r.buf.head len = r.buf.head + len := add32_of_lt (by omega)
        simp only [hfind, if_true, hadd]
    | some data =>
        obtain ⟨hres, hne⟩ := result_hand (r := { r with buf := { r.buf with data := data } })
          ⟨hhead, htail⟩ hsize (Nat.le_of_not_lt hshort)
        dsimp only at hres hne ⊢
        rw [if_neg hne, hres]

/-- **A pass is a pass of `findMsg`**, unless the queue is longer than an `int` can say. -/
lemma findMsgLoop_pass (hfind : r.point = .find) (h : r.buf.Ok) (hsize : r.buf.size < 2 ^ 32)
    (hlen : r.buf.tail - r.buf.head < 2 ^ 31) (fuel : ℕ) :
    findMsgLoop (fuel + 1) r.buf r.clone =
      if r.pass.1.point = .find then findMsgLoop fuel r.pass.1.buf r.pass.1.clone
      else r.pass.1.result := by
  have hleft : r.left = (r.buf.tail - r.buf.head : ℕ) := by
    rw [left_eq h hsize, int32_of_lt_half hlen]
  rw [findMsgLoop, pass, hleft]
  by_cases hzero : r.buf.tail - r.buf.head = 0
  · rw [if_pos hzero, if_pos (show ((r.buf.tail - r.buf.head : ℕ) : ℤ) ≤ 0 by omega)]
    rfl
  · rw [if_neg hzero, if_neg (show ¬ ((r.buf.tail - r.buf.head : ℕ) : ℤ) ≤ 0 by omega)]
    by_cases hhdr : r.buf.tail - r.buf.head < ipcMsgHdrlen
    · obtain ⟨hmove, hpoint⟩ := result_move (r := r)
      rw [if_pos hhdr, if_pos (Int.ofNat_lt.mpr hhdr), hmove, hpoint]
      rfl
    · rw [if_neg hhdr, if_neg (fun hlt => hhdr (Int.ofNat_lt.mp hlt))]
      exact findMsgLoop_body hfind h hsize _ fuel

/-- **A call of `find_msg` ends**, and it returns what `findMsg` says unless the queue is longer than
an `int` can say. -/
lemma exists_passes (k : ReceiveLoop) (fuel : ℕ) (hfuel : r.buf.tail - r.buf.head < fuel)
    (hfind : r.point = .find) (h : r.buf.Ok) (hsize : r.buf.size < 2 ^ 32) :
    ∃ n r' es, run (receive k) (List.replicate n .pass) r = some (r', es) ∧ r'.point ≠ .find ∧
      (r.buf.tail - r.buf.head < 2 ^ 31 → findMsgLoop fuel r.buf r.clone = r'.result) := by
  induction fuel generalizing r with
  | zero => omega
  | succ fuel ih =>
      have hstep : receive k r .pass = some r.pass := if_pos hfind
      have hpass := passed_pass hfind h hsize
      by_cases hagain : r.pass.1.point = .find
      · have hshort := hpass.shorter hagain
        obtain ⟨n, r', es, hrun, hne, hres⟩ := ih (by omega) hagain hpass.ok
          (by rw [hpass.size]; exact hsize)
        refine ⟨n + 1, r', r.pass.2 ++ es, run_cons.mpr ⟨_, _, _, hstep, hrun, rfl⟩, hne, ?_⟩
        intro hlen
        rw [findMsgLoop_pass hfind h hsize hlen, if_pos hagain]
        exact hres (by omega)
      · refine ⟨1, r.pass.1, r.pass.2,
          run_cons.mpr ⟨_, _, _, hstep, rfl, (List.append_nil _).symm⟩, hagain, ?_⟩
        intro hlen
        rw [findMsgLoop_pass hfind h hsize hlen, if_neg hagain]

lemma findMsg_passes (k : ReceiveLoop) (hfind : r.point = .find) (h : r.buf.Ok)
    (hsize : r.buf.size < 2 ^ 32) :
    ∃ n r' es, run (receive k) (List.replicate n .pass) r = some (r', es) ∧ r'.point ≠ .find ∧
      (r.buf.tail - r.buf.head < 2 ^ 31 → findMsg r.buf r.clone = r'.result) :=
  exists_passes k _ (Nat.lt_succ_self _) hfind h hsize

/-! ## A step -/

/-- The invariant: the indices are in order, and in front of `recv` there is room. -/
structure Bounded (size : ℕ) (r : Receiver) : Prop where
  ok : r.buf.Ok
  size : r.buf.size = size
  room : r.point = .recv → r.buf.full = false

variable {size : ℕ} {k : ReceiveLoop}

lemma Bounded.reset (h : r.Bounded size) (hsize : 0 < size) (point : ReceivePoint) :
    ({ r with point := point, buf := r.buf.reset } : Receiver).Bounded size :=
  ⟨r.buf.ok_reset, h.size, fun _ => IpcBuf.full_reset (by rw [h.size]; exact hsize)⟩

lemma Bounded.lost (h : r.Bounded size) (hsize : 0 < size) (k : ReceiveLoop) :
    (r.lost k).Bounded size := by
  cases k with
  | server => exact ⟨h.ok, h.size, by simp [Receiver.lost]⟩
  | subscriber => exact h.reset hsize .recv

lemma Bounded.store (h : r.Bounded size) (p : MsgPtr) (bs : List UInt8) (point : ReceivePoint)
    (hpoint : point ≠ .recv) : ({ r.store p bs with point := point } : Receiver).Bounded size := by
  cases p with
  | clone => exact ⟨h.ok, h.size, fun heq => absurd heq hpoint⟩
  | inBuf a => exact ⟨⟨h.ok.head_le, h.ok.tail_le⟩, h.size, fun heq => absurd heq hpoint⟩

lemma Bounded.recv (h : r.Bounded size) (hsize : 0 < size) (hlt : size < 2 ^ 32)
    {e : SockEvent} {r' : Receiver} (hr : r.recv k (size - r.buf.tail) e = some r') :
    r'.Bounded size := by
  have htail := h.ok.tail_le
  have hsz := h.size
  rcases recv_cases hr with ⟨bs, -, hfit, rfl⟩ | rfl | rfl
  · have hadd : add32 r.buf.tail bs.length = r.buf.tail + bs.length := add32_of_lt (by omega)
    refine ⟨⟨?_, ?_⟩, h.size, by simp⟩
    · have hhead := h.ok.head_le
      show r.buf.head ≤ add32 r.buf.tail bs.length
      omega
    · show add32 r.buf.tail bs.length ≤ r.buf.size
      omega
  · exact h.lost hsize k
  · exact h

lemma Bounded.miss (h : r.Bounded size) (hsize : 0 < size) (more : Bool) :
    (r.miss k more).Bounded size := by
  unfold Receiver.miss
  cases k with
  | server =>
      dsimp only
      split_ifs with hfull
      · exact h.lost hsize .server
      · exact ⟨h.ok, h.size, fun _ => Bool.not_eq_true _ ▸ hfull⟩
      · exact h.lost hsize .server
  | subscriber =>
      dsimp only
      split_ifs with hfull
      · exact h.reset hsize .recv
      · exact ⟨h.ok, h.size, fun _ => Bool.not_eq_true _ ▸ hfull⟩

lemma Bounded.handle (h : r.Bounded size) (hsize : 0 < size) (p : MsgPtr) (bs : List UInt8)
    (ok : Bool) (hpoint : r.point ≠ .recv) : (r.handle k p bs ok).Bounded size := by
  have hstore := h.store p bs r.point hpoint
  unfold Receiver.handle
  cases k with
  | server =>
      dsimp only
      split_ifs with hok hpend
      · exact h.store p bs .find (by simp)
      · exact h.store p bs .idle (by simp)
      · cases p <;> exact hstore.lost hsize .server
  | subscriber =>
      dsimp only
      split_ifs
      · exact h.store p bs .find (by simp)
      · exact hstore.reset hsize .recv
      · exact ⟨h.ok, h.size, by simp⟩
      · exact h.reset hsize .recv

lemma Bounded.step (h : r.Bounded size) (hsize : 0 < size) (hlt : size < 2 ^ 32)
    {l : ReceiveLabel} {r' : Receiver} {es : List Access} (hstep : receive k r l = some (r', es)) :
    r'.Bounded size ∧ ∀ a ∈ es, a.Ok size (ipcMsgHdrlen + size) := by
  have hlen := h.size
  have hcases := receive_cases hstep
  cases l with
  | call data =>
      obtain ⟨-, rfl, rfl⟩ := hcases
      exact ⟨⟨⟨le_refl _, Nat.zero_le _⟩, h.size,
        fun _ => IpcBuf.full_reset (by show 0 < r.buf.size; omega)⟩, by simp⟩
  | quit =>
      obtain ⟨rfl, rfl⟩ := hcases
      exact ⟨⟨h.ok, h.size, by simp⟩, by simp⟩
  | recv e =>
      obtain ⟨hpoint, hr, rfl⟩ := hcases
      have htail := h.ok.tail_le
      rw [sub32_of_le htail (by omega), h.size] at hr ⊢
      refine ⟨h.recv hsize hlt hr, ?_⟩
      have hroom := h.room hpoint
      simp only [IpcBuf.full, decide_eq_false_iff_not] at hroom
      simp only [List.mem_singleton, forall_eq, Access.Ok]
      omega
  | pass =>
      obtain ⟨hpoint, rfl, rfl⟩ := hcases
      have hpass := passed_pass hpoint h.ok (by omega)
      refine ⟨⟨hpass.ok, hpass.size.trans h.size, fun heq => absurd heq hpass.point⟩, ?_⟩
      rw [← h.size]
      exact hpass.accesses
  | miss more =>
      obtain ⟨-, rfl, rfl⟩ := hcases
      exact ⟨h.miss hsize more, by simp⟩
  | handle bs ok =>
      obtain ⟨p, hpoint, rfl, rfl⟩ := hcases
      exact ⟨h.handle hsize p bs ok (by simp [hpoint]), by simp⟩

end Receiver

/-! ## All runs -/

/-- What is asked of a receive loop in a state that it has reached, with the accesses up to it. -/
structure Confined (k : ReceiveLoop) (S : ℕ) (r : Receiver) (es : List Access) : Prop where
  head_le : r.buf.head ≤ r.buf.tail
  tail_le : r.buf.tail ≤ r.buf.size
  size : r.buf.size = S
  accesses : ∀ a ∈ es, a.Ok S (ipcMsgHdrlen + S)
  /-- A call of `find_msg` ends. -/
  ends : r.point = .find → ∃ n r' es',
    run (receive k) (List.replicate n .pass) r = some (r', es') ∧ r'.point ≠ .find

lemma confined_of_bounded {k : ReceiveLoop} {size : ℕ} {r : Receiver} {es : List Access}
    (hlt : size < 2 ^ 32) (h : r.Bounded size) (hes : ∀ a ∈ es, a.Ok size (ipcMsgHdrlen + size)) :
    Confined k size r es := by
  refine ⟨h.ok.head_le, h.ok.tail_le, h.size, hes, fun hfind => ?_⟩
  obtain ⟨n, r', es', hrun, hne, -⟩ :=
    Receiver.findMsg_passes k hfind h.ok (by rw [h.size]; exact hlt)
  exact ⟨n, r', es', hrun, hne⟩

/-- `recv_msg` accepts a message only into a buffer that has room for a header. -/
lemma hdrlen_le_of_recvMsg {size n : ℕ} {tmo : ℤ} {es : List SockEvent} {m m' : Mem}
    (h : recvMsg size tmo es m = some (.ok n, m')) : ipcMsgHdrlen ≤ size := by
  by_contra hsmall
  rw [recvMsg_eq, recvMsgEnter, if_pos (by omega), RecvPass.resume] at h
  simp at h

/-- The server's handler is never called with a buffer that `recv_msg` refuses. -/
lemma run_idle {r r' : Receiver} (hidle : r.point = .idle) (hsmall : r.buf.size < ipcMsgHdrlen)
    {ls : List ReceiveLabel} {es : List Access} (hrun : run (receive .server) ls r = some (r', es)) :
    r' = r ∧ es = [] := by
  cases ls with
  | nil =>
      obtain ⟨rfl, rfl⟩ := Prod.mk.inj (Option.some.inj hrun)
      exact ⟨rfl, rfl⟩
  | cons l ls =>
      obtain ⟨r₁, es₁, es₂, hstep, -, -⟩ := run_cons.mp hrun
      have hnone : receive .server r l = none := by
        cases l with
        | call data => exact if_neg (by omega)
        | _ => simp [receive, hidle]
      rw [hnone] at hstep
      exact absurd hstep (by simp)

/-- The sizes for which `alloc_buf` wraps to a buffer of no bytes. -/
lemma allocBuf_eq_zero (n : ℕ) (hn : n < 2 ^ 32) :
    allocBuf n = 0 ↔ 2 ^ 32 - 15 ≤ n ∧ n ≤ 2 ^ 32 - 12 := by
  have hhdr : ipcMsgHdrlen = 12 := rfl
  by_cases hwrap : n + ipcMsgHdrlen < 2 ^ 32
  · simp only [allocBuf, Nat.mod_eq_of_lt hwrap]
    split_ifs with halign
    · omega
    · omega
  · have hmod : (n + ipcMsgHdrlen) % 2 ^ 32 = n + ipcMsgHdrlen - 2 ^ 32 := by omega
    simp only [allocBuf, hmod]
    split_ifs with halign
    · omega
    · omega

lemma bounded_start (k : ReceiveLoop) (n : UInt32) (data clone : Mem) (hpos : 0 < allocBuf n.toNat) :
    (startReceiver k n data clone).Bounded (allocBuf n.toNat) := by
  cases k with
  | server => exact ⟨⟨le_refl _, Nat.zero_le _⟩, rfl, by simp [startReceiver]⟩
  | subscriber =>
      exact ⟨⟨le_refl _, Nat.zero_le _⟩, rfl,
        fun _ => show IpcBuf.full (IpcBuf.reset ⟨0, 0, allocBuf n.toNat, data⟩) = false from
          IpcBuf.full_reset hpos⟩

/-- **The receive buffers stay in bounds** on every stream, cut in any way, in every run of the two
loops, except in a subscriber whose buffer has no bytes because the size it was told wraps in
`alloc_buf`. -/
theorem receive_confined_iff (k : ReceiveLoop) (n : UInt32) :
    (∀ (data clone : Mem) (ls : List ReceiveLabel) (r : Receiver) (es : List Access),
        run (receive k) ls (startReceiver k n data clone) = some (r, es) →
        Confined k (allocBuf n.toNat) r es) ↔
      k = .server ∨ ¬ (2 ^ 32 - 15 ≤ n.toNat ∧ n.toNat ≤ 2 ^ 32 - 12) := by
  have hlt := allocBuf_lt n.toNat
  rw [← allocBuf_eq_zero n.toNat n.toNat_lt]
  constructor
  · -- a window of no bytes in front of the first `recv`
    intro hall
    cases k with
    | server => exact .inl rfl
    | subscriber =>
        refine .inr fun hzero => ?_
        have hbad := (hall (fun _ => 0) (fun _ => 0) [.recv .eof] _ _ rfl).accesses
          (.recv 0 (sub32 (allocBuf n.toNat) 0)) (by simp [startReceiver])
        rw [hzero] at hbad
        exact absurd hbad.1 (by decide)
  · intro hcond data clone ls r es hrun
    by_cases hzero : allocBuf n.toNat = 0
    · obtain rfl : k = .server := by
        rcases hcond with hk | hpos
        · exact hk
        · exact absurd hzero hpos
      obtain ⟨rfl, rfl⟩ := run_idle rfl (by show allocBuf n.toNat < _; rw [hzero]; decide) hrun
      exact ⟨le_refl _, Nat.zero_le _, rfl, by simp, by simp [startReceiver]⟩
    · have hpos : 0 < allocBuf n.toNat := Nat.pos_of_ne_zero hzero
      have hok : Along (receive k) (fun _ _ => True) ls (startReceiver k n data clone) :=
        along_of_forall (fun _ _ => trivial) _
      obtain ⟨hr, hes⟩ := run_safe (fun hs _ hstep => Receiver.Bounded.step hs hpos hlt hstep)
        (bounded_start k n data clone hpos) hok hrun
      exact confined_of_bounded hlt hr hes

/-- **`recv` can be called with an empty window.**  A subscriber that is told the size 0xFFFFFFF4
allocates a buffer of no bytes. -/
theorem receive_empty_window :
    ¬ ∀ (k : ReceiveLoop) (n : UInt32) (data clone : Mem) (ls : List ReceiveLabel) (r : Receiver)
        (es : List Access), run (receive k) ls (startReceiver k n data clone) = some (r, es) →
        Confined k (allocBuf n.toNat) r es := by
  intro hall
  have hbad := (hall .subscriber 0xFFFFFFF4 (fun _ => 0) (fun _ => 0) [.recv .eof] _ _ rfl).accesses
    (.recv 0 0) (by decide)
  exact absurd hbad.1 (by decide)

end LinuxC.Ipc
