import LinuxC.Framework.ByteMemory
import Mathlib.Tactic.Linarith

/-!
# IPC messages and their wire format (`ipc/ipc_common.h`, `ipc/ipc_base.h`)

`struct ipc_msg` is a packed header of twelve bytes — `from`, `msg_id`, `flags`, `data_len` —
followed by `data_len` bytes of payload.  `IpcMsg` is that record; `data_len` is a 16-bit
field, so the payload carries its bound.  `IpcMsg.encode` is the image of the record in
memory (the code runs on little-endian machines with 64-bit `unsigned long`), and
`readMsg` is what a `struct ipc_msg *` at an offset of a block of memory shows.

A message on the wire has the token `0x56CE` in the upper half of `msg_id`.  `friendly`
tests it and, like the source, removes it from the message *in place*.

`struct ipc_notify` is the packed record of twenty bytes at the start of the payload of an
`IPC_SDK_MSG_NOTIFY` message.
-/

namespace LinuxC.Ipc

/-! ## Constants -/

def ipcMsgToken : UInt32 := 0x56CE0000

def ipcMsgTokenMask : UInt32 := 0xFFFF0000

/-- `IPC_MSG_SDK`: message ids below it belong to the users. -/
def ipcMsgSdk : UInt32 := 0x0000FF00

def ipcSdkMsgConnect : UInt32 := 0x0000FF01

def ipcSdkMsgRegister : UInt32 := 0x0000FF02

def ipcSdkMsgSync : UInt32 := 0x0000FF03

def ipcSdkMsgUnregister : UInt32 := 0x0000FF04

def ipcSdkMsgNotify : UInt32 := 0x0000FF05

/-- `IPC_MSG_HDRLEN`, the size of `struct ipc_msg`. -/
def ipcMsgHdrlen : ℕ := 12

/-- The size of `struct ipc_notify`. -/
def ipcNotifyHdrlen : ℕ := 20

/-! ## The message record -/

/-- `struct ipc_msg` with its payload; `data_len` is the length of `data`. -/
structure IpcMsg where
  /-- The field `from`. -/
  fromId : UInt32
  msgId : UInt32
  flags : UInt16
  data : List UInt8
  /-- `data_len` is an `unsigned short`. -/
  data_lt : data.length < 2 ^ 16
  deriving DecidableEq

lemma length_nil_lt : ([] : List UInt8).length < 2 ^ 16 := by decide

namespace IpcMsg

/-- The field `data_len`. -/
def dataLen (f : IpcMsg) : ℕ := f.data.length

/-- `__data_len`: the length of the whole message. -/
def length (f : IpcMsg) : ℕ := ipcMsgHdrlen + f.dataLen

/-- The header as it lies in memory. -/
def header (f : IpcMsg) : List UInt8 :=
  toLE 4 f.fromId.toNat ++ (toLE 4 f.msgId.toNat ++
    (toLE 2 f.flags.toNat ++ toLE 2 f.dataLen))

/-- The message as it lies in memory. -/
def encode (f : IpcMsg) : List UInt8 := f.header ++ f.data

/-- The upper half of `msg_id` is the token. -/
def Friendly (f : IpcMsg) : Prop := f.msgId &&& ipcMsgTokenMask = ipcMsgToken

instance (f : IpcMsg) : Decidable f.Friendly := inferInstanceAs (Decidable (_ = _))

/-- The message with the token removed from `msg_id`. -/
def strip (f : IpcMsg) : IpcMsg := { f with msgId := f.msgId &&& ~~~ipcMsgTokenMask }

@[simp] lemma length_header (f : IpcMsg) : f.header.length = ipcMsgHdrlen := by
  simp [header, ipcMsgHdrlen]

@[simp] lemma length_encode (f : IpcMsg) : f.encode.length = f.length := by
  simp [encode, length, dataLen]

lemma hdrlen_le_length (f : IpcMsg) : ipcMsgHdrlen ≤ f.length := Nat.le_add_right _ _

lemma length_pos (f : IpcMsg) : 0 < f.length := lt_of_lt_of_le (by decide) f.hdrlen_le_length

@[simp] lemma length_strip (f : IpcMsg) : f.strip.length = f.length := rfl

end IpcMsg

/-! ## Reading a message in memory -/

/-- The field `msg_id` of the message at offset `a`. -/
def msgIdAt (m : Mem) (a : ℕ) : UInt32 := UInt32.ofNat (leNat (m.read (a + 4) 4))

/-- The field `data_len` of the message at offset `a`. -/
def dataLenAt (m : Mem) (a : ℕ) : ℕ := leNat (m.read (a + 10) 2)

lemma dataLenAt_lt (m : Mem) (a : ℕ) : dataLenAt m a < 2 ^ 16 := by
  have h := leNat_lt (m.read (a + 10) 2)
  rw [Mem.length_read] at h
  exact h

/-- What a `struct ipc_msg *` at offset `a` shows. -/
def readMsg (m : Mem) (a : ℕ) : IpcMsg where
  fromId := UInt32.ofNat (leNat (m.read a 4))
  msgId := msgIdAt m a
  flags := UInt16.ofNat (leNat (m.read (a + 8) 2))
  data := m.read (a + ipcMsgHdrlen) (dataLenAt m a)
  data_lt := by
    rw [Mem.length_read]
    exact dataLenAt_lt m a

/-- `friendly`: a message with the token loses it in place, one without is refused. -/
def friendly (m : Mem) (a : ℕ) : Option Mem :=
  if msgIdAt m a &&& ipcMsgTokenMask = ipcMsgToken then
    some (m.write (a + 4) (toLE 4 (msgIdAt m a &&& ~~~ipcMsgTokenMask).toNat))
  else none

lemma read_sub {m : Mem} {a n : ℕ} {bs : List UInt8} (h : m.read a n = bs) {k l : ℕ}
    (hkl : k + l ≤ n) : m.read (a + k) l = (bs.drop k).take l := by
  rw [← h, Mem.drop_read m a (by omega), Mem.take_read m _ (by omega)]

/-- The four header fields, read off a range that starts with a header. -/
lemma header_fields {m : Mem} {a : ℕ} {f : IpcMsg}
    (h : m.read a ipcMsgHdrlen = f.header) :
    UInt32.ofNat (leNat (m.read a 4)) = f.fromId ∧ msgIdAt m a = f.msgId ∧
      UInt16.ofNat (leNat (m.read (a + 8) 2)) = f.flags ∧ dataLenAt m a = f.dataLen := by
  have hfrom : m.read a 4 = toLE 4 f.fromId.toNat := by
    have := read_sub h (k := 0) (l := 4) (by decide)
    simpa [IpcMsg.header] using this
  have hid : m.read (a + 4) 4 = toLE 4 f.msgId.toNat := by
    have := read_sub h (k := 4) (l := 4) (by decide)
    simpa [IpcMsg.header] using this
  have hflags : m.read (a + 8) 2 = toLE 2 f.flags.toNat := by
    have := read_sub h (k := 8) (l := 2) (by decide)
    simpa [IpcMsg.header, List.drop_append, List.drop_eq_nil_of_le] using this
  have hlen : m.read (a + 10) 2 = toLE 2 f.dataLen := by
    have := read_sub h (k := 10) (l := 2) (by decide)
    simpa [IpcMsg.header, List.drop_append, List.drop_eq_nil_of_le] using this
  refine ⟨?_, ?_, ?_, ?_⟩
  · rw [hfrom, leNat_toLE_of_lt f.fromId.toNat_lt, UInt32.ofNat_toNat]
  · rw [msgIdAt, hid, leNat_toLE_of_lt f.msgId.toNat_lt, UInt32.ofNat_toNat]
  · rw [hflags, leNat_toLE_of_lt f.flags.toNat_lt, UInt16.ofNat_toNat]
  · rw [dataLenAt, hlen, leNat_toLE_of_lt f.data_lt]

/-- **A range that holds a message reads as the message.** -/
lemma readMsg_of_read {m : Mem} {a : ℕ} {f : IpcMsg} (h : m.read a f.length = f.encode) :
    readMsg m a = f := by
  have hhdr : m.read a ipcMsgHdrlen = f.header := by
    have := read_sub h (k := 0) (l := ipcMsgHdrlen) (by simpa using f.hdrlen_le_length)
    simpa [IpcMsg.encode] using this
  have hdata : m.read (a + ipcMsgHdrlen) f.dataLen = f.data := by
    have := read_sub h (k := ipcMsgHdrlen) (l := f.dataLen) (le_refl _)
    simpa [IpcMsg.encode, IpcMsg.dataLen] using this
  obtain ⟨hfrom, hid, hflags, hlen⟩ := header_fields hhdr
  cases f
  simp_all [readMsg]

lemma eq_of_encode_append {f g : IpcMsg} {as bs : List UInt8}
    (h : f.encode ++ as = g.encode ++ bs) : f = g := by
  have hread : ∀ (f : IpcMsg) (as : List UInt8),
      readMsg (Mem.write (fun _ => 0) 0 (f.encode ++ as)) 0 = f := by
    intro f as
    apply readMsg_of_read
    have hall := Mem.read_write_self (fun _ => 0) 0 (f.encode ++ as)
      (n := (f.encode ++ as).length) rfl
    have := read_sub hall (k := 0) (l := f.length) (by
      rw [List.length_append, IpcMsg.length_encode]
      omega)
    rwa [Nat.add_zero, List.drop_zero, List.take_left' f.length_encode] at this
  rw [← hread f as, h, hread g bs]

/-- The message that lies at `a` is the one `readMsg` shows there: every header is the
header of some message. -/
lemma read_eq_encode_readMsg (m : Mem) (a : ℕ) :
    m.read a (readMsg m a).length = (readMsg m a).encode := by
  have hle : ∀ b n, toLE n (leNat (m.read b n)) = m.read b n := by
    intro b n
    have h := toLE_leNat (m.read b n)
    rwa [Mem.length_read] at h
  have h32 : ∀ b, (UInt32.ofNat (leNat (m.read b 4))).toNat = leNat (m.read b 4) := by
    intro b
    have h := leNat_lt (m.read b 4)
    rw [Mem.length_read] at h
    exact UInt32.toNat_ofNat_of_lt' h
  have h16 : (UInt16.ofNat (leNat (m.read (a + 8) 2))).toNat = leNat (m.read (a + 8) 2) := by
    have h := leNat_lt (m.read (a + 8) 2)
    rw [Mem.length_read] at h
    exact UInt16.toNat_ofNat_of_lt' h
  have hsplit : m.read a ipcMsgHdrlen =
      m.read a 4 ++ (m.read (a + 4) 4 ++ (m.read (a + 8) 2 ++ m.read (a + 10) 2)) := by
    rw [← Mem.read_add, ← Mem.read_add m (a + 4), ← Mem.read_add]
    rfl
  rw [IpcMsg.length, Mem.read_add, hsplit]
  simp only [IpcMsg.encode, IpcMsg.header, IpcMsg.dataLen, readMsg, msgIdAt, Mem.length_read,
    h32, h16, hle, dataLenAt]

lemma read_eq_message {m : Mem} {a n : ℕ} (h : ipcMsgHdrlen + dataLenAt m a ≤ n) :
    ∃ rest, m.read a n = (readMsg m a).encode ++ rest := by
  have hlength : (readMsg m a).length = ipcMsgHdrlen + dataLenAt m a := by
    rw [IpcMsg.length, IpcMsg.dataLen, readMsg, Mem.length_read]
  refine ⟨m.read (a + (readMsg m a).length) (n - (readMsg m a).length), ?_⟩
  rw [← read_eq_encode_readMsg m a, ← Mem.read_add, hlength, Nat.add_sub_cancel' h]

/-- **The effect of `friendly`.**  On a range that holds a message with the token, the range
holds the stripped message afterwards and nothing else has changed. -/
lemma friendly_of_friendly {m : Mem} {a : ℕ} {f : IpcMsg} (h : m.read a f.length = f.encode)
    (hf : f.Friendly) :
    ∃ m', friendly m a = some m' ∧ m'.read a f.length = f.strip.encode ∧
      ∀ b n, a + f.length ≤ b → m'.read b n = m.read b n := by
  have hmsg := readMsg_of_read h
  have hid : msgIdAt m a = f.msgId := congrArg IpcMsg.msgId hmsg
  have hlen : ipcMsgHdrlen ≤ f.length := f.hdrlen_le_length
  simp only [ipcMsgHdrlen] at hlen
  refine ⟨m.write (a + 4) (toLE 4 f.strip.msgId.toNat), ?_, ?_, ?_⟩
  · rw [friendly, hid]
    exact if_pos hf
  · have hpre : m.read a 4 = toLE 4 f.fromId.toNat := by
      have := read_sub h (k := 0) (l := 4) (by omega)
      simpa [IpcMsg.encode, IpcMsg.header] using this
    have hpost : m.read (a + 4 + 4) (f.length - (4 + 4)) =
        toLE 2 f.flags.toNat ++ toLE 2 f.dataLen ++ f.data := by
      have := read_sub h (k := 8) (l := f.length - 8) (by omega)
      rw [Nat.add_assoc, this, List.take_of_length_le (by simp)]
      simp [IpcMsg.encode, IpcMsg.header, List.drop_append, List.drop_eq_nil_of_le]
    have hin := Mem.read_write_inside m a 4 (toLE 4 f.strip.msgId.toNat) (n := f.length)
      (by rw [length_toLE]; omega)
    rw [length_toLE] at hin
    rw [hin, hpre, hpost]
    simp [IpcMsg.encode, IpcMsg.header, IpcMsg.strip, IpcMsg.dataLen]
  · intro b n hb
    apply Mem.read_write_above
    rw [length_toLE]
    omega

lemma friendly_of_not_friendly {m : Mem} {a : ℕ} {f : IpcMsg}
    (h : m.read a f.length = f.encode) (hf : ¬ f.Friendly) : friendly m a = none := by
  have hid : msgIdAt m a = f.msgId := congrArg IpcMsg.msgId (readMsg_of_read h)
  rw [friendly, hid]
  exact if_neg hf

/-! ## Notifications -/

/-- The 32-bit two's complement reading of a field declared `int`. -/
def int32 (n : ℕ) : ℤ := if n < 2 ^ 31 then n else (n : ℤ) - 2 ^ 32

/-- The four header fields of `struct ipc_notify` at the start of a payload. -/
structure IpcNotify where
  /-- The field `to`. -/
  dest : ℤ
  topic : UInt64
  msgId : UInt32
  dataLen : ℤ
  deriving DecidableEq

/-- The notify header at the start of a payload given as a byte string. -/
def IpcNotify.decode (bs : List UInt8) : IpcNotify where
  dest := int32 (leNat (bs.take 4))
  topic := UInt64.ofNat (leNat ((bs.drop 4).take 8))
  msgId := UInt32.ofNat (leNat ((bs.drop 12).take 4))
  dataLen := int32 (leNat ((bs.drop 16).take 4))

/-- What a `struct ipc_notify *` at offset `a` shows. -/
def notifyAt (m : Mem) (a : ℕ) : IpcNotify := IpcNotify.decode (m.read a ipcNotifyHdrlen)

/-- `topic_check`: at most one bit is set. -/
def topicCheck (topic : UInt64) : Bool := topic &&& (topic - 1) = 0

/-- `topic_isset`: the mask has a bit of the topic. -/
def topicIsset (mask topic : UInt64) : Bool := mask &&& topic ≠ 0

end LinuxC.Ipc
