import Mathlib.Data.List.Basic
import Mathlib.Tactic.Ring

/-!
# Byte memory and little-endian integers

A block of memory is a total function from offsets to bytes.  The operations a C program
performs on such a block are *reading* a range (`Mem.read`), *overwriting* a range
(`Mem.write`) and *moving* a range inside the block (`Mem.copy`, which reads everything
before it writes anything, as `memmove` does).  The lemmas are the ones a proof about a
buffer needs: a range splits at any point (`read_add`), a range that was just written reads
back (`read_write_self`), and a range that the write does not touch reads as before
(`read_write_below`, `read_write_above`).

The second half fixes the little-endian rendering of fixed-width integers, with the round
trip `leNat_toLE`.

Nothing here mentions a particular program.
-/

namespace LinuxC

/-- A block of byte-addressed memory; an address is an offset from the start of the block. -/
def Mem := ℕ → UInt8

namespace Mem

/-- The `n` bytes at offset `a`. -/
def read (m : Mem) (a : ℕ) : ℕ → List UInt8
  | 0 => []
  | n + 1 => m a :: read m (a + 1) n

/-- The block after the bytes `bs` were stored at offset `a`. -/
def write (m : Mem) (a : ℕ) (bs : List UInt8) : Mem := fun i =>
  if a ≤ i then (bs[i - a]?).getD (m i) else m i

/-- The block after `n` bytes were moved from offset `src` to offset `dst`. -/
def copy (m : Mem) (dst src n : ℕ) : Mem := m.write dst (m.read src n)

@[simp] lemma length_read (m : Mem) (a n : ℕ) : (m.read a n).length = n := by
  induction n generalizing a with
  | zero => rfl
  | succ n ih => simp [read, ih]

@[simp] lemma read_zero (m : Mem) (a : ℕ) : m.read a 0 = [] := rfl

lemma getElem?_read (m : Mem) (a n i : ℕ) :
    (m.read a n)[i]? = if i < n then some (m (a + i)) else none := by
  induction n generalizing a i with
  | zero => simp
  | succ n ih =>
      cases i with
      | zero => simp [read]
      | succ i => simp [read, ih, Nat.add_assoc, Nat.add_comm 1 i]

/-- **Ranges split.**  A range of `n + k` bytes is the range of its first `n` bytes followed
by the range of the others. -/
lemma read_add (m : Mem) (a n k : ℕ) :
    m.read a (n + k) = m.read a n ++ m.read (a + n) k := by
  induction n generalizing a with
  | zero => simp
  | succ n ih =>
      rw [show n + 1 + k = (n + k) + 1 from by omega, read, ih, read, List.cons_append,
        show a + 1 + n = a + (n + 1) from by omega]

lemma read_congr {m m' : Mem} {a n : ℕ} (h : ∀ i, a ≤ i → i < a + n → m i = m' i) :
    m.read a n = m'.read a n := by
  apply List.ext_getElem?
  intro i
  rw [getElem?_read, getElem?_read]
  split_ifs with hi
  · rw [h (a + i) (by omega) (by omega)]
  · rfl

lemma take_read (m : Mem) (a : ℕ) {n k : ℕ} (h : k ≤ n) :
    (m.read a n).take k = m.read a k := by
  obtain ⟨d, rfl⟩ := Nat.exists_eq_add_of_le h
  rw [read_add, List.take_left' (length_read m a k)]

lemma drop_read (m : Mem) (a : ℕ) {n k : ℕ} (h : k ≤ n) :
    (m.read a n).drop k = m.read (a + k) (n - k) := by
  obtain ⟨d, rfl⟩ := Nat.exists_eq_add_of_le h
  rw [read_add, List.drop_left' (length_read m a k), Nat.add_sub_cancel_left]

/-- A range below the written one reads as before. -/
lemma read_write_below (m : Mem) {a b n : ℕ} (bs : List UInt8) (h : b + n ≤ a) :
    (m.write a bs).read b n = m.read b n := by
  apply read_congr
  intro i _ hi
  rw [write, if_neg (by omega)]

/-- A range above the written one reads as before. -/
lemma read_write_above (m : Mem) {a b n : ℕ} (bs : List UInt8) (h : a + bs.length ≤ b) :
    (m.write a bs).read b n = m.read b n := by
  apply read_congr
  intro i hb _
  rw [write, if_pos (by omega), List.getElem?_eq_none (by omega), Option.getD_none]

/-- A write next to the range that is read. -/
lemma read_write_apart (m : Mem) {a b n : ℕ} (bs : List UInt8)
    (h : b + n ≤ a ∨ a + bs.length ≤ b) : (m.write a bs).read b n = m.read b n := by
  rcases h with h | h
  · exact read_write_below m bs h
  · exact read_write_above m bs h

/-- **Read after write.**  The range just written reads back. -/
lemma read_write_self (m : Mem) (a : ℕ) (bs : List UInt8) {n : ℕ} (h : n = bs.length) :
    (m.write a bs).read a n = bs := by
  subst h
  apply List.ext_getElem?
  intro i
  rw [getElem?_read]
  split_ifs with hi
  · rw [write, if_pos (by omega), Nat.add_sub_cancel_left, List.getElem?_eq_getElem hi,
      Option.getD_some]
  · rw [List.getElem?_eq_none (by omega)]

/-- A write inside a range replaces exactly its own bytes there. -/
lemma read_write_inside (m : Mem) (a k : ℕ) (bs : List UInt8) {n : ℕ}
    (h : k + bs.length ≤ n) :
    (m.write (a + k) bs).read a n =
      m.read a k ++ bs ++ m.read (a + k + bs.length) (n - (k + bs.length)) := by
  obtain ⟨d, rfl⟩ := Nat.exists_eq_add_of_le h
  rw [Nat.add_assoc k, read_add, read_add, read_write_below m bs (le_refl _),
    read_write_self m _ bs rfl, read_write_above m bs (le_refl _), List.append_assoc,
    show k + (bs.length + d) - (k + bs.length) = d from by omega]

end Mem

/-! ## Little-endian integers -/

/-- The number a little-endian byte string denotes. -/
def leNat : List UInt8 → ℕ
  | [] => 0
  | b :: bs => b.toNat + 256 * leNat bs

/-- The `n` low-order bytes of `v`, least significant first. -/
def toLE : ℕ → ℕ → List UInt8
  | 0, _ => []
  | n + 1, v => UInt8.ofNat v :: toLE n (v / 256)

@[simp] lemma length_toLE (n v : ℕ) : (toLE n v).length = n := by
  induction n generalizing v with
  | zero => rfl
  | succ n ih => simp [toLE, ih]

@[simp] lemma take_toLE (n v : ℕ) : (toLE n v).take n = toLE n v :=
  List.take_of_length_le (by simp)

lemma leNat_lt (bs : List UInt8) : leNat bs < 256 ^ bs.length := by
  induction bs with
  | nil => simp [leNat]
  | cons b bs ih =>
      have hb := b.toNat_lt
      rw [leNat, List.length_cons, Nat.pow_succ]
      omega

/-- **The round trip.**  Writing the `n` low-order bytes of `v` and reading them back gives
`v` modulo `256 ^ n`. -/
lemma leNat_toLE (n v : ℕ) : leNat (toLE n v) = v % 256 ^ n := by
  induction n generalizing v with
  | zero => simp [toLE, leNat, Nat.mod_one]
  | succ n ih =>
      rw [toLE, leNat, ih, Nat.pow_succ, Nat.mul_comm _ 256, Nat.mod_mul]
      simp [UInt8.toNat_ofNat']

/-- Reading back is canonical: a byte string is the rendering of the number it denotes. -/
lemma toLE_leNat (bs : List UInt8) : toLE bs.length (leNat bs) = bs := by
  induction bs with
  | nil => rfl
  | cons b bs ih =>
      have hb := b.toNat_lt
      have hdiv : (b.toNat + 256 * leNat bs) / 256 = leNat bs := by omega
      have hbyte : UInt8.ofNat (b.toNat + 256 * leNat bs) = b := by
        apply UInt8.toNat_inj.mp
        rw [UInt8.toNat_ofNat']
        omega
      rw [List.length_cons, toLE, leNat, hdiv, hbyte, ih]

lemma leNat_toLE_of_lt {n v : ℕ} (h : v < 256 ^ n) : leNat (toLE n v) = v := by
  rw [leNat_toLE, Nat.mod_eq_of_lt h]

end LinuxC
