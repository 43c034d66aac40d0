import LinuxC.Common.GenericBit
import Mathlib.Order.Bounds.Basic

/-!
# The searches of `common/generic_bit.c`

`first_bit_one` is the search for a bit that is set.  Its inner loops shift zeros into the word as
those of `first_bit_zero` do, but a zero does not end them: they end because the first loop stops
at a word that is not `0`, which the type of the word carries through the loops.

Both functions return an `int`.  The index of a bit is narrowed to one when the loop over the words
ends; behind it only the place in the word is added, which does not leave the range of an `int`.
-/

namespace LinuxC.GenericBit

/-! ## The source -/

/-- A word at which the first loop of `first_bit_one` stops. -/
abbrev NonzeroWord := { tmp : UInt64 // tmp ≠ 0 }

/-- The first loop of `first_bit_one`, with the number of the words that were passed. -/
def skipZeroWords : ℕ → List UInt64 → Option (ℕ × NonzeroWord)
  | _, [] => none
  | n, tmp :: addr => if h : tmp = 0 then skipZeroWords (n + 1) addr else some (n, ⟨tmp, h⟩)

/-- Zeros at the low end are not the whole word. -/
lemma shiftRight_ne_zero {tmp mask k : UInt64} (hmask : mask.toNat + 1 = 2 ^ (k.toNat % 64))
    (hne : tmp ≠ 0) (hlow : tmp &&& mask = 0) : tmp >>> k ≠ 0 := by
  intro h
  refine hne (UInt64.toNat_inj.mp ?_)
  have hhigh := congrArg UInt64.toNat h
  have hzero := congrArg UInt64.toNat hlow
  have hm : mask.toNat = 2 ^ (k.toNat % 64) - 1 := by omega
  rw [UInt64.toNat_shiftRight, Nat.shiftRight_eq_div_pow] at hhigh
  rw [UInt64.toNat_and, hm, Nat.and_two_pow_sub_one_eq_mod] at hzero
  rw [← Nat.div_add_mod tmp.toNat (2 ^ (k.toNat % 64)), hhigh, hzero]
  rfl

/-- The second loop of `first_bit_one`. -/
def skipZeroBytes (offset : ℕ) (tmp : NonzeroWord) : ℕ × NonzeroWord :=
  if h : tmp.1 &&& 0xff = 0 then
    skipZeroBytes (offset + 8) ⟨tmp.1 >>> 8, shiftRight_ne_zero rfl tmp.2 h⟩
  else (offset, tmp)
termination_by tmp.1.toNat
decreasing_by exact toNat_shiftRight_lt (by decide) tmp.2

/-- The third loop of `first_bit_one`. -/
def skipZeros (offset : ℕ) (tmp : NonzeroWord) : ℕ :=
  if h : tmp.1 &&& 1 = 0 then
    skipZeros (offset + 1) ⟨tmp.1 >>> 1, shiftRight_ne_zero rfl tmp.2 h⟩
  else offset
termination_by tmp.1.toNat
decreasing_by exact toNat_shiftRight_lt (by decide) tmp.2

/-- The conversion to `int`. -/
def narrow (n : ℕ) : ℤ := (n : ℤ).bmod (2 ^ 32)

/-- `first_bit_zero` with the result that it returns. -/
def firstBitZeroInt (addr : List UInt64) : Option ℤ := do
  let (n, tmp) ← skipFullWords 0 addr
  let offset := narrow (n * bitsPerLong)
  let (bytes, tmp) := skipFullBytes 0 tmp
  return offset + skipOnes bytes tmp

def firstBitOne (addr : List UInt64) : Option ℤ := do
  let (n, tmp) ← skipZeroWords 0 addr
  let offset := narrow (n * bitsPerLong)
  let (bytes, tmp) := skipZeroBytes 0 tmp
  return offset + skipZeros bytes tmp

/-! ## One word -/

/-- The least bit of `n` that is set. -/
def FirstOne (n i : ℕ) : Prop := n.testBit i = true ∧ ∀ j < i, n.testBit j = false

/-- Zeros at the low end can be shifted out. -/
lemma firstOne_add {n k i : ℕ} (hlow : n &&& (2 ^ k - 1) = 0) (h : FirstOne (n >>> k) i) :
    FirstOne n (k + i) := by
  refine testBit_add_of_low (fun j hj => ?_) h.1 h.2
  have hbit := congrArg (Nat.testBit · j) hlow
  simpa [Nat.testBit_and, Nat.testBit_two_pow_sub_one, hj] using hbit

lemma skipZeros_spec (offset : ℕ) (tmp : NonzeroWord) :
    ∃ i, skipZeros offset tmp = offset + i ∧ FirstOne tmp.1.toNat i := by
  fun_induction skipZeros offset tmp with
  | case1 offset tmp h ih =>
      obtain ⟨i, heq, hi⟩ := ih
      rw [UInt64.toNat_shiftRight] at hi
      have hlow := congrArg UInt64.toNat h
      rw [UInt64.toNat_and] at hlow
      exact ⟨1 + i, by omega, firstOne_add hlow hi⟩
  | case2 offset tmp h =>
      refine ⟨0, rfl, ?_, by simp⟩
      have hne : (tmp.1 &&& 1).toNat ≠ 0 := fun h0 => h (UInt64.toNat_inj.mp h0)
      rw [UInt64.toNat_and] at hne
      change tmp.1.toNat &&& 1 ≠ 0 at hne
      rw [Nat.and_one_is_mod] at hne
      rw [Nat.testBit_zero]
      exact decide_eq_true (by omega)

/-- The two inner loops find the least bit of the word that is set. -/
lemma skipZeroBytes_spec (offset : ℕ) (tmp : NonzeroWord) :
    ∃ i, skipZeros (skipZeroBytes offset tmp).1 (skipZeroBytes offset tmp).2 = offset + i ∧
      FirstOne tmp.1.toNat i := by
  fun_induction skipZeroBytes offset tmp with
  | case1 offset tmp h ih =>
      obtain ⟨i, heq, hi⟩ := ih
      rw [UInt64.toNat_shiftRight] at hi
      have hlow := congrArg UInt64.toNat h
      rw [UInt64.toNat_and] at hlow
      exact ⟨8 + i, by omega, firstOne_add hlow hi⟩
  | case2 offset tmp h => exact skipZeros_spec offset tmp

lemma firstOne_lt {tmp : UInt64} {i : ℕ} (h : FirstOne tmp.toNat i) : i < 64 := by
  by_contra hge
  have hpow : 2 ^ 64 ≤ 2 ^ i := Nat.pow_le_pow_right (by decide) (by omega)
  rw [FirstOne, Nat.testBit_lt_two_pow (lt_of_lt_of_le tmp.toNat_lt hpow)] at h
  cases h.1

/-! ## The array -/

/-- The first loop finds the first word that is not `0`. -/
lemma skipZeroWords_eq (n : ℕ) (addr : List UInt64) :
    (skipZeroWords n addr).map (fun r => (r.1, r.2.1)) = skipWords 0 n addr := by
  induction addr generalizing n with
  | nil => rfl
  | cons tmp addr ih =>
      rw [skipZeroWords, skipWords]
      split_ifs with hzero
      · exact ih (n + 1)
      · rfl

/-- The index of a word is narrowed to an `int`, and what is added behind it fits. -/
lemma narrow_add (k : ℕ) {i : ℕ} (hi : i < 64) :
    narrow (k * bitsPerLong) + i = narrow (k * 64 + i) := by
  unfold narrow bitsPerLong
  rw [Int.bmod_def, Int.bmod_def]
  push_cast
  split_ifs <;> omega

/-- The conversion does nothing to a number that is an `int`. -/
lemma narrow_of_lt {n : ℕ} (h : n < 2 ^ 31) : narrow n = n :=
  Int.bmod_eq_of_le_mul_two (by push_cast; omega) (by push_cast; omega)

section FirstBit

variable {b : Bool} {addr : List UInt64} {nr : ℕ}

lemma firstBit_iff_isLeast : FirstBit b addr nr ↔
    IsLeast {n | n < addr.length * bitsPerLong ∧ testBit n addr = b} nr := by
  constructor
  · rintro ⟨hnr, hbit, hbelow⟩
    refine ⟨⟨hnr, hbit⟩, fun n hn => ?_⟩
    by_contra hlt
    have := hbelow n (by omega)
    rw [hn.2] at this
    simp at this
  · rintro ⟨⟨hnr, hbit⟩, hleast⟩
    refine ⟨hnr, hbit, fun j hj => ?_⟩
    by_contra hne
    have := hleast ⟨hj.trans hnr, Bool.not_eq_not.mp hne⟩
    omega

lemma FirstBit.unique {nr' : ℕ} (h : FirstBit b addr nr) (h' : FirstBit b addr nr') : nr = nr' :=
  (firstBit_iff_isLeast.mp h).unique (firstBit_iff_isLeast.mp h')

/-- What is behind the word of the bit does not matter. -/
lemma FirstBit.take (h : FirstBit b addr nr) : FirstBit b (addr.take (bitWord nr + 1)) nr := by
  obtain ⟨hnr, hbit, hbelow⟩ := h
  have hword : bitWord nr < addr.length := by
    unfold bitWord bitsPerLong at *
    omega
  have hsame : ∀ j ≤ nr, testBit j (addr.take (bitWord nr + 1)) = testBit j addr := by
    intro j hj
    have hle : j / 64 ≤ nr / 64 := Nat.div_le_div_right hj
    rw [testBit_eq, testBit_eq, List.getD_eq_getElem?_getD, List.getD_eq_getElem?_getD,
      List.getElem?_take_of_lt (by unfold bitWord bitsPerLong; omega)]
  refine ⟨?_, by rw [hsame nr le_rfl, hbit], fun j hj => by rw [hsame j hj.le, hbelow j hj]⟩
  rw [List.length_take_of_le hword]
  unfold bitWord bitsPerLong
  omega

/-- **`first_bit_zero`** returns the least bit that is not set. -/
lemma firstBitZeroInt_eq (h : FirstBit false addr nr) :
    firstBitZeroInt addr = some (narrow nr) := by
  rw [firstBitZeroInt]
  cases hwords : skipFullWords 0 addr with
  | none =>
      obtain ⟨i, hi⟩ := exists_firstBitZero h.1 h.2.1
      rw [firstBitZero, hwords] at hi
      cases hi
  | some word =>
      obtain ⟨m, tmp⟩ := word
      obtain ⟨k, hm, hk, hne, hbelow⟩ := skipWords_eq_some (skipFullWords_eq 0 addr ▸ hwords)
      obtain ⟨i, hi, hzero⟩ := skipFullBytes_spec 0 tmp
      have hi64 := firstZero_lt hzero hne
      have hfirst : FirstBit false addr (k * 64 + i) :=
        firstBit_of_word hk hi64 hzero.1 hzero.2 fun m hm =>
          ⟨_, hbelow m hm, fun j hj => testBit_bitsMskLong hj⟩
      obtain rfl : m = k := by omega
      obtain rfl : _ = i := hi.trans (Nat.zero_add i)
      rw [h.unique hfirst, ← narrow_add m hi64]
      rfl

/-- **`first_bit_one`** returns the least bit that is set. -/
lemma firstBitOne_eq (h : FirstBit true addr nr) : firstBitOne addr = some (narrow nr) := by
  have hskip := skipZeroWords_eq 0 addr
  rw [firstBitOne]
  cases hwords : skipZeroWords 0 addr with
  | none =>
      obtain ⟨tmp, htmp⟩ := exists_word h.1
      have hzero := skipWords_eq_none (hskip.symm.trans (congrArg _ hwords)) tmp
        (List.mem_of_getElem? htmp)
      have hbit := h.2.1
      rw [testBit_getD htmp (Nat.mod_lt nr (by decide)) (Nat.div_add_mod' nr 64).symm, hzero,
        UInt64.toNat_zero, Nat.zero_testBit] at hbit
      cases hbit
  | some word =>
      obtain ⟨m, tmp⟩ := word
      obtain ⟨k, hm, hk, -, hbelow⟩ := skipWords_eq_some (hskip.symm.trans (congrArg _ hwords))
      obtain ⟨i, hi, hone⟩ := skipZeroBytes_spec 0 tmp
      have hi64 := firstOne_lt hone
      have hfirst : FirstBit true addr (k * 64 + i) :=
        firstBit_of_word hk hi64 hone.1 hone.2 fun m hm =>
          ⟨_, hbelow m hm, fun j _ => by rw [UInt64.toNat_zero, Nat.zero_testBit]; rfl⟩
      obtain rfl : m = k := by omega
      obtain rfl : _ = i := hi.trans (Nat.zero_add i)
      rw [h.unique hfirst, ← narrow_add m hi64]
      rfl

end FirstBit

/-- **The bitmap.**  The searches return the least index of a bit, if that is an `int`, and read no
word behind the one of the bit; the other functions change the bit they are called for and no
other. -/
theorem bitmap_functions (addr : List UInt64) :
    (∀ nr, IsLeast {n | n < addr.length * bitsPerLong ∧ testBit n addr = false} nr →
      nr < 2 ^ 31 → firstBitZeroInt addr = some (nr : ℤ) ∧
        firstBitZeroInt (addr.take (bitWord nr + 1)) = some (nr : ℤ)) ∧
    (∀ nr, IsLeast {n | n < addr.length * bitsPerLong ∧ testBit n addr = true} nr →
      nr < 2 ^ 31 → firstBitOne addr = some (nr : ℤ) ∧
        firstBitOne (addr.take (bitWord nr + 1)) = some (nr : ℤ)) ∧
    ∀ nr j, j < addr.length * bitsPerLong →
      testBit j (setBit nr addr) = (if j = nr then true else testBit j addr) ∧
      testBit j (clearBit nr addr) = (if j = nr then false else testBit j addr) ∧
      testBit j (changeBit nr addr) = if j = nr then !testBit j addr else testBit j addr := by
  refine ⟨fun nr hleast hint => ?_, fun nr hleast hint => ?_, fun nr j hj =>
    ⟨testBit_setBit hj, testBit_clearBit hj, testBit_changeBit hj⟩⟩
  · have h := firstBit_iff_isLeast.mpr hleast
    rw [firstBitZeroInt_eq h, firstBitZeroInt_eq h.take, narrow_of_lt hint]
    exact ⟨rfl, rfl⟩
  · have h := firstBit_iff_isLeast.mpr hleast
    rw [firstBitOne_eq h, firstBitOne_eq h.take, narrow_of_lt hint]
    exact ⟨rfl, rfl⟩

theorem bitmap_functions_sample : firstBitZeroInt [3, 0] = some 2 := by
  refine ((bitmap_functions [3, 0]).1 2 ⟨by decide, fun n hn => ?_⟩ (by decide)).1
  by_contra hlt
  obtain rfl | rfl : n = 0 ∨ n = 1 := by omega
  · exact absurd hn.2 (by decide)
  · exact absurd hn.2 (by decide)

/-- A bitmap of 256 MB that is full but for the last word: the index of the bit is no `int`. -/
def fullBitmap : List UInt64 := List.replicate (2 ^ 25) bitsMskLong ++ [0]

lemma firstBit_fullBitmap : FirstBit false fullBitmap (2 ^ 25 * 64 + 0) := by
  have hlast : fullBitmap[2 ^ 25]? = some 0 := by
    rw [fullBitmap, List.getElem?_append_right (by rw [List.length_replicate]),
      List.length_replicate, Nat.sub_self]
    rfl
  refine firstBit_of_word hlast (by decide) ?_ (by simp) fun m hm =>
    ⟨bitsMskLong, ?_, fun j hj => testBit_bitsMskLong hj⟩
  · rw [UInt64.toNat_zero, Nat.zero_testBit]
  · rw [fullBitmap, List.getElem?_append_left (by rwa [List.length_replicate]),
      List.getElem?_replicate_of_lt hm]

/-- **A bitmap that is too large**: with `2 ^ 25` full words in front of it the first zero bit has a
number that an `int` does not hold, and the search returns a negative one. -/
theorem firstBitZeroInt_fullBitmap : ¬ ∀ addr nr,
    IsLeast {n | n < addr.length * bitsPerLong ∧ testBit n addr = false} nr →
      firstBitZeroInt addr = some (nr : ℤ) := by
  intro h
  have hnr := h fullBitmap _ (firstBit_iff_isLeast.mp firstBit_fullBitmap)
  rw [firstBitZeroInt_eq firstBit_fullBitmap, Option.some.injEq] at hnr
  exact absurd hnr (by decide)

end LinuxC.GenericBit
