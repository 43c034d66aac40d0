import Mathlib.Data.Nat.Bitwise
import Mathlib.Data.List.Basic

/-!
# Bitmaps of whole words

`common/generic_bit.c` with `include/generic_bit.h`.  A bitmap is an array of words; a bit has the
number of its word times `BITS_PER_LONG` plus its place in the word.

`first_bit_zero` has no length: it goes on until it meets a word that is not full.  On a list of
words that are all full it reads behind the array, and there is no result.  Otherwise the two inner
loops end, since they shift zeros into the word, and the result is the least bit that is not set
(`firstBitZero_eq_some_iff`).
-/

namespace LinuxC.GenericBit

def bitsPerLong : ℕ := 64

def bitsMskLong : UInt64 := ~~~0

def bitMask (nr : ℕ) : UInt64 := 1 <<< UInt64.ofNat (nr % bitsPerLong)

def bitWord (nr : ℕ) : ℕ := nr / bitsPerLong

/-- `set_bit`, for a bit of the array. -/
def setBit (nr : ℕ) (addr : List UInt64) : List UInt64 :=
  addr.modify (bitWord nr) (· ||| bitMask nr)

/-- `clear_bit`, for a bit of the array. -/
def clearBit (nr : ℕ) (addr : List UInt64) : List UInt64 :=
  addr.modify (bitWord nr) (· &&& ~~~bitMask nr)

/-- `change_bit`, for a bit of the array. -/
def changeBit (nr : ℕ) (addr : List UInt64) : List UInt64 :=
  addr.modify (bitWord nr) (· ^^^ bitMask nr)

/-- `test_bit`, for a bit of the array. -/
def testBit (nr : ℕ) (addr : List UInt64) : Bool :=
  1 &&& (addr.getD (bitWord nr) 0 >>> UInt64.ofNat (nr &&& (bitsPerLong - 1))) ≠ 0

/-- The first loop of `first_bit_zero`, with the number of the words that were passed. -/
def skipFullWords : ℕ → List UInt64 → Option (ℕ × UInt64)
  | _, [] => none
  | n, tmp :: addr => if tmp = bitsMskLong then skipFullWords (n + 1) addr else some (n, tmp)

lemma toNat_shiftRight_lt {tmp : UInt64} {k : UInt64} (hk : k.toNat % 64 ≠ 0) (h : tmp ≠ 0) :
    (tmp >>> k).toNat < tmp.toNat := by
  have hpos : 0 < tmp.toNat := by
    rw [Nat.pos_iff_ne_zero]
    exact fun h0 => h (UInt64.toNat_inj.mp h0)
  rw [UInt64.toNat_shiftRight, Nat.shiftRight_eq_div_pow]
  exact Nat.div_lt_self hpos (Nat.one_lt_two_pow hk)

/-- The second loop of `first_bit_zero`. -/
def skipFullBytes (offset : ℕ) (tmp : UInt64) : ℕ × UInt64 :=
  if tmp &&& 0xff = 0xff then skipFullBytes (offset + 8) (tmp >>> 8) else (offset, tmp)
termination_by tmp.toNat
decreasing_by
  rename_i h
  refine toNat_shiftRight_lt (by decide) ?_
  rintro rfl
  exact absurd h (by decide)

/-- The third loop of `first_bit_zero`. -/
def skipOnes (offset : ℕ) (tmp : UInt64) : ℕ :=
  if tmp &&& 1 ≠ 0 then skipOnes (offset + 1) (tmp >>> 1) else offset
termination_by tmp.toNat
decreasing_by
  rename_i h
  refine toNat_shiftRight_lt (by decide) ?_
  rintro rfl
  exact h (by decide)

def firstBitZero (addr : List UInt64) : Option ℕ := do
  let (n, tmp) ← skipFullWords 0 addr
  let (offset, tmp) := skipFullBytes (n * bitsPerLong) tmp
  return skipOnes offset tmp

/-! ## One word -/

/-- The least bit of `n` that is not set. -/
def FirstZero (n i : ℕ) : Prop := n.testBit i = false ∧ ∀ j < i, n.testBit j = true

/-- Bits with the other value at the low end can be shifted out. -/
lemma testBit_add_of_low {b : Bool} {n k i : ℕ} (hlow : ∀ j < k, n.testBit j = !b)
    (hi : (n >>> k).testBit i = b) (hbelow : ∀ j < i, (n >>> k).testBit j = !b) :
    n.testBit (k + i) = b ∧ ∀ j < k + i, n.testBit j = !b := by
  refine ⟨by rwa [Nat.testBit_shiftRight] at hi, fun j hj => ?_⟩
  rcases lt_or_ge j k with hjk | hjk
  · exact hlow j hjk
  · have := hbelow (j - k) (by omega)
    rwa [Nat.testBit_shiftRight, Nat.add_sub_cancel' hjk] at this

/-- Ones at the low end can be shifted out. -/
lemma firstZero_add {n k i : ℕ} (hlow : ∀ j < k, n.testBit j = true)
    (h : FirstZero (n >>> k) i) : FirstZero n (k + i) :=
  testBit_add_of_low hlow h.1 h.2

lemma testBit_of_and_eq {n k j : ℕ} (h : n &&& (2 ^ k - 1) = 2 ^ k - 1) (hj : j < k) :
    n.testBit j = true := by
  have hbit := congrArg (Nat.testBit · j) h
  simpa [Nat.testBit_and, Nat.testBit_two_pow_sub_one, hj] using hbit

lemma skipOnes_spec (offset : ℕ) (tmp : UInt64) :
    ∃ i, skipOnes offset tmp = offset + i ∧ FirstZero tmp.toNat i := by
  fun_induction skipOnes offset tmp with
  | case1 offset tmp h ih =>
      obtain ⟨i, heq, hi⟩ := ih
      refine ⟨1 + i, by omega, firstZero_add (fun j hj => ?_) ?_⟩
      · refine testBit_of_and_eq (k := 1) ?_ hj
        have hne : (tmp &&& 1).toNat ≠ 0 := fun h0 => h (UInt64.toNat_inj.mp h0)
        rw [UInt64.toNat_and] at hne
        change tmp.toNat &&& 1 ≠ 0 at hne
        change tmp.toNat &&& 1 = 1
        rw [Nat.and_one_is_mod] at hne ⊢
        omega
      · rwa [UInt64.toNat_shiftRight] at hi
  | case2 offset tmp h =>
      refine ⟨0, rfl, ?_, by simp⟩
      have h0 : tmp &&& 1 = 0 := not_not.mp h
      have hnat := congrArg UInt64.toNat h0
      rw [UInt64.toNat_and] at hnat
      change tmp.toNat &&& 1 = 0 at hnat
      rw [Nat.and_one_is_mod] at hnat
      rw [Nat.testBit_zero, hnat]
      rfl

/-- The two inner loops find the least bit of the word that is not set. -/
lemma skipFullBytes_spec (offset : ℕ) (tmp : UInt64) :
    ∃ i, skipOnes (skipFullBytes offset tmp).1 (skipFullBytes offset tmp).2 = offset + i ∧
      FirstZero tmp.toNat i := by
  fun_induction skipFullBytes offset tmp with
  | case1 offset tmp h ih =>
      obtain ⟨i, heq, hi⟩ := ih
      refine ⟨8 + i, by omega, firstZero_add (fun j hj => ?_) ?_⟩
      · refine testBit_of_and_eq (k := 8) ?_ hj
        have hnat := congrArg UInt64.toNat h
        rwa [UInt64.toNat_and] at hnat
      · rwa [UInt64.toNat_shiftRight] at hi
  | case2 offset tmp h => exact skipOnes_spec offset tmp

/-! ## The array -/

lemma testBit_eq (nr : ℕ) (addr : List UInt64) :
    testBit nr addr = (addr.getD (nr / 64) 0).toNat.testBit (nr % 64) := by
  have hshift : (UInt64.ofNat (nr &&& (bitsPerLong - 1))).toNat % 64 = nr % 64 := by
    have hand : nr &&& (bitsPerLong - 1) = nr % 64 := Nat.and_two_pow_sub_one_eq_mod nr 6
    rw [hand, UInt64.toNat_ofNat']
    omega
  have hone : (1 : UInt64).toNat = 1 := rfl
  rw [Bool.eq_iff_iff, testBit, decide_eq_true_iff, ne_eq, ← UInt64.toNat_inj, UInt64.toNat_and,
    UInt64.toNat_shiftRight, hshift, hone, UInt64.toNat_zero, Nat.testBit, bne_iff_ne]
  rfl

lemma testBit_getD {nr : ℕ} {addr : List UInt64} {tmp : UInt64} {k i : ℕ}
    (hk : addr[k]? = some tmp) (hi : i < 64) (hnr : nr = k * 64 + i) :
    testBit nr addr = tmp.toNat.testBit i := by
  have hdiv : nr / 64 = k := by omega
  have hmod : nr % 64 = i := by omega
  rw [testBit_eq, hdiv, hmod, List.getD_eq_getElem?_getD, hk]
  rfl

/-- The least bit of the array with the value `b`. -/
def FirstBit (b : Bool) (addr : List UInt64) (nr : ℕ) : Prop :=
  nr < addr.length * bitsPerLong ∧ testBit nr addr = b ∧ ∀ j < nr, testBit j addr = !b

/-- The least bit with a value is in the first word that has such a bit. -/
lemma firstBit_of_word {b : Bool} {addr : List UInt64} {tmp : UInt64} {k i : ℕ}
    (hk : addr[k]? = some tmp) (hi : i < 64) (hbit : tmp.toNat.testBit i = b)
    (hlow : ∀ j < i, tmp.toNat.testBit j = !b)
    (hbelow : ∀ m < k, ∃ word : UInt64, addr[m]? = some word ∧
      ∀ j < 64, word.toNat.testBit j = !b) : FirstBit b addr (k * 64 + i) := by
  have hlen := (List.getElem?_eq_some_iff.mp hk).1
  refine ⟨by rw [bitsPerLong]; omega, ?_, fun j hj => ?_⟩
  · rw [testBit_getD hk hi rfl]
    exact hbit
  · rcases lt_or_ge (j / 64) k with hjk | hjk
    · obtain ⟨word, hword, hall⟩ := hbelow _ hjk
      rw [testBit_getD hword (Nat.mod_lt j (by decide)) (Nat.div_add_mod' j 64).symm]
      exact hall _ (Nat.mod_lt j (by decide))
    · rw [testBit_getD (i := j - k * 64) hk (by omega) (by omega)]
      exact hlow _ (by omega)

lemma testBit_bitsMskLong {i : ℕ} (hi : i < 64) : bitsMskLong.toNat.testBit i = true := by
  have hnat : bitsMskLong.toNat = 2 ^ 64 - 1 := rfl
  rw [hnat, Nat.testBit_two_pow_sub_one]
  exact decide_eq_true hi

lemma firstZero_lt {tmp : UInt64} {i : ℕ} (h : FirstZero tmp.toNat i) (hne : tmp ≠ bitsMskLong) :
    i < 64 := by
  by_contra hge
  refine hne (UInt64.toNat_inj.mp (Nat.eq_of_testBit_eq fun j => ?_))
  rcases lt_or_ge j 64 with hj | hj
  · rw [testBit_bitsMskLong hj]
    exact h.2 j (by omega)
  · have hhigh : ∀ t : UInt64, t.toNat.testBit j = false := fun t =>
      Nat.testBit_lt_two_pow (lt_of_lt_of_le t.toNat_lt (Nat.pow_le_pow_right (by decide) hj))
    rw [hhigh, hhigh]

/-- The first loop of both searches, that passes the words equal to `mask`. -/
def skipWords (mask : UInt64) : ℕ → List UInt64 → Option (ℕ × UInt64)
  | _, [] => none
  | n, tmp :: addr => if tmp = mask then skipWords mask (n + 1) addr else some (n, tmp)

lemma skipWords_eq_some {mask : UInt64} {n m : ℕ} {addr : List UInt64} {tmp : UInt64}
    (h : skipWords mask n addr = some (m, tmp)) :
    ∃ k, m = n + k ∧ addr[k]? = some tmp ∧ tmp ≠ mask ∧ ∀ j < k, addr[j]? = some mask := by
  induction addr generalizing n with
  | nil => cases h
  | cons word addr ih =>
      rw [skipWords] at h
      split_ifs at h with hmask
      · obtain ⟨k, hm, hk, hne, hbelow⟩ := ih h
        refine ⟨k + 1, by omega, by simpa using hk, hne, fun j hj => ?_⟩
        cases j with
        | zero => simp [hmask]
        | succ j => simpa using hbelow j (by omega)
      · obtain ⟨rfl, rfl⟩ := Prod.mk.inj (Option.some.inj h)
        exact ⟨0, rfl, rfl, hmask, by simp⟩

lemma skipWords_eq_none {mask : UInt64} {n : ℕ} {addr : List UInt64}
    (h : skipWords mask n addr = none) : ∀ word ∈ addr, word = mask := by
  induction addr generalizing n with
  | nil => simp
  | cons word addr ih =>
      rw [skipWords] at h
      split_ifs at h with hmask
      intro word' hword
      rcases List.mem_cons.mp hword with rfl | hword
      · exact hmask
      · exact ih h word' hword

lemma skipFullWords_eq (n : ℕ) (addr : List UInt64) :
    skipFullWords n addr = skipWords bitsMskLong n addr := by
  induction addr generalizing n with
  | nil => rfl
  | cons tmp addr ih => rw [skipFullWords, skipWords, ih]

/-- A bit of the array is in a word. -/
lemma exists_word {nr : ℕ} {addr : List UInt64} (h : nr < addr.length * bitsPerLong) :
    ∃ tmp, addr[nr / 64]? = some tmp := by
  have hlt : nr / 64 < addr.length := by
    rw [bitsPerLong] at h
    omega
  exact ⟨_, List.getElem?_eq_getElem hlt⟩

lemma firstBitZero_spec {addr : List UInt64} {i : ℕ} (h : firstBitZero addr = some i) :
    i < addr.length * bitsPerLong ∧ testBit i addr = false ∧ ∀ j < i, testBit j addr = true := by
  obtain ⟨⟨m, tmp⟩, hwords, hi⟩ := Option.bind_eq_some_iff.mp h
  obtain ⟨k, hm, hk, hne, hbelow⟩ := skipWords_eq_some (skipFullWords_eq 0 addr ▸ hwords)
  obtain ⟨b, hb, hzero⟩ := skipFullBytes_spec (m * bitsPerLong) tmp
  have hb64 := firstZero_lt hzero hne
  obtain rfl : i = k * 64 + b := by
    have hi' : skipOnes (skipFullBytes (m * bitsPerLong) tmp).1
        (skipFullBytes (m * bitsPerLong) tmp).2 = i := Option.some.inj hi
    rw [bitsPerLong] at hb hi'
    omega
  exact firstBit_of_word hk hb64 hzero.1 hzero.2 fun m hm =>
    ⟨_, hbelow m hm, fun j hj => testBit_bitsMskLong hj⟩

/-- The search ends at a bit that is not set. -/
lemma exists_firstBitZero {addr : List UInt64} {nr : ℕ} (hnr : nr < addr.length * bitsPerLong)
    (h : testBit nr addr = false) : ∃ i, firstBitZero addr = some i := by
  rw [firstBitZero]
  cases hwords : skipFullWords 0 addr with
  | some word => exact ⟨_, rfl⟩
  | none =>
      obtain ⟨tmp, htmp⟩ := exists_word hnr
      have hfull := skipWords_eq_none (skipFullWords_eq 0 addr ▸ hwords) tmp
        (List.mem_of_getElem? htmp)
      rw [testBit_getD htmp (Nat.mod_lt nr (by decide)) (Nat.div_add_mod' nr 64).symm, hfull,
        testBit_bitsMskLong (Nat.mod_lt nr (by decide))] at h
      cases h

/-- **`first_bit_zero`** is the least bit of the array that is not set. -/
theorem firstBitZero_eq_some_iff {addr : List UInt64} {i : ℕ} :
    firstBitZero addr = some i ↔
      i < addr.length * bitsPerLong ∧ testBit i addr = false ∧
        ∀ j < i, testBit j addr = true := by
  refine ⟨firstBitZero_spec, fun ⟨hi, hzero, hbelow⟩ => ?_⟩
  obtain ⟨i', hi'⟩ := exists_firstBitZero hi hzero
  obtain ⟨-, hzero', hbelow'⟩ := firstBitZero_spec hi'
  rcases lt_trichotomy i i' with hlt | rfl | hlt
  · rw [hbelow' i hlt] at hzero
    cases hzero
  · exact hi'
  · rw [hbelow i' hlt] at hzero'
    cases hzero'

/-- The search reads behind the array when every bit is set. -/
theorem firstBitZero_eq_none_iff {addr : List UInt64} :
    firstBitZero addr = none ↔ ∀ nr < addr.length * bitsPerLong, testBit nr addr = true := by
  constructor
  · intro h nr hnr
    by_contra hbit
    obtain ⟨i, hi⟩ := exists_firstBitZero hnr (by simpa using hbit)
    rw [h] at hi
    cases hi
  · intro h
    cases hi : firstBitZero addr with
    | none => rfl
    | some i =>
        obtain ⟨hlt, hzero, -⟩ := firstBitZero_spec hi
        rw [h i hlt] at hzero
        cases hzero

/-! ## Setting and clearing -/

lemma toNat_bitMask (nr : ℕ) : (bitMask nr).toNat = 2 ^ (nr % 64) := by
  have hlt : 2 ^ (nr % 64) < 2 ^ 64 := Nat.pow_lt_pow_right (by decide) (Nat.mod_lt nr (by decide))
  have hmod : (UInt64.ofNat (nr % bitsPerLong)).toNat % 64 = nr % 64 := by
    rw [bitsPerLong, UInt64.toNat_ofNat']
    omega
  have hone : (1 : UInt64).toNat = 1 := rfl
  rw [bitMask, UInt64.toNat_shiftLeft, hmod, hone, Nat.shiftLeft_eq, Nat.one_mul,
    Nat.mod_eq_of_lt hlt]

lemma testBit_or_bitMask (tmp : UInt64) (nr : ℕ) {i : ℕ} :
    (tmp ||| bitMask nr).toNat.testBit i = (tmp.toNat.testBit i || decide (nr % 64 = i)) := by
  rw [UInt64.toNat_or, Nat.testBit_or, toNat_bitMask, Nat.testBit_two_pow]

lemma testBit_and_not_bitMask (tmp : UInt64) (nr : ℕ) {i : ℕ} (hi : i < 64) :
    (tmp &&& ~~~bitMask nr).toNat.testBit i = (tmp.toNat.testBit i && !decide (nr % 64 = i)) := by
  have hnot : (~~~bitMask nr).toNat = 2 ^ 64 - (2 ^ (nr % 64) + 1) := by
    rw [UInt64.toNat_not, toNat_bitMask]
    have hsize : UInt64.size = 2 ^ 64 := rfl
    omega
  have hlt : 2 ^ (nr % 64) < 2 ^ 64 := Nat.pow_lt_pow_right (by decide) (Nat.mod_lt nr (by decide))
  rw [UInt64.toNat_and, Nat.testBit_and, hnot, Nat.testBit_two_pow_sub_succ hlt,
    Nat.testBit_two_pow, decide_eq_true hi, Bool.true_and]

lemma testBit_xor_bitMask (tmp : UInt64) (nr : ℕ) {i : ℕ} :
    (tmp ^^^ bitMask nr).toNat.testBit i = (tmp.toNat.testBit i ^^ decide (nr % 64 = i)) := by
  rw [UInt64.toNat_xor, Nat.testBit_xor, toNat_bitMask, Nat.testBit_two_pow]

/-- A change of the word of one bit, seen from the bits. -/
lemma testBit_modify (f : UInt64 → UInt64) (nr : ℕ) {addr : List UInt64} {j : ℕ}
    (hj : j < addr.length * bitsPerLong) :
    ∃ tmp : UInt64, testBit j addr = tmp.toNat.testBit (j % 64) ∧
      testBit j (addr.modify (bitWord nr) f) =
        (if j / 64 = nr / 64 then f tmp else tmp).toNat.testBit (j % 64) := by
  obtain ⟨tmp, htmp⟩ := exists_word hj
  refine ⟨tmp, testBit_getD htmp (Nat.mod_lt j (by decide)) (Nat.div_add_mod' j 64).symm, ?_⟩
  have hword : (addr.modify (bitWord nr) f)[j / 64]? =
      some (if j / 64 = nr / 64 then f tmp else tmp) := by
    rw [List.getElem?_modify, htmp, bitWord, bitsPerLong]
    simp only [eq_comm]
    rfl
  exact testBit_getD hword (Nat.mod_lt j (by decide)) (Nat.div_add_mod' j 64).symm

/-- **`set_bit`** sets its bit and no other. -/
theorem testBit_setBit {addr : List UInt64} {nr j : ℕ} (hj : j < addr.length * bitsPerLong) :
    testBit j (setBit nr addr) = if j = nr then true else testBit j addr := by
  obtain ⟨tmp, hold, hnew⟩ := testBit_modify (· ||| bitMask nr) nr hj
  rw [setBit, hnew, hold]
  by_cases hjn : j = nr
  · subst hjn
    rw [if_pos rfl, if_pos rfl, testBit_or_bitMask]
    simp
  · rw [if_neg hjn]
    split_ifs with hword
    · rw [testBit_or_bitMask, decide_eq_false (by omega), Bool.or_false]
    · rfl

/-- **`clear_bit`** clears its bit and no other. -/
theorem testBit_clearBit {addr : List UInt64} {nr j : ℕ} (hj : j < addr.length * bitsPerLong) :
    testBit j (clearBit nr addr) = if j = nr then false else testBit j addr := by
  obtain ⟨tmp, hold, hnew⟩ := testBit_modify (· &&& ~~~bitMask nr) nr hj
  have hlt : j % 64 < 64 := Nat.mod_lt j (by decide)
  rw [clearBit, hnew, hold]
  by_cases hjn : j = nr
  · subst hjn
    rw [if_pos rfl, if_pos rfl, testBit_and_not_bitMask tmp j hlt]
    simp
  · rw [if_neg hjn]
    split_ifs with hword
    · rw [testBit_and_not_bitMask tmp nr hlt, decide_eq_false (by omega), Bool.not_false,
        Bool.and_true]
    · rfl

/-- **`change_bit`** inverts its bit and no other. -/
theorem testBit_changeBit {addr : List UInt64} {nr j : ℕ} (hj : j < addr.length * bitsPerLong) :
    testBit j (changeBit nr addr) = if j = nr then !testBit j addr else testBit j addr := by
  obtain ⟨tmp, hold, hnew⟩ := testBit_modify (· ^^^ bitMask nr) nr hj
  rw [changeBit, hnew, hold]
  by_cases hjn : j = nr
  · subst hjn
    rw [if_pos rfl, if_pos rfl, testBit_xor_bitMask, decide_eq_true rfl, Bool.xor_true]
  · rw [if_neg hjn]
    split_ifs with hword
    · rw [testBit_xor_bitMask, decide_eq_false (by omega), Bool.xor_false]
    · rfl

@[simp] lemma length_setBit (nr : ℕ) (addr : List UInt64) :
    (setBit nr addr).length = addr.length := List.length_modify ..

@[simp] lemma length_clearBit (nr : ℕ) (addr : List UInt64) :
    (clearBit nr addr).length = addr.length := List.length_modify ..

@[simp] lemma length_changeBit (nr : ℕ) (addr : List UInt64) :
    (changeBit nr addr).length = addr.length := List.length_modify ..

end LinuxC.GenericBit
