import Mathlib.Data.Nat.Bitwise
import Mathlib.Data.List.Basic

/-!
# Bits of masks and topics

`bit_index` and `bit_count` of `ipc/ipc_server.c`, and the rank of a bit: the number of bits of
the mask below it.  A peer has one node for each bit of its mask, at the index that is the
rank of the bit, and `bit_count` is the number of its nodes.
-/

namespace LinuxC.Ipc

/-- The loop of `bit_index`, after the first shift. -/
def bitIndexLoop : ℕ → UInt64 → ℕ → ℕ
  | 0, _, i => i
  | fuel + 1, mask, i => if mask >>> 1 = 0 then i else bitIndexLoop fuel (mask >>> 1) (i + 1)

/-- `bit_index`: the loop ends after 64 shifts at the latest. -/
def bitIndex (mask : UInt64) : ℕ := bitIndexLoop 64 mask 0

/-- The loop of `bit_count`. -/
def bitCountLoop : ℕ → UInt64 → ℕ → ℕ
  | 0, _, i => i
  | fuel + 1, mask, i => if mask = 0 then i else bitCountLoop fuel (mask &&& (mask - 1)) (i + 1)

/-- `bit_count`: every turn of the loop clears a bit. -/
def bitCount (mask : UInt64) : ℕ := bitCountLoop 64 mask 0

/-- The number of bits of `n` below `i`. -/
def rank (n i : ℕ) : ℕ := (List.range i).countP n.testBit

/-! ## Ranks -/

lemma rank_succ (n i : ℕ) : rank n (i + 1) = rank n i + if n.testBit i then 1 else 0 := by
  simp [rank, List.range_succ, List.countP_append, List.countP_singleton]

lemma rank_mono (n : ℕ) {i j : ℕ} (h : i ≤ j) : rank n i ≤ rank n j := by
  induction h with
  | refl => exact le_refl _
  | step _ ih =>
      rw [rank_succ]
      omega

/-- A bit has a smaller rank than what is above it. -/
lemma rank_lt {n i j : ℕ} (hi : n.testBit i = true) (h : i < j) : rank n i < rank n j := by
  have hle := rank_mono n (show i + 1 ≤ j from h)
  rw [rank_succ, if_pos hi] at hle
  omega

lemma rank_inj {n i j : ℕ} (hi : n.testBit i = true) (hj : n.testBit j = true)
    (h : rank n i = rank n j) : i = j := by
  rcases lt_trichotomy i j with hij | hij | hij
  · have := rank_lt hi hij
    omega
  · exact hij
  · have := rank_lt hj hij
    omega

/-- Among the bits that are set, the rank of `i` is that of `i` only. -/
lemma rank_eq_iff {n i j : ℕ} (hi : n.testBit i = true) :
    n.testBit j = true ∧ rank n i = rank n j ↔ j = i := by
  constructor
  · rintro ⟨hj, hrank⟩
    exact (rank_inj hi hj hrank).symm
  · rintro rfl
    exact ⟨hi, rfl⟩

/-- Every index below the number of bits is the rank of a bit. -/
lemma exists_rank {n k j : ℕ} (h : j < rank n k) :
    ∃ i < k, n.testBit i = true ∧ rank n i = j := by
  induction k with
  | zero => simp [rank] at h
  | succ k ih =>
      rw [rank_succ] at h
      rcases lt_or_ge j (rank n k) with hlt | hge
      · obtain ⟨i, hi, hbit, hr⟩ := ih hlt
        exact ⟨i, by omega, hbit, hr⟩
      · split_ifs at h with hbit
        · exact ⟨k, by omega, hbit, by omega⟩
        · omega

lemma rank_half (n k : ℕ) : rank n (k + 1) = n % 2 + rank (n / 2) k := by
  simp only [rank, List.range_succ_eq_map, List.countP_cons, List.countP_map]
  have hshift : (n.testBit ∘ Nat.succ) = (n / 2).testBit := by
    funext i
    simp [Nat.testBit_succ]
  rw [hshift, Nat.testBit_zero]
  rcases Nat.mod_two_eq_zero_or_one n with h | h <;> simp [h, Nat.add_comm]

/-! ## The loops -/

lemma rank_clear {n k : ℕ} (h0 : n ≠ 0) (hk : n < 2 ^ k) :
    rank (n &&& (n - 1)) k + 1 = rank n k := by
  induction k generalizing n with
  | zero => omega
  | succ k ih =>
      have hdiv : (n &&& (n - 1)) / 2 = n / 2 &&& (n - 1) / 2 := Nat.and_div_two
      have hmod : (n &&& (n - 1)) % 2 = 0 := by
        have hodd : (n &&& (n - 1)) % 2 ≠ 1 := by
          rw [Ne, Nat.and_mod_two_eq_one]
          omega
        omega
      rw [rank_half, rank_half n, hdiv, hmod]
      rcases Nat.mod_two_eq_zero_or_one n with hn | hn
      · have hhalf : (n - 1) / 2 = n / 2 - 1 := by omega
        have := ih (n := n / 2) (by omega) (by omega)
        rw [hhalf, hn]
        omega
      · have hhalf : (n - 1) / 2 = n / 2 := by omega
        rw [hhalf, Nat.and_self, hn]
        omega

lemma toNat_clear {mask : UInt64} (h : mask ≠ 0) :
    (mask &&& (mask - 1)).toNat = mask.toNat &&& (mask.toNat - 1) := by
  have hpos : 0 < mask.toNat := by
    rw [Nat.pos_iff_ne_zero]
    intro h0
    exact h (UInt64.toNat_inj.mp h0)
  have hone : (1 : UInt64) ≤ mask := by
    rw [UInt64.le_iff_toNat_le]
    exact hpos
  rw [UInt64.toNat_and, UInt64.toNat_sub_of_le _ _ hone]
  rfl

lemma bitCountLoop_eq {fuel : ℕ} {mask : UInt64} (i : ℕ) (h : rank mask.toNat 64 ≤ fuel) :
    bitCountLoop fuel mask i = i + rank mask.toNat 64 := by
  induction fuel generalizing mask i with
  | zero =>
      rw [bitCountLoop]
      omega
  | succ fuel ih =>
      rw [bitCountLoop]
      split_ifs with h0
      · subst h0
        have hzero : rank (0 : UInt64).toNat 64 = 0 := by decide
        omega
      · have hclear := rank_clear (n := mask.toNat)
          (fun hn => h0 (UInt64.toNat_inj.mp hn)) mask.toNat_lt
        rw [← toNat_clear h0] at hclear
        rw [ih _ (by omega)]
        omega

lemma bitCount_eq (mask : UInt64) : bitCount mask = rank mask.toNat 64 := by
  have hle : rank mask.toNat 64 ≤ 64 := by
    refine (List.countP_le_length).trans ?_
    simp
  rw [bitCount, bitCountLoop_eq 0 hle, Nat.zero_add]

lemma toNat_half (mask : UInt64) : (mask >>> 1).toNat = mask.toNat / 2 := by
  rw [UInt64.toNat_shiftRight]
  exact Nat.shiftRight_one _

lemma bitIndexLoop_eq {fuel k : ℕ} {mask : UInt64} (i : ℕ) (hmask : mask.toNat = 2 ^ k)
    (hk : k < fuel) : bitIndexLoop fuel mask i = i + k := by
  induction fuel generalizing mask i k with
  | zero => omega
  | succ fuel ih =>
      have hhalf := toNat_half mask
      rw [bitIndexLoop]
      cases k with
      | zero =>
          rw [if_pos, Nat.add_zero]
          rw [← UInt64.toNat_inj, hhalf, hmask]
          rfl
      | succ k =>
          have hpow : mask.toNat / 2 = 2 ^ k := by
            rw [hmask, pow_succ, Nat.mul_div_cancel _ (by decide)]
          rw [if_neg, ih (i + 1) (hhalf.trans hpow) (by omega)]
          · omega
          · rw [← UInt64.toNat_inj, hhalf, hpow]
            have := Nat.two_pow_pos k
            simp only [UInt64.toNat_zero]
            omega

/-- **`bit_index` of a topic with one bit.** -/
lemma bitIndex_eq {topic : UInt64} {i : ℕ} (h : topic.toNat = 2 ^ i) (hi : i < 64) :
    bitIndex topic = i := by
  rw [bitIndex, bitIndexLoop_eq 0 h hi, Nat.zero_add]

end LinuxC.Ipc
