import LinuxC.Gcl.Model
import LinuxC.Uapi.Events

/-!
# The order check and the search of `common/gcl.c`

`ascend` says whether the keys are in strictly ascending order, and clears values on the way: those
of all items but the last, and, for a table of one item, that of the item before the table
(`cleared`).  In a table in order `search` finds the item with a key.
-/

namespace LinuxC.Gcl

open Uapi (strcmp strcmp_self strcmp_eq_zero strcmp_swap strcmp_trans)

/-- The keys of the table are in strictly ascending order. -/
def Ascending (c : Table) (n : ℕ) : Prop :=
  ∀ i : ℤ, 0 ≤ i → i + 1 < n → strcmp (c i).key (c (i + 1)).key < 0

/-- The table after `ascend`. -/
def cleared (c : Table) (n : ℕ) : Table := fun i =>
  if 0 ≤ i ∧ i < (n - 1 : ℕ) ∨ i = (n - 1 : ℕ) - 1 then { c i with value := none } else c i

section Table

variable {c : Table} {n : ℕ} {i j : ℤ} {v : Option (List UInt8)}

@[simp] lemma setValue_self : (c.setValue i v) i = { c i with value := v } :=
  Function.update_self i _ c

lemma setValue_of_ne (h : j ≠ i) : (c.setValue i v) j = c j :=
  Function.update_of_ne h _ c

@[simp] lemma setValue_key : ((c.setValue i v) j).key = (c j).key := by
  by_cases h : j = i
  · rw [h, setValue_self]
  · rw [setValue_of_ne h]

@[simp] lemma setValue_dval : ((c.setValue i v) j).dval = (c j).dval := by
  by_cases h : j = i
  · rw [h, setValue_self]
  · rw [setValue_of_ne h]

/-! ## `ascend` -/

/-- The loop of `ascend` compares the keys from `i` on. -/
lemma ascendFrom_eq_true (k : ℕ) :
    (ascendFrom k i c).2 = true ↔
      ∀ j, i ≤ j → j < i + k → strcmp (c j).key (c (j + 1)).key < 0 := by
  induction k generalizing i c with
  | zero =>
    simp only [ascendFrom, true_iff]
    intro j hij hj
    omega
  | succ k ih =>
    rw [ascendFrom]
    split_ifs with hcmp
    · simp only [false_iff]
      intro h
      have := h i le_rfl (by omega)
      omega
    · rw [ih]
      simp only [setValue_key]
      constructor
      · intro h j hij hj
        rcases hij.eq_or_lt with rfl | hij
        · exact not_le.1 hcmp
        · exact h j hij (by push_cast at hj; omega)
      · intro h j hij hj
        exact h j (by omega) (by push_cast; omega)

lemma ascendFrom_table (k : ℕ) (h : (ascendFrom k i c).2 = true) (j : ℤ) :
    (ascendFrom k i c).1 j =
      if i ≤ j ∧ j < i + k ∨ j = i + k - 1 then { c j with value := none } else c j := by
  induction k generalizing i c with
  | zero =>
    change (c.setValue (i - 1) none) j = _
    by_cases hj : j = i - 1
    · rw [hj, setValue_self, if_pos (by omega)]
    · rw [setValue_of_ne hj, if_neg (by omega)]
  | succ k ih =>
    rw [ascendFrom] at h ⊢
    split_ifs at h with hcmp
    rw [if_neg hcmp, ih h]
    by_cases hj : j = i
    · have hturn : i ≤ i ∧ i < i + ((k + 1 : ℕ) : ℤ) ∨ i = i + ((k + 1 : ℕ) : ℤ) - 1 :=
        .inl ⟨le_rfl, by omega⟩
      rw [hj, setValue_self, if_pos hturn]
      exact ite_self _
    · rw [setValue_of_ne hj]
      apply if_congr _ rfl rfl
      push_cast
      omega

/-- **`ascend` accepts the tables in order, and clears them as `cleared` says.** -/
lemma ascend_spec :
    ((ascend c n).2 = true ↔ Ascending c n) ∧
      ((ascend c n).2 = true → (ascend c n).1 = cleared c n) := by
  constructor
  · rw [ascend, ascendFrom_eq_true]
    constructor
    · intro h i hi hin
      exact h i hi (by omega)
    · intro h j hj hjn
      exact h j hj (by omega)
  · intro h
    funext j
    rw [ascend, ascendFrom_table _ h, cleared]
    apply if_congr _ rfl rfl
    rw [zero_add]

lemma cleared_key : (cleared c n i).key = (c i).key := by
  rw [cleared]
  split_ifs <;> rfl

lemma cleared_dval : (cleared c n i).dval = (c i).dval := by
  rw [cleared]
  split_ifs <;> rfl

/-- Of the items of the table, the last one keeps its value. -/
lemma cleared_value (h0 : 0 ≤ i) (hn : i < n) :
    (cleared c n i).value = if i = n - 1 then (c i).value else none := by
  rw [cleared]
  by_cases hi : i = n - 1
  · rw [if_neg (by omega), if_pos hi]
  · rw [if_pos (by omega), if_neg hi]

/-! ## `search` -/

lemma Ascending.lt (h : Ascending c n) (hi : 0 ≤ i) (hij : i < j) (hj : j < n) :
    strcmp (c i).key (c j).key < 0 := by
  obtain ⟨d, rfl⟩ : ∃ d : ℕ, j = i + 1 + d := ⟨(j - i - 1).toNat, by omega⟩
  clear hij
  induction d with
  | zero =>
    rw [Nat.cast_zero, add_zero] at hj ⊢
    exact h i hi hj
  | succ d ih =>
    have hlast := h (i + 1 + d) (by omega) (by push_cast at hj; omega)
    have hfirst := ih (by push_cast at hj; omega)
    rw [show i + 1 + ((d + 1 : ℕ) : ℤ) = i + 1 + d + 1 by push_cast; ring]
    exact strcmp_trans hfirst.le hlast

/-- Two items of the table do not have the same key. -/
lemma Ascending.key_inj (h : Ascending c n) (hi : 0 ≤ i) (hin : i < n) (hj : 0 ≤ j) (hjn : j < n)
    (hkey : (c i).key = (c j).key) : i = j := by
  rcases lt_trichotomy i j with hij | hij | hij
  · have := h.lt hi hij hjn
    rw [hkey, strcmp_self] at this
    omega
  · exact hij
  · have := h.lt hj hij hin
    rw [hkey, strcmp_self] at this
    omega

lemma Ascending.searchFrom_iff (h : Ascending c n) {key : List UInt8} {k : ℕ} {l r m : ℤ}
    (hl : 0 ≤ l) (hr : r < n) (hk : r - l + 1 ≤ k) :
    searchFrom c key k l r = some m ↔ l ≤ m ∧ m ≤ r ∧ (c m).key = key := by
  induction k generalizing l r with
  | zero =>
    simp only [searchFrom, false_iff, reduceCtorEq]
    intro hm
    push_cast at hk
    omega
  | succ k ih =>
    push_cast at hk
    rw [searchFrom]
    by_cases hlr : l ≤ r
    · rw [if_pos hlr]
      set mid := (l + r) / 2 with hmid
      have hlm : l ≤ mid := by omega
      have hmr : mid ≤ r := by omega
      by_cases hlt : strcmp key (c mid).key < 0
      · -- the key is before the middle
        simp only [if_pos hlt]
        rw [ih hl (by omega) (by omega)]
        constructor
        · rintro ⟨h1, h2, h3⟩
          exact ⟨h1, by omega, h3⟩
        · rintro ⟨h1, h2, h3⟩
          refine ⟨h1, ?_, h3⟩
          by_contra hm
          rcases (show mid ≤ m by omega).eq_or_lt with heq | hgt
          · rw [heq, h3, strcmp_self] at hlt
            omega
          · have hcmp := strcmp_trans hlt.le (h.lt (by omega) hgt (by omega))
            rw [h3, strcmp_self] at hcmp
            omega
      by_cases hgt : 0 < strcmp key (c mid).key
      · -- the key is behind the middle
        simp only [if_neg hlt, if_pos hgt]
        rw [ih (by omega) hr (by omega)]
        rw [strcmp_swap] at hgt
        constructor
        · rintro ⟨h1, h2, h3⟩
          exact ⟨by omega, h2, h3⟩
        · rintro ⟨h1, h2, h3⟩
          refine ⟨?_, h2, h3⟩
          by_contra hm
          rcases (show m ≤ mid by omega).eq_or_lt with heq | hbelow
          · rw [← heq, h3, strcmp_self] at hgt
            omega
          · have hcmp := strcmp_trans (h.lt (by omega) hbelow (by omega)).le hgt
            rw [h3, strcmp_self] at hcmp
            omega
      · simp only [if_neg hlt, if_neg hgt]
        have hkey : key = (c mid).key := strcmp_eq_zero (by omega)
        constructor
        · intro hm
          obtain rfl := Option.some.inj hm
          exact ⟨hlm, hmr, hkey.symm⟩
        · rintro ⟨h1, h2, h3⟩
          rw [h.key_inj (by omega) (by omega) (by omega) (by omega) (h3.trans hkey)]
    · rw [if_neg hlr]
      simp only [reduceCtorEq, false_iff]
      omega

/-- **`search` finds the item with the key.** -/
lemma Ascending.search_iff (h : Ascending c n) {key : List UInt8} :
    search c n key = some i ↔ 0 ≤ i ∧ i < n ∧ (c i).key = key := by
  rw [search, h.searchFrom_iff le_rfl (by omega) (by omega)]
  constructor
  · rintro ⟨h0, hn, hkey⟩
    exact ⟨h0, by omega, hkey⟩
  · rintro ⟨h0, hn, hkey⟩
    exact ⟨h0, by omega, hkey⟩

lemma search_congr {c c' : Table} (h : ∀ i, (c i).key = (c' i).key) (key : List UInt8) :
    search c n key = search c' n key := by
  have hfrom (k : ℕ) (l r : ℤ) : searchFrom c key k l r = searchFrom c' key k l r := by
    induction k generalizing l r with
    | zero => rfl
    | succ k ih => simp only [searchFrom, h, ih]
  exact hfrom _ _ _

/-- The loop of `search` with `l + r` as an `int`. -/
def searchIntFrom (c : Table) (key : List UInt8) : ℕ → ℤ → ℤ → Option ℤ
  | 0, _, _ => none
  | k + 1, l, r =>
      if l ≤ r then
        let m := (l + r).bmod (2 ^ 32) / 2
        let cmp := strcmp key (c m).key
        if cmp < 0 then searchIntFrom c key k l (m - 1)
        else if 0 < cmp then searchIntFrom c key k (m + 1) r
        else some m
      else none

/-- **The sum does not overflow** in a table of at most `2 ^ 30` items. -/
lemma searchIntFrom_eq (hn : n ≤ 2 ^ 30) (c : Table) (key : List UInt8) {k : ℕ} {l r : ℤ}
    (hl : 0 ≤ l) (hr : r < n) : searchIntFrom c key k l r = searchFrom c key k l r := by
  induction k generalizing l r with
  | zero => rfl
  | succ k ih =>
    rw [searchIntFrom, searchFrom]
    by_cases hlr : l ≤ r
    · have hsum : (l + r).bmod (2 ^ 32) = l + r :=
        Int.bmod_eq_of_le_mul_two (by push_cast; omega) (by push_cast; omega)
      rw [if_pos hlr, if_pos hlr, hsum]
      dsimp only
      rw [ih hl (by omega), ih (by omega) hr]
    · rw [if_neg hlr, if_neg hlr]

/-- `search` with `l + r` as an `int`. -/
def searchInt (c : Table) (n : ℕ) (key : List UInt8) : Option ℤ := searchIntFrom c key n 0 (n - 1)

lemma searchInt_eq (hn : n ≤ 2 ^ 30) (c : Table) (key : List UInt8) :
    searchInt c n key = search c n key :=
  searchIntFrom_eq hn c key le_rfl (by omega)

end Table

end LinuxC.Gcl
