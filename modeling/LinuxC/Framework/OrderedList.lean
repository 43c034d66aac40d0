import Mathlib.Algebra.Order.Group.Int
import Mathlib.Data.List.Pairwise

/-!
# Ordered lists over a comparator

A comparator in the manner of C: its sign orders the elements, and different elements may be
equal to it.  `insertOrd` keeps a list in strict order and does not insert an element equal to
one that is there already.
-/

namespace LinuxC

variable {N : Type}

/-- The sign of the comparator orders the elements. -/
structure Comparator (cmp : N → N → ℤ) : Prop where
  swap : ∀ a b, 0 < cmp a b ↔ cmp b a < 0
  trans : ∀ a b c, cmp a b ≤ 0 → cmp b c < 0 → cmp a c < 0

/-- The list is in strict order. -/
def Sorted (cmp : N → N → ℤ) (xs : List N) : Prop := xs.Pairwise fun a b => cmp a b < 0

/-- Insertion into an ordered list. -/
def insertOrd (cmp : N → N → ℤ) (n : N) : List N → List N
  | [] => [n]
  | x :: xs =>
      if cmp n x < 0 then n :: x :: xs
      else if cmp n x = 0 then x :: xs
      else x :: insertOrd cmp n xs

namespace Comparator

variable {cmp : N → N → ℤ} (hcmp : Comparator cmp)
include hcmp

lemma self (a : N) : cmp a a = 0 := by
  have h := hcmp.swap a a
  omega

/-- At most one element of an ordered list is equal to a given one. -/
lemma unique {xs : List N} (hs : Sorted cmp xs) {n a b : N} (ha : a ∈ xs) (hb : b ∈ xs)
    (hna : cmp n a = 0) (hnb : cmp n b = 0) : a = b := by
  by_contra hne
  have hlt : cmp a b < 0 ∨ cmp b a < 0 := by
    let R : N → N → Prop := fun a b => cmp a b < 0 ∨ cmp b a < 0
    have : Std.Symm R := ⟨fun _ _ h => h.symm⟩
    have hR : xs.Pairwise R := hs.imp Or.inl
    exact hR.forall ha hb hne
  rcases hlt with hlt | hlt
  · have := hcmp.trans n a b hna.le hlt
    omega
  · have := hcmp.trans n b a hnb.le hlt
    omega

/-- The order of a list is determined by its elements. -/
lemma eq_of_mem_iff {xs ys : List N} (hxs : Sorted cmp xs) (hys : Sorted cmp ys)
    (h : ∀ a, a ∈ xs ↔ a ∈ ys) : xs = ys := by
  have hnodup : ∀ {zs : List N}, Sorted cmp zs → zs.Nodup := fun hzs => hzs.imp fun {a b} hab => by
    rintro rfl
    rw [hcmp.self a] at hab
    exact lt_irrefl 0 hab
  have hperm : xs.Perm ys := (List.perm_ext_iff_of_nodup (hnodup hxs) (hnodup hys)).mpr h
  refine hperm.eq_of_pairwise (fun a b _ _ hab hba => ?_) hxs hys
  exact absurd ((hcmp.swap a b).mpr hba) (not_lt.mpr hab.le)

/-- A search for an element of an ordered list finds it. -/
lemma find?_self {xs : List N} (hs : Sorted cmp xs) {n : N} (hn : n ∈ xs) :
    xs.find? (fun x => cmp n x = 0) = some n := by
  obtain ⟨x, hx⟩ : ∃ x, xs.find? (fun x => cmp n x = 0) = some x := by
    rw [← Option.isSome_iff_exists, List.find?_isSome]
    exact ⟨n, hn, by simp [hcmp.self n]⟩
  have hzero : cmp n x = 0 := by simpa using List.find?_some hx
  rw [hx, hcmp.unique hs (List.mem_of_find?_eq_some hx) hn hzero (hcmp.self n)]

lemma head?_iff {xs : List N} (hs : Sorted cmp xs) {m : N} :
    xs.head? = some m ↔ m ∈ xs ∧ ∀ m' ∈ xs, m' ≠ m → cmp m m' < 0 := by
  cases xs with
  | nil => simp
  | cons a xs =>
      have ha := (List.pairwise_cons.mp hs).1
      rw [List.head?_cons, Option.some.injEq]
      constructor
      · rintro rfl
        refine ⟨by simp, fun m' hm' hne => ?_⟩
        rcases List.mem_cons.mp hm' with rfl | hm'
        · exact absurd rfl hne
        · exact ha m' hm'
      · rintro ⟨hm, hleast⟩
        by_contra hne
        have h1 := hleast a (by simp) hne
        have h2 := ha m ((List.mem_cons.mp hm).resolve_left fun e => hne e.symm)
        have h3 := (hcmp.swap m a).mpr h2
        omega

lemma getLast?_iff {xs : List N} (hs : Sorted cmp xs) {m : N} :
    xs.getLast? = some m ↔ m ∈ xs ∧ ∀ m' ∈ xs, m' ≠ m → 0 < cmp m m' := by
  rcases List.eq_nil_or_concat xs with rfl | ⟨ys, a, rfl⟩
  · simp
  · have ha : ∀ b ∈ ys, 0 < cmp a b := by
      intro b hb
      rw [List.concat_eq_append] at hs
      exact (hcmp.swap a b).mpr ((List.pairwise_append.mp hs).2.2 b hb a (by simp))
    simp only [List.concat_eq_append, List.getLast?_append, List.getLast?_singleton,
      Option.some_or, Option.some.injEq, List.mem_append, List.mem_singleton]
    constructor
    · rintro rfl
      refine ⟨.inr rfl, fun m' hm' hne => ?_⟩
      exact ha m' (hm'.resolve_right hne)
    · rintro ⟨hm, hgreatest⟩
      by_contra hne
      have h1 := (hcmp.swap m a).mp (hgreatest a (.inr rfl) hne)
      have h2 := ha m (hm.resolve_right fun e => hne e.symm)
      omega

end Comparator

/-! ## Insertion -/

lemma mem_insertOrd_self_or {cmp : N → N → ℤ} {n m : N} {xs : List N}
    (h : m ∈ insertOrd cmp n xs) : m = n ∨ m ∈ xs := by
  induction xs with
  | nil => exact .inl (by simpa [insertOrd] using h)
  | cons x xs ih =>
      rw [insertOrd] at h
      split_ifs at h
      · exact List.mem_cons.mp h
      · exact .inr h
      · rcases List.mem_cons.mp h with rfl | h
        · exact .inr (by simp)
        · exact (ih h).imp id fun h => by simp [h]

lemma mem_insertOrd {cmp : N → N → ℤ} {n m : N} {xs : List N} (hne : ∀ x ∈ xs, cmp n x ≠ 0) :
    m ∈ insertOrd cmp n xs ↔ m = n ∨ m ∈ xs := by
  refine ⟨mem_insertOrd_self_or, fun h => ?_⟩
  induction xs with
  | nil => simpa [insertOrd] using h
  | cons x xs ih =>
      have hx := hne x (by simp)
      have ih := ih fun y hy => hne y (by simp [hy])
      rw [insertOrd, if_neg hx]
      split_ifs
      · exact List.mem_cons.mpr h
      · grind

lemma insertOrd_append {cmp : N → N → ℤ} {n : N} {ys zs : List N} (hy : ∀ y ∈ ys, 0 < cmp n y)
    (hz : ∀ z ∈ zs, cmp n z < 0) : insertOrd cmp n (ys ++ zs) = ys ++ n :: zs := by
  induction ys with
  | nil =>
      cases zs with
      | nil => rfl
      | cons z zs => simp [insertOrd, hz z (by simp)]
  | cons y ys ih =>
      have hlt := hy y (by simp)
      rw [List.cons_append, insertOrd, if_neg (by omega), if_neg (by omega),
        ih fun x hx => hy x (by simp [hx]), List.cons_append]

lemma insertOrd_of_equal {cmp : N → N → ℤ} (hcmp : Comparator cmp) {n m : N} {xs : List N}
    (hs : Sorted cmp xs) (hm : m ∈ xs) (hnm : cmp n m = 0) : insertOrd cmp n xs = xs := by
  induction xs with
  | nil => simp at hm
  | cons x xs ih =>
      obtain ⟨hx, hxs⟩ := List.pairwise_cons.mp hs
      rcases List.mem_cons.mp hm with rfl | hm
      · simp [insertOrd, hnm]
      · have hmx := hx m hm
        have hnx : 0 < cmp n x := by
          by_contra hle
          have := hcmp.trans n x m (by omega) hmx
          omega
        rw [insertOrd, if_neg (by omega), if_neg (by omega), ih hxs hm]

lemma sorted_insertOrd {cmp : N → N → ℤ} (hcmp : Comparator cmp) {n : N} {xs : List N}
    (hs : Sorted cmp xs) : Sorted cmp (insertOrd cmp n xs) := by
  induction xs with
  | nil => exact List.pairwise_singleton _ _
  | cons x xs ih =>
      obtain ⟨hx, hxs⟩ := List.pairwise_cons.mp hs
      rw [insertOrd]
      split_ifs with h1 h2
      · refine List.pairwise_cons.mpr ⟨fun y hy => ?_, hs⟩
        rcases List.mem_cons.mp hy with rfl | hy
        · exact h1
        · exact hcmp.trans n x y h1.le (hx y hy)
      · exact hs
      · refine List.pairwise_cons.mpr ⟨fun y hy => ?_, ih hxs⟩
        rcases mem_insertOrd_self_or hy with rfl | hy
        · exact (hcmp.swap y x).mp (by omega)
        · exact hx y hy

end LinuxC
