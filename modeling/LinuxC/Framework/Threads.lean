import Mathlib.Data.List.Basic

/-!
# Threads

The threads of a pool are the list of their program counters, and a step moves one of them.  A
counter that the pool keeps of its threads is the number of those with a property, and the lemmas
here say how it follows the move.
-/

namespace LinuxC

variable {α : Type} {p : α → Bool} {xs : List α} {i : ℕ} {a b x : α}

lemma countP_set_add (h : xs[i]? = some a) :
    (xs.set i b).countP p + (p a).toNat = xs.countP p + (p b).toNat := by
  induction xs generalizing i with
  | nil => simp at h
  | cons y ys ih =>
      cases i with
      | zero =>
          obtain rfl : y = a := by simpa using h
          simp only [List.set_cons_zero, List.countP_cons]
          cases p y <;> cases p b <;> simp
      | succ i =>
          have hi := ih (i := i) (by simpa using h)
          simp only [List.set_cons_succ, List.countP_cons]
          omega

/-- The move does not change the number of threads with the property. -/
lemma countP_set_eq (h : xs[i]? = some a) (hab : p b = p a) :
    (xs.set i b).countP p = xs.countP p := by
  have hadd := countP_set_add (p := p) (b := b) h
  rw [hab] at hadd
  omega

lemma mem_set_self (h : xs[i]? = some a) : b ∈ xs.set i b :=
  List.mem_set (List.getElem?_eq_some_iff.mp h).1 b

lemma mem_set_of_mem (h : xs[i]? = some a) (hx : x ∈ xs) (hne : x ≠ a) : x ∈ xs.set i b := by
  obtain ⟨j, hj⟩ := List.mem_iff_getElem?.mp hx
  refine List.mem_iff_getElem?.mpr ⟨j, ?_⟩
  rw [List.getElem?_set_ne, hj]
  rintro rfl
  exact hne (Option.some.inj (hj.symm.trans h))

lemma countP_pos_of_mem (hx : x ∈ xs) (hp : p x = true) : 0 < xs.countP p :=
  List.countP_pos_iff.mpr ⟨x, hx, hp⟩

end LinuxC
