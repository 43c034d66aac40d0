import Mathlib.Algebra.Order.Group.Int
import Mathlib.Tactic.Common

/-!
# The order of a counter that wraps

Numbers are read from a counter that goes round after `2 * m` steps, and two of them are compared
by the sign of their difference, which is a signed number of the same width.  The differences
order finitely many numbers if and only if these lie in a window of `m` values of the counter
(`trans_iff_window`); there they are the differences of the places in the window.
-/

namespace LinuxC.Serial

/-- The difference of two numbers, as a signed number of the counter's width. -/
def diff (m : ℕ) (a b : ℤ) : ℤ := (a - b).bmod (2 * m)

/-- The numbers are among `m` values that follow each other on the counter. -/
def Window (m : ℕ) (S : ℤ → Prop) : Prop := ∃ c, ∀ a, S a → (a - c) % (2 * m) < m

variable {m : ℕ} {a b c : ℤ}

lemma diff_self (m : ℕ) (a : ℤ) : diff m a a = 0 := by
  simp [diff]

/-- The numbers that are not before `c` are the `m` values from `c` on. -/
lemma diff_nonneg_iff (hm : 0 < m) : 0 ≤ diff m a c ↔ (a - c) % (2 * m) < m := by
  have hlow := Int.emod_nonneg (a - c) (b := 2 * (m : ℤ)) (by omega)
  have hhigh := Int.emod_lt_of_pos (a - c) (b := 2 * (m : ℤ)) (by omega)
  rw [diff, Int.bmod_def]
  push_cast
  split_ifs with h
  · constructor <;> intro _ <;> omega
  · constructor <;> intro _ <;> omega

/-- In a window the difference is that of the places. -/
lemma diff_of_window (hm : 0 < m) (ha : (a - c) % (2 * m) < m) (hb : (b - c) % (2 * m) < m) :
    diff m a b = (a - c) % (2 * m) - (b - c) % (2 * m) := by
  have ha0 := Int.emod_nonneg (a - c) (b := 2 * (m : ℤ)) (by omega)
  have hb0 := Int.emod_nonneg (b - c) (b := 2 * (m : ℤ)) (by omega)
  have hplaces : (a - b).bmod (2 * m) =
      ((a - c) % (2 * m : ℕ) - (b - c) % (2 * m : ℕ)).bmod (2 * m) := by
    rw [Int.emod_sub_bmod, Int.sub_emod_bmod, sub_sub_sub_cancel_right]
  rw [diff, hplaces]
  push_cast
  exact Int.bmod_eq_of_le_mul_two (by push_cast; omega) (by push_cast; omega)

/-- Numbers that are close to each other without wrapping are compared as such. -/
lemma diff_of_close (hle : -(m : ℤ) ≤ a - b) (hlt : a - b < m) : diff m a b = a - b :=
  Int.bmod_eq_of_le_mul_two (by push_cast; omega) (by push_cast; omega)

/-- If the differences are transitive on the numbers, one of these is before all others. -/
lemma exists_first {xs : List ℤ} (hne : xs ≠ [])
    (htrans : ∀ a ∈ xs, ∀ b ∈ xs, ∀ c ∈ xs, diff m a b < 0 → diff m b c < 0 → diff m a c < 0) :
    ∃ c ∈ xs, ∀ a ∈ xs, 0 ≤ diff m a c := by
  induction xs with
  | nil => exact absurd rfl hne
  | cons x xs ih =>
      rcases eq_or_ne xs [] with rfl | hxs
      · refine ⟨x, List.mem_singleton_self x, fun a ha => ?_⟩
        rw [List.mem_singleton.mp ha, diff_self]
      obtain ⟨c, hc, hfirst⟩ := ih hxs fun a ha b hb c hc =>
        htrans a (.tail x ha) b (.tail x hb) c (.tail x hc)
      by_cases hxc : 0 ≤ diff m x c
      · refine ⟨c, .tail x hc, fun a ha => ?_⟩
        rcases List.mem_cons.mp ha with rfl | ha
        · exact hxc
        · exact hfirst a ha
      -- A number before `x` would be before `c` as well.
      · refine ⟨x, .head xs, fun a ha => ?_⟩
        rcases List.mem_cons.mp ha with rfl | ha
        · rw [diff_self]
        · by_contra hax
          have := htrans a (.tail x ha) x (.head xs) c (.tail x hc) (by omega) (by omega)
          have := hfirst a ha
          omega

/-- **The differences are transitive on the numbers exactly where these lie in a window.** -/
theorem trans_iff_window (hm : 0 < m) (xs : List ℤ) :
    (∀ a ∈ xs, ∀ b ∈ xs, ∀ c ∈ xs, diff m a b < 0 → diff m b c < 0 → diff m a c < 0) ↔
      Window m (· ∈ xs) := by
  constructor
  · intro htrans
    rcases eq_or_ne xs [] with rfl | hne
    · exact ⟨0, fun a ha => absurd ha List.not_mem_nil⟩
    · obtain ⟨c, -, hfirst⟩ := exists_first hne htrans
      exact ⟨c, fun a ha => (diff_nonneg_iff hm).mp (hfirst a ha)⟩
  · rintro ⟨o, hwin⟩ a ha b hb c hc hab hbc
    rw [diff_of_window hm (hwin a ha) (hwin b hb)] at hab
    rw [diff_of_window hm (hwin b hb) (hwin c hc)] at hbc
    rw [diff_of_window hm (hwin a ha) (hwin c hc)]
    omega

lemma Window.swap {S : ℤ → Prop} (h : Window m S) (hm : 0 < m) (ha : S a) (hb : S b) :
    diff m a b < 0 ↔ 0 < diff m b a := by
  obtain ⟨c, hwin⟩ := h
  rw [diff_of_window hm (hwin a ha) (hwin b hb), diff_of_window hm (hwin b hb) (hwin a ha)]
  omega

/-- The difference of two numbers is that of their values on the counter. -/
lemma diff_bmod (m : ℕ) (a b : ℤ) : diff m (a.bmod (2 * m)) (b.bmod (2 * m)) = diff m a b :=
  (Int.sub_bmod a b (2 * m)).symm

end LinuxC.Serial
