import Mathlib.Algebra.Group.Nat.Defs

/-!
# Strings in a block of data

A string of C ends in front of the first zero.
-/

namespace LinuxC

/-- The bytes of a string. -/
def asciiBytes (s : String) : List UInt8 := s.toList.map fun c => UInt8.ofNat c.toNat

/-- A string in a block of data. -/
def cString (data : List UInt8) : List UInt8 := data.takeWhile (· ≠ 0)

/-- A byte that a string has not is where the string ends. -/
lemma takeWhile_append_stop {b : UInt8} {s rest : List UInt8} (h : b ∉ s) :
    (s ++ b :: rest).takeWhile (· ≠ b) = s := by
  rw [List.takeWhile_append_of_pos]
  · simp
  · intro c hc
    simp only [decide_eq_true_eq]
    rintro rfl
    exact h hc

lemma cString_append {s rest : List UInt8} (h : 0 ∉ s) : cString (s ++ 0 :: rest) = s :=
  takeWhile_append_stop h

end LinuxC
