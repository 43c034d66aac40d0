import Mathlib.Data.List.Basic
import Mathlib.Data.List.TakeWhile

/-!
# Text files and strings

The two configuration parsers of `common/` read a file character by character and treat a newline as
the end of a line.  `lines_spec` gives the lines of a file, so that a fold over the characters
becomes a fold over the lines.  They collect tokens in arrays, which they hand out as strings.
-/

namespace LinuxC.Text

/-- `'\n'`. -/
def newline : UInt8 := 10

def isspace (c : UInt8) : Bool := (9 ≤ c && c ≤ 13) || c = 32

/-- The lines of a file; the last one has no newline, and is empty if the file ends with one. -/
def lines : List UInt8 → List (List UInt8)
  | [] => [[]]
  | c :: cs =>
      if c = newline then [] :: lines cs
      else
        match lines cs with
        | [] => [[c]]
        | l :: ls => (c :: l) :: ls

lemma lines_ne_nil (content : List UInt8) : lines content ≠ [] := by
  cases content with
  | nil => simp [lines]
  | cons c cs =>
    rw [lines]
    split_ifs
    · simp
    · split <;> simp

lemma lines_append (before after : List UInt8) :
    lines (before ++ newline :: after) = lines before ++ lines after := by
  induction before with
  | nil => simp [lines]
  | cons c cs ih =>
    rw [List.cons_append, lines, lines, ih]
    split_ifs
    · rfl
    · cases hcs : lines cs with
      | nil => exact absurd hcs (lines_ne_nil cs)
      | cons l ls => rfl

lemma lines_of_not_mem {l : List UInt8} (hl : newline ∉ l) : lines l = [l] := by
  induction l with
  | nil => rfl
  | cons c l ih =>
    rw [List.mem_cons, not_or] at hl
    rw [lines, if_neg (Ne.symm hl.1), ih hl.2]

/-- A file is its lines, each but the last with a newline behind it. -/
lemma lines_spec (content : List UInt8) :
    ∃ ls last, content = ls.flatMap (· ++ [newline]) ++ last ∧ lines content = ls ++ [last] ∧
      (∀ l ∈ ls, newline ∉ l) ∧ newline ∉ last := by
  induction content with
  | nil => exact ⟨[], [], rfl, rfl, by simp, by simp⟩
  | cons c cs ih =>
    obtain ⟨ls, last, hcs, hlines, hls, hlast⟩ := ih
    by_cases hc : c = newline
    · exact ⟨[] :: ls, last, by simp [hc, hcs], by simp [lines, hc, hlines],
        List.forall_mem_cons.2 ⟨by simp, hls⟩, hlast⟩
    cases ls with
    | nil =>
      refine ⟨[], c :: last, by simp [hcs], by simp [lines, hc, hlines], by simp, ?_⟩
      rw [List.mem_cons, not_or]
      exact ⟨Ne.symm hc, hlast⟩
    | cons l ls =>
      rw [List.forall_mem_cons] at hls
      refine ⟨(c :: l) :: ls, last, by simp [hcs], by simp [lines, hc, hlines],
        List.forall_mem_cons.2 ⟨?_, hls.2⟩, hlast⟩
      rw [List.mem_cons, not_or]
      exact ⟨Ne.symm hc, hls.1⟩

/-! ## Strings in arrays -/

/-- The string in an array of `n` characters. -/
def strIn (n : ℕ) (t : ℕ → UInt8) : List UInt8 := ((List.range n).map t).takeWhile (· ≠ 0)

/-- An array that begins with `l` and a zero. -/
lemma strIn_eq {n : ℕ} {t : ℕ → UInt8} {l : List UInt8} (hlen : l.length < n)
    (ht : ∀ j b, l[j]? = some b → t j = b) (hend : t l.length = 0) :
    strIn n t = l.takeWhile (· ≠ 0) := by
  have hbegin : ((List.range n).map t).take l.length = l := by
    apply List.ext_getElem
    · rw [List.length_take, List.length_map, List.length_range, min_eq_left hlen.le]
    · intro j hj hl
      simpa using ht j _ (List.getElem?_eq_getElem hl)
  have hrest : ((List.range n).map t).drop l.length =
      0 :: ((List.range n).map t).drop (l.length + 1) := by
    rw [List.drop_eq_getElem_cons (by simpa using hlen)]
    simpa using hend
  rw [strIn, ← List.take_append_drop l.length ((List.range n).map t), hbegin, hrest,
    List.takeWhile_append, List.takeWhile_cons_of_neg (by simp), List.append_nil]
  split_ifs with hall
  · exact ((List.takeWhile_prefix _).eq_of_length hall).symm
  · rfl

end LinuxC.Text
