import Mathlib.Data.Option.Basic
import Mathlib.Data.Nat.Basic

/-!
# Loops with a bound on their turns

A loop that may not end is a function of a bound on its turns, with no result when the bound is
reached.  The program yields `r` (`Yields`) when it has the result `r` under every bound that is
large enough.  Results are unique, and programs that return can be put behind each other.
-/

namespace LinuxC

variable {R S : Type}

/-- Under every bound that is large enough there is the result `r`. -/
def Yields (f : ℕ → Option R) (r : R) : Prop := ∃ N, ∀ bound ≥ N, f bound = some r

namespace Yields

variable {f : ℕ → Option R} {r r' : R}

lemma pure (r : R) : Yields (fun _ => some r) r := ⟨0, fun _ _ => rfl⟩

lemma of_eq {g : ℕ → Option R} (h : Yields f r) (hfg : ∀ bound, g bound = f bound) :
    Yields g r := by
  obtain ⟨N, hN⟩ := h
  exact ⟨N, fun bound hbound => (hfg bound).trans (hN bound hbound)⟩

lemma unique (h : Yields f r) (h' : Yields f r') : r = r' := by
  obtain ⟨N, hN⟩ := h
  obtain ⟨N', hN'⟩ := h'
  have heq := hN (max N N') (Nat.le_max_left _ _)
  rw [hN' (max N N') (Nat.le_max_right _ _)] at heq
  exact (Option.some.inj heq).symm

lemma bind {g : ℕ → R → Option S} {s : S} (h : Yields f r)
    (hg : Yields (fun bound => g bound r) s) :
    Yields (fun bound => (f bound).bind (g bound)) s := by
  obtain ⟨N, hN⟩ := h
  obtain ⟨N', hN'⟩ := hg
  refine ⟨max N N', fun bound hbound => ?_⟩
  have hf := hN bound (Nat.le_trans (Nat.le_max_left _ _) hbound)
  have hgf := hN' bound (Nat.le_trans (Nat.le_max_right _ _) hbound)
  simpa only [hf, Option.bind_some] using hgf

/-- If two programs behind each other return, and the first one returns, so does the second. -/
lemma of_bind {g : ℕ → R → Option S} {s : S} (h : Yields f r)
    (hfg : Yields (fun bound => (f bound).bind (g bound)) s) :
    Yields (fun bound => g bound r) s := by
  obtain ⟨N, hN⟩ := h
  obtain ⟨N', hN'⟩ := hfg
  refine ⟨max N N', fun bound hbound => ?_⟩
  have hf := hN bound (Nat.le_trans (Nat.le_max_left _ _) hbound)
  have hgf := hN' bound (Nat.le_trans (Nat.le_max_right _ _) hbound)
  simpa only [hf, Option.bind_some] using hgf

lemma map (h : Yields f r) (g : R → S) : Yields (fun bound => (f bound).map g) (g r) := by
  obtain ⟨N, hN⟩ := h
  exact ⟨N, fun bound hbound => congrArg (Option.map g) (hN bound hbound)⟩

lemma of_map {g : R → S} (hg : Function.Injective g) {s : S}
    (h : Yields (fun bound => (f bound).map g) s) : ∃ r, Yields f r ∧ g r = s := by
  obtain ⟨N, hN⟩ := h
  obtain ⟨r, -, hr⟩ := Option.map_eq_some_iff.mp (hN N (Nat.le_refl N))
  refine ⟨r, ⟨N, fun bound hbound => ?_⟩, hr⟩
  obtain ⟨r', hf, hr'⟩ := Option.map_eq_some_iff.mp (hN bound hbound)
  rw [hf, hg (hr'.trans hr.symm)]

lemma succ_iff : Yields (fun bound => f (bound + 1)) r ↔ Yields f r := by
  constructor
  · rintro ⟨N, hN⟩
    refine ⟨N + 1, fun bound hbound => ?_⟩
    obtain ⟨k, rfl⟩ := Nat.exists_eq_add_of_le' hbound
    exact hN (k + N) (Nat.le_add_left N k)
  · rintro ⟨N, hN⟩
    exact ⟨N, fun bound hbound => hN (bound + 1) (Nat.le_succ_of_le hbound)⟩

end Yields

end LinuxC
