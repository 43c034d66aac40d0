import LinuxC.Bst.Visit

/-!
# Walking through a table

`for (n = bst_iterator_first(it, t); n; n = bst_iterator_next(it))` is how the tables are printed and
listed.  In a table that has just been balanced, and is not too large for the stack of the iterator,
the loop ends and meets every node once, in their order (`IsTree.walk`).  It can be done again
afterwards: the tree is still one of the lowest.
-/

namespace LinuxC.Bst

open Rb (endOf)

variable {N : Type} [DecidableEq N]

/-- The turns of the loop, with the nodes that they meet. -/
def walkLoop (cmp : N → N → ℤ) :
    ℕ → Option N → BstIterator N → BstTable N → Except Fault (List N × BstIterator N × BstTable N)
  | 0, _, _, _ => .error .fuel
  | _ + 1, none, it, t => .ok ([], it, t)
  | fuel + 1, some x, it, t => do
      let r ← bstIteratorNext cmp fuel it t
      let w ← walkLoop cmp fuel r.1 r.2.1 r.2.2
      .ok (x :: w.1, w.2)

/-- The loop. -/
def bstWalk (cmp : N → N → ℤ) (fuel : ℕ) (it : BstIterator N) (t : BstTable N) :
    Except Fault (List N × BstIterator N × BstTable N) := do
  let r ← bstIteratorFirst fuel it t
  walkLoop cmp fuel r.1 r.2.1 r.2.2

section Walk

variable {cmp : N → N → ℤ} {t : BstTable N} {T : Tree N} {it : BstIterator N} {x : N}
  {rest : List N} {fuel : ℕ}

/-- A walk has met the nodes `xs`, and left the table in a state in which there can be another. -/
def Walked (cmp : N → N → ℤ) (t : BstTable N) (T : Tree N) (xs : List N)
    (w : List N × BstIterator N × BstTable N) : Prop :=
  w.1 = xs ∧ w.2.2.maxHeight = t.maxHeight ∧
    ∃ T', IsTree cmp w.2.2 T' ∧ T'.nodes = T.nodes ∧ Lowest T'

/-- **The turns from a node on.** -/
lemma walkLoop_spec (hcmp : Comparator cmp) (pre : List N) (h : IsTree cmp t T) (hlow : Lowest T)
    (hfits : T.nodes.length < 2 ^ (t.maxHeight + 1)) (hx : Placed x t T it)
    (hnodes : T.nodes = pre ++ x :: rest) (hfuel : t.count + rest.length + 3 ≤ fuel) :
    ∃ w, walkLoop cmp fuel (some x) it t = .ok w ∧ Walked cmp t T (x :: rest) w := by
  induction rest generalizing fuel t T it x pre with
  | nil =>
      obtain ⟨fuel, rfl⟩ : ∃ k, fuel = k + 1 + 1 := ⟨fuel - 2, by omega⟩
      obtain ⟨r₁, hnext⟩ : ∃ r, bstIteratorNext cmp (fuel + 1) it t = .ok r :=
        h.step_returns hcmp hlow hfits hx (by simp at hfuel; omega)
      obtain ⟨T₁, hT₁, hnodes₁, hlow₁, hmax, hadj, -⟩ := h.step_placed hlow ⟨hx.node, .inl hx⟩ hnext
      have hend : r₁.1 = none := hadj.next h.holds.nodup hnodes
      refine ⟨([x], r₁.2), ?_, rfl, hmax, T₁, hT₁, hnodes₁, hlow₁⟩
      rw [walkLoop, hnext]
      change (walkLoop cmp (fuel + 1) r₁.1 r₁.2.1 r₁.2.2 >>= _) = _
      rw [hend]
      rfl
  | cons y rest ih =>
      rw [List.length_cons] at hfuel
      obtain ⟨fuel, rfl⟩ : ∃ k, fuel = k + 1 + 1 := ⟨fuel - 2, by omega⟩
      obtain ⟨r₁, hnext⟩ : ∃ r, bstIteratorNext cmp (fuel + 1) it t = .ok r :=
        h.step_returns hcmp hlow hfits hx (by omega)
      obtain ⟨T₁, hT₁, hnodes₁, hlow₁, hmax, hadj, hplaced⟩ :=
        h.step_placed hlow ⟨hx.node, .inl hx⟩ hnext
      have hy : r₁.1 = some y := hadj.next h.holds.nodup hnodes
      have hsplit : T₁.nodes = (pre ++ [x]) ++ y :: rest := by
        rw [hnodes₁, hnodes, List.append_assoc, List.singleton_append]
      have hcount : r₁.2.2.count = t.count := by rw [hT₁.count, h.count, hnodes₁]
      obtain ⟨w, hw, hmet, hmax', T', hT', hnodes', hlow'⟩ : ∃ w,
          walkLoop cmp (fuel + 1) (some y) r₁.2.1 r₁.2.2 = .ok w ∧
            Walked cmp r₁.2.2 T₁ (y :: rest) w :=
        ih _ hT₁ hlow₁ (by rwa [hnodes₁, hmax]) (hplaced y hy) hsplit (by omega)
      refine ⟨(x :: w.1, w.2), ?_, by rw [hmet], hmax'.trans hmax, T', hT', hnodes'.trans hnodes₁,
        hlow'⟩
      rw [walkLoop, hnext]
      change (walkLoop cmp (fuel + 1) r₁.1 r₁.2.1 r₁.2.2 >>= _) = _
      rw [hy, hw]
      rfl

/-- **The walk** meets the nodes in their order. -/
lemma IsTree.walk (hcmp : Comparator cmp) (h : IsTree cmp t T) (hlow : Lowest T)
    (hfits : T.nodes.length < 2 ^ (t.maxHeight + 1)) (it : BstIterator N)
    (hfuel : 2 * T.nodes.length + 4 ≤ fuel) :
    ∃ w, bstWalk cmp fuel it t = .ok w ∧ Walked cmp t T T.nodes w := by
  have hcount := h.count
  obtain ⟨k, rfl⟩ : ∃ k, fuel = k + 1 := ⟨fuel - 1, by omega⟩
  obtain ⟨r₁, hfirst⟩ := h.end_returns hlow hfits .left it (by omega : t.count < k)
  obtain ⟨T₁, hT₁, hnodes₁, hlow₁, hmax₁, hend, hplaced⟩ := h.end_placed hlow hfirst
  have hcount₁ : r₁.2.2.count = t.count := by rw [hT₁.count, h.count, hnodes₁]
  have hloop : bstWalk cmp (k + 1) it t = walkLoop cmp (k + 1) r₁.1 r₁.2.1 r₁.2.2 := by
    rw [bstWalk]
    change (bstIteratorEnd .left (k + 1) it t >>= _) = _
    rw [hfirst]
    rfl
  rw [hloop]
  cases hT : T.nodes with
  | nil =>
      have hnone : r₁.1 = none := by
        rw [hend, hT]
        rfl
      rw [hnone]
      exact ⟨([], r₁.2), rfl, rfl, hmax₁, T₁, hT₁, hnodes₁, hlow₁⟩
  | cons x rest =>
      have hx : r₁.1 = some x := by
        rw [hend, hT]
        rfl
      rw [hT, List.length_cons] at hfuel
      rw [hT, List.length_cons] at hcount
      obtain ⟨w, hw, hmet, hmax', T', hT', hnodes', hlow'⟩ :=
        walkLoop_spec hcmp [] hT₁ hlow₁ (by rwa [hnodes₁, hmax₁]) (hplaced x hx)
          (hnodes₁.trans hT) (by omega : r₁.2.2.count + rest.length + 3 ≤ k + 1)
      rw [hx]
      exact ⟨w, hw, hmet, hmax'.trans hmax₁, T', hT', hnodes'.trans hnodes₁, hlow'⟩

end Walk

end LinuxC.Bst
