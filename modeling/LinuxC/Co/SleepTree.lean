import LinuxC.Co.Model
import LinuxC.RbTree.Next

/-!
# The sleep tree

The tree is ordered by the expiry times, but `expt_compare` returns only `1` and `0`: a node that
expires no later than the one it is compared with counts as equal to it.  So the descent of
`rb_insert` never turns left.  A node is inserted when it expires later than all nodes of the
tree, as the last one (`insert_last`); otherwise `rb_insert` returns another node and
changes nothing (`insert_early`).
-/

namespace LinuxC.Co

open Rb

variable {C : Type} [DecidableEq C]

/-- The order of the sleep tree. -/
def timeOrder (time : C → ℤ) (a b : C) : ℤ := time a - time b

omit [DecidableEq C] in
lemma comparator_timeOrder (time : C → ℤ) : Comparator (timeOrder time) := by
  refine ⟨fun a b => ?_, fun a b c hab hbc => ?_⟩
  · unfold timeOrder
    omega
  · unfold timeOrder at *
    omega

omit [DecidableEq C] in
/-- The order depends on the times of the nodes in the tree only. -/
lemma isSet_congr {time time' : C → ℤ} {t : RbTree C} {xs : List C}
    (h : IsSet (timeOrder time) t xs) (heq : ∀ c ∈ xs, time' c = time c) :
    IsSet (timeOrder time') t xs := by
  refine ⟨h.balanced, ?_, h.count⟩
  refine h.sorted.imp_of_mem fun {a b} ha hb hab => ?_
  rw [timeOrder, heq a ha, heq b hb]
  exact hab

variable {time : C → ℤ} {t : RbTree C} {xs : List C} {fuel : ℕ} {n : C}

omit [DecidableEq C] in
/-- Two comparators that agree on the nodes of the tree lead to the same link. -/
lemma findLink_congr {cmp cmp' : C → C → ℤ} {link : Link C} {parent : Option C}
    (h : ∀ m, InTree t m → (cmp n m = 0 ↔ cmp' n m = 0) ∧ (0 < cmp n m ↔ 0 < cmp' n m))
    (hlink : ∀ m, t.load link = some m → InTree t m) :
    findLink cmp n t fuel link parent = findLink cmp' n t fuel link parent := by
  induction fuel generalizing link parent with
  | zero => rfl
  | succ fuel ih =>
      rw [findLink, findLink]
      cases hload : t.load link with
      | none => rfl
      | some cur =>
          obtain ⟨hzero, hpos⟩ := h cur (hlink cur hload)
          simp only [hzero, hpos]
          split
          · rfl
          · exact ih fun m hm => .child (hlink cur hload) hm

/-- **A node that expires later than all others** becomes the last one. -/
lemma insert_last (h : IsSet (timeOrder time) t xs) (hlate : ∀ m ∈ xs, time m < time n)
    (hfuel : t.rbCount < fuel) :
    ∃ t', rbInsert (exptCompare time) fuel n t = some (t', n) ∧
      IsSet (timeOrder time) t' (xs ++ [n]) := by
  have hsame : rbInsert (exptCompare time) fuel n t = rbInsert (timeOrder time) fuel n t := by
    have hlink : findLink (exptCompare time) n t fuel .root none =
        findLink (timeOrder time) n t fuel .root none := by
      refine findLink_congr (fun m hm => ?_) fun m hm => .root hm
      have hlt := hlate m (h.mem_members.mp hm)
      rw [exptCompare, if_pos hlt, timeOrder]
      omega
    rw [rbInsert, rbInsert, hlink]
  have hnew : ∀ m ∈ xs, timeOrder time n m ≠ 0 := by
    intro m hm
    have hlt := hlate m hm
    unfold timeOrder
    omega
  obtain ⟨t', ys, zs, rfl, heval, h'⟩ := rbInsert_new (comparator_timeOrder time) h hnew hfuel
  -- nothing is left behind the new node
  obtain rfl : zs = [] := by
    apply List.eq_nil_iff_forall_not_mem.mpr
    intro m hm
    have hlt := hlate m (List.mem_append_right _ hm)
    have hgt := (List.pairwise_cons.mp (List.pairwise_append.mp h'.sorted).2.1).1 m hm
    unfold timeOrder at hgt
    omega
  rw [List.append_nil]
  exact ⟨t', hsame.trans heval, h'⟩

/-- The descent in a subtree with a node that expires no earlier. -/
lemma findLink_early {S : Tree C} {ctx : Ctx C} {m : C} (h : Holds t (plug ctx S))
    (hs : Sorted (timeOrder time) S.nodes) (hm : m ∈ S.nodes) (hle : time n ≤ time m)
    (hfuel : S.nodes.length < fuel) :
    ∃ cur ∈ S.nodes, findLink (exptCompare time) n t fuel (linkOf ctx) ctx.top =
      some (.inl cur) := by
  induction S generalizing ctx fuel with
  | nil => simp at hm
  | node c l a r _ ihr =>
      obtain ⟨fuel, rfl⟩ : ∃ f, fuel = f + 1 := ⟨fuel - 1, by omega⟩
      rw [Sorted, Tree.nodes_node, List.pairwise_append, List.pairwise_cons] at hs
      obtain ⟨-, ⟨-, hsr⟩, hla⟩ := hs
      rw [Tree.nodes_node, List.length_append, List.length_cons] at hfuel
      rw [findLink, load_linkOf h, Tree.root?_node]
      by_cases hlt : time a < time n
      · -- the node is right of `a`, as all nodes left of it expire before `a`
        have hmr : m ∈ r.nodes := by
          rw [Tree.nodes_node, List.mem_append, List.mem_cons] at hm
          rcases hm with hm | rfl | hm
          · have hma := hla m hm a (by simp)
            unfold timeOrder at hma
            omega
          · omega
          · exact hm
        have hr : Holds t (plug (⟨.right, c, a, l⟩ :: ctx) r) := h
        have hlen : r.nodes.length < fuel := by omega
        obtain ⟨cur, hcur, hres⟩ := ihr hr hsr hmr hlen
        refine ⟨cur, by simp [hcur], ?_⟩
        simpa [exptCompare, hlt, linkOf] using hres
      · exact ⟨a, by simp, by simp [exptCompare, hlt]⟩

/-- **A node that expires no later than some other** is not inserted. -/
lemma insert_early (h : IsSet (timeOrder time) t xs) {m : C} (hm : m ∈ xs)
    (hle : time n ≤ time m) (hfuel : t.rbCount < fuel) :
    ∃ cur ∈ xs, rbInsert (exptCompare time) fuel n t = some (t, cur) := by
  obtain ⟨⟨T, k, hT, -, -, rfl⟩, hs, hcount⟩ := h
  have hT' : Holds t (plug [] T) := hT
  obtain ⟨cur, hcur, hres⟩ := findLink_early hT' hs hm hle (hcount ▸ hfuel)
  have hres : findLink (exptCompare time) n t fuel .root none = some (.inl cur) := hres
  exact ⟨cur, hcur, by simp [rbInsert, hres]⟩

end LinuxC.Co
