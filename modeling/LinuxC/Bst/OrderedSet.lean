import LinuxC.Bst.Operations
import LinuxC.RbTree.OrderedSet

/-!
# The tree as a finite ordered set

What `bst_insert`, `bst_remove` and `bst_delete` do to the list of the nodes in order: a new node is
put between two of them, or one of them is taken out, and the others stay where they are
(`updates_refine_set`).

The comparator may call different nodes equal: a node with the key of another one need not be in the
tree.  Such a duplicate takes out the other node when `bst_remove` is called without `self`.
-/

namespace LinuxC.Bst

variable {N I : Type}

/-- The searcher is consistent with the comparator, and does not tell equal nodes apart. -/
structure Agrees (cmp : N → N → ℤ) (searcher : I → N → ℤ) : Prop
    extends Rb.Consistent cmp searcher where
  equal : ∀ i a b, cmp a b = 0 → searcher i a = 0 → searcher i b = 0

/-- An item compares with all nodes as a node does that is equal to it. -/
lemma Agrees.sides {cmp : N → N → ℤ} {searcher : I → N → ℤ} (h : Agrees cmp searcher)
    (hcmp : Comparator cmp) {item : I} {n : N} (hn : searcher item n = 0) (m : N) :
    (searcher item m = 0 ↔ cmp n m = 0) ∧ side (searcher item m) = side (cmp n m) := by
  rcases lt_trichotomy (cmp n m) 0 with hlt | heq | hgt
  · have hm : searcher item m < 0 := h.below item n m hlt hn.le
    refine ⟨⟨fun h0 => by omega, fun h0 => by omega⟩, ?_⟩
    rw [side_of_neg (by omega), side_of_neg (by omega)]
  · have hm : searcher item m = 0 := h.equal item n m heq hn
    exact ⟨⟨fun _ => heq, fun _ => hm⟩, by rw [hm, heq]⟩
  · have hm : 0 < searcher item m := h.above item m n ((hcmp.swap n m).mp hgt) hn.ge
    refine ⟨⟨fun h0 => by omega, fun h0 => by omega⟩, ?_⟩
    rw [side_of_pos hm, side_of_pos hgt]

/-- The loop of `bst_remove` sees only the signs of the comparisons. -/
lemma removeLoop_congr {f g : N → ℤ} {t : BstTable N}
    (h : ∀ m, (f m = 0 ↔ g m = 0) ∧ side (f m) = side (g m)) {fuel : ℕ} {p : Place N} {c c' : ℤ}
    (hc : side c = side c') : removeLoop f t fuel p c = removeLoop g t fuel p c' := by
  induction fuel generalizing p c c' with
  | zero => rfl
  | succ fuel ih =>
      rw [removeLoop, removeLoop, hc]
      cases t.load p (side c') with
      | none => rfl
      | some d =>
          by_cases hd : f d = 0
          · simp only [hd, (h d).1.mp hd, if_true]
          · have hd' : g d ≠ 0 := fun h0 => hd ((h d).1.mpr h0)
            simp only [hd, hd', if_false]
            exact ih (h d).2

variable [DecidableEq N] {cmp : N → N → ℤ} {t : BstTable N} {T : Tree N} {fuel : ℕ}

/-- The table holds the nodes of `T` and `n` between them. -/
def Grown (cmp : N → N → ℤ) (T : Tree N) (n : N) (t' : BstTable N) : Prop :=
  ∃ T' ys zs, IsTree cmp t' T' ∧ T.nodes = ys ++ zs ∧ T'.nodes = ys ++ n :: zs

/-- The table holds the nodes of `T` without `d`. -/
def Shrunk (cmp : N → N → ℤ) (T : Tree N) (d : N) (t' : BstTable N) : Prop :=
  ∃ T' ys zs, IsTree cmp t' T' ∧ T.nodes = ys ++ d :: zs ∧ T'.nodes = ys ++ zs

section Loop

variable {f : N → ℤ}

omit [DecidableEq N] in
lemma IsTree.removeLoop_none (h : IsTree cmp t T) (hf : ∀ m ∈ T.nodes, f m ≠ 0)
    (hfuel : t.count < fuel) : Bst.removeLoop f t fuel .table (-1) = .ok none := by
  rw [h.removeLoop hfuel, removeEnd]
  rcases locate_cases f [] T with hnil | ⟨c, l, a, r, -, ha, h0⟩
  · rw [hnil]
  · exact absurd h0 (hf a ha)

/-- The node that compares equal is found, and it can be taken out. -/
lemma IsTree.removeLoop_some (h : IsTree cmp t T) (hg : Guides f T.nodes) {d : N}
    (hd : d ∈ T.nodes) (h0 : f d = 0) (hfuel : t.count < fuel) :
    ∃ p dir t', Bst.removeLoop f t fuel .table (-1) = .ok (some (p, dir, d)) ∧
      Bst.unlinkNode fuel p dir d t = .ok t' ∧ Shrunk cmp T d t' := by
  obtain ⟨c, l, r, hloc⟩ := locate_of_zero hg hd h0
  have hplug : T = plug (locate f [] T).1 (.bin .left c l d r) := by
    rw [← hloc]
    exact (plug_locate f [] T).symm
  obtain ⟨t', T', heval, hT', -, ⟨ys, zs, hold, hnew⟩, -, -⟩ := h.unlinkNode hplug hfuel
  refine ⟨_, _, t', ?_, heval, T', ys, zs, hT', hold, hnew⟩
  rw [h.removeLoop hfuel, removeEnd, hloc]
  rfl

end Loop

/-- `bst_delete` is `bst_remove` of an equal node without `self`. -/
lemma bstDelete_eq_bstRemove {searcher : I → N → ℤ} (hcmp : Comparator cmp)
    (hsearch : Agrees cmp searcher) {item : I} {n : N} (hn : searcher item n = 0) (fuel : ℕ)
    (t : BstTable N) : bstDelete searcher fuel item t = bstRemove cmp fuel n false t := by
  rw [bstDelete, bstRemove, removeLoop_congr (hsearch.sides hcmp hn) rfl]
  simp

/-- **The updates refine a finite ordered set.**  On a search tree with the nodes `T.nodes`:
`bst_insert` returns the equal node and changes nothing if there is one, and adds the node
otherwise; `bst_remove` changes nothing if there is no equal node, takes out the equal node if it is
the node itself or `self` is not asked for, and returns it without a change otherwise; `bst_delete`
agrees with it.  The tree stays in order, the other nodes stay in their order, and `bst_count` is the
number of the nodes. -/
theorem updates_refine_set {searcher : I → N → ℤ} (hcmp : Comparator cmp)
    (hsearch : Agrees cmp searcher) (h : IsTree cmp t T) (hfuel : t.count < fuel) :
    (∀ n, (∀ m ∈ T.nodes, cmp n m = 0 → bstInsert cmp fuel n t = .ok (t, m)) ∧
        ((∀ m ∈ T.nodes, cmp n m ≠ 0) →
          ∃ t', bstInsert cmp fuel n t = .ok (t', n) ∧ Grown cmp T n t')) ∧
      (∀ n self, ((∀ m ∈ T.nodes, cmp n m ≠ 0) → bstRemove cmp fuel n self t = .ok (t, none)) ∧
        ∀ d ∈ T.nodes, cmp n d = 0 →
          (d = n ∨ self = false →
            ∃ t', bstRemove cmp fuel n self t = .ok (t', some d) ∧ Shrunk cmp T d t') ∧
          (¬ (d = n ∨ self = false) → bstRemove cmp fuel n self t = .ok (t, some d))) ∧
      (∀ item, ((∀ m ∈ T.nodes, searcher item m ≠ 0) →
          bstDelete searcher fuel item t = .ok (t, none)) ∧
        ∀ d ∈ T.nodes, searcher item d = 0 →
          ∃ t', bstDelete searcher fuel item t = .ok (t', some d) ∧ Shrunk cmp T d t') ∧
      ∀ item n, searcher item n = 0 →
        bstDelete searcher fuel item t = bstRemove cmp fuel n false t := by
  refine ⟨fun n => ⟨fun m hm h0 => h.insert_equal hcmp hm h0 hfuel, fun hnew => ?_⟩,
    fun n self => ⟨fun hnone => ?_, fun d hd h0 => ?_⟩, fun item => ⟨fun hnone => ?_,
    fun d hd h0 => ?_⟩, fun item n hn => bstDelete_eq_bstRemove hcmp hsearch hn fuel t⟩
  · obtain ⟨t', T', heval, hT', ⟨ys, zs, hold, hadded⟩, -⟩ := h.insert_new hcmp hnew hfuel
    exact ⟨t', heval, T', ys, zs, hT', hold, hadded⟩
  · rw [bstRemove, h.removeLoop_none hnone hfuel]
    rfl
  · obtain ⟨p, dir, t', hloop, heval, hshrunk⟩ :=
      h.removeLoop_some (hcmp.guides h.sorted n) hd h0 hfuel
    refine ⟨fun hself => ⟨t', ?_, hshrunk⟩, fun hself => ?_⟩
    · rw [bstRemove, hloop]
      simp [hself, heval, bind, Except.bind]
    · rw [bstRemove, hloop]
      simp [hself, bind, Except.bind]
  · rw [bstDelete, h.removeLoop_none hnone hfuel]
    rfl
  · obtain ⟨p, dir, t', hloop, heval, hshrunk⟩ :=
      h.removeLoop_some (guides_searcher hsearch.toConsistent h.sorted item) hd h0 hfuel
    refine ⟨t', ?_, hshrunk⟩
    rw [bstDelete, hloop]
    simp [heval, bind, Except.bind]

/-- **`bst_insert`** adds at most the node. -/
lemma IsTree.insert_mem (h : IsTree cmp t T) (hcmp : Comparator cmp) (n : N)
    (hfuel : t.count < fuel) :
    ∃ t' m T', bstInsert cmp fuel n t = .ok (t', m) ∧ IsTree cmp t' T' ∧
      t'.maxHeight = t.maxHeight ∧ ∀ a ∈ T'.nodes, a = n ∨ a ∈ T.nodes := by
  by_cases hequal : ∃ m ∈ T.nodes, cmp n m = 0
  · obtain ⟨m, hm, h0⟩ := hequal
    exact ⟨t, m, T, h.insert_equal hcmp hm h0 hfuel, h, rfl, fun a ha => .inr ha⟩
  · push Not at hequal
    obtain ⟨t', T', heval, hT', ⟨ys, zs, hold, hadded⟩, hmax⟩ := h.insert_new hcmp hequal hfuel
    refine ⟨t', n, T', heval, hT', hmax, fun a ha => ?_⟩
    rw [hadded, List.mem_append, List.mem_cons] at ha
    rw [hold, List.mem_append]
    tauto

/-- **`bst_remove` with `self`** takes out the node itself and no other. -/
lemma IsTree.remove_self (h : IsTree cmp t T) (hcmp : Comparator cmp) (n : N)
    (hfuel : t.count < fuel) :
    ∃ t' r T', bstRemove cmp fuel n true t = .ok (t', r) ∧ IsTree cmp t' T' ∧
      ∀ a, a ∈ T'.nodes ↔ a ∈ T.nodes ∧ a ≠ n := by
  -- where the node found is another one, this one is not in the tree
  have hother (hn : n ∉ T.nodes) (a : N) : a ∈ T.nodes ↔ a ∈ T.nodes ∧ a ≠ n := by
    refine ⟨fun ha => ⟨ha, ?_⟩, And.left⟩
    rintro rfl
    exact hn ha
  by_cases hequal : ∃ d ∈ T.nodes, cmp n d = 0
  · obtain ⟨d, hd, h0⟩ := hequal
    obtain ⟨p, dir, t', hloop, heval, T', ys, zs, hT', hold, hnew⟩ :=
      h.removeLoop_some (hcmp.guides h.sorted n) hd h0 hfuel
    by_cases hself : d = n
    · subst hself
      refine ⟨t', some d, T', ?_, hT', fun a => ?_⟩
      · rw [bstRemove, hloop]
        simp [heval, bind, Except.bind]
      · have hnodup := h.holds.nodup
        rw [hold] at hnodup
        obtain ⟨hnot, -⟩ := List.nodup_cons.mp (List.nodup_middle.mp hnodup)
        rw [hold, hnew, List.mem_append, List.mem_append, List.mem_cons]
        rw [List.mem_append] at hnot
        constructor
        · intro ha
          refine ⟨by tauto, ?_⟩
          rintro rfl
          exact hnot ha
        · tauto
    · have hn : n ∉ T.nodes := fun hmem =>
        hself (hcmp.unique h.sorted hd hmem h0 (hcmp.self n))
      refine ⟨t, some d, T, ?_, h, hother hn⟩
      rw [bstRemove, hloop]
      simp [hself, bind, Except.bind]
  · push Not at hequal
    have hn : n ∉ T.nodes := fun hmem => hequal n hmem (hcmp.self n)
    refine ⟨t, none, T, ?_, h, hother hn⟩
    rw [bstRemove, h.removeLoop_none hequal hfuel]
    rfl

/-- Nodes with a key and an address, compared by the key. -/
def keyCmp (a b : ℕ × ℕ) : ℤ := Rb.natCmp a.1 b.1

/-- The table with the keys `1` and `2`, the second one at the root. -/
def twoKeys : BstTable (ℕ × ℕ) where
  root := some (2, 0)
  link := fun n d => if n = (2, 0) ∧ d = .left then some (1, 0) else none
  count := 2
  maxHeight := 2
  generation := 0

/-- A duplicate of the node at the root is not in the tree: it does not take out that node when it
asks for itself. -/
theorem updates_refine_set_sample :
    bstInsert keyCmp 3 (2, 7) twoKeys = .ok (twoKeys, (2, 0)) ∧
      bstRemove keyCmp 3 (2, 7) true twoKeys = .ok (twoKeys, some (2, 0)) := by
  have hcmp : Comparator keyCmp := ⟨fun a b => Rb.comparator_natCmp.swap a.1 b.1,
    fun a b c => Rb.comparator_natCmp.trans a.1 b.1 c.1⟩
  have hsearch : Agrees keyCmp fun (i : ℕ) (n : ℕ × ℕ) => Rb.natCmp i n.1 :=
    { below := fun i a b => Rb.consistent_natCmp.below i a.1 b.1
      above := fun i a b => Rb.consistent_natCmp.above i a.1 b.1
      equal := fun i a b hab ha => by
        unfold keyCmp Rb.natCmp at *
        omega }
  have h : IsTree keyCmp twoKeys (.node .black (.node .black .nil (1, 0) .nil) (2, 0) .nil) :=
    ⟨⟨rfl, ⟨rfl, rfl, ⟨rfl, rfl, trivial, trivial⟩, trivial⟩, by decide⟩,
      by simp [Sorted, keyCmp, Rb.natCmp], rfl⟩
  have hfuel : twoKeys.count < 3 := by decide
  obtain ⟨hinsert, hremove, -, -⟩ := updates_refine_set hcmp hsearch h hfuel
  exact ⟨(hinsert (2, 7)).1 (2, 0) (by simp) rfl,
    ((hremove (2, 7) true).2 (2, 0) (by simp) rfl).2 (by decide)⟩

end LinuxC.Bst
