import LinuxC.Bst.Layout
import LinuxC.RbTree.Operations

/-!
# The operations of the tree

`IsTree cmp t T` is the invariant between two calls: the memory holds `T`, whose nodes are in strict
order, and `bst_count` is their number.  One lemma for each function says what becomes of `T`, and
that the function returns when it is given enough turns.  Insertion leaves the path of every node
alone, removal moves no node down, and balancing makes the tree as low as the number of its nodes
allows.
-/

namespace LinuxC.Bst

variable {N I : Type}

/-- The memory holds the ordered tree `T`. -/
structure IsTree (cmp : N → N → ℤ) (t : BstTable N) (T : Tree N) : Prop where
  holds : Holds t T
  sorted : Sorted cmp T.nodes
  count : t.count = T.nodes.length

lemma guides_searcher {cmp : N → N → ℤ} {searcher : I → N → ℤ} (h : Rb.Consistent cmp searcher)
    {xs : List N} (hs : Sorted cmp xs) (item : I) : Guides (searcher item) xs :=
  hs.guides (fun a _ b _ => h.below item a b) fun a _ b _ => h.above item a b

/-- **`bst_search`** finds the node that the searcher maps to zero. -/
lemma IsTree.search {cmp : N → N → ℤ} {t : BstTable N} {T : Tree N} (h : IsTree cmp t T)
    {searcher : I → N → ℤ} (hsearch : Rb.Consistent cmp searcher) (item : I) {fuel : ℕ}
    (hfuel : t.count < fuel) :
    ∃ r, bstSearch searcher item t fuel t.root = .ok r ∧
      ∀ m, r = some m ↔ m ∈ T.nodes ∧ searcher item m = 0 := by
  have hheld : Holds t (plug [] T) := h.holds
  rw [h.count] at hfuel
  refine ⟨(locate (searcher item) [] T).2.root?, ?_, fun m => ⟨fun hm => ?_, fun ⟨hm, h0⟩ => ?_⟩⟩
  · rw [h.holds.root]
    exact bstSearch_eq hheld hfuel
  · rcases locate_cases (searcher item) [] T with hnil | ⟨c, l, a, r, he, ha, h0⟩
    · simp [hnil] at hm
    · obtain rfl : a = m := by simpa [he] using hm
      exact ⟨ha, h0⟩
  · obtain ⟨c, l, r, he⟩ := locate_of_zero (guides_searcher hsearch h.sorted item) hm h0
    rw [he, Tree.root?_bin]

variable [DecidableEq N]

/-! ## Insertion -/

@[simp] lemma generation_store (t : BstTable N) (p : Place N) (d : Dir) (x : Option N) :
    (t.store p d x).generation = t.generation := by cases p <;> rfl

@[simp] lemma maxHeight_store (t : BstTable N) (p : Place N) (d : Dir) (x : Option N) :
    (t.store p d x).maxHeight = t.maxHeight := by cases p <;> rfl

@[simp] lemma count_store (t : BstTable N) (p : Place N) (d : Dir) (x : Option N) :
    (t.store p d x).count = t.count := by cases p <;> rfl

@[simp] lemma count_linkLeaf (n : N) (p : Place N) (d : Dir) (t : BstTable N) :
    (linkLeaf n p d t).count = t.count + 1 := by simp [linkLeaf, BstTable.setLink]

@[simp] lemma generation_linkLeaf (n : N) (p : Place N) (d : Dir) (t : BstTable N) :
    (linkLeaf n p d t).generation = t.generation := by simp [linkLeaf, BstTable.setLink]

@[simp] lemma maxHeight_linkLeaf (n : N) (p : Place N) (d : Dir) (t : BstTable N) :
    (linkLeaf n p d t).maxHeight = t.maxHeight := by simp [linkLeaf, BstTable.setLink]

section Insert

variable {cmp : N → N → ℤ} {t : BstTable N} {T : Tree N} {n : N} {fuel : ℕ}

/-- **A new leaf where the search for the node ended.** -/
lemma IsTree.linkLeaf (h : IsTree cmp t T) (hcmp : Comparator cmp) {ctx : Ctx N}
    (hloc : locate (cmp n) [] T = (ctx, .nil)) :
    ∃ T', IsTree cmp (linkLeaf n (placeOf ctx) (dirOf ctx) t) T' ∧ Keeps T T' ∧
      At T' (ctx.map Frame.node).reverse n ∧
      ∃ ys zs, T.nodes = ys ++ zs ∧ T'.nodes = ys ++ n :: zs := by
  have hplug : plug ctx .nil = T := by
    have := plug_locate (cmp n) [] T
    rwa [hloc] at this
  subst hplug
  have hsplit : Splits (cmp n) ctx := by
    have := splits_locate (hcmp.guides h.sorted n) (splits_nil (f := cmp n))
    rwa [hloc] at this
  have hn : n ∉ (plug ctx .nil).nodes := by
    intro hmem
    obtain ⟨c, l, r, he⟩ := locate_of_zero (hcmp.guides h.sorted n) hmem (hcmp.self n)
    rw [hloc] at he
    simp [Tree.bin] at he
  have hkeeps : Keeps .nil (.bin .left .black .nil n .nil) := fun _ _ hx => False.elim hx
  refine ⟨_, ⟨h.holds.linkLeaf hn, hcmp.sorted_insert h.sorted hsplit .black, ?_⟩,
    hkeeps.plug ctx, ?_, ctx.before, ctx.after, by simp [nodes_plug],
    by simp [nodes_plug, Tree.bin]⟩
  · rw [count_linkLeaf, h.count]
    simp only [nodes_plug, Tree.bin, Tree.nodes_node, Tree.nodes_nil, List.length_append,
      List.length_nil, List.length_cons]
    omega
  · have hleaf : At (.bin .left .black .nil n .nil) [] n := at_bin_nil.mpr rfl
    have hat : At (plug ctx (.bin .left .black .nil n .nil))
        ((ctx.map Frame.node).reverse ++ []) n := at_plug hleaf
    rwa [List.append_nil] at hat

/-- **`bst_insert`** of a node that is equal to none adds this node. -/
lemma IsTree.insert_new (h : IsTree cmp t T) (hcmp : Comparator cmp)
    (hnew : ∀ m ∈ T.nodes, cmp n m ≠ 0) (hfuel : t.count < fuel) :
    ∃ t' T', bstInsert cmp fuel n t = .ok (t', n) ∧ IsTree cmp t' T' ∧
      (∃ ys zs, T.nodes = ys ++ zs ∧ T'.nodes = ys ++ n :: zs) ∧ t'.maxHeight = t.maxHeight := by
  have hheld : Holds t (plug [] T) := h.holds
  rw [h.count] at hfuel
  have hloop : insertLoop cmp n t fuel .table .left = .ok (insertEnd (locate (cmp n) [] T)) :=
    insertLoop_eq hheld hfuel
  have hnil : (locate (cmp n) [] T).2 = .nil := by
    refine (locate_cases (cmp n) [] T).resolve_right ?_
    rintro ⟨c, l, a, r, -, ha, hzero⟩
    exact hnew a ha hzero
  obtain ⟨T', hT', -, -, hnodes⟩ := h.linkLeaf hcmp (Prod.ext rfl hnil)
  refine ⟨_, T', ?_, hT', hnodes, by simp⟩
  rw [bstInsert, hloop, insertEnd, hnil]
  rfl

/-- **`bst_insert`** of a node that is equal to one of the tree returns that one. -/
lemma IsTree.insert_equal (h : IsTree cmp t T) (hcmp : Comparator cmp) {m : N} (hm : m ∈ T.nodes)
    (hnm : cmp n m = 0) (hfuel : t.count < fuel) : bstInsert cmp fuel n t = .ok (t, m) := by
  have hheld : Holds t (plug [] T) := h.holds
  rw [h.count] at hfuel
  have hloop : insertLoop cmp n t fuel .table .left = .ok (insertEnd (locate (cmp n) [] T)) :=
    insertLoop_eq hheld hfuel
  obtain ⟨c, l, r, hloc⟩ := locate_of_zero (hcmp.guides h.sorted n) hm hnm
  rw [bstInsert, hloop, insertEnd, hloc]
  rfl

/-- **`bst_insert`** leaves the path of every node alone. -/
lemma IsTree.insert (h : IsTree cmp t T) (hcmp : Comparator cmp) (hfuel : t.count < fuel) :
    ∃ t' T' r, bstInsert cmp fuel n t = .ok (t', r) ∧ IsTree cmp t' T' ∧ Keeps T T' ∧
      t'.generation = t.generation ∧ t'.maxHeight = t.maxHeight := by
  have hheld : Holds t (plug [] T) := h.holds
  rw [h.count] at hfuel
  have hloop : insertLoop cmp n t fuel .table .left = .ok (insertEnd (locate (cmp n) [] T)) :=
    insertLoop_eq hheld hfuel
  cases hloc : locate (cmp n) [] T with
  | mk ctx S =>
      cases S with
      | nil =>
          obtain ⟨T', hT', hkeeps, -, -⟩ := h.linkLeaf hcmp hloc
          refine ⟨_, T', n, ?_, hT', hkeeps, by simp, by simp⟩
          rw [bstInsert, hloop, hloc]
          rfl
      | node c l a r =>
          refine ⟨t, T, a, ?_, h, fun _ _ hx => hx, rfl, rfl⟩
          rw [bstInsert, hloop, hloc]
          rfl

end Insert

/-! ## Removal -/

section Remove

variable {cmp : N → N → ℤ} {t : BstTable N} {T : Tree N} {fuel : ℕ}

/-- **Taking a node out** moves no other node down. -/
lemma Holds.unlinkNode {ctx : Ctx N} {c : Color} {L R : Tree N} {d : N}
    (h : Holds t (plug ctx (.bin .left c L d R))) (hfuel : R.nodes.length ≤ fuel) :
    ∃ t' J, unlinkNode fuel (placeOf ctx) (dirOf ctx) d t =
        .ok { t' with count := t.count - 1, generation := t.generation + 1 } ∧
      t'.maxHeight = t.maxHeight ∧ Unlinked t t' ctx d (.bin .left c L d R) J := by
  obtain ⟨hLd, hRd⟩ := h.link
  replace hRd : t.link d .right = R.root? := hRd
  match R with
  | .nil =>
      refine ⟨_, L, ?_, by simp, h.unlink_left⟩
      rw [Bst.unlinkNode, hRd]
      simp [Tree.root?, bind, Except.bind]
  | .node rc .nil r C =>
      have hrepR : Rep t.link (.node rc .nil r C) := (rep_bin.mp (rep_plug.mp h.rep).2).2.2.2
      have hr : t.link r .left = none := hrepR.1
      refine ⟨_, _, ?_, by simp [BstTable.setLink], h.unlink_child⟩
      rw [Bst.unlinkNode, hRd]
      simp [Tree.root?, hr, bind, Except.bind, BstTable.setLink]
  | .node rc (.node ac AL a AR) r B =>
      have hrepR : Rep t.link (.bin .left rc (.node ac AL a AR) r B) :=
        (rep_bin.mp (rep_plug.mp h.rep).2).2.2.2
      have hr : t.link r .left = some a := hrepR.1
      have hlen : (Tree.node ac AL a AR).nodes.length ≤ fuel := by
        rw [Tree.nodes_node, List.length_append] at hfuel
        omega
      obtain ⟨f, ctxR, sc, s, C, he, hdirs, heval⟩ := leftmost_spec hrepR (by simp) hlen
      replace he : Tree.node rc (.node ac AL a AR) r B = plug (f :: ctxR) (.bin .left sc .nil s C) :=
        he
      rw [he] at h ⊢
      refine ⟨_, _, ?_, ?_, h.unlink_deep hdirs rfl rfl rfl⟩
      · rw [Bst.unlinkNode, hRd]
        simp [Tree.root?, hr, heval, bind, Except.bind, BstTable.setLink]
      · simp [BstTable.setLink]

lemma IsTree.unlinkNode (h : IsTree cmp t T) {ctx : Ctx N} {c : Color} {L R : Tree N} {d : N}
    (hT : T = plug ctx (.bin .left c L d R)) (hfuel : t.count < fuel) :
    ∃ t' T', unlinkNode fuel (placeOf ctx) (dirOf ctx) d t = .ok t' ∧ IsTree cmp t' T' ∧
      NoDeeper d T T' ∧ (∃ ys zs, T.nodes = ys ++ d :: zs ∧ T'.nodes = ys ++ zs) ∧
      t'.generation = t.generation + 1 ∧ t'.maxHeight = t.maxHeight := by
  subst hT
  have hlen : R.nodes.length ≤ fuel := by
    have hle := length_le_nodes_plug ctx (.bin .left c L d R)
    rw [← h.count] at hle
    simp only [Tree.bin, Tree.nodes_node, List.length_append, List.length_cons] at hle
    omega
  obtain ⟨t', J, heval, hmax, hun⟩ := h.holds.unlinkNode hlen
  obtain ⟨ys, zs, hold, hnew⟩ := hun.nodes
  refine ⟨_, plug ctx J, heval, ⟨hun.holds.of_eq rfl rfl, ?_, ?_⟩, hun.shallow.plug ctx,
    ⟨ys, zs, hold, hnew⟩, rfl, hmax⟩
  · have hs := h.sorted
    rw [hold] at hs
    rw [hnew]
    exact hs.sublist ((List.sublist_cons_self d zs).append_left ys)
  · change t.count - 1 = _
    rw [h.count, hold, hnew]
    simp only [List.length_append, List.length_cons]
    omega

/-- What `bst_remove` and `bst_delete` do: nothing, or a node `d` of the tree is taken out. -/
inductive Removed (cmp : N → N → ℤ) (t : BstTable N) (T : Tree N) : BstTable N → Option N → Prop
  | nothing (r : Option N) : Removed cmp t T t r
  | node {t' : BstTable N} {T' : Tree N} {d : N} : IsTree cmp t' T' → d ∈ T.nodes →
      NoDeeper d T T' → (∃ ys zs, T.nodes = ys ++ d :: zs ∧ T'.nodes = ys ++ zs) →
      t'.generation = t.generation + 1 → t'.maxHeight = t.maxHeight →
      Removed cmp t T t' (some d)

section Loop

variable {f : N → ℤ}

omit [DecidableEq N] in
lemma IsTree.removeLoop (h : IsTree cmp t T) (hfuel : t.count < fuel) :
    removeLoop f t fuel .table (-1) = .ok (removeEnd (locate f [] T)) := by
  have hheld : Holds t (plug [] T) := h.holds
  rw [h.count] at hfuel
  exact removeLoop_eq hheld (side_of_neg (by decide)) hfuel

/-- The node that the loop found is taken out. -/
lemma IsTree.removed (h : IsTree cmp t T) (hfuel : t.count < fuel) {ctx : Ctx N} {c : Color}
    {L R : Tree N} {d : N} (hloc : locate f [] T = (ctx, .node c L d R)) :
    ∃ t', Bst.unlinkNode fuel (placeOf ctx) (dirOf ctx) d t = .ok t' ∧
      Removed cmp t T t' (some d) := by
  have hplug : T = plug ctx (.bin .left c L d R) := by
    have := plug_locate f [] T
    rw [hloc] at this
    exact this.symm
  obtain ⟨t', T', heval, hT', hshallow, hnodes, hgen, hmax⟩ := h.unlinkNode hplug hfuel
  refine ⟨t', heval, .node hT' ?_ hshallow hnodes hgen hmax⟩
  obtain ⟨ys, zs, hold, -⟩ := hnodes
  simp [hold]

end Loop

/-- **`bst_remove`.** -/
lemma IsTree.remove (h : IsTree cmp t T) (n : N) (self : Bool) (hfuel : t.count < fuel) :
    ∃ t' r, bstRemove cmp fuel n self t = .ok (t', r) ∧ Removed cmp t T t' r := by
  have hloop := h.removeLoop (f := cmp n) hfuel
  cases hloc : locate (cmp n) [] T with
  | mk ctx S =>
      rw [hloc] at hloop
      cases S with
      | nil =>
          refine ⟨t, none, ?_, .nothing none⟩
          rw [bstRemove, hloop]
          rfl
      | node c L d R =>
          obtain ⟨t', heval, hrem⟩ := h.removed hfuel hloc
          by_cases hself : d = n ∨ self = false
          · refine ⟨t', some d, ?_, hrem⟩
            rw [bstRemove, hloop]
            simp [removeEnd, hself, heval, bind, Except.bind]
          · refine ⟨t, some d, ?_, .nothing _⟩
            rw [bstRemove, hloop]
            simp [removeEnd, hself, bind, Except.bind]

/-- **`bst_delete`.** -/
lemma IsTree.delete (h : IsTree cmp t T) (searcher : I → N → ℤ) (item : I)
    (hfuel : t.count < fuel) :
    ∃ t' r, bstDelete searcher fuel item t = .ok (t', r) ∧ Removed cmp t T t' r := by
  have hloop := h.removeLoop (f := searcher item) hfuel
  cases hloc : locate (searcher item) [] T with
  | mk ctx S =>
      rw [hloc] at hloop
      cases S with
      | nil =>
          refine ⟨t, none, ?_, .nothing none⟩
          rw [bstDelete, hloop]
          rfl
      | node c L d R =>
          obtain ⟨t', heval, hrem⟩ := h.removed hfuel hloc
          refine ⟨t', some d, ?_, hrem⟩
          rw [bstDelete, hloop]
          simp [removeEnd, heval, bind, Except.bind]

end Remove

end LinuxC.Bst
