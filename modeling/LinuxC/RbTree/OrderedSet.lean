import LinuxC.RbTree.Operations
import Mathlib.Data.Set.Card

/-!
# The tree as a finite ordered set

The two results about whole runs.  `Reachable cmp t` holds of the trees that a sequence of
`rb_insert` and `rb_remove` can make out of an initialised one, where a node is inserted only
while it is not in the tree and removed only while it is.  Every such tree is a red-black tree
in memory (`reachable_isRedBlack`), and the operations on it are those of a finite ordered set
(`reachable_refines_set`).

The nodes of the type `N` are the nodes in use.  The comparator may call different nodes equal;
a comparator that does not is the special case of a strict total order.
-/

namespace LinuxC.Rb

variable {N : Type}

/-! ## Nodes in the tree -/

/-- The node can be reached from the root. -/
inductive InTree (t : RbTree N) : N → Prop
  | root {n : N} : t.root = some n → InTree t n
  | child {n m : N} {d : Dir} : InTree t n → (t.node n).child d = some m → InTree t m

/-- The nodes that can be reached from the root. -/
def members (t : RbTree N) : Set N := { n | InTree t n }

/-- The two links of a node of the tree, and the way back. -/
lemma Holds.child_cases {t : RbTree N} {T : Tree N} (h : Holds t T) {n m : N} {d : Dir}
    (hn : n ∈ T.nodes) (hm : (t.node n).child d = some m) :
    m ∈ T.nodes ∧ (t.node m).parent = some n := by
  obtain ⟨ctx, c, L, R, rfl⟩ := exists_focus hn
  have hnode := h.node_bin
  have hL : Holds t (plug (⟨.left, c, n, R⟩ :: ctx) L) := h
  rw [hnode] at hm
  rw [(nodes_plug_perm _ _).mem_iff, List.mem_append, Tree.mem_nodes_bin]
  cases d with
  | left =>
      have hm : L.root? = some m := hm
      exact ⟨.inl (.inl (Tree.mem_nodes_of_root? hm)), (hL.node_root hm).1⟩
  | right =>
      have hm : R.root? = some m := hm
      exact ⟨.inl (.inr (.inr (Tree.mem_nodes_of_root? hm))), (hL.flip.node_root hm).1⟩

lemma inTree_of_rep {t : RbTree N} {p : Option N} {S : Tree N} (h : Rep t.node p S)
    (hroot : ∀ a, S.root? = some a → InTree t a) : ∀ n ∈ S.nodes, InTree t n := by
  induction S generalizing p with
  | nil => simp
  | node c l a r ihl ihr =>
      obtain ⟨ha, hl, hr⟩ := h
      have hin : InTree t a := hroot a rfl
      have hleft := ihl hl fun b hb => .child (d := .left) hin (by simp [RbNode.child, ha, hb])
      have hright := ihr hr fun b hb => .child (d := .right) hin (by simp [RbNode.child, ha, hb])
      intro n hn
      rw [Tree.nodes_node, List.mem_append, List.mem_cons] at hn
      rcases hn with hn | rfl | hn
      · exact hleft n hn
      · exact hin
      · exact hright n hn

/-- The nodes that can be reached are those of the tree that the memory holds. -/
lemma Holds.inTree_iff {t : RbTree N} {T : Tree N} (h : Holds t T) {n : N} :
    InTree t n ↔ n ∈ T.nodes := by
  constructor
  · intro hin
    induction hin with
    | root hroot => exact Tree.mem_nodes_of_root? (h.root.symm.trans hroot)
    | child _ hchild ih => exact (h.child_cases ih hchild).1
  · exact fun hn => inTree_of_rep h.rep (fun a ha => .root (h.root.trans ha)) n hn

lemma IsSet.mem_members {cmp : N → N → ℤ} {t : RbTree N} {xs : List N} (h : IsSet cmp t xs)
    {n : N} : n ∈ members t ↔ n ∈ xs := by
  obtain ⟨⟨T, k, hT, -, -, rfl⟩, -, -⟩ := h
  exact hT.inTree_iff

lemma IsSet.members_insert {cmp : N → N → ℤ} {t t' : RbTree N} {ys zs : List N} {n : N}
    (h : IsSet cmp t (ys ++ zs)) (h' : IsSet cmp t' (ys ++ n :: zs)) :
    members t' = insert n (members t) := by
  ext m
  rw [Set.mem_insert_iff, h.mem_members, h'.mem_members]
  simp only [List.mem_append, List.mem_cons]
  tauto

lemma IsSet.members_remove {cmp : N → N → ℤ} {t t' : RbTree N} {ys zs : List N} {n : N}
    (h : IsSet cmp t (ys ++ n :: zs)) (h' : IsSet cmp t' (ys ++ zs)) :
    members t' = members t \ {n} := by
  have hn : n ∉ ys ++ zs := (List.nodup_middle.mp h.nodup).notMem
  ext m
  rw [Set.mem_sdiff, h.mem_members, h'.mem_members, Set.mem_singleton_iff]
  simp only [List.mem_append, List.mem_cons] at hn ⊢
  grind

/-! ## Runs -/

/-- The trees that insertions and removals make.  The fuel stands for the running time, of which
there is always enough. -/
inductive Reachable [DecidableEq N] (cmp : N → N → ℤ) : RbTree N → Prop
  | init (mem : N → RbNode N) : Reachable cmp ⟨none, mem, 0⟩
  | insert {t t' : RbTree N} {n r : N} {fuel : ℕ} : Reachable cmp t → n ∉ members t →
      t.rbCount < fuel → rbInsert cmp fuel n t = some (t', r) → Reachable cmp t'
  | remove {t t' : RbTree N} {n : N} {fuel : ℕ} : Reachable cmp t → n ∈ members t →
      t.rbCount < fuel → rbRemove fuel n t = some t' → Reachable cmp t'

lemma isSet_init (cmp : N → N → ℤ) (mem : N → RbNode N) : IsSet cmp ⟨none, mem, 0⟩ [] :=
  ⟨⟨.nil, 0, ⟨rfl, trivial, List.nodup_nil⟩, rfl, rfl, rfl⟩, List.Pairwise.nil, rfl⟩

lemma members_init (mem : N → RbNode N) : members ⟨none, mem, 0⟩ = ∅ := by
  ext n
  rw [(isSet_init (fun _ _ => 0) mem).mem_members]
  simp

/-- **The invariant of a run.** -/
lemma Reachable.isSet [DecidableEq N] {cmp : N → N → ℤ} (hcmp : Comparator cmp) {t : RbTree N}
    (h : Reachable cmp t) : ∃ xs, IsSet cmp t xs := by
  induction h with
  | init mem => exact ⟨[], isSet_init cmp mem⟩
  | @insert t t' n r fuel _ _ hfuel heval ih =>
      obtain ⟨xs, hxs⟩ := ih
      obtain ⟨t₁, r₁, heval₁, h₁⟩ := hxs.inserted hcmp n hfuel
      rw [heval₁] at heval
      obtain ⟨rfl, -⟩ : t₁ = t' ∧ r₁ = r := by simpa using heval
      exact ⟨_, h₁⟩
  | @remove t t' n fuel _ hn hfuel heval ih =>
      obtain ⟨xs, hxs⟩ := ih
      obtain ⟨t₁, heval₁, h₁⟩ := hxs.removed (hxs.mem_members.mp hn) hfuel
      rw [heval₁] at heval
      obtain rfl : t₁ = t' := by simpa using heval
      exact ⟨_, h₁⟩

lemma Reachable.exists_insert [DecidableEq N] {cmp : N → N → ℤ} (hcmp : Comparator cmp)
    {t : RbTree N} (h : Reachable cmp t) {n : N} (hn : ∀ m ∈ members t, cmp n m ≠ 0) :
    ∃ t', Reachable cmp t' ∧ members t' = Insert.insert n (members t) := by
  obtain ⟨xs, hxs⟩ := h.isSet hcmp
  have hfuel : t.rbCount < t.rbCount + 1 := Nat.lt_succ_self _
  obtain ⟨t', ys, zs, rfl, heval, h'⟩ :=
    rbInsert_new hcmp hxs (fun m hm => hn m (hxs.mem_members.mpr hm)) hfuel
  exact ⟨t', h.insert (fun hmem => hn n hmem (hcmp.self n)) hfuel heval, hxs.members_insert h'⟩

lemma Reachable.exists_remove [DecidableEq N] {cmp : N → N → ℤ} (hcmp : Comparator cmp)
    {t : RbTree N} (h : Reachable cmp t) {n : N} (hn : n ∈ members t) :
    ∃ t', Reachable cmp t' ∧ members t' = members t \ {n} := by
  obtain ⟨xs, hxs⟩ := h.isSet hcmp
  have hfuel : t.rbCount < t.rbCount + 1 := Nat.lt_succ_self _
  obtain ⟨t', ys, zs, rfl, heval, h'⟩ := rbRemove_spec hxs (hxs.mem_members.mp hn) hfuel
  exact ⟨t', h.remove hn hfuel heval, hxs.members_remove h'⟩

/-- The comparator and the searcher of a tree of numbers. -/
def natCmp (a b : ℕ) : ℤ := a - b

lemma comparator_natCmp : Comparator natCmp := by
  refine ⟨fun a b => ?_, fun a b c hab hbc => ?_⟩
  · unfold natCmp
    omega
  · unfold natCmp at *
    omega

lemma consistent_natCmp : Consistent natCmp natCmp := by
  refine ⟨fun i a b hab ha => ?_, fun i a b hab hb => ?_⟩
  · unfold natCmp at *
    omega
  · unfold natCmp at *
    omega

/-- A run that inserts `2`, `1` and `3` and removes `2` again. -/
lemma exists_reachable_sample : ∃ t, Reachable natCmp t ∧ members t = {1, 3} := by
  have h₀ : Reachable natCmp ⟨none, fun _ => ⟨none, none, none, .black⟩, 0⟩ := .init _
  have hm₀ := members_init fun _ : ℕ => ⟨none, none, none, .black⟩
  obtain ⟨t₁, h₁, hm₁⟩ := h₀.exists_insert comparator_natCmp (n := 2) (by simp [hm₀])
  obtain ⟨t₂, h₂, hm₂⟩ := h₁.exists_insert comparator_natCmp (n := 1) (by
    simp [hm₁, hm₀, natCmp])
  obtain ⟨t₃, h₃, hm₃⟩ := h₂.exists_insert comparator_natCmp (n := 3) (by
    simp [hm₂, hm₁, hm₀, natCmp])
  obtain ⟨t₄, h₄, hm₄⟩ := h₃.exists_remove comparator_natCmp (n := 2) (by simp [hm₃, hm₂, hm₁])
  refine ⟨t₄, h₄, ?_⟩
  rw [hm₄, hm₃, hm₂, hm₁, hm₀]
  ext n
  simp only [Set.mem_sdiff, Set.mem_insert_iff, Set.mem_singleton_iff, Set.mem_empty_iff_false]
  grind

/-! ## The representation invariant -/

/-- The tree of `t` is the red-black search tree `T`, with all its links. -/
structure IsRedBlack (cmp : N → N → ℤ) (t : RbTree N) (T : Tree N) : Prop where
  links : Holds t T
  rootBlack : T.color = .black
  noRedRed : T.NoRedRed
  blackHeight : ∃ k, ∀ p ∈ T.blackPaths, p = k
  order : Sorted cmp T.nodes
  reachable : ∀ n, InTree t n ↔ n ∈ T.nodes
  rootParent : ∀ n, t.root = some n → (t.node n).parent = none
  parentLink : ∀ n m d, InTree t n → (t.node n).child d = some m → (t.node m).parent = some n
  count : t.rbCount = (members t).ncard
  height : (T.height : ℝ) ≤ 2 * Real.logb 2 (t.rbCount + 1)

lemma IsSet.isRedBlack {cmp : N → N → ℤ} {t : RbTree N} {xs : List N} (h : IsSet cmp t xs) :
    ∃ T, IsRedBlack cmp t T := by
  classical
  obtain ⟨⟨T, k, hT, hrb, hb, rfl⟩, hs, hcount⟩ := h
  have hroot : ∀ n, t.root = some n → (t.node n).parent = none := by
    intro n hn
    have hT' : Holds t (plug [] T) := hT
    exact (hT'.node_root (hT.root.symm.trans hn)).1
  have hcard : (members t).ncard = T.nodes.length := by
    have hset : members t = ↑T.nodes.toFinset := by
      ext n
      rw [List.coe_toFinset]
      exact hT.inTree_iff
    rw [hset, Set.ncard_coe_finset, List.toFinset_card_of_nodup hT.nodup]
  refine ⟨T, hT, hb, noRedRed_of_rb hrb, ⟨k, blackPaths_of_rb hrb⟩, hs, fun n => hT.inTree_iff,
    hroot, ?_, hcount.trans hcard.symm, ?_⟩
  · exact fun n m d hn hm => (hT.child_cases (hT.inTree_iff.mp hn) hm).2
  · rw [hcount]
    exact height_le_logb hrb hb

/-- **Red-black representation invariant.**  Every tree made by insertions and removals is a
red-black search tree with a black root, strict order, correct parent links and counter, and the
next insertion or removal returns. -/
theorem reachable_isRedBlack [DecidableEq N] {cmp : N → N → ℤ} (hcmp : Comparator cmp)
    {t : RbTree N} (h : Reachable cmp t) :
    (∃ T, IsRedBlack cmp t T) ∧ ∀ n fuel, t.rbCount < fuel →
      (n ∉ members t → ∃ t' r, rbInsert cmp fuel n t = some (t', r) ∧ Reachable cmp t') ∧
      (n ∈ members t → ∃ t', rbRemove fuel n t = some t' ∧ Reachable cmp t') := by
  obtain ⟨xs, hxs⟩ := h.isSet hcmp
  refine ⟨hxs.isRedBlack, fun n fuel hfuel => ⟨fun hn => ?_, fun hn => ?_⟩⟩
  · obtain ⟨t', r, heval, -⟩ := hxs.inserted hcmp n hfuel
    exact ⟨t', r, heval, h.insert hn hfuel heval⟩
  · obtain ⟨t', heval, -⟩ := hxs.removed (hxs.mem_members.mp hn) hfuel
    exact ⟨t', heval, h.remove hn hfuel heval⟩

/-- On a tree with the nodes `1` and `3`. -/
theorem reachable_isRedBlack_sample :
    ∃ t, Reachable natCmp t ∧ members t = {1, 3} ∧ ∃ T, IsRedBlack natCmp t T := by
  obtain ⟨t, h, hm⟩ := exists_reachable_sample
  exact ⟨t, h, hm, (reachable_isRedBlack comparator_natCmp h).1⟩

/-! ## The refinement -/

/-- **The tree refines a finite ordered set.**  The operations on a tree with the nodes `M`:
insertion of a new node makes `M` with it, insertion of a node equal to one of `M` returns that
one and changes nothing, removal of a node of `M` makes `M` without it, a search returns the
node of `M` that the searcher maps to zero, and `rb_first` and `rb_last` return the least and
the greatest node of `M`. -/
theorem reachable_refines_set [DecidableEq N] {I : Type} {cmp : N → N → ℤ}
    {searcher : I → N → ℤ} (hcmp : Comparator cmp) (hsearch : Consistent cmp searcher)
    {t : RbTree N} (h : Reachable cmp t) {fuel : ℕ} (hfuel : t.rbCount < fuel) :
    (∀ n, (∀ m ∈ members t, cmp n m ≠ 0) → ∃ t', rbInsert cmp fuel n t = some (t', n) ∧
        members t' = insert n (members t)) ∧
      (∀ n, ∀ m ∈ members t, cmp n m = 0 → rbInsert cmp fuel n t = some (t, m)) ∧
      (∀ n ∈ members t, ∃ t', rbRemove fuel n t = some t' ∧ members t' = members t \ {n}) ∧
      (∀ item, ∃ r, rbSearch searcher item t fuel t.root = some r ∧
        ∀ m, r = some m ↔ m ∈ members t ∧ searcher item m = 0) ∧
      (∃ r, rbFirst fuel t = some r ∧
        ∀ m, r = some m ↔ m ∈ members t ∧ ∀ m' ∈ members t, m' ≠ m → cmp m m' < 0) ∧
      ∃ r, rbLast fuel t = some r ∧
        ∀ m, r = some m ↔ m ∈ members t ∧ ∀ m' ∈ members t, m' ≠ m → 0 < cmp m m' := by
  obtain ⟨xs, hxs⟩ := h.isSet hcmp
  refine ⟨fun n hn => ?_, fun n m hm hnm => ?_, fun n hn => ?_, fun item => ?_, ?_, ?_⟩
  · obtain ⟨t', ys, zs, rfl, heval, h'⟩ :=
      rbInsert_new hcmp hxs (fun m hm => hn m (hxs.mem_members.mpr hm)) hfuel
    exact ⟨t', heval, hxs.members_insert h'⟩
  · exact rbInsert_equal hcmp hxs (hxs.mem_members.mp hm) hnm hfuel
  · obtain ⟨t', ys, zs, rfl, heval, h'⟩ := rbRemove_spec hxs (hxs.mem_members.mp hn) hfuel
    exact ⟨t', heval, hxs.members_remove h'⟩
  · obtain ⟨r, heval, hr⟩ := hxs.search hsearch item hfuel
    exact ⟨r, heval, fun m => (hr m).trans (and_congr_left' hxs.mem_members.symm)⟩
  · refine ⟨xs.head?, (hxs.ends hfuel).1, fun m => ?_⟩
    simp only [hxs.mem_members]
    exact hcmp.head?_iff hxs.sorted
  · refine ⟨xs.getLast?, (hxs.ends hfuel).2, fun m => ?_⟩
    simp only [hxs.mem_members]
    exact hcmp.getLast?_iff hxs.sorted

/-- On a tree with the nodes `1` and `3`. -/
theorem reachable_refines_set_sample : ∃ t, Reachable natCmp t ∧ members t = {1, 3} ∧
    rbFirst (t.rbCount + 1) t = some (some 1) ∧
    rbSearch natCmp 2 t (t.rbCount + 1) t.root = some none := by
  obtain ⟨t, h, hm⟩ := exists_reachable_sample
  obtain ⟨-, -, -, hs, ⟨r, hfirst, hr⟩, -⟩ :=
    reachable_refines_set comparator_natCmp consistent_natCmp h (Nat.lt_succ_self t.rbCount)
  refine ⟨t, h, hm, ?_, ?_⟩
  · rw [hfirst, (hr 1).mpr (by simp [hm, natCmp])]
  · obtain ⟨r, heval, hr⟩ := hs 2
    rw [heval, Option.some.injEq, Option.eq_none_iff_forall_ne_some]
    intro m hmr
    have hmem := (hr m).mp hmr
    rw [hm] at hmem
    simp only [Set.mem_insert_iff, Set.mem_singleton_iff, natCmp] at hmem
    omega

end LinuxC.Rb
