import LinuxC.RbTree.OrderedSet
import Mathlib.Logic.Relation

/-!
# The loops of rebalancing, pass by pass

`rb_insert_color` and `rb_remove_color` follow links that they have not tested: the parent of a red
parent, the sibling of the node, the nephews.  A *head* is what the variables of a loop hold when
its condition is tested, and `insertNext` and `removeNext` lead from a head to the next one, if the
pass goes on.  `InsertSafe` and `RemoveSafe` say of a head that nothing the pass follows is null.

The invariants are those of `Rebalance.lean`.  On insertion the node is the red root of a red-black
subtree in a context for a black root.  On removal the subtree of the node, which may be empty, is
one black node short, so that the black height of its sibling is at least one; this is where the
sibling and the nephews come from.
-/

namespace LinuxC.Rb

variable {N : Type} [DecidableEq N]

/-- The side of `parent` on which the source looks for `node`. -/
def RbTree.sideOf (t : RbTree N) (parent : N) (node : Option N) : Dir :=
  if (t.node parent).left = node then .left else .right

/-! ## Insertion -/

/-- The variable `node` of `rb_insert_color` and the tree. -/
structure InsertHead (N : Type) where
  node : N
  tree : RbTree N

/-- A pass of `rb_insert_color` that goes on: case 1. -/
def insertNext (h : InsertHead N) : Option (InsertHead N) := do
  let parent ← (h.tree.node h.node).parent
  if (h.tree.node parent).color = .red then
    let grandparent ← (h.tree.node parent).parent
    let uncle ← (h.tree.node grandparent).child (h.tree.sideOf grandparent (some parent)).opp
    if (h.tree.node uncle).color = .red then
      pure ⟨grandparent,
        ((h.tree.setColor parent .black).setColor uncle .black).setColor grandparent .red⟩
    else none
  else none

lemma rbInsertColor_next {h h' : InsertHead N} (hnext : insertNext h = some h') (fuel : ℕ) :
    rbInsertColor (fuel + 1) h.node h.tree = rbInsertColor fuel h'.node h'.tree := by
  obtain ⟨p, hp, hnext⟩ := Option.bind_eq_some_iff.mp hnext
  split_ifs at hnext with hred
  obtain ⟨g, hg, hnext⟩ := Option.bind_eq_some_iff.mp hnext
  obtain ⟨u, hu, hnext⟩ := Option.bind_eq_some_iff.mp hnext
  split_ifs at hnext with hured
  obtain rfl := Option.some.inj hnext
  rw [RbTree.sideOf] at hu
  simp [rbInsertColor, hp, hred, hg, hu, hured]

/-- The rest of a loop that returns, from any head that it comes to. -/
lemma rbInsertColor_of_reach {h h' : InsertHead N}
    (hreach : Relation.ReflTransGen (fun a b => insertNext a = some b) h h') {fuel : ℕ}
    {t' : RbTree N} (heval : rbInsertColor fuel h.node h.tree = some t') :
    ∃ k, rbInsertColor k h'.node h'.tree = some t' := by
  induction hreach with
  | refl => exact ⟨fuel, heval⟩
  | tail _ hnext ih =>
      obtain ⟨k, hk⟩ := ih
      cases k with
      | zero => exact absurd hk (by simp [rbInsertColor])
      | succ k => exact ⟨k, by rw [← rbInsertColor_next hnext, hk]⟩

/-- A red parent has a parent. -/
def InsertSafe (h : InsertHead N) : Prop :=
  ∀ p, (h.tree.node h.node).parent = some p → (h.tree.node p).color = .red →
    ∃ g, (h.tree.node p).parent = some g

/-- The invariant of the loop. -/
def InsertHead.Ok (h : InsertHead N) : Prop :=
  ∃ ctx T k, Holds h.tree (plug ctx T) ∧ RB T k ∧ T.root? = some h.node ∧ T.color = .red ∧
    CtxOk ctx k .black

omit [DecidableEq N] in
/-- A red parent is not the root: it has a black parent. -/
lemma InsertHead.Ok.red_parent {h : InsertHead N} (hok : h.Ok) {p : N}
    (hp : (h.tree.node h.node).parent = some p) (hred : (h.tree.node p).color = .red) :
    ∃ ctx d e O U g T k, Holds h.tree (plug (⟨e, .red, p, O⟩ :: ⟨d, .black, g, U⟩ :: ctx) T) ∧
      RB T k ∧ RB O k ∧ RB U k ∧ T.root? = some h.node ∧ CtxOk ctx (k + 1) .black := by
  obtain ⟨ctx, T, k, hT, hrb, hroot, -, hctx⟩ := hok
  have hparent := (hT.node_root hroot).1
  match ctx with
  | [] => exact absurd (hp.symm.trans hparent) (by simp)
  | ⟨e, c, q, O⟩ :: ctx =>
      have hq : p = q := by simpa using hp.symm.trans hparent
      subst hq
      obtain rfl : c = .red := by
        have hnode := hT.node_frame
        simp only at hnode
        rw [hnode, RbNode.color_ofSides] at hred
        exact hred
      match ctx with
      | [] => exact absurd hctx.2.2 (by simp [CtxOk])
      | ⟨d, .red, g, U⟩ :: ctx => exact absurd (hctx.2.2.2.1 rfl).1 (by simp)
      | ⟨d, .black, g, U⟩ :: ctx =>
          obtain ⟨hO, -, hU, -, hrest⟩ := hctx
          exact ⟨ctx, d, e, O, U, g, T, k, hT, hrb, hO, hU, hroot, hrest⟩

omit [DecidableEq N] in
/-- **A pass of `rb_insert_color` is safe.** -/
lemma InsertHead.Ok.safe {h : InsertHead N} (hok : h.Ok) : InsertSafe h := by
  intro p hp hred
  obtain ⟨ctx, d, e, O, U, g, T, k, hT, -⟩ := hok.red_parent hp hred
  have hnode := hT.node_frame
  simp only at hnode
  exact ⟨g, by rw [hnode]; simp⟩

/-- **The step lemma** of `rb_insert_color`. -/
lemma InsertHead.Ok.next {h h' : InsertHead N} (hok : h.Ok) (hnext : insertNext h = some h') :
    h'.Ok := by
  obtain ⟨p, hp, hnext⟩ := Option.bind_eq_some_iff.mp hnext
  split_ifs at hnext with hred
  obtain ⟨g', hg', hnext⟩ := Option.bind_eq_some_iff.mp hnext
  obtain ⟨u, hu, hnext⟩ := Option.bind_eq_some_iff.mp hnext
  split_ifs at hnext with hured
  obtain rfl := Option.some.inj hnext
  obtain ⟨ctx, d, e, O, U, g, T, k, hT, hrb, hO, hU, hroot, hrest⟩ := hok.red_parent hp hred
  have hup : Holds h.tree (plug (⟨d, .black, g, U⟩ :: ctx) (.bin e .red T p O)) := hT
  obtain rfl : g' = g := by
    have hnode := hT.node_frame
    simp only at hnode
    rw [hnode] at hg'
    simpa using hg'.symm
  have hside := hup.side (.inl (by simp))
  rw [Tree.root?_bin] at hside
  have huncle : U.root? = some u := by
    have hnode := hup.node_frame
    simp only at hnode hside
    rw [RbTree.sideOf, hside, hnode, RbNode.child_opp_ofSides] at hu
    exact hu
  obtain ⟨c, U₁, U₂, rfl⟩ := Tree.exists_bin_of_root? .left huncle
  obtain rfl : c = .red := by
    have hnode := (hup.flip.node_root huncle).2
    rw [hured] at hnode
    simpa using hnode.symm
  obtain ⟨hU₁, hU₂, -⟩ := rb_bin_red.mp hU
  exact ⟨ctx, _, k + 1, insertRecolor_holds hT, rb_bin_red.mpr ⟨rb_bin_black.mpr ⟨hrb, hO⟩,
    rb_bin_black.mpr ⟨hU₁, hU₂⟩, by simp, by simp⟩, Tree.root?_bin .., Tree.color_bin .., hrest⟩

lemma InsertHead.Ok.reach {h h' : InsertHead N} (hok : h.Ok)
    (hreach : Relation.ReflTransGen (fun a b => insertNext a = some b) h h') : h'.Ok := by
  induction hreach with
  | refl => exact hok
  | tail _ hnext ih => exact ih.next hnext

/-! ## Removal -/

/-- The variables `node` and `parent` of `rb_remove_color` and the tree. -/
structure RemoveHead (N : Type) where
  node : Option N
  parent : Option N
  tree : RbTree N

/-- The condition of the loop. -/
def RemoveHead.Continues (h : RemoveHead N) : Prop :=
  h.tree.isBlack h.node ∧ h.node ≠ h.tree.root

/-- A pass of `rb_remove_color` that goes on: case 2. -/
def removeNext (h : RemoveHead N) : Option (RemoveHead N) :=
  if h.tree.isBlack h.node ∧ h.node ≠ h.tree.root then do
    let parent ← h.parent
    let d := h.tree.sideOf parent h.node
    let silbing ← (h.tree.node parent).child d.opp
    let (silbing, t) ← removeCase1 d parent silbing h.tree
    if t.isBlack (t.node silbing).left ∧ t.isBlack (t.node silbing).right then
      let t := t.setColor silbing .red
      pure ⟨some parent, (t.node parent).parent, t⟩
    else none
  else none

lemma rbRemoveColor_next {h h' : RemoveHead N} (hnext : removeNext h = some h') (fuel : ℕ) :
    rbRemoveColor (fuel + 1) h.node h.parent h.tree =
      rbRemoveColor fuel h'.node h'.parent h'.tree := by
  rw [removeNext] at hnext
  split_ifs at hnext with hcont
  obtain ⟨p, hp, hnext⟩ := Option.bind_eq_some_iff.mp hnext
  obtain ⟨s, hs, hnext⟩ := Option.bind_eq_some_iff.mp hnext
  obtain ⟨⟨s₁, t₁⟩, hcase1, hnext⟩ := Option.bind_eq_some_iff.mp hnext
  simp only at hnext
  split_ifs at hnext with hkids
  obtain rfl := Option.some.inj hnext
  rw [RbTree.sideOf] at hs hcase1
  rw [rbRemoveColor, if_pos hcont, hp]
  simp only [Option.bind_eq_bind, Option.bind_some, hs, hcase1]
  rw [if_pos hkids]

/-- The rest of a loop that returns, from any head that it comes to. -/
lemma rbRemoveColor_of_reach {h h' : RemoveHead N}
    (hreach : Relation.ReflTransGen (fun a b => removeNext a = some b) h h') {fuel : ℕ}
    {t' : RbTree N} (heval : rbRemoveColor fuel h.node h.parent h.tree = some t') :
    ∃ k, rbRemoveColor k h'.node h'.parent h'.tree = some t' := by
  induction hreach with
  | refl => exact ⟨fuel, heval⟩
  | tail _ hnext ih =>
      obtain ⟨k, hk⟩ := ih
      cases k with
      | zero => exact absurd hk (by simp [rbRemoveColor])
      | succ k => exact ⟨k, by rw [← rbRemoveColor_next hnext, hk]⟩

/-- Nothing that a pass of `rb_remove_color` follows is null, for the parent `p` and its side `d`
on which the node is found. -/
structure RemoveFollows (t : RbTree N) (node : Option N) (d : Dir) (p s : N) : Prop where
  /-- The node is the child on the side that the comparison of the pointers has found, also if it
  is null. -/
  near : (t.node p).child d = node
  silbing : (t.node p).child d.opp = some s
  /-- Case 1: the sibling is red. -/
  nephews : (t.node s).color = .red →
    ∃ l r, (t.node s).left = some l ∧ (t.node s).right = some r
  /-- Behind case 1 the sibling `s₁` is not null.  In case 3 its child on the side of the node is
  rotated, and then the child of the sibling `s₂` on the other side is recoloured. -/
  rotated : ∃ s₁ t₁, removeCase1 d p s t = some (s₁, t₁) ∧
    (¬ (t₁.isBlack (t₁.node s₁).left ∧ t₁.isBlack (t₁.node s₁).right) →
      (t₁.isBlack ((t₁.node s₁).child d.opp) → ∃ x, (t₁.node s₁).child d = some x) ∧
      ∃ s₂ t₂, removeCase3 d p s₁ t₁ = some (s₂, t₂) ∧ ∃ z, (t₂.node s₂).child d.opp = some z)

/-- A pass follows no null pointer: there are a parent and a sibling, and the nephews that are
needed. -/
def RemoveSafe (h : RemoveHead N) : Prop :=
  h.Continues → ∃ p s, h.parent = some p ∧
    RemoveFollows h.tree h.node (h.tree.sideOf p h.node) p s

/-- The invariant of the loop. -/
def RemoveHead.Ok (h : RemoveHead N) : Prop :=
  ∃ ctx T k, Holds h.tree (plug ctx T) ∧ h.node = T.root? ∧ h.parent = Ctx.top ctx ∧ Short T k ∧
    CtxOk ctx (k + 1) .black

/-- A pass is made at a place below a parent `p`, with a sibling `s`. -/
lemma RemoveHead.Ok.focus {h : RemoveHead N} (hok : h.Ok) (hcont : h.Continues) :
    ∃ ctx d c p S T k s, h.node = T.root? ∧ h.parent = some p ∧
      Holds h.tree (plug (⟨d, c, p, S⟩ :: ctx) T) ∧ T.color = .black ∧ RB T k ∧
      CtxOk (⟨d, c, p, S⟩ :: ctx) (k + 1) .black ∧ S.root? = some s ∧
      h.tree.sideOf p h.node = d := by
  obtain ⟨ctx, T, k, hT, hnode, hparent, hshort, hctx⟩ := hok
  obtain ⟨hblack, hroot⟩ := hcont
  rw [hnode] at hblack hroot
  rw [hT.isBlack] at hblack
  have hTc : T.color = .black := of_decide_eq_true hblack
  have hrb : RB T k := by
    rcases hshort with ⟨-, hrb⟩ | ⟨d, A, n, B, rfl, -, -⟩
    · exact hrb
    · rw [Tree.color_bin] at hTc
      exact absurd hTc (by simp)
  match ctx with
  | [] => exact absurd hT.root.symm hroot
  | ⟨d, c, p, S⟩ :: ctx =>
      obtain ⟨s, hs⟩ := root?_of_rb hctx.1
      have hside := hT.side (.inr (by simp [hs]))
      exact ⟨ctx, d, c, p, S, T, k, s, hnode, hparent, hT, hTc, hrb, hctx, hs,
        by rw [RbTree.sideOf, hnode]; exact hside⟩

omit [DecidableEq N] in
/-- The children of the far child of a node. -/
lemma Holds.far_children {t : RbTree N} {ctx : Ctx N} {d : Dir} {c c' : Color} {p s : N}
    {T NL NR : Tree N} (h : Holds t (plug (⟨d, c, p, .bin d c' NL s NR⟩ :: ctx) T)) :
    (t.node s).child d = NL.root? ∧ (t.node s).child d.opp = NR.root? := by
  have hs := h.flip.node_bin
  simp only at hs
  rw [hs]
  exact ⟨RbNode.child_ofSides, RbNode.child_opp_ofSides⟩

/-- **A pass of `rb_remove_color` is safe.** -/
lemma RemoveHead.Ok.safe {h : RemoveHead N} (hok : h.Ok) : RemoveSafe h := by
  intro hcont
  obtain ⟨ctx, d, c, p, S, T, k, s, hnode, hparent, hT, hTc, hrb, hctx, hs, hside⟩ :=
    hok.focus hcont
  have hframe := hT.node_frame
  simp only at hframe
  refine ⟨p, s, hparent, ?_⟩
  rw [hside]
  refine ⟨?_, ?_, fun hred => ?_, ?_⟩
  · rw [hframe, RbNode.child_ofSides, hnode]
  · rw [hframe, RbNode.child_opp_ofSides, hs]
  · -- a red sibling has black children of positive black height
    have hsc := (hT.flip.node_root hs).2
    obtain ⟨c', NL, NR, rfl⟩ := Tree.exists_bin_of_root? .left hs
    obtain rfl : c' = .red := by
      rw [hred] at hsc
      simpa using hsc.symm
    obtain ⟨hNL, hNR, -⟩ := rb_bin_red.mp (show RB (.bin .left .red NL s NR) (k + 1) from hctx.1)
    obtain ⟨l, hl⟩ := root?_of_rb hNL
    obtain ⟨r, hr⟩ := root?_of_rb hNR
    have hflip : Holds h.tree (plug (⟨d.opp, c, p, T⟩ :: ctx) (.bin .left .red NL s NR)) := hT.flip
    have hkids := hflip.node_bin
    exact ⟨l, r, by rw [hkids]; exact hl, by rw [hkids]; exact hr⟩
  · obtain ⟨t₁, c₁, S₁, s₁, ctx₁, hcase1, -, h₁, ⟨hS₁, -, -⟩, hs₁, hSc₁, -⟩ :=
      removeCase1_spec hT hs hctx
    obtain ⟨c', NL, NR, rfl⟩ := Tree.exists_bin_of_root? d hs₁
    obtain rfl : c' = .black := by simpa using hSc₁
    obtain ⟨hNL, hNR⟩ := rb_bin_black.mp hS₁
    have hflip : Holds t₁ (plug (⟨d.opp, c₁, p, T⟩ :: ctx₁) (.bin d .black NL s₁ NR)) := h₁.flip
    refine ⟨s₁, t₁, hcase1, fun hkids => ?_⟩
    have hnephews : ¬ (NL.color = .black ∧ NR.color = .black) :=
      fun e => hkids (hflip.nephews.mpr e)
    obtain ⟨t₂, Y, s₂, Z₁, z, Z₂, hcase3, -, h₂, -⟩ := removeCase3_spec h₁ hNL hNR hnephews
    refine ⟨fun hfar => ?_, s₂, t₂, hcase3, z, ?_⟩
    · -- the far nephew is black, so that the near one is red
      have hfarTree : Holds t₁ (plug (⟨d.opp, .black, s₁, NL⟩ :: ⟨d.opp, c₁, p, T⟩ :: ctx₁) NR) := by
        rw [plug, Frame.up, Tree.bin_opp]
        exact hflip
      rw [h₁.far_children.2, hfarTree.isBlack] at hfar
      have hNLc : NL.color ≠ .black := fun e => hnephews ⟨e, of_decide_eq_true hfar⟩
      obtain ⟨_, _, x, _, hNL'⟩ := Tree.exists_bin (t := NL) .left (by rintro rfl; simp at hNLc)
      exact ⟨x, by rw [h₁.far_children.1, hNL', Tree.root?_bin]⟩
    · rw [h₂.far_children.2, Tree.root?_bin]

/-- **The step lemma** of `rb_remove_color`. -/
lemma RemoveHead.Ok.next {h h' : RemoveHead N} (hok : h.Ok) (hnext : removeNext h = some h') :
    h'.Ok := by
  rw [removeNext] at hnext
  split_ifs at hnext with hcont
  obtain ⟨ctx, d, c, p, S, T, k, s, hnode, hparent, hT, hTc, hrb, hctx, hs, hside⟩ :=
    hok.focus hcont
  obtain ⟨t₁, c₁, S₁, s₁, ctx₁, hcase1, -, h₁, ⟨hS₁, -, hrest₁⟩, hs₁, hSc₁, -⟩ :=
    removeCase1_spec hT hs hctx
  have hframe := hT.node_frame
  simp only at hframe
  have hchild : (h.tree.node p).child d.opp = some s := by
    rw [hframe, RbNode.child_opp_ofSides, hs]
  simp only [hparent, hside, hchild, hcase1, Option.bind_eq_bind, Option.bind_some] at hnext
  split_ifs at hnext with hkids
  obtain rfl := Option.some.inj hnext
  obtain ⟨c', NL, NR, rfl⟩ := Tree.exists_bin_of_root? d hs₁
  obtain rfl : c' = .black := by simpa using hSc₁
  obtain ⟨hNL, hNR⟩ := rb_bin_black.mp hS₁
  have hflip : Holds t₁ (plug (⟨d.opp, c₁, p, T⟩ :: ctx₁) (.bin d .black NL s₁ NR)) := h₁.flip
  -- case 2: the subtree of the parent is the short one now
  have h₂ : Holds (t₁.setColor s₁ .red) (plug ctx₁ (.bin d c₁ T p (.bin d .red NL s₁ NR))) :=
    h₁.setColor_far
  have hS : RB (.bin d .red NL s₁ NR) k := rb_bin_red.mpr ⟨hNL, hNR, hflip.nephews.mp hkids⟩
  have hroot : some p = (Tree.bin d c₁ T p (.bin d .red NL s₁ NR)).root? :=
    (Tree.root?_bin ..).symm
  have htop : ((t₁.setColor s₁ .red).node p).parent = Ctx.top ctx₁ := by
    rw [h₂.node_bin, RbNode.parent_ofSides]
  cases c₁ with
  | black =>
      exact ⟨ctx₁, _, k + 1, h₂, hroot, htop,
        .inl ⟨by simp, rb_bin_black.mpr ⟨hrb, hS⟩⟩, hrest₁⟩
  | red => exact ⟨ctx₁, _, k, h₂, hroot, htop, .inr ⟨d, T, p, _, rfl, hrb, hS⟩, hrest₁.black⟩

lemma RemoveHead.Ok.reach {h h' : RemoveHead N} (hok : h.Ok)
    (hreach : Relation.ReflTransGen (fun a b => removeNext a = some b) h h') : h'.Ok := by
  induction hreach with
  | refl => exact hok
  | tail _ hnext ih => exact ih.next hnext

/-! ## Whole calls -/

/-- `rb_insert` up to the call of `rb_insert_color`, if no equal node is found. -/
def linked (cmp : N → N → ℤ) (fuel : ℕ) (node : N) (t : RbTree N) : Option (RbTree N) :=
  match findLink cmp node t fuel .root none with
  | some (.inr (link, parent)) =>
      some ((t.modify node fun _ => ⟨parent, none, none, .red⟩).store link (some node))
  | _ => none

lemma rbInsert_eq_insertColor {cmp : N → N → ℤ} {fuel : ℕ} {node : N} {t t₀ : RbTree N}
    (h : linked cmp fuel node t = some t₀) :
    rbInsert cmp fuel node t = (rbInsertColor fuel node t₀).map fun t' =>
      ({ t' with rbCount := t'.rbCount + 1 }, node) := by
  rw [linked] at h
  split at h
  · rename_i link parent hfind
    obtain rfl := Option.some.inj h
    simp only [rbInsert, hfind, Option.bind_eq_bind, Option.bind_some]
    cases rbInsertColor fuel node
      ((t.modify node fun _ => ⟨parent, none, none, .red⟩).store link (some node)) <;> rfl
  · exact absurd h (by simp)

lemma insertHead_ok {cmp : N → N → ℤ} (hcmp : Comparator cmp) {t t₀ : RbTree N} {xs : List N}
    (h : IsSet cmp t xs) {n : N} {fuel : ℕ} (hfuel : t.rbCount < fuel)
    (hlinked : linked cmp fuel n t = some t₀) : InsertHead.Ok ⟨n, t₀⟩ := by
  rcases findLink_root hcmp h n hfuel with ⟨cur, -, -, hres⟩ |
    ⟨ctx, k, hT, hxs, hrb, hb, hbtw, hres⟩
  · simp [linked, hres] at hlinked
  · have hnmem : n ∉ ctx.nodes := by
      intro hmem
      rcases List.mem_append.mp hmem with hmem | hmem
      · have := hbtw.1 n hmem
        rw [hcmp.self n] at this
        omega
      · have := hbtw.2 n hmem
        rw [hcmp.self n] at this
        omega
    obtain ⟨j, hj, hctx⟩ := rb_of_plug hrb hb
    simp only [linked, hres, Option.some.injEq] at hlinked
    subst hlinked
    exact ⟨ctx, _, j, store_holds hT hnmem, rb_bin_red.mpr ⟨hj, hj, rfl, rfl⟩, rfl, rfl, hctx⟩

lemma removeHead_ok {cmp : N → N → ℤ} {t : RbTree N} {xs : List N} (h : IsSet cmp t xs) {n : N}
    (hn : n ∈ xs) {fuel : ℕ} (hfuel : t.rbCount < fuel) :
    ∃ child parent t₀, spliced fuel n t = some (child, parent, t₀) ∧
      ((t₀.node n).color = .black → RemoveHead.Ok ⟨child, parent, t₀⟩) := by
  obtain ⟨⟨T, k, hT, hrb, hb, rfl⟩, -, hcount⟩ := h
  obtain ⟨ctx, C, c, t₀, heval, hsp⟩ := spliced_spec hT hn (hcount ▸ hfuel)
  refine ⟨_, _, t₀, heval, fun hblack => ?_⟩
  obtain ⟨j, hC, -, hctx⟩ := hsp.rb k hrb hb
  obtain rfl : c = .black := by rwa [hsp.node] at hblack
  exact ⟨ctx, C, j, hsp.holds, rfl, rfl, short_of_rb hC, hctx⟩

/-- **Rebalancing follows no null pointer.**  Take any tree made by insertions and removals.  An
insertion of any node and a removal of a node of the tree return, and so do the calls of
`rb_insert_color` and `rb_remove_color` in them; and at every head that these calls come to, the
pointers that the pass follows without a test are not null, and the rest of the loop returns. -/
theorem rebalancing_follows_no_null {cmp : N → N → ℤ} (hcmp : Comparator cmp) {t : RbTree N}
    (h : Reachable cmp t) (n : N) {fuel : ℕ} (hfuel : t.rbCount < fuel) :
    ((∃ r, rbInsert cmp fuel n t = some r) ∧
        ∀ t₀, linked cmp fuel n t = some t₀ → ∃ t', rbInsertColor fuel n t₀ = some t' ∧
          ∀ head, Relation.ReflTransGen (fun a b => insertNext a = some b) ⟨n, t₀⟩ head →
            InsertSafe head ∧ ∃ k, rbInsertColor k head.node head.tree = some t') ∧
      (n ∈ members t → (∃ t', rbRemove fuel n t = some t') ∧
        ∃ child parent t₀, spliced fuel n t = some (child, parent, t₀) ∧
          ((t₀.node n).color = .black → ∃ t', rbRemoveColor fuel child parent t₀ = some t' ∧
            ∀ head, Relation.ReflTransGen (fun a b => removeNext a = some b)
              ⟨child, parent, t₀⟩ head →
            RemoveSafe head ∧ ∃ k, rbRemoveColor k head.node head.parent head.tree = some t')) := by
  obtain ⟨xs, hxs⟩ := h.isSet hcmp
  refine ⟨?_, fun hn => ?_⟩
  · obtain ⟨t', r, heval, -⟩ := hxs.inserted hcmp n hfuel
    refine ⟨⟨_, heval⟩, fun t₀ hlinked => ?_⟩
    rw [rbInsert_eq_insertColor hlinked] at heval
    obtain ⟨t₁, hcolor, -⟩ := Option.map_eq_some_iff.mp heval
    refine ⟨t₁, hcolor, fun head hreach => ⟨?_, rbInsertColor_of_reach hreach hcolor⟩⟩
    exact ((insertHead_ok hcmp hxs hfuel hlinked).reach hreach).safe
  · have hmem := hxs.mem_members.mp hn
    obtain ⟨t', heval, -⟩ := hxs.removed hmem hfuel
    obtain ⟨child, parent, t₀, hsp, hok⟩ := removeHead_ok hxs hmem hfuel
    refine ⟨⟨t', heval⟩, child, parent, t₀, hsp, fun hblack => ?_⟩
    rw [rbRemove_eq_colorFix, hsp] at heval
    simp only [Option.bind_some, colorFix, if_pos hblack] at heval
    obtain ⟨t₁, hcolor, -⟩ := Option.bind_eq_some_iff.mp heval
    refine ⟨t₁, hcolor, fun head hreach => ⟨?_, rbRemoveColor_of_reach hreach hcolor⟩⟩
    exact ((hok hblack).reach hreach).safe

/-- On a tree with the nodes `1` and `3`: the insertion of `2`, and the removal of `3`. -/
theorem rebalancing_follows_no_null_sample :
    ∃ t, Reachable natCmp t ∧ members t = {1, 3} ∧
      (∃ r, rbInsert natCmp (t.rbCount + 1) 2 t = some r) ∧
      ∃ child parent t₀, spliced (t.rbCount + 1) 3 t = some (child, parent, t₀) ∧
        ((t₀.node 3).color = .black → RemoveSafe ⟨child, parent, t₀⟩) := by
  obtain ⟨t, h, hm⟩ := exists_reachable_sample
  obtain ⟨-, child, parent, t₀, hsp, hsafe⟩ := (rebalancing_follows_no_null comparator_natCmp h 3
    (Nat.lt_succ_self t.rbCount)).2 (by simp [hm])
  refine ⟨t, h, hm, (rebalancing_follows_no_null comparator_natCmp h 2
    (Nat.lt_succ_self t.rbCount)).1.1, child, parent, t₀, hsp,
    fun hblack => ?_⟩
  obtain ⟨t', -, hheads⟩ := hsafe hblack
  exact (hheads _ .refl).1

end LinuxC.Rb
