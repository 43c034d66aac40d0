import LinuxC.RbTree.Layout

/-!
# Rebalancing

The two loops that walk up the tree, `rb_insert_color` and `rb_remove_color`.  Each is an
induction on the fuel with the place of `node` as the focus:

* on insertion the subtree of `node` is red-black with a red root, and the context is that of a
  subtree of the same black height with a black root;
* on removal the subtree of `node` is one black node too short for its context.

Every case of the source either restores the invariant or hands the same situation to a place
further up.
-/

namespace LinuxC.Rb

variable {N : Type}

/-- The tree of `t` is red-black with a black root, and its nodes are `xs`, from left to
right. -/
def Balanced (t : RbTree N) (xs : List N) : Prop :=
  ∃ T k, Holds t T ∧ RB T k ∧ T.color = .black ∧ T.nodes = xs

lemma Balanced.setCount {t : RbTree N} {xs : List N} (h : Balanced t xs) (c : ℕ) :
    Balanced { t with rbCount := c } xs := by
  obtain ⟨T, k, hT, hres⟩ := h
  exact ⟨T, k, ⟨hT.root, hT.rep, hT.nodup⟩, hres⟩

lemma Holds.balanced {t : RbTree N} {ctx : Ctx N} {T : Tree N} {k : ℕ}
    (h : Holds t (plug ctx T)) (hT : RB T k) (hctx : CtxOk ctx k T.color) :
    Balanced t (plug ctx T).nodes := by
  obtain ⟨j, hj, hb⟩ := rb_plug hT hctx
  exact ⟨_, j, h, hj, hb, rfl⟩

lemma Holds.node_root {t : RbTree N} {ctx : Ctx N} {T : Tree N} {n : N}
    (h : Holds t (plug ctx T)) (hn : T.root? = some n) :
    (t.node n).parent = ctx.top ∧ (t.node n).color = T.color := by
  obtain ⟨c, A, B, rfl⟩ := Tree.exists_bin_of_root? .left hn
  rw [h.node_bin]
  simp

lemma Holds.node_frame {t : RbTree N} {f : Frame N} {ctx : Ctx N} {T : Tree N}
    (h : Holds t (plug (f :: ctx) T)) :
    t.node f.node = RbNode.ofSides f.dir ctx.top T.root? f.other.root? f.color := by
  simpa using (rep_plug.mp h.rep).1.1

/-- The other subtree of the parent as the focus. -/
lemma Holds.flip {t : RbTree N} {f : Frame N} {ctx : Ctx N} {T : Tree N}
    (h : Holds t (plug (f :: ctx) T)) :
    Holds t (plug (⟨f.dir.opp, f.color, f.node, T⟩ :: ctx) f.other) := by
  rw [plug, Frame.up, Tree.bin_opp]
  exact h

/-- The side of the parent on which the source finds the place. -/
lemma Holds.side {t : RbTree N} {f : Frame N} {ctx : Ctx N} {T : Tree N} [DecidableEq N]
    (h : Holds t (plug (f :: ctx) T)) (hne : T.root? ≠ none ∨ f.other.root? ≠ none) :
    (if (t.node f.node).left = T.root? then Dir.left else Dir.right) = f.dir := by
  have hleft := left_eq_iff h.rep h.nodup hne
  cases hd : f.dir with
  | left => rw [if_pos (hleft.mpr hd)]
  | right => rw [if_neg (fun e => by simp [hleft.mp e] at hd)]

lemma Holds.isBlack {t : RbTree N} {ctx : Ctx N} {T : Tree N} (h : Holds t (plug ctx T)) :
    t.isBlack T.root? = decide (T.color = .black) := by
  cases hn : T.root? with
  | none =>
      cases T with
      | nil => rfl
      | node c l a r => simp at hn
  | some n =>
      rw [RbTree.isBlack, (h.node_root hn).2]

lemma Holds.nephews {t : RbTree N} {ctx : Ctx N} {d : Dir} {c : Color} {NL NR : Tree N} {s : N}
    (h : Holds t (plug ctx (.bin d c NL s NR))) :
    (t.isBlack (t.node s).left ∧ t.isBlack (t.node s).right) ↔
      NL.color = .black ∧ NR.color = .black := by
  have hL : Holds t (plug (⟨d, c, s, NR⟩ :: ctx) NL) := h
  have hR := hL.flip
  have hs := h.node_bin
  cases d with
  | left => simp [hs, RbNode.ofSides, hL.isBlack, hR.isBlack]
  | right => simp [hs, RbNode.ofSides, hL.isBlack, hR.isBlack, and_comm]

variable [DecidableEq N]

@[simp] lemma rbCount_setBlackSafe (x : Option N) (t : RbTree N) :
    (setBlackSafe x t).rbCount = t.rbCount := by
  cases x <;> rfl

/-- Colouring the root black changes nothing in a balanced tree. -/
lemma Balanced.setBlackSafe {t : RbTree N} {xs : List N} (h : Balanced t xs) :
    Balanced (setBlackSafe t.root t) xs := by
  obtain ⟨T, k, hT, hrb, hb, rfl⟩ := h
  cases hr : t.root with
  | none => exact ⟨T, k, hT, hrb, hb, rfl⟩
  | some r =>
      obtain ⟨c, A, B, rfl⟩ := Tree.exists_bin_of_root? .left (hT.root.symm.trans hr)
      obtain rfl : c = .black := by simpa using hb
      have hT' : Holds t (plug [] (.bin .left .black A r B)) := hT
      exact ⟨_, k, hT'.setColor, hrb, hb, rfl⟩

lemma Balanced.setRootBlack {t : RbTree N} {xs : List N} (h : Balanced t xs) (hne : xs ≠ []) :
    ∃ t', setRootBlack t = some t' ∧ t'.rbCount = t.rbCount ∧ Balanced t' xs := by
  obtain ⟨r, hr⟩ : ∃ r, t.root = some r := by
    obtain ⟨T, k, hT, -, -, rfl⟩ := h
    rw [hT.root]
    cases T with
    | nil => simp at hne
    | node c l a r => exact ⟨a, rfl⟩
  have hb := h.setBlackSafe
  rw [hr] at hb
  exact ⟨t.setColor r .black, by simp [Rb.setRootBlack, hr], rfl, hb⟩

/-! ## Insertion -/

/-- A black node and its red child on side `d` exchange their colours and places: case 3 of
`rb_insert_color`, and again case 3 of `rb_remove_color`. -/
lemma rotateUp_holds {t : RbTree N} {ctx : Ctx N} {d : Dir} {X Z U : Tree N} {p g : N}
    (h : Holds t (plug ctx (.bin d .black (.bin d .red X p Z) g U))) :
    ∃ t', rbRotate d.opp g ((t.setColor g .red).setColor p .black) = some t' ∧
      t'.rbCount = t.rbCount ∧ Holds t' (plug ctx (.bin d .black X p (.bin d .red Z g U))) := by
  have h1 : Holds (t.setColor g .red) (plug (⟨d, .red, g, U⟩ :: ctx) (.bin d .red X p Z)) :=
    h.setColor
  have h2 : Holds ((t.setColor g .red).setColor p .black)
      (plug ctx (.bin d.opp .red U g (.bin d.opp .black Z p X))) := by
    rw [Tree.bin_opp, Tree.bin_opp]
    exact h1.setColor
  obtain ⟨t', hrot, hcount, h3⟩ := rbRotate_holds h2
  rw [Tree.bin_opp, Tree.bin_opp] at h3
  exact ⟨t', hrot, hcount, h3⟩

lemma insertRotate_outer {t : RbTree N} {ctx : Ctx N} {d : Dir} {X Z U : Tree N} {p g : N} {k : ℕ}
    (h : Holds t (plug ctx (.bin d .black (.bin d .red X p Z) g U)))
    (hX : RB X k) (hZ : RB Z k) (hU : RB U k) (hZc : Z.color = .black) (hUc : U.color = .black)
    (hctx : CtxOk ctx (k + 1) .black) :
    ∃ t', rbRotate d.opp g ((t.setColor g .red).setColor p .black) = some t' ∧
      t'.rbCount = t.rbCount ∧
      Balanced t' (plug ctx (.bin d .black (.bin d .red X p Z) g U)).nodes := by
  obtain ⟨t', hrot, hcount, h'⟩ := rotateUp_holds h
  refine ⟨t', hrot, hcount, ?_⟩
  have hb := h'.balanced (rb_bin_black.mpr ⟨hX, rb_bin_red.mpr ⟨hZ, hU, hZc, hUc⟩⟩)
    (by rw [Tree.color_bin]; exact hctx)
  rwa [nodes_plug_congr ctx (Tree.nodes_rotate ..)]

/-- Cases 2 and 3 of `rb_insert_color`: the uncle `U` is black. -/
lemma insertRotate_spec {t : RbTree N} {ctx : Ctx N} {f : Frame N} {d : Dir} {T U : Tree N}
    {n g : N} {k : ℕ} (h : Holds t (plug (f :: ⟨d, .black, g, U⟩ :: ctx) T)) (hT : RB T k)
    (hn : T.root? = some n) (hTr : T.color = .red) (hf : f.color = .red)
    (hother : RB f.other k ∧ f.other.color = .black) (hU : RB U k ∧ U.color = .black)
    (hctx : CtxOk ctx (k + 1) .black) :
    ∃ t', insertRotate d n f.node g t = some t' ∧ t'.rbCount = t.rbCount ∧
      Balanced t' (plug (f :: ⟨d, .black, g, U⟩ :: ctx) T).nodes := by
  obtain ⟨e, c, p, O⟩ := f
  obtain rfl : c = .red := hf
  have hp : t.node p = RbNode.ofSides e (some g) T.root? O.root? .red := h.node_frame
  rcases eq_or_ne e d with rfl | hne
  · -- the node is an outer grandchild: one rotation
    have hO : O.root? ≠ some n := hn ▸ root?_other_ne h.nodup (.inl (by simp [hn]))
    have h1 : Holds t (plug ctx (.bin e .black (.bin e .red T p O) g U)) := h
    obtain ⟨t', heval, hcount, hb⟩ :=
      insertRotate_outer h1 hT hother.1 hU.1 hother.2 hU.2 hctx
    exact ⟨t', by simpa [insertRotate, hp, hO] using heval, hcount, hb⟩
  · -- an inner grandchild: it is rotated outwards first
    obtain rfl : e = d.opp := by cases e <;> cases d <;> simp_all [Dir.opp]
    obtain ⟨c, Y, Z, rfl⟩ := Tree.exists_bin_of_root? d hn
    obtain rfl : c = .red := by simpa using hTr
    obtain ⟨hY, hZ, hYc, hZc⟩ := rb_bin_red.mp hT
    have h1 : Holds t (plug (⟨d, .black, g, U⟩ :: ctx) (.bin d .red O p (.bin d .red Y n Z))) := by
      rw [← Tree.bin_opp]
      exact h
    obtain ⟨t₁, heval₁, hcount₁, h2⟩ := rbRotate_holds h1
    have h3 : Holds t₁ (plug ctx (.bin d .black (.bin d .red (.bin d .red O p Y) n Z) g U)) := h2
    obtain ⟨t', heval, hcount, hb⟩ := insertRotate_outer h3
      (rb_bin_red.mpr ⟨hother.1, hY, hother.2, hYc⟩) hZ hU.1 hZc hU.2 hctx
    refine ⟨t', by simpa [insertRotate, hp, heval₁] using heval, hcount.trans hcount₁, ?_⟩
    have hnodes :
        (plug (⟨d.opp, .red, p, O⟩ :: ⟨d, .black, g, U⟩ :: ctx) (.bin d .red Y n Z)).nodes =
        (plug ctx (.bin d .black (.bin d .red (.bin d .red O p Y) n Z) g U)).nodes := by
      refine nodes_plug_congr (⟨d, .black, g, U⟩ :: ctx) ?_
      rw [Frame.up, Tree.bin_opp, Tree.nodes_rotate]
    rwa [hnodes]

/-- Case 1 of `rb_insert_color`: the uncle `U` is red, and the grandparent becomes the node. -/
lemma insertRecolor_holds {t : RbTree N} {ctx : Ctx N} {f : Frame N} {d : Dir} {T U₁ U₂ : Tree N}
    {g u : N} {c c' c'' : Color}
    (h : Holds t (plug (f :: ⟨d, c, g, .bin .left c' U₁ u U₂⟩ :: ctx) T)) :
    Holds (((t.setColor f.node .black).setColor u .black).setColor g c'')
      (plug ctx (.bin d c'' (.bin f.dir .black T f.node f.other) g
        (.bin .left .black U₁ u U₂))) := by
  have h1 : Holds (t.setColor f.node .black) (plug
      (⟨d, c, g, .bin .left c' U₁ u U₂⟩ :: ctx) (.bin f.dir .black T f.node f.other)) := by
    have h0 : Holds t (plug (⟨d, c, g, .bin .left c' U₁ u U₂⟩ :: ctx)
      (.bin f.dir f.color T f.node f.other)) := h
    exact h0.setColor
  have h2 : Holds ((t.setColor f.node .black).setColor u .black) (plug
      (⟨d.opp, c, g, .bin f.dir .black T f.node f.other⟩ :: ctx) (.bin .left .black U₁ u U₂)) := by
    apply Holds.setColor (c := c')
    rw [plug, Frame.up, Tree.bin_opp]
    exact h1
  rw [plug, Frame.up, Tree.bin_opp] at h2
  exact h2.setColor

lemma rbInsertColor_body {fuel : ℕ} {t : RbTree N} {ctx : Ctx N} {f : Frame N} {d : Dir} {c : Color}
    {T U : Tree N} {n g : N} (h : Holds t (plug (f :: ⟨d, c, g, U⟩ :: ctx) T))
    (hn : T.root? = some n) (hf : f.color = .red) :
    rbInsertColor (fuel + 1) n t =
      match U.root? with
      | none => insertRotate d n f.node g t
      | some u =>
          if U.color = .red then
            rbInsertColor fuel g
              (((t.setColor f.node .black).setColor u .black).setColor g .red)
          else insertRotate d n f.node g t := by
  have hparent := (h.node_root hn).1
  have hp := h.node_frame
  have hup : Holds t (plug (⟨d, c, g, U⟩ :: ctx) (f.up T)) := h
  have hg : t.node g = RbNode.ofSides d (Ctx.top ctx) (some f.node) U.root? c := by
    simpa [Frame.up] using hup.node_frame
  have hside := hup.side (.inl (by simp [Frame.up]))
  rw [Frame.up, Tree.root?_bin, hg] at hside
  cases hu : U.root? with
  | none =>
      rw [hu] at hg hside
      simp [rbInsertColor, hparent, hp, hf, hg, hside]
  | some u =>
      have huc := (hup.flip.node_root hu).2
      rw [hu] at hg hside
      simp [rbInsertColor, hparent, hp, hf, hg, hside, huc]

/-- **`rb_insert_color`** restores the invariant. -/
lemma rbInsertColor_spec {fuel : ℕ} {t : RbTree N} {ctx : Ctx N} {T : Tree N} {n : N} {k : ℕ}
    (h : Holds t (plug ctx T)) (hT : RB T k) (hn : T.root? = some n) (hred : T.color = .red)
    (hctx : CtxOk ctx k .black) (hfuel : ctx.length < fuel) :
    ∃ t', rbInsertColor fuel n t = some t' ∧ t'.rbCount = t.rbCount ∧
      Balanced t' (plug ctx T).nodes := by
  induction fuel generalizing t ctx T n k with
  | zero => omega
  | succ fuel ih =>
      have hparent := (h.node_root hn).1
      match ctx with
      | [] =>
          obtain ⟨c, A, B, rfl⟩ := Tree.exists_bin_of_root? .left hn
          obtain rfl : c = .red := by simpa using hred
          obtain ⟨hA, hB, -⟩ := rb_bin_red.mp hT
          have hroot : t.root = some n := h.root.trans hn
          refine ⟨t.setColor n .black, ?_, rfl, ?_⟩
          · simp [rbInsertColor, hparent, setRootBlack, hroot]
          · exact h.setColor.balanced (rb_bin_black.mpr ⟨hA, hB⟩) (by rw [Tree.color_bin]; rfl)
      | ⟨e, .black, p, O⟩ :: ctx =>
          have hp := h.node_frame
          have hb := h.balanced hT (by rw [hred]; exact hctx.red_of_black rfl)
          have hne : (plug (⟨e, .black, p, O⟩ :: ctx) T).nodes ≠ [] := by
            intro hnil
            have hle := length_le_nodes_plug (⟨e, .black, p, O⟩ :: ctx) T
            simp [hnil] at hle
          obtain ⟨t', heval, hres⟩ := hb.setRootBlack hne
          exact ⟨t', by simpa [rbInsertColor, hparent, hp] using heval, hres⟩
      | [⟨e, .red, p, O⟩] => exact absurd hctx.2.2 (by simp [CtxOk])
      | ⟨e, .red, p, O⟩ :: ⟨d, .red, g, U⟩ :: ctx =>
          exact absurd (hctx.2.2.2.1 rfl).1 (by simp)
      | ⟨e, .red, p, O⟩ :: ⟨d, .black, g, U⟩ :: ctx =>
          obtain ⟨hO, hOc, hU, -, hrest⟩ := hctx
          have hlen : ctx.length < fuel := by
            simp only [List.length_cons] at hfuel
            omega
          rw [rbInsertColor_body h hn rfl]
          cases hUc : U.color with
          | black =>
              obtain ⟨t', heval, hres⟩ :=
                insertRotate_spec h hT hn hred rfl ⟨hO, (hOc rfl).2⟩ ⟨hU, hUc⟩ hrest
              refine ⟨t', ?_, hres⟩
              cases hu : U.root? with
              | none => exact heval
              | some u => exact heval
          | red =>
              obtain ⟨c, U₁, u, U₂, rfl⟩ :=
                Tree.exists_bin (t := U) .left (by rintro rfl; simp at hUc)
              obtain rfl : c = .red := by simpa using hUc
              obtain ⟨hU₁, hU₂, -⟩ := rb_bin_red.mp (show RB (.bin .left .red U₁ u U₂) k from hU)
              -- the grandparent is red now and has black children
              have hT' : RB (.bin d .red (.bin e .black T p O) g (.bin .left .black U₁ u U₂))
                  (k + 1) :=
                rb_bin_red.mpr ⟨rb_bin_black.mpr ⟨hT, hO⟩, rb_bin_black.mpr ⟨hU₁, hU₂⟩,
                  by simp, by simp⟩
              obtain ⟨t', heval, hcount, hb⟩ :=
                ih (insertRecolor_holds h) hT' (Tree.root?_bin ..) (Tree.color_bin ..) hrest hlen
              refine ⟨t', by simpa using heval, hcount, ?_⟩
              have hnodes : (plug ctx (.bin d .red (.bin e .black T p O) g
                  (.bin .left .black U₁ u U₂))).nodes =
                  (plug (⟨e, .red, p, O⟩ ::
                    ⟨d, .black, g, .bin .left .red U₁ u U₂⟩ :: ctx) T).nodes := by
                refine nodes_plug_congr ctx (Tree.nodes_bin_congr d _ _ g ?_ ?_)
                · exact Tree.nodes_bin_congr e _ _ p rfl rfl
                · rfl
              rwa [hnodes] at hb

/-! ## Removal -/

lemma Holds.setColor_far {t : RbTree N} {ctx : Ctx N} {d e : Dir} {c c' c'' : Color}
    {A Y Z : Tree N} {n x : N} (h : Holds t (plug ctx (.bin d c A n (.bin e c' Y x Z)))) :
    Holds (t.setColor x c'') (plug ctx (.bin d c A n (.bin e c'' Y x Z))) := by
  have h1 : Holds t (plug (⟨d.opp, c, n, A⟩ :: ctx) (.bin e c' Y x Z)) := by
    rw [plug, Frame.up, Tree.bin_opp]
    exact h
  have h2 : Holds (t.setColor x c'') (plug (⟨d.opp, c, n, A⟩ :: ctx) (.bin e c'' Y x Z)) :=
    h1.setColor
  rw [plug, Frame.up, Tree.bin_opp] at h2
  exact h2

/-- The colours of a node and its child on the far side are exchanged. -/
lemma swapColors_holds {t : RbTree N} {ctx : Ctx N} {d : Dir} {c c' : Color} {A Y Z : Tree N}
    {n x : N} (h : Holds t (plug ctx (.bin d c A n (.bin d c' Y x Z)))) :
    Holds (swapColors n x t) (plug ctx (.bin d c' A n (.bin d c Y x Z))) := by
  have hcolor : ∀ {t : RbTree N} {c c' : Color},
      Holds t (plug ctx (.bin d c A n (.bin d c' Y x Z))) →
      (t.node n).color = c ∧ (t.node x).color = c' := by
    intro t c c' h
    have h1 : Holds t (plug (⟨d.opp, c, n, A⟩ :: ctx) (.bin d c' Y x Z)) := by
      rw [plug, Frame.up, Tree.bin_opp]
      exact h
    exact ⟨by simp [h.node_bin], by simp [h1.node_bin]⟩
  have h1 : Holds (t.setColor n (Color.xor c c'))
      (plug ctx (.bin d (Color.xor c c') A n (.bin d c' Y x Z))) := h.setColor
  have h2 : Holds ((t.setColor n (Color.xor c c')).setColor x c)
      (plug ctx (.bin d (Color.xor c c') A n (.bin d c Y x Z))) := h1.setColor_far
  have heval : swapColors n x t =
      ((t.setColor n (Color.xor c c')).setColor x c).setColor n c' := by
    rw [swapColors, (hcolor h).1, (hcolor h).2, (hcolor h1).1, (hcolor h1).2,
      Color.xor_xor_right, (hcolor h2).1, (hcolor h2).2, Color.xor_xor_left]
  rw [heval]
  exact h2.setColor

lemma removeRecolor_holds {t : RbTree N} {ctx : Ctx N} {d : Dir} {c c' : Color} {T Y Z : Tree N}
    {p s : N} (h : Holds t (plug ctx (.bin d c T p (.bin d c' Y s Z)))) :
    Holds (removeRecolor d p s t) (plug ctx (.bin d .red T p (.bin d .black Y s Z))) := by
  cases d with
  | left => exact h.setColor.setColor_far
  | right => exact h.setColor_far.setColor

lemma rbCount_removeRecolor (d : Dir) (p s : N) (t : RbTree N) :
    (removeRecolor d p s t).rbCount = t.rbCount := by
  cases d <;> rfl

/-- Case 1 of `rb_remove_color`: afterwards the sibling is black.  The place is deeper then only
if its parent has become red. -/
lemma removeCase1_spec {t : RbTree N} {ctx : Ctx N} {d : Dir} {c : Color} {p s : N} {T S : Tree N}
    {k : ℕ} (h : Holds t (plug (⟨d, c, p, S⟩ :: ctx) T)) (hs : S.root? = some s)
    (hctx : CtxOk (⟨d, c, p, S⟩ :: ctx) (k + 1) .black) :
    ∃ t' c' S' s' ctx', removeCase1 d p s t = some (s', t') ∧ t'.rbCount = t.rbCount ∧
      Holds t' (plug (⟨d, c', p, S'⟩ :: ctx') T) ∧
      CtxOk (⟨d, c', p, S'⟩ :: ctx') (k + 1) .black ∧ S'.root? = some s' ∧ S'.color = .black ∧
      (plug (⟨d, c', p, S'⟩ :: ctx') T).nodes = (plug (⟨d, c, p, S⟩ :: ctx) T).nodes ∧
      (c' = .red ∨ ctx' = ctx) := by
  have hsc := (h.flip.node_root hs).2
  cases hSc : S.color with
  | black =>
      exact ⟨t, c, S, s, ctx, by simp [removeCase1, hsc, hSc], rfl, h, hctx, hs, hSc, rfl, .inr rfl⟩
  | red =>
      obtain ⟨c', NL, NR, rfl⟩ := Tree.exists_bin_of_root? d hs
      obtain rfl : c' = .red := by simpa using hSc
      obtain ⟨hS, hcred, hrest⟩ := hctx
      obtain ⟨hNL, hNR, hNLc, hNRc⟩ := rb_bin_red.mp hS
      obtain rfl : c = .black := by
        cases c
        · exact absurd (hcred rfl).2 (by simp)
        · rfl
      obtain ⟨t', hrot, hcount, h1⟩ := rbRotate_holds (removeRecolor_holds h)
      have h2 : Holds t' (plug (⟨d, .red, p, NL⟩ :: ⟨d, .black, s, NR⟩ :: ctx) T) := h1
      obtain ⟨s', hs'⟩ := root?_of_rb hNL
      have hp : t'.node p = RbNode.ofSides d (some s) T.root? NL.root? .red := h2.node_frame
      refine ⟨t', .red, NL, s', ⟨d, .black, s, NR⟩ :: ctx, ?_, ?_, h2, ?_, hs', hNLc, ?_, .inl rfl⟩
      · rw [hSc] at hsc
        simp [removeCase1, hsc, hrot, hp, hs']
      · rw [hcount, rbCount_removeRecolor]
      · exact ⟨hNL, fun _ => ⟨rfl, hNLc⟩, hNR, fun hc => absurd hc (by simp), hrest⟩
      · exact nodes_plug_congr ctx (Tree.nodes_rotate ..)

/-- Case 3 of `rb_remove_color`: afterwards the nephew on the far side is red. -/
lemma removeCase3_spec {t : RbTree N} {ctx : Ctx N} {d : Dir} {c : Color} {p s : N}
    {T NL NR : Tree N} {k : ℕ} (h : Holds t (plug (⟨d, c, p, .bin d .black NL s NR⟩ :: ctx) T))
    (hNL : RB NL k) (hNR : RB NR k) (hred : ¬ (NL.color = .black ∧ NR.color = .black)) :
    ∃ t' Y s' Z₁ z Z₂, removeCase3 d p s t = some (s', t') ∧ t'.rbCount = t.rbCount ∧
      Holds t' (plug (⟨d, c, p, .bin d .black Y s' (.bin d .red Z₁ z Z₂)⟩ :: ctx) T) ∧
      RB Y k ∧ RB Z₁ k ∧ RB Z₂ k ∧
      (plug (⟨d, c, p, .bin d .black Y s' (.bin d .red Z₁ z Z₂)⟩ :: ctx) T).nodes =
        (plug (⟨d, c, p, .bin d .black NL s NR⟩ :: ctx) T).nodes := by
  have hflip : Holds t (plug (⟨d.opp, c, p, T⟩ :: ctx) (.bin d .black NL s NR)) := h.flip
  have hfar : Holds t (plug (⟨d.opp, .black, s, NL⟩ :: ⟨d.opp, c, p, T⟩ :: ctx) NR) := by
    rw [plug, Frame.up, Tree.bin_opp]
    exact hflip
  have hs := hflip.node_bin
  have hcond := hfar.isBlack
  cases hNRc : NR.color with
  | red =>
      have heval : removeCase3 d p s t = some (s, t) := by
        simp [removeCase3, hs, hcond, hNRc]
      obtain ⟨c', Z₁, z, Z₂, rfl⟩ := Tree.exists_bin (t := NR) d (by rintro rfl; simp at hNRc)
      obtain rfl : c' = .red := by simpa using hNRc
      obtain ⟨hZ₁, hZ₂, -⟩ := rb_bin_red.mp hNR
      exact ⟨t, NL, s, Z₁, z, Z₂, heval, rfl, h, hNL, hZ₁, hZ₂, rfl⟩
  | black =>
      have hNLc : NL.color ≠ .black := fun e => hred ⟨e, hNRc⟩
      obtain ⟨c', Y, x, Z, rfl⟩ := Tree.exists_bin (t := NL) d (by rintro rfl; simp at hNLc)
      obtain rfl : c' = .red := by cases c' <;> simp_all
      obtain ⟨hY, hZ, -⟩ := rb_bin_red.mp hNL
      obtain ⟨t', hrot, hcount, h1⟩ := rotateUp_holds hflip
      have h2 : Holds t' (plug (⟨d, c, p, .bin d .black Y x (.bin d .red Z s NR)⟩ :: ctx) T) := by
        simpa only [Dir.opp_opp] using h1.flip
      have hp := h2.node_frame
      simp only [Tree.root?_bin] at hp
      refine ⟨t', Y, x, Z, s, NR, ?_, hcount, h2, hY, hZ, hNR, ?_⟩
      · simp [removeCase3, hcond, hNRc, hs, hrot, hp]
      · exact nodes_plug_congr ctx
          (Tree.nodes_bin_congr d c c p rfl (Tree.nodes_rotate ..).symm)

lemma removeCase4_spec {t : RbTree N} {ctx : Ctx N} {d : Dir} {c : Color} {p s z : N}
    {T Y Z₁ Z₂ : Tree N} {k : ℕ}
    (h : Holds t (plug (⟨d, c, p, .bin d .black Y s (.bin d .red Z₁ z Z₂)⟩ :: ctx) T))
    (hT : RB T k) (hY : RB Y k) (hZ₁ : RB Z₁ k) (hZ₂ : RB Z₂ k)
    (hctx : CtxOk ctx (k + 1 + c.weight) c) :
    ∃ t', removeCase4 d p s t = some t' ∧ t'.rbCount = t.rbCount ∧
      Balanced t' (plug (⟨d, c, p, .bin d .black Y s (.bin d .red Z₁ z Z₂)⟩ :: ctx) T).nodes := by
  have h1 : Holds (swapColors p s t)
      (plug ctx (.bin d .black T p (.bin d c Y s (.bin d .red Z₁ z Z₂)))) := swapColors_holds h
  have h2 : Holds (swapColors p s t)
      (plug (⟨d.opp, .black, p, T⟩ :: ctx) (.bin d c Y s (.bin d .red Z₁ z Z₂))) := by
    rw [plug, Frame.up, Tree.bin_opp]
    exact h1
  have hs := h2.node_bin
  have h3 : Holds ((swapColors p s t).setColor z .black)
      (plug (⟨d.opp, .black, p, T⟩ :: ctx) (.bin d c Y s (.bin d .black Z₁ z Z₂))) :=
    h2.setColor_far
  rw [plug, Frame.up, Tree.bin_opp] at h3
  obtain ⟨t', hrot, hcount, h4⟩ := rbRotate_holds h3
  refine ⟨t', by simp [removeCase4, hs, hrot], hcount, ?_⟩
  have hb := h4.balanced (rb_up (f := ⟨d, c, s, .bin d .black Z₁ z Z₂⟩)
    (rb_bin_black.mpr ⟨hT, hY⟩) (rb_bin_black.mpr ⟨hZ₁, hZ₂⟩) (by simp))
    (by rw [Tree.color_bin]; exact hctx)
  have hnodes : (Tree.bin d c (.bin d .black T p Y) s (.bin d .black Z₁ z Z₂)).nodes =
      (Tree.bin d c T p (.bin d .black Y s (.bin d .red Z₁ z Z₂))).nodes := by
    rw [Tree.nodes_rotate d c .black c .black]
    exact Tree.nodes_bin_congr d c c p rfl
      (Tree.nodes_bin_congr d _ _ s rfl (Tree.nodes_bin_congr d _ _ z rfl rfl))
  rw [nodes_plug_congr ctx hnodes] at hb
  exact hb

/-- The subtree is one black node short of black height `k + 1`: it has black height `k` and a
black root, or a red root that only has to be coloured black. -/
def Short (T : Tree N) (k : ℕ) : Prop :=
  (T.color = .black ∧ RB T k) ∨ ∃ d A n B, T = .bin d .red A n B ∧ RB A k ∧ RB B k

lemma rbRemoveColor_red {fuel : ℕ} {t : RbTree N} {ctx : Ctx N} {d : Dir} {A B : Tree N} {n : N}
    {k : ℕ} (h : Holds t (plug ctx (.bin d .red A n B))) (hA : RB A k) (hB : RB B k)
    (hctx : CtxOk ctx (k + 1) .black) :
    ∃ t', rbRemoveColor (fuel + 1) (some n) ctx.top t = some t' ∧ t'.rbCount = t.rbCount ∧
      Balanced t' (plug ctx (.bin d .red A n B)).nodes := by
  have hblack : t.isBlack (some n) = false := by
    simpa using h.isBlack
  refine ⟨t.setColor n .black, by simp [rbRemoveColor, hblack, setBlackSafe], rfl, ?_⟩
  have h1 : Holds (t.setColor n .black) (plug ctx (.bin d .black A n B)) := h.setColor
  have hb := h1.balanced (rb_bin_black.mpr ⟨hA, hB⟩) (by rw [Tree.color_bin]; exact hctx)
  rwa [nodes_plug_congr ctx (Tree.nodes_bin_congr d .black .red n rfl rfl)] at hb

lemma rbRemoveColor_body {fuel : ℕ} {t t' : RbTree N} {ctx : Ctx N} {d : Dir} {c : Color}
    {p s s' : N} {T S : Tree N} (h : Holds t (plug (⟨d, c, p, S⟩ :: ctx) T))
    (hTc : T.color = .black) (hs : S.root? = some s)
    (hcase1 : removeCase1 d p s t = some (s', t')) :
    rbRemoveColor (fuel + 1) T.root? (some p) t =
      if t'.isBlack (t'.node s').left ∧ t'.isBlack (t'.node s').right then
        rbRemoveColor fuel (some p) ((t'.setColor s' .red).node p).parent (t'.setColor s' .red)
      else (removeCase3 d p s' t').bind fun r =>
        (removeCase4 d p r.1 r.2).map fun t => setBlackSafe t.root t := by
  have hcond : t.isBlack T.root? ∧ T.root? ≠ t.root := by
    refine ⟨by simpa [hTc] using h.isBlack, ?_⟩
    obtain ⟨a, ha, hroot⟩ := root?_plug_cons ⟨d, c, p, S⟩ ctx
    rw [h.root, hroot]
    intro e
    exact (nodup_nodes_plug.mp h.nodup).2.2 (Tree.mem_nodes_of_root? e) ha
  have hside : (if (t.node p).left = T.root? then Dir.left else Dir.right) = d :=
    h.side (.inr (by simp [hs]))
  have hchild : (t.node p).child d.opp = some s := by
    have hp : t.node p = RbNode.ofSides d ctx.top T.root? S.root? c := h.node_frame
    rw [hp, RbNode.child_opp_ofSides, hs]
  rw [rbRemoveColor, if_pos hcond]
  simp only [Option.bind_eq_bind, Option.bind_some, hside, hchild, hcase1]
  split
  · rfl
  · cases removeCase3 d p s' t' with
    | none => rfl
    | some r =>
        simp only [Option.bind_some]
        cases removeCase4 d p r.1 r.2 <;> rfl

/-- **`rb_remove_color`** restores the invariant. -/
lemma rbRemoveColor_spec {fuel : ℕ} {t : RbTree N} {ctx : Ctx N} {T : Tree N} {k : ℕ}
    (h : Holds t (plug ctx T)) (hT : Short T k) (hctx : CtxOk ctx (k + 1) .black)
    (hfuel : ctx.length < fuel ∨ T.color = .red ∧ 0 < fuel) :
    ∃ t', rbRemoveColor fuel T.root? ctx.top t = some t' ∧ t'.rbCount = t.rbCount ∧
      Balanced t' (plug ctx T).nodes := by
  induction fuel generalizing t ctx T k with
  | zero => omega
  | succ fuel ih =>
      obtain ⟨hTc, hT⟩ | ⟨d, A, n, B, rfl, hA, hB⟩ := hT
      · match ctx with
        | [] =>
            have hb : Balanced t T.nodes := ⟨T, k, h, hT, hTc, rfl⟩
            have hroot : t.root = T.root? := h.root
            refine ⟨setBlackSafe T.root? t, by simp [rbRemoveColor, hroot], ?_, ?_⟩
            · exact rbCount_setBlackSafe ..
            · rw [← hroot]
              exact hb.setBlackSafe
        | ⟨d, c, p, S⟩ :: ctx =>
            obtain ⟨s, hs⟩ := root?_of_rb hctx.1
            obtain ⟨t₁, c₁, S₁, s₁, ctx₁, hcase1, hcount₁, h₁, ⟨hS₁, hred₁, hrest₁⟩, hs₁, hSc₁,
              hnodes₁, hdeep⟩ := removeCase1_spec h hs hctx
            obtain ⟨c', NL, NR, rfl⟩ := Tree.exists_bin_of_root? d hs₁
            obtain rfl : c' = .black := by simpa using hSc₁
            obtain ⟨hNL, hNR⟩ := rb_bin_black.mp hS₁
            have hflip : Holds t₁ (plug (⟨d.opp, c₁, p, T⟩ :: ctx₁) (.bin d .black NL s₁ NR)) :=
              h₁.flip
            rw [Ctx.top_cons, rbRemoveColor_body h hTc hs hcase1, ← hnodes₁]
            by_cases hnephews : NL.color = .black ∧ NR.color = .black
            · rw [if_pos (hflip.nephews.mpr hnephews)]
              -- case 2: the subtree of the parent is the short one now
              have h₂ : Holds (t₁.setColor s₁ .red)
                  (plug ctx₁ (.bin d c₁ T p (.bin d .red NL s₁ NR))) := h₁.setColor_far
              have hparent : ((t₁.setColor s₁ .red).node p).parent = Ctx.top ctx₁ := by
                rw [h₂.node_bin, RbNode.parent_ofSides]
              have hS : RB (.bin d .red NL s₁ NR) k := rb_bin_red.mpr ⟨hNL, hNR, hnephews⟩
              have hnodes₂ : (plug ctx₁ (.bin d c₁ T p (.bin d .red NL s₁ NR))).nodes =
                  (plug (⟨d, c₁, p, .bin d .black NL s₁ NR⟩ :: ctx₁) T).nodes :=
                nodes_plug_congr ctx₁
                  (Tree.nodes_bin_congr d c₁ c₁ p rfl (Tree.nodes_bin_congr d _ _ s₁ rfl rfl))
              have hlen : ctx.length < fuel := by simpa [hTc] using hfuel
              rw [hparent, ← hnodes₂, ← hcount₁]
              cases c₁ with
              | black =>
                  have hctx₁ : ctx₁ = ctx := by simpa using hdeep
                  have := ih h₂ (.inl ⟨by simp, rb_bin_black.mpr ⟨hT, hS⟩⟩) hrest₁
                    (.inl (by rw [hctx₁]; exact hlen))
                  rwa [Tree.root?_bin] at this
              | red =>
                  have := ih h₂ (.inr ⟨d, T, p, _, rfl, hT, hS⟩) hrest₁.black
                    (.inr ⟨by simp, by omega⟩)
                  rwa [Tree.root?_bin] at this
            · rw [if_neg fun e => hnephews (hflip.nephews.mp e)]
              obtain ⟨t₂, Y, s₂, Z₁, z, Z₂, hcase3, hcount₂, h₂, hY, hZ₁, hZ₂, hnodes₂⟩ :=
                removeCase3_spec h₁ hNL hNR hnephews
              obtain ⟨t₃, hcase4, hcount₃, hb⟩ := removeCase4_spec h₂ hT hY hZ₁ hZ₂ hrest₁
              rw [hnodes₂] at hb
              refine ⟨setBlackSafe t₃.root t₃, by simp [hcase3, hcase4], ?_, hb.setBlackSafe⟩
              rw [rbCount_setBlackSafe, hcount₃, hcount₂, hcount₁]
      · rw [Tree.root?_bin]
        exact rbRemoveColor_red h hA hB hctx

end LinuxC.Rb
