import LinuxC.Framework.OrderedList
import LinuxC.RbTree.Rebalance

/-!
# The operations of the tree

`IsSet cmp t xs` is the invariant between two calls: the tree of `t` is red-black with a black
root, its nodes from left to right are `xs`, they are in strict order, and `rb_count` is their
number.  One lemma for each function says what it does to `xs` and that it returns: a fuel
above `rb_count` is always enough.
-/

namespace LinuxC.Rb

variable {N : Type}

/-- The tree of `t` is a red-black tree over the ordered list `xs`. -/
structure IsSet (cmp : N → N → ℤ) (t : RbTree N) (xs : List N) : Prop where
  balanced : Balanced t xs
  sorted : Sorted cmp xs
  count : t.rbCount = xs.length

lemma IsSet.nodup {cmp : N → N → ℤ} {t : RbTree N} {xs : List N} (h : IsSet cmp t xs) :
    xs.Nodup := by
  obtain ⟨⟨T, k, hT, -, -, rfl⟩, -, -⟩ := h
  exact hT.nodup

/-! ## Descending -/

lemma load_linkOf [DecidableEq N] {t : RbTree N} {ctx : Ctx N} {S : Tree N}
    (h : Holds t (plug ctx S)) : t.load (linkOf ctx) = S.root? := by
  cases ctx with
  | nil => exact h.root
  | cons f ctx => simp [linkOf, RbTree.load, h.node_frame]

/-- The nodes of the context left of the place are smaller than `n`, those right of it are
greater. -/
def Between (cmp : N → N → ℤ) (n : N) (ctx : Ctx N) : Prop :=
  (∀ m ∈ ctx.before, 0 < cmp n m) ∧ ∀ m ∈ ctx.after, cmp n m < 0

/-- **The descent of `rb_insert`** ends at an equal node or at the empty place for `n`. -/
lemma findLink_spec [DecidableEq N] {cmp : N → N → ℤ} (hcmp : Comparator cmp) {t : RbTree N}
    {n : N} {S : Tree N} {ctx : Ctx N} {fuel : ℕ} (h : Holds t (plug ctx S))
    (hs : Sorted cmp S.nodes) (hctx : Between cmp n ctx) (hfuel : S.nodes.length < fuel) :
    (∃ cur ∈ S.nodes, cmp n cur = 0 ∧
        findLink cmp n t fuel (linkOf ctx) ctx.top = some (.inl cur)) ∨
      ∃ ctx', plug ctx' .nil = plug ctx S ∧ Between cmp n ctx' ∧
        findLink cmp n t fuel (linkOf ctx) ctx.top = some (.inr (linkOf ctx', ctx'.top)) := by
  induction S generalizing ctx fuel with
  | nil =>
      obtain ⟨fuel, rfl⟩ : ∃ f, fuel = f + 1 := ⟨fuel - 1, by omega⟩
      exact .inr ⟨ctx, rfl, hctx, by simp [findLink, load_linkOf h]⟩
  | node c l a r ihl ihr =>
      obtain ⟨fuel, rfl⟩ : ∃ f, fuel = f + 1 := ⟨fuel - 1, by omega⟩
      rw [Sorted, Tree.nodes_node, List.pairwise_append, List.pairwise_cons] at hs
      obtain ⟨hsl, ⟨har, hsr⟩, hla⟩ := hs
      rw [Tree.nodes_node, List.length_append, List.length_cons] at hfuel
      rw [findLink, load_linkOf h, Tree.root?_node]
      rcases lt_trichotomy (cmp n a) 0 with hlt | heq | hgt
      · -- to the left: `a` and the nodes after it are greater than `n`
        have hl : Holds t (plug (⟨.left, c, a, r⟩ :: ctx) l) := h
        have hbetween : Between cmp n (⟨.left, c, a, r⟩ :: ctx) := by
          refine ⟨hctx.1, fun m hm => ?_⟩
          simp only [Ctx.after, List.mem_append, List.mem_cons] at hm
          rcases hm with (rfl | hm) | hm
          · exact hlt
          · exact hcmp.trans n a m hlt.le (har m hm)
          · exact hctx.2 m hm
        have hlen : l.nodes.length < fuel := by omega
        have hstep := ihl hl hsl hbetween hlen
        simp only [hlt.ne, not_lt.mpr hlt.le, if_false]
        rcases hstep with ⟨cur, hcur, hres⟩ | hres
        · exact .inl ⟨cur, by simp [hcur], hres⟩
        · exact .inr hres
      · exact .inl ⟨a, by simp, heq, by simp [heq]⟩
      · have hr : Holds t (plug (⟨.right, c, a, l⟩ :: ctx) r) := h
        have hbetween : Between cmp n (⟨.right, c, a, l⟩ :: ctx) := by
          refine ⟨fun m hm => ?_, hctx.2⟩
          simp only [Ctx.before, List.mem_append, List.mem_cons, List.not_mem_nil, or_false] at hm
          rcases hm with hm | hm | rfl
          · exact hctx.1 m hm
          · have := hcmp.trans m a n (hla m hm a (by simp)).le ((hcmp.swap n a).mp hgt)
            exact (hcmp.swap n m).mpr this
          · exact hgt
        have hlen : r.nodes.length < fuel := by omega
        have hstep := ihr hr hsr hbetween hlen
        simp only [hgt.ne', hgt, if_true, if_false]
        rcases hstep with ⟨cur, hcur, hres⟩ | hres
        · exact .inl ⟨cur, by simp [hcur], hres⟩
        · exact .inr hres

/-! ## Insertion -/

section Insert

variable [DecidableEq N] {cmp : N → N → ℤ} (hcmp : Comparator cmp) {t : RbTree N} {xs : List N}
  {fuel : ℕ}
include hcmp

lemma findLink_root (h : IsSet cmp t xs) (n : N) (hfuel : t.rbCount < fuel) :
    (∃ cur ∈ xs, cmp n cur = 0 ∧ findLink cmp n t fuel .root none = some (.inl cur)) ∨
      ∃ ctx : Ctx N, ∃ k, Holds t (plug ctx .nil) ∧ xs = ctx.before ++ ctx.after ∧
        RB (plug ctx .nil) k ∧ (plug ctx .nil).color = .black ∧ Between cmp n ctx ∧
        findLink cmp n t fuel .root none = some (.inr (linkOf ctx, ctx.top)) := by
  obtain ⟨⟨T, k, hT, hrb, hb, rfl⟩, hs, hcount⟩ := h
  have hT' : Holds t (plug [] T) := hT
  have hnil : Between cmp n [] := by simp [Between, Ctx.before, Ctx.after]
  rcases findLink_spec hcmp hT' hs hnil (hcount ▸ hfuel) with hfound | ⟨ctx, hplug, hbtw, hres⟩
  · exact .inl hfound
  · have hplug : plug ctx .nil = T := hplug
    subst hplug
    refine .inr ⟨ctx, k, hT, ?_, hrb, hb, hbtw, hres⟩
    rw [nodes_plug, Tree.nodes_nil, List.append_nil]

/-- Inserting a node equal to one of the tree returns that one and changes nothing. -/
lemma rbInsert_equal (h : IsSet cmp t xs) {n m : N} (hm : m ∈ xs) (hnm : cmp n m = 0)
    (hfuel : t.rbCount < fuel) : rbInsert cmp fuel n t = some (t, m) := by
  rcases findLink_root hcmp h n hfuel with ⟨cur, hcur, hncur, hres⟩ |
    ⟨ctx, -, -, rfl, -, -, hbtw, -⟩
  · obtain rfl : cur = m := hcmp.unique h.sorted hcur hm hncur hnm
    simp [rbInsert, hres]
  · rcases List.mem_append.mp hm with hm | hm
    · have := hbtw.1 m hm
      omega
    · have := hbtw.2 m hm
      omega

/-- **`rb_insert`** of a node that is equal to none of the tree puts it between the smaller and
the greater ones. -/
lemma rbInsert_new (h : IsSet cmp t xs) {n : N} (hn : ∀ m ∈ xs, cmp n m ≠ 0)
    (hfuel : t.rbCount < fuel) :
    ∃ t' ys zs, xs = ys ++ zs ∧ rbInsert cmp fuel n t = some (t', n) ∧
      IsSet cmp t' (ys ++ n :: zs) := by
  rcases findLink_root hcmp h n hfuel with ⟨cur, hcur, hncur, -⟩ |
    ⟨ctx, k, hT, hxs, hrb, hb, hbtw, hres⟩
  · exact absurd hncur (hn cur hcur)
  · have hnmem : n ∉ ctx.nodes := by
      intro hmem
      rw [Ctx.nodes, ← hxs] at hmem
      exact hn n hmem (hcmp.self n)
    obtain ⟨j, hj, hctx⟩ := rb_of_plug hrb hb
    have hleaf : RB (.bin .left .red .nil n .nil) j := rb_bin_red.mpr ⟨hj, hj, rfl, rfl⟩
    have hlen : ctx.length < fuel := by
      have hle := length_le_nodes_plug ctx (.nil : Tree N)
      rw [nodes_plug, Tree.nodes_nil, List.append_nil, ← hxs, ← h.count] at hle
      simp only [List.length_nil] at hle
      omega
    obtain ⟨t', heval, hcount, hbal⟩ :=
      rbInsertColor_spec (store_holds hT hnmem) hleaf rfl rfl hctx hlen
    have hnodes : (plug ctx (.bin .left .red .nil n .nil)).nodes =
        ctx.before ++ n :: ctx.after := by
      rw [nodes_plug]
      simp [Tree.bin]
    rw [hnodes] at hbal
    have hcount' : t'.rbCount = t.rbCount := by
      rw [hcount]
      cases ctx <;> rfl
    refine ⟨{ t' with rbCount := t'.rbCount + 1 }, ctx.before, ctx.after, hxs,
      by simp [rbInsert, hres, heval], hbal.setCount _, ?_, ?_⟩
    · have hs := h.sorted
      rw [hxs, Sorted, List.pairwise_append] at hs
      refine List.pairwise_append.mpr ⟨hs.1, List.pairwise_cons.mpr ⟨hbtw.2, hs.2.1⟩, ?_⟩
      intro a ha b hb
      rcases List.mem_cons.mp hb with rfl | hb
      · exact (hcmp.swap b a).mp (hbtw.1 a ha)
      · exact hs.2.2 a ha b hb
    · change t'.rbCount + 1 = _
      rw [hcount', h.count, hxs]
      simp only [List.length_append, List.length_cons]
      omega

end Insert

/-! ## Removal -/

/-- The loop `while (n->left) n = n->left`, and its mirror image. -/
lemma endmost_spec [DecidableEq N] {t : RbTree N} {d : Dir} {S : Tree N} {p : Option N} {a : N}
    {fuel : ℕ} (h : Rep t.node p S) (ha : S.root? = some a) (hfuel : S.nodes.length ≤ fuel) :
    ∃ ctx c m C, S = plug ctx (.bin d c .nil m C) ∧ (∀ f ∈ ctx, f.dir = d) ∧
      endmost d t fuel a = some m := by
  induction fuel generalizing S p a with
  | zero =>
      obtain ⟨c, A, B, rfl⟩ := Tree.exists_bin_of_root? d ha
      have := (Tree.nodes_bin_perm d c A a B).length_eq
      simp at this
      omega
  | succ fuel ih =>
      obtain ⟨c, A, B, rfl⟩ := Tree.exists_bin_of_root? d ha
      obtain ⟨hn, hA, -⟩ := rep_bin.mp h
      cases hroot : A.root? with
      | none =>
          obtain rfl : A = .nil := Tree.eq_nil_of_root? hroot
          exact ⟨[], c, a, B, rfl, by simp, by simp [endmost, hn]⟩
      | some b =>
          have hlen : A.nodes.length ≤ fuel := by
            have := (Tree.nodes_bin_perm d c A a B).length_eq
            simp only [List.length_cons, List.length_append] at this
            omega
          obtain ⟨ctx, e, m, C, rfl, hdirs, heval⟩ := ih hA hroot hlen
          refine ⟨ctx ++ [⟨d, c, a, B⟩], e, m, C, ?_, ?_, ?_⟩
          · rw [plug_append]
            rfl
          · simpa [or_imp, forall_and] using hdirs
          · simp [endmost, hn, hroot, heval]

/-- The context fits whatever the nodes in it are. -/
lemma ctxOk_rename {ctx ctx' : Ctx N} {d : Dir} {c e : Color} {n r : N} {L : Tree N} {k : ℕ}
    (h : CtxOk (ctx ++ ⟨d, c, n, L⟩ :: ctx') k e) : CtxOk (ctx ++ ⟨d, c, r, L⟩ :: ctx') k e := by
  induction ctx generalizing k e with
  | nil => exact h
  | cons f ctx ih => exact ⟨h.1, h.2.1, ih h.2.2⟩

/-- A red-black subtree is short of one black node. -/
lemma short_of_rb {C : Tree N} {k : ℕ} (hC : RB C k) : Short C k := by
  cases hCc : C.color with
  | black => exact .inl ⟨hCc, hC⟩
  | red =>
      obtain ⟨e, A, m, B, rfl⟩ := Tree.exists_bin (t := C) .left (by rintro rfl; simp at hCc)
      obtain rfl : e = .red := by simpa using hCc
      obtain ⟨hA, hB, -⟩ := rb_bin_red.mp hC
      exact .inr ⟨.left, A, m, B, rfl, hA, hB⟩

/-- **The label `color_fix`**, when the node of colour `c` is gone from above the subtree
`C`. -/
lemma colorFix_spec [DecidableEq N] {t : RbTree N} {ctx : Ctx N} {c : Color} {C : Tree N} {n : N}
    {k fuel : ℕ} (h : Holds t (plug ctx C)) (hn : (t.node n).color = c) (hC : RB C k)
    (hred : c = .red → C.color = .black) (hctx : CtxOk ctx (k + c.weight) c)
    (hfuel : ctx.length < fuel) :
    ∃ t', colorFix fuel n C.root? ctx.top t = some t' ∧ t'.rbCount = t.rbCount - 1 ∧
      Balanced t' (plug ctx C).nodes := by
  cases c with
  | red =>
      refine ⟨{ t with rbCount := t.rbCount - 1 }, by simp [colorFix, hn], rfl, ?_⟩
      exact (h.balanced hC (by rw [hred rfl]; exact hctx.black)).setCount _
  | black =>
      obtain ⟨t', heval, hcount, hb⟩ := rbRemoveColor_spec h (short_of_rb hC) hctx (.inl hfuel)
      exact ⟨{ t' with rbCount := t'.rbCount - 1 }, by simp [colorFix, hn, heval],
        by rw [← hcount], hb.setCount _⟩

/-- `rb_remove` up to the label `color_fix`: the variables `child` and `parent`, and the tree. -/
def spliced [DecidableEq N] (fuel : ℕ) (node : N) (t : RbTree N) :
    Option (Option N × Option N × RbTree N) :=
  match (t.node node).left, (t.node node).right with
  | none, child => some (child, unlink node child t)
  | child, none => some (child, unlink node child t)
  | some _, some right => do
      let replace ← endmost .left t fuel right
      let (parent, t') ← replaceNode node replace t
      pure ((t.node replace).right, some parent, t')

lemma rbRemove_eq_colorFix [DecidableEq N] (fuel : ℕ) (node : N) (t : RbTree N) :
    rbRemove fuel node t =
      (spliced fuel node t).bind fun r => colorFix fuel node r.1 r.2.1 r.2.2 := by
  rw [rbRemove, spliced]
  cases (t.node node).left with
  | none => rfl
  | some l =>
      cases (t.node node).right with
      | none => rfl
      | some right =>
          simp only [Option.bind_eq_bind, Option.pure_def, Option.bind_assoc, Option.bind_some]

/-- What `rb_remove` leaves to `color_fix`: the node `n` is out of the order of the tree `T`, and
the subtree `C` at the place `ctx` has lost a node of the colour `c` above it. -/
structure Spliced (t : RbTree N) (T : Tree N) (n : N) (t₁ : RbTree N) (ctx : Ctx N) (C : Tree N)
    (c : Color) : Prop where
  count : t₁.rbCount = t.rbCount
  node : t₁.node n = (t.node n).setColor c
  holds : Holds t₁ (plug ctx C)
  nodes : ∃ ys zs, T.nodes = ys ++ n :: zs ∧ (plug ctx C).nodes = ys ++ zs
  rb : ∀ k, RB T k → T.color = .black →
    ∃ j, RB C j ∧ (c = .red → C.color = .black) ∧ CtxOk ctx (j + c.weight) c

lemma Spliced.length_lt {t t₁ : RbTree N} {T C : Tree N} {n : N} {ctx : Ctx N} {c : Color}
    (h : Spliced t T n t₁ ctx C c) : ctx.length < T.nodes.length := by
  obtain ⟨ys, zs, hold, hnew⟩ := h.nodes
  have hle := length_le_nodes_plug ctx C
  rw [hnew] at hle
  rw [hold]
  simp only [List.length_append, List.length_cons] at hle ⊢
  omega

lemma spliced_one [DecidableEq N] {t : RbTree N} {ctx : Ctx N} {d : Dir} {c : Color} {C : Tree N}
    {n : N} (h : Holds t (plug ctx (.bin d c .nil n C))) :
    ∃ t₁, unlink n C.root? t = (ctx.top, t₁) ∧
      Spliced t (plug ctx (.bin d c .nil n C)) n t₁ ctx C c := by
  obtain ⟨t₁, heval, hcount, hn, h₁⟩ := unlink_holds h
  have hnode := h.node_bin
  refine ⟨t₁, heval, hcount, ?_, h₁, ?_, fun k hrb hb => ?_⟩
  · rw [hn, hnode, RbNode.setColor_ofSides]
  · cases d with
    | left =>
        exact ⟨ctx.before, C.nodes ++ ctx.after, by simp [nodes_plug, Tree.bin],
          by simp [nodes_plug]⟩
    | right =>
        exact ⟨ctx.before ++ C.nodes, ctx.after, by simp [nodes_plug, Tree.bin],
          by simp [nodes_plug]⟩
  · obtain ⟨j, hj, hctx⟩ := rb_of_plug hrb hb
    rw [Tree.color_bin] at hctx
    obtain ⟨i, rfl, hC, hred⟩ := rb_of_bin_nil hj
    exact ⟨i, hC, hred, hctx⟩

/-- What the path for two children leaves to `color_fix`. -/
lemma replaceNode_spec [DecidableEq N] {t : RbTree N} {ctx ctxR : Ctx N} {c rc : Color}
    {L C : Tree N} {n r : N}
    (h : Holds t (plug ctx (.bin .left c L n (plug ctxR (.bin .left rc .nil r C)))))
    (hL : L ≠ .nil) (hdirs : ∀ f ∈ ctxR, f.dir = .left) :
    ∃ q t', replaceNode n r t = some (q, t') ∧
      Ctx.top (ctxR ++ ⟨.right, c, r, L⟩ :: ctx) = some q ∧ t'.rbCount = t.rbCount ∧
      t'.node n = (t.node n).setColor rc ∧
      Holds t' (plug (ctxR ++ ⟨.right, c, r, L⟩ :: ctx) C) := by
  rw [plug_append]
  cases ctxR with
  | nil =>
      obtain ⟨t', heval, hcount, hn, h'⟩ := replaceNode_child h hL
      exact ⟨r, t', heval, rfl, hcount, hn, h'⟩
  | cons f ctxR =>
      obtain ⟨t', heval, hcount, hn, h'⟩ := replaceNode_deep h hL hdirs
      exact ⟨f.node, t', heval, rfl, hcount, hn, h'⟩

/-- A node with two children: its successor `r` has taken its place. -/
lemma spliced_two [DecidableEq N] {t : RbTree N} {ctx : Ctx N} {c : Color}
    {L R : Tree N} {n : N} {fuel : ℕ} (h : Holds t (plug ctx (.bin .left c L n R)))
    (hL : L ≠ .nil) (hR : R ≠ .nil)
    (hfuel : (plug ctx (.bin .left c L n R)).nodes.length < fuel) :
    ∃ ctx' C e t₁, spliced fuel n t = some (C.root?, Ctx.top ctx', t₁) ∧
      Spliced t (plug ctx (.bin .left c L n R)) n t₁ ctx' C e := by
  obtain ⟨l, hl⟩ : ∃ l, L.root? = some l := by
    obtain ⟨_, _, l, _, rfl⟩ := Tree.exists_bin .left hL
    exact ⟨l, by simp⟩
  obtain ⟨b, hroot⟩ : ∃ b, R.root? = some b := by
    obtain ⟨_, _, b, _, rfl⟩ := Tree.exists_bin .left hR
    exact ⟨b, by simp⟩
  have hn := h.node_bin
  have hrR := (rep_bin.mp (rep_plug.mp h.rep).2).2.2
  have hlenR : R.nodes.length ≤ fuel := by
    have := (nodes_plug_perm ctx (.bin .left c L n R)).length_eq
    simp only [Tree.bin, Tree.nodes_node, List.length_append, List.length_cons] at this hfuel
    omega
  obtain ⟨ctxR, rc, r, C, rfl, hdirs, hend⟩ := endmost_spec (d := .left) hrR hroot hlenR
  obtain ⟨q, t₁, heval, hq, hcount, hn₁, h₁⟩ := replaceNode_spec h hL hdirs
  -- the same tree with the successor as the focus
  have hfocus : plug ctx (.bin .left c L n (plug ctxR (.bin .left rc .nil r C))) =
      plug (ctxR ++ ⟨.right, c, n, L⟩ :: ctx) (.bin .left rc .nil r C) := by
    rw [plug_append]
    rfl
  have hr : (t.node r).right = C.root? := by
    rw [hfocus] at h
    rw [h.node_bin]
    rfl
  refine ⟨ctxR ++ ⟨.right, c, r, L⟩ :: ctx, C, rc, t₁, ?_, hcount, hn₁, h₁, ?_,
    fun k hrb hb => ?_⟩
  · simp [spliced, hn, hl, hroot, hend, heval, hr, hq, RbNode.ofSides]
  · rw [plug_append]
    exact nodes_splice ctx ctxR c rc L C n r hdirs
  · rw [hfocus] at hrb hb
    obtain ⟨j, hj, hctx⟩ := rb_of_plug hrb hb
    rw [Tree.color_bin] at hctx
    obtain ⟨i, rfl, hC, hred⟩ := rb_of_bin_nil hj
    exact ⟨i, hC, hred, ctxOk_rename hctx⟩

/-- **The removal of a node up to `color_fix`.** -/
lemma spliced_spec [DecidableEq N] {t : RbTree N} {T : Tree N} {n : N} {fuel : ℕ}
    (h : Holds t T) (hn : n ∈ T.nodes) (hfuel : T.nodes.length < fuel) :
    ∃ ctx C c t₁, spliced fuel n t = some (C.root?, Ctx.top ctx, t₁) ∧
      Spliced t T n t₁ ctx C c := by
  obtain ⟨ctx, c, L, R, rfl⟩ := exists_focus hn
  have hnode := h.node_bin
  match L, R with
  | .nil, R =>
      obtain ⟨t₁, heval, hres⟩ := spliced_one h
      exact ⟨ctx, R, c, t₁, by simp [spliced, hnode, RbNode.ofSides, heval], hres⟩
  | .node lc A l B, .nil =>
      have h' : Holds t (plug ctx (.bin .right c .nil n (.node lc A l B))) := h
      obtain ⟨t₁, heval, hres⟩ := spliced_one h'
      rw [Tree.root?_node] at heval
      exact ⟨ctx, .node lc A l B, c, t₁, by simp [spliced, hnode, RbNode.ofSides, heval], hres⟩
  | .node .., .node .. => exact spliced_two h (by simp) (by simp) hfuel

/-- **`rb_remove`** takes the node out of the order and nothing else. -/
lemma rbRemove_spec [DecidableEq N] {cmp : N → N → ℤ} {t : RbTree N} {xs : List N} {n : N}
    {fuel : ℕ} (h : IsSet cmp t xs) (hn : n ∈ xs) (hfuel : t.rbCount < fuel) :
    ∃ t' ys zs, xs = ys ++ n :: zs ∧ rbRemove fuel n t = some t' ∧ IsSet cmp t' (ys ++ zs) := by
  obtain ⟨⟨T, k, hT, hrb, hb, rfl⟩, hs, hcount⟩ := h
  rw [hcount] at hfuel
  obtain ⟨ctx, C, c, t₁, heval, hsp⟩ := spliced_spec hT hn hfuel
  have hlen := hsp.length_lt
  obtain ⟨ys, zs, hold, hnew⟩ := hsp.nodes
  obtain ⟨j, hC, hred, hctx⟩ := hsp.rb k hrb hb
  have hcolor : (t₁.node n).color = c := by rw [hsp.node, RbNode.setColor]
  obtain ⟨t', hfix, hcount', hbal⟩ :=
    colorFix_spec hsp.holds hcolor hC hred hctx (hlen.trans hfuel)
  rw [hnew] at hbal
  refine ⟨t', ys, zs, hold, ?_, hbal, ?_, ?_⟩
  · rw [rbRemove_eq_colorFix, heval]
    exact hfix
  · rw [hold] at hs
    exact hs.sublist ((List.sublist_cons_self n zs).append_left ys)
  · rw [hcount', hsp.count, hcount, hold]
    simp only [List.length_append, List.length_cons]
    omega

/-! ## Lookup -/

/-- A searcher that agrees with the comparator: an item that is not above a node is below every
greater one, and an item that is not below a node is above every smaller one. -/
structure Consistent {I : Type} (cmp : N → N → ℤ) (searcher : I → N → ℤ) : Prop where
  below : ∀ i a b, cmp a b < 0 → searcher i a ≤ 0 → searcher i b < 0
  above : ∀ i a b, cmp a b < 0 → 0 ≤ searcher i b → 0 < searcher i a

/-- The same for one item and the nodes `xs`: a searcher may well be consistent on the nodes in
the tree only. -/
structure ConsistentOn {I : Type} (cmp : N → N → ℤ) (searcher : I → N → ℤ) (item : I)
    (xs : List N) : Prop where
  below : ∀ a ∈ xs, ∀ b ∈ xs, cmp a b < 0 → searcher item a ≤ 0 → searcher item b < 0
  above : ∀ a ∈ xs, ∀ b ∈ xs, cmp a b < 0 → 0 ≤ searcher item b → 0 < searcher item a

lemma Consistent.on {I : Type} {cmp : N → N → ℤ} {searcher : I → N → ℤ}
    (h : Consistent cmp searcher) (item : I) (xs : List N) : ConsistentOn cmp searcher item xs :=
  ⟨fun a _ b _ => h.below item a b, fun a _ b _ => h.above item a b⟩

lemma ConsistentOn.mono {I : Type} {cmp : N → N → ℤ} {searcher : I → N → ℤ} {item : I}
    {xs ys : List N} (h : ConsistentOn cmp searcher item xs) (hsub : ∀ a ∈ ys, a ∈ xs) :
    ConsistentOn cmp searcher item ys :=
  ⟨fun a ha b hb => h.below a (hsub a ha) b (hsub b hb),
    fun a ha b hb => h.above a (hsub a ha) b (hsub b hb)⟩

/-- **`rb_search`** returns the node that the searcher maps to zero. -/
lemma rbSearch_spec [DecidableEq N] {I : Type} {cmp : N → N → ℤ} {searcher : I → N → ℤ}
    {item : I} {t : RbTree N} {p : Option N} {S : Tree N} {fuel : ℕ}
    (hsearch : ConsistentOn cmp searcher item S.nodes) (h : Rep t.node p S)
    (hs : Sorted cmp S.nodes) (hfuel : S.nodes.length < fuel) :
    ∃ r, rbSearch searcher item t fuel S.root? = some r ∧
      ∀ m, r = some m ↔ m ∈ S.nodes ∧ searcher item m = 0 := by
  induction S generalizing p fuel with
  | nil =>
      obtain ⟨fuel, rfl⟩ : ∃ f, fuel = f + 1 := ⟨fuel - 1, by omega⟩
      exact ⟨none, rfl, by simp⟩
  | node c l a r ihl ihr =>
      obtain ⟨fuel, rfl⟩ : ∃ f, fuel = f + 1 := ⟨fuel - 1, by omega⟩
      obtain ⟨ha, hl, hr⟩ := h
      rw [Sorted, Tree.nodes_node, List.pairwise_append, List.pairwise_cons] at hs
      obtain ⟨hsl, ⟨har, hsr⟩, hla⟩ := hs
      rw [Tree.nodes_node, List.length_append, List.length_cons] at hfuel
      rw [Tree.root?_node, rbSearch, ha]
      have hleft : 0 ≤ searcher item a → ∀ m ∈ l.nodes, 0 < searcher item m :=
        fun h0 m hm => hsearch.above m (by simp [hm]) a (by simp) (hla m hm a (by simp)) h0
      have hright : searcher item a ≤ 0 → ∀ m ∈ r.nodes, searcher item m < 0 :=
        fun h0 m hm => hsearch.below a (by simp) m (by simp [hm]) (har m hm) h0
      rcases lt_trichotomy (searcher item a) 0 with hlt | heq | hgt
      · have hlen : l.nodes.length < fuel := by omega
        obtain ⟨res, heval, hres⟩ := ihl (hsearch.mono fun m hm => by simp [hm]) hl hsl hlen
        refine ⟨res, by rw [if_pos hlt, heval], fun m => ?_⟩
        rw [hres, Tree.nodes_node, List.mem_append, List.mem_cons]
        have := hright hlt.le m
        grind
      · refine ⟨some a, by simp [heq], fun m => ?_⟩
        rw [Tree.nodes_node, List.mem_append, List.mem_cons, Option.some.injEq]
        have := hleft heq.ge m
        have := hright heq.le m
        grind
      · have hlen : r.nodes.length < fuel := by omega
        obtain ⟨res, heval, hres⟩ := ihr (hsearch.mono fun m hm => by simp [hm]) hr hsr hlen
        refine ⟨res, by rw [if_neg (not_lt.mpr hgt.le), if_pos hgt, heval], fun m => ?_⟩
        rw [hres, Tree.nodes_node, List.mem_append, List.mem_cons]
        have := hleft hgt.le m
        grind

/-- Whatever the searcher answers, a node that `rb_search` returns is one of the tree. -/
lemma rbSearch_mem {I : Type} {searcher : I → N → ℤ} {item : I} {t : RbTree N} {p : Option N}
    {S : Tree N} {fuel : ℕ} {m : N} (h : Rep t.node p S)
    (hfound : rbSearch searcher item t fuel S.root? = some (some m)) : m ∈ S.nodes := by
  induction S generalizing p fuel with
  | nil => cases fuel <;> cases hfound
  | node c l a r ihl ihr =>
      obtain ⟨ha, hl, hr⟩ := h
      cases fuel with
      | zero => cases hfound
      | succ fuel =>
          rw [Tree.root?_node, rbSearch, ha] at hfound
          rw [Tree.nodes_node, List.mem_append, List.mem_cons]
          split_ifs at hfound
          · exact .inl (ihl hl hfound)
          · exact .inr (.inr (ihr hr hfound))
          · obtain rfl := Option.some.inj (Option.some.inj hfound)
            exact .inr (.inl rfl)

/-- The node at the end of the order in direction `d`. -/
def endOf (d : Dir) (xs : List N) : Option N :=
  match d with
  | .left => xs.head?
  | .right => xs.getLast?

lemma endmost_rep [DecidableEq N] {t : RbTree N} {d : Dir} {p : Option N} {S : Tree N} {a : N}
    {fuel : ℕ} (h : Rep t.node p S) (ha : S.root? = some a) (hfuel : S.nodes.length ≤ fuel) :
    endmost d t fuel a = endOf d S.nodes ∧ endOf d S.nodes ≠ none := by
  obtain ⟨ctx, c, m, C, rfl, hdirs, heval⟩ := endmost_spec (d := d) h ha hfuel
  rw [heval]
  cases d with
  | left => simp [endOf, nodes_plug, Tree.bin, Ctx.before_eq_nil hdirs]
  | right => simp [endOf, nodes_plug, Tree.bin, Ctx.after_eq_nil hdirs]

/-- **`rb_first` and `rb_last`** return the two ends of the order. -/
lemma rbEnd_spec [DecidableEq N] {t : RbTree N} {xs : List N} {d : Dir} {fuel : ℕ}
    (h : Balanced t xs) (hfuel : xs.length ≤ fuel) : rbEnd d fuel t = some (endOf d xs) := by
  obtain ⟨T, k, hT, -, -, rfl⟩ := h
  cases hroot : T.root? with
  | none =>
      obtain rfl : T = .nil := Tree.eq_nil_of_root? hroot
      simp only [rbEnd, hT.root, hroot]
      cases d <;> rfl
  | some a =>
      obtain ⟨hend, hsome⟩ := endmost_rep (d := d) hT.rep hroot hfuel
      obtain ⟨m, hm⟩ := Option.ne_none_iff_exists'.mp hsome
      simp only [rbEnd, hT.root, hroot, hend, hm, Option.map_some]

/-! ## The tree as an ordered list -/

section List

variable [DecidableEq N] {cmp : N → N → ℤ} {t : RbTree N} {xs : List N} {fuel : ℕ}

lemma IsSet.inserted (hcmp : Comparator cmp) (h : IsSet cmp t xs) (n : N)
    (hfuel : t.rbCount < fuel) :
    ∃ t' r, rbInsert cmp fuel n t = some (t', r) ∧ IsSet cmp t' (insertOrd cmp n xs) := by
  by_cases heq : ∃ m ∈ xs, cmp n m = 0
  · obtain ⟨m, hm, hnm⟩ := heq
    refine ⟨t, m, rbInsert_equal hcmp h hm hnm hfuel, ?_⟩
    rwa [insertOrd_of_equal hcmp h.sorted hm hnm]
  · obtain ⟨t', ys, zs, rfl, heval, h'⟩ :=
      rbInsert_new hcmp h (fun m hm e => heq ⟨m, hm, e⟩) hfuel
    refine ⟨t', n, heval, ?_⟩
    have hs := List.pairwise_append.mp h'.sorted
    have hys : ∀ y ∈ ys, 0 < cmp n y := by
      intro y hy
      exact (hcmp.swap n y).mpr (hs.2.2 y hy n (by simp))
    rwa [insertOrd_append hys (List.pairwise_cons.mp hs.2.1).1]

lemma IsSet.removed (h : IsSet cmp t xs) {n : N} (hn : n ∈ xs) (hfuel : t.rbCount < fuel) :
    ∃ t', rbRemove fuel n t = some t' ∧ IsSet cmp t' (xs.erase n) := by
  have hnd := h.nodup
  obtain ⟨t', ys, zs, rfl, heval, h'⟩ := rbRemove_spec h hn hfuel
  refine ⟨t', heval, ?_⟩
  have hys : n ∉ ys := by
    intro hmem
    exact (List.nodup_append.mp hnd).2.2 n hmem n (by simp) rfl
  rwa [List.erase_append_right _ hys, List.erase_cons_head]

omit [DecidableEq N] in
lemma IsSet.search_mem {I : Type} {searcher : I → N → ℤ} {item : I} {m : N} (h : IsSet cmp t xs)
    (hfound : rbSearch searcher item t fuel t.root = some (some m)) : m ∈ xs := by
  obtain ⟨⟨T, k, hT, -, -, rfl⟩, -, -⟩ := h
  rw [hT.root] at hfound
  exact rbSearch_mem hT.rep hfound

/-- `rb_search` finds the element of the list that the searcher maps to zero. -/
lemma IsSet.search_on {I : Type} {searcher : I → N → ℤ} {item : I}
    (hsearch : ConsistentOn cmp searcher item xs) (h : IsSet cmp t xs)
    (hfuel : t.rbCount < fuel) :
    ∃ r, rbSearch searcher item t fuel t.root = some r ∧
      ∀ m, r = some m ↔ m ∈ xs ∧ searcher item m = 0 := by
  obtain ⟨⟨T, k, hT, -, -, rfl⟩, hs, hcount⟩ := h
  obtain ⟨r, heval, hr⟩ := rbSearch_spec hsearch hT.rep hs (hcount ▸ hfuel)
  exact ⟨r, by rw [hT.root, heval], hr⟩

lemma IsSet.search {I : Type} {searcher : I → N → ℤ} (hsearch : Consistent cmp searcher)
    (h : IsSet cmp t xs) (item : I) (hfuel : t.rbCount < fuel) :
    ∃ r, rbSearch searcher item t fuel t.root = some r ∧
      ∀ m, r = some m ↔ m ∈ xs ∧ searcher item m = 0 :=
  h.search_on (hsearch.on item xs) hfuel

/-- `rb_first` is the head of the list, `rb_last` its last element. -/
lemma IsSet.ends (h : IsSet cmp t xs) (hfuel : t.rbCount < fuel) :
    rbFirst fuel t = some xs.head? ∧ rbLast fuel t = some xs.getLast? :=
  ⟨rbEnd_spec h.balanced (h.count ▸ hfuel.le), rbEnd_spec h.balanced (h.count ▸ hfuel.le)⟩

end List

end LinuxC.Rb
