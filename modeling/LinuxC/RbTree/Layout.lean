import LinuxC.RbTree.Model

/-!
# The tree in memory

`Rep h p T` says that the fields of the nodes, as the memory `h` has them, are those of the
tree `T` hanging under the parent `p`; `Holds t T` says that the tree of `t` is `T`.  From here
on a step of the source is a statement about trees: what a recolouring, a rotation or the
removal of a link makes of `plug ctx T`.

All of these steps change the memory at a few nodes of one subtree and at most the one link
that leads to it.  `Holds.subst` is that argument made once: such a change turns
`plug ctx T` into `plug ctx T'` as soon as the memory represents `T'` at its place.
-/

namespace LinuxC.Rb

variable {N : Type}

/-! ## Node records seen from a side -/

namespace RbNode

/-- The fields of a node with the child `near` on side `d` and `far` on the other side. -/
def ofSides (d : Dir) (p near far : Option N) (c : Color) : RbNode N :=
  match d with
  | .left => ⟨p, near, far, c⟩
  | .right => ⟨p, far, near, c⟩

variable {d : Dir} {p near far x : Option N} {c : Color}

@[simp] lemma parent_ofSides : (ofSides d p near far c).parent = p := by cases d <;> rfl

@[simp] lemma color_ofSides : (ofSides d p near far c).color = c := by cases d <;> rfl

@[simp] lemma child_ofSides : (ofSides d p near far c).child d = near := by cases d <;> rfl

@[simp] lemma child_opp_ofSides : (ofSides d p near far c).child d.opp = far := by
  cases d <;> rfl

@[simp] lemma setChild_ofSides :
    (ofSides d p near far c).setChild d x = ofSides d p x far c := by cases d <;> rfl

@[simp] lemma setChild_opp_ofSides :
    (ofSides d p near far c).setChild d.opp x = ofSides d p near x c := by cases d <;> rfl

@[simp] lemma setParent_ofSides :
    (ofSides d p near far c).setParent x = ofSides d x near far c := by cases d <;> rfl

@[simp] lemma setColor_ofSides {c' : Color} :
    (ofSides d p near far c).setColor c' = ofSides d p near far c' := by cases d <;> rfl

end RbNode

/-! ## Representation -/

/-- The memory `h` has the tree `T` under the parent `p`. -/
def Rep (h : N → RbNode N) : Option N → Tree N → Prop
  | _, .nil => True
  | p, .node c l n r =>
      h n = ⟨p, l.root?, r.root?, c⟩ ∧ Rep h (some n) l ∧ Rep h (some n) r

lemma rep_bin {h : N → RbNode N} {p : Option N} {d : Dir} {c : Color} {A B : Tree N} {n : N} :
    Rep h p (.bin d c A n B) ↔
      h n = RbNode.ofSides d p A.root? B.root? c ∧ Rep h (some n) A ∧ Rep h (some n) B := by
  cases d
  · exact Iff.rfl
  · simp only [Tree.bin, Rep, RbNode.ofSides]
    tauto

lemma Rep.congr {h h' : N → RbNode N} {p : Option N} {T : Tree N} (hT : Rep h p T)
    (heq : ∀ m ∈ T.nodes, h' m = h m) : Rep h' p T := by
  induction T generalizing p with
  | nil => trivial
  | node c l n r ihl ihr =>
      obtain ⟨hn, hl, hr⟩ := hT
      refine ⟨(heq n (by simp)).trans hn, ihl hl ?_, ihr hr ?_⟩
      · exact fun m hm => heq m (by simp [hm])
      · exact fun m hm => heq m (by simp [hm])

lemma Rep.reparent {h h' : N → RbNode N} {p q : Option N} {T : Tree N} (hT : Rep h p T)
    (hnd : T.nodes.Nodup) (hroot : ∀ n, T.root? = some n → h' n = (h n).setParent q)
    (heq : ∀ m ∈ T.nodes, some m ≠ T.root? → h' m = h m) : Rep h' q T := by
  cases T with
  | nil => trivial
  | node c l n r =>
      obtain ⟨hn, hl, hr⟩ := hT
      rw [Tree.nodes_node, List.nodup_append, List.nodup_cons] at hnd
      refine ⟨by rw [hroot n rfl, hn]; rfl, hl.congr ?_, hr.congr ?_⟩
      · intro m hm
        have hne : m ≠ n := hnd.2.2 m hm n (by simp)
        exact heq m (by simp [hm]) (by simp [hne])
      · intro m hm
        have hne : m ≠ n := by rintro rfl; exact hnd.2.1.1 hm
        exact heq m (by simp [hm]) (by simp [hne])

/-- The memory has the context `ctx` under the parent `p`, with the link `x` at the place. -/
def RepCtx (h : N → RbNode N) (p : Option N) : Ctx N → Option N → Prop
  | [], _ => True
  | f :: ctx, x =>
      h f.node = RbNode.ofSides f.dir ((Ctx.top ctx).or p) x f.other.root? f.color ∧
        Rep h (some f.node) f.other ∧ RepCtx h p ctx (some f.node)

/-- A tree is represented when a subtree and its context are. -/
lemma rep_plug {h : N → RbNode N} {p : Option N} {ctx : Ctx N} {T : Tree N} :
    Rep h p (plug ctx T) ↔ RepCtx h p ctx T.root? ∧ Rep h (ctx.top.or p) T := by
  induction ctx generalizing T with
  | nil => simp [plug, RepCtx]
  | cons f ctx ih =>
      rw [plug, ih, Frame.up, rep_bin, Tree.root?_bin]
      simp only [RepCtx, Ctx.top_cons, Option.some_or]
      tauto

lemma RepCtx.congr {h h' : N → RbNode N} {p : Option N} {ctx : Ctx N} {x : Option N}
    (hctx : RepCtx h p ctx x) (heq : ∀ m ∈ ctx.nodes, h' m = h m) : RepCtx h' p ctx x := by
  induction ctx generalizing x with
  | nil => trivial
  | cons f ctx ih =>
      obtain ⟨hf, hother, hrest⟩ := hctx
      refine ⟨?_, hother.congr ?_, ih hrest ?_⟩
      · rw [heq f.node (Ctx.mem_nodes_cons.mpr (.inl rfl)), hf]
      · exact fun m hm => heq m (Ctx.mem_nodes_cons.mpr (.inr (.inl hm)))
      · exact fun m hm => heq m (Ctx.mem_nodes_cons.mpr (.inr (.inr hm)))

/-- In `h'` the link at the place of the context leads to `x`. -/
def Relinked (h h' : N → RbNode N) : Ctx N → Option N → Prop
  | [], _ => True
  | f :: _, x => h' f.node = (h f.node).setChild f.dir x

lemma RepCtx.relink {h h' : N → RbNode N} {p : Option N} {ctx : Ctx N} {x x' : Option N}
    (hctx : RepCtx h p ctx x) (hnd : ctx.nodes.Nodup) (hlink : Relinked h h' ctx x')
    (heq : ∀ m ∈ ctx.nodes, some m ≠ ctx.top → h' m = h m) : RepCtx h' p ctx x' := by
  cases ctx with
  | nil => trivial
  | cons f ctx =>
      obtain ⟨hf, hother, hrest⟩ := hctx
      obtain ⟨h1, h2, -⟩ := Ctx.nodup_nodes_cons.mp hnd
      have hout : ∀ m, m ∈ f.other.nodes ∨ m ∈ Ctx.nodes ctx → h' m = h m := by
        intro m hm
        apply heq m (Ctx.mem_nodes_cons.mpr (.inr hm))
        rw [Ctx.top_cons, ne_eq, Option.some.injEq]
        rintro rfl
        exact hm.elim h1 h2
      refine ⟨?_, hother.congr fun m hm => hout m (.inl hm),
        hrest.congr fun m hm => hout m (.inr hm)⟩
      have hl : h' f.node = (h f.node).setChild f.dir x' := hlink
      rw [hl, hf, RbNode.setChild_ofSides]

/-- **Surgery.**  The memory is changed in a subtree and at the link that leads to it. -/
lemma Rep.subst {h h' : N → RbNode N} {p : Option N} {ctx : Ctx N} {T T' : Tree N}
    (hT : Rep h p (plug ctx T)) (hnd : ctx.nodes.Nodup) (hlink : Relinked h h' ctx T'.root?)
    (heq : ∀ m ∈ ctx.nodes, some m ≠ ctx.top → h' m = h m) (hT' : Rep h' (ctx.top.or p) T') :
    Rep h' p (plug ctx T') :=
  rep_plug.mpr ⟨(rep_plug.mp hT).1.relink hnd hlink heq, hT'⟩

/-! ## The tree of a `struct rb_tree` -/

/-- The tree of `t` is `T`. -/
structure Holds (t : RbTree N) (T : Tree N) : Prop where
  root : t.root = T.root?
  rep : Rep t.node none T
  nodup : T.nodes.Nodup

/-- The root link is that of the context, or leads to the place if there is no context. -/
def RootLinked (t t' : RbTree N) : Ctx N → Option N → Prop
  | [], x => t'.root = x
  | _ :: _, _ => t'.root = t.root

/-- Nothing but the subtree at a place and the link to it has changed. -/
structure Patched (t t' : RbTree N) (ctx : Ctx N) (x : Option N) : Prop where
  root : RootLinked t t' ctx x
  link : Relinked t.node t'.node ctx x
  frame : ∀ m ∈ ctx.nodes, some m ≠ ctx.top → t'.node m = t.node m

lemma Patched.congr {t t' t'' : RbTree N} {ctx : Ctx N} {x : Option N} (h : Patched t t' ctx x)
    (hroot : t''.root = t'.root) (heq : ∀ m ∈ ctx.nodes, t''.node m = t'.node m) :
    Patched t t'' ctx x := by
  refine ⟨?_, ?_, fun m hm hne => (heq m hm).trans (h.frame m hm hne)⟩
  · cases ctx with
    | nil => exact hroot.trans h.root
    | cons f ctx => exact hroot.trans h.root
  · cases ctx with
    | nil => trivial
    | cons f ctx => exact (heq f.node (Ctx.mem_nodes_cons.mpr (.inl rfl))).trans h.link

/-- Nothing outside the subtree has changed, and the subtree has the same root. -/
lemma Holds.patched {t t' : RbTree N} {ctx : Ctx N} {T : Tree N} (h : Holds t (plug ctx T))
    (hroot : t'.root = t.root) (heq : ∀ m ∈ ctx.nodes, t'.node m = t.node m) :
    Patched t t' ctx T.root? := by
  refine Patched.congr ⟨?_, ?_, fun _ _ _ => rfl⟩ hroot heq
  · cases ctx with
    | nil => exact h.root
    | cons f ctx => rfl
  · cases ctx with
    | nil => trivial
    | cons f ctx =>
        have hf := (rep_plug.mp h.rep).1.1
        rw [Relinked, hf, RbNode.setChild_ofSides]

lemma Holds.subst {t t' : RbTree N} {ctx : Ctx N} {T T' : Tree N} (h : Holds t (plug ctx T))
    (hp : Patched t t' ctx T'.root?) (hT' : Rep t'.node ctx.top T')
    (hnd : (plug ctx T').nodes.Nodup) : Holds t' (plug ctx T') where
  root := by
    cases ctx with
    | nil => exact hp.root
    | cons f ctx =>
        have hr : t'.root = t.root := hp.root
        obtain ⟨a, -, ha⟩ := root?_plug_cons f ctx
        rw [hr, h.root, ha, ha]
  rep := h.rep.subst (nodup_nodes_plug.mp hnd).2.1 hp.link hp.frame (by rwa [Option.or_none])
  nodup := hnd

/-- A step that keeps the nodes of the subtree. -/
lemma Holds.subst_of_nodes {t t' : RbTree N} {ctx : Ctx N} {T T' : Tree N}
    (h : Holds t (plug ctx T)) (hp : Patched t t' ctx T'.root?) (hT' : Rep t'.node ctx.top T')
    (hnodes : T'.nodes = T.nodes) : Holds t' (plug ctx T') :=
  h.subst hp hT' (by rw [nodes_plug, hnodes, ← nodes_plug]; exact h.nodup)

/-- The source finds the link to `n` by comparing the left link of the parent with `n`. -/
lemma left_eq_iff {h : N → RbNode N} {p : Option N} {f : Frame N} {ctx : Ctx N} {T : Tree N}
    (hT : Rep h p (plug (f :: ctx) T)) (hnd : (plug (f :: ctx) T).nodes.Nodup)
    (hne : T.root? ≠ none ∨ f.other.root? ≠ none) :
    (h f.node).left = T.root? ↔ f.dir = .left := by
  have hf : h f.node = RbNode.ofSides f.dir ((Ctx.top ctx).or p) T.root? f.other.root? f.color :=
    (rep_plug.mp hT).1.1
  have hother := root?_other_ne hnd hne
  rw [hf]
  cases hd : f.dir with
  | left => simp [RbNode.ofSides]
  | right => simpa [RbNode.ofSides] using hother

lemma Holds.node_bin {t : RbTree N} {ctx : Ctx N} {d : Dir} {c : Color} {A B : Tree N} {n : N}
    (h : Holds t (plug ctx (.bin d c A n B))) :
    t.node n = RbNode.ofSides d ctx.top A.root? B.root? c := by
  simpa using (rep_bin.mp (rep_plug.mp h.rep).2).1

/-! ## What one assignment changes -/

section Assign

variable [DecidableEq N] (t : RbTree N) (d : Dir) (n m : N) (x p : Option N) (c : Color)

@[simp] lemma node_setChild :
    (t.setChild d n x).node m = if m = n then (t.node m).setChild d x else t.node m := rfl

@[simp] lemma node_setParent :
    (t.setParent n x).node m = if m = n then (t.node m).setParent x else t.node m := rfl

@[simp] lemma node_setColor :
    (t.setColor n c).node m = if m = n then (t.node m).setColor c else t.node m := rfl

@[simp] lemma node_setParentSafe :
    (t.setParentSafe x p).node m =
      if some m = x then (t.node m).setParent p else t.node m := by
  cases x <;> simp [RbTree.setParentSafe]

@[simp] lemma root_setChild : (t.setChild d n x).root = t.root := rfl

@[simp] lemma root_setParent : (t.setParent n x).root = t.root := rfl

@[simp] lemma root_setColor : (t.setColor n c).root = t.root := rfl

@[simp] lemma root_setParentSafe : (t.setParentSafe x p).root = t.root := by
  cases x <;> rfl

@[simp] lemma rbCount_setChild : (t.setChild d n x).rbCount = t.rbCount := rfl

@[simp] lemma rbCount_setParent : (t.setParent n x).rbCount = t.rbCount := rfl

@[simp] lemma rbCount_setColor : (t.setColor n c).rbCount = t.rbCount := rfl

@[simp] lemma rbCount_setParentSafe : (t.setParentSafe x p).rbCount = t.rbCount := by
  cases x <;> rfl

@[simp] lemma rbCount_replaceChild : (replaceChild p n x t).rbCount = t.rbCount := by
  cases p with
  | none => rfl
  | some q => rw [replaceChild]; split <;> rfl

lemma node_replaceChild_of_ne (h : some m ≠ p) :
    (replaceChild p n x t).node m = t.node m := by
  cases p with
  | none => rfl
  | some q =>
      have hq : m ≠ q := fun e => h (by rw [e])
      rw [replaceChild]
      split <;> simp [hq]

end Assign

variable [DecidableEq N]

lemma patched_replaceChild {t t₀ : RbTree N} {ctx : Ctx N} {T : Tree N} {n : N} {x : Option N}
    (h : Holds t₀ (plug ctx T)) (hn : T.root? = some n) (hroot : t.root = t₀.root)
    (heq : ∀ m ∈ ctx.nodes, t.node m = t₀.node m) :
    Patched t₀ (replaceChild ctx.top n x t) ctx x := by
  cases ctx with
  | nil => exact ⟨rfl, trivial, by simp [Ctx.nodes, Ctx.before, Ctx.after]⟩
  | cons f ctx =>
      have hf := heq f.node (Ctx.mem_nodes_cons.mpr (.inl rfl))
      have hleft := left_eq_iff h.rep h.nodup (.inl (by simp [hn]))
      rw [← hf, hn] at hleft
      have hrc : replaceChild (some f.node) n x t = t.setChild f.dir f.node x := by
        rw [replaceChild]
        cases hd : f.dir with
        | left => rw [if_pos (hleft.mpr hd)]
        | right => rw [if_neg (fun e => by simp [hleft.mp e] at hd)]
      rw [Ctx.top_cons, hrc]
      refine ⟨hroot, ?_, ?_⟩
      · simp [Relinked, hf]
      · intro m hm hne
        have hne' : m ≠ f.node := fun e => hne (by rw [e, Ctx.top_cons])
        simp [hne', heq m hm]

/-! ## Recolouring and rotation -/

lemma Holds.setColor {t : RbTree N} {ctx : Ctx N} {d : Dir} {c c' : Color} {A B : Tree N} {n : N}
    (h : Holds t (plug ctx (.bin d c A n B))) :
    Holds (t.setColor n c') (plug ctx (.bin d c' A n B)) := by
  obtain ⟨h1, h2, h3⟩ := nodup_nodes_plug.mp h.nodup
  obtain ⟨hA, hB, -⟩ := Tree.nodup_nodes_bin.mp h1
  obtain ⟨-, -, hrA, hrB⟩ := (rep_plug.mp h.rep).imp id rep_bin.mp
  have hout : ∀ m, m ≠ n → (t.setColor n c').node m = t.node m := fun m hm => by simp [hm]
  have hpatch : Patched t (t.setColor n c') ctx (Tree.bin d c A n B).root? := by
    refine h.patched rfl fun m hm => hout m ?_
    rintro rfl
    exact h3 (Tree.mem_nodes_bin.mpr (.inr (.inl rfl))) hm
  refine h.subst_of_nodes ?_ (rep_bin.mpr ⟨?_, hrA.congr ?_, hrB.congr ?_⟩)
    (Tree.nodes_bin_congr d c' c n rfl rfl)
  · rwa [Tree.root?_bin] at hpatch ⊢
  · simp [h.node_bin]
  · exact fun m hm => hout m (by rintro rfl; exact hA hm)
  · exact fun m hm => hout m (by rintro rfl; exact hB hm)

/-- **The rotation** of `n` towards side `d`. -/
lemma rbRotate_holds {t : RbTree N} {ctx : Ctx N} {d : Dir} {c c' : Color} {A Y Z : Tree N}
    {n x : N} (h : Holds t (plug ctx (.bin d c A n (.bin d c' Y x Z)))) :
    ∃ t', rbRotate d n t = some t' ∧ t'.rbCount = t.rbCount ∧
      Holds t' (plug ctx (.bin d c' (.bin d c A n Y) x Z)) := by
  obtain ⟨h1, -, h3⟩ := nodup_nodes_plug.mp h.nodup
  obtain ⟨-, hn, hrA, hrX⟩ := (rep_plug.mp h.rep).imp id rep_bin.mp
  obtain ⟨hx, hrY, hrZ⟩ := rep_bin.mp hrX
  simp only [Tree.nodup_nodes_bin, Tree.mem_nodes_bin, List.disjoint_left, not_or,
    Tree.root?_bin, Option.or_none] at h1 h3 hn
  obtain ⟨hnA, ⟨hnY, hnx, hnZ⟩, -, ⟨hxY, hxZ, hdY, -, hYZ⟩, hAX⟩ := h1
  have hY : ∀ m, some m = Y.root? → m ∈ Y.nodes := fun m hm => Tree.mem_nodes_of_root? hm.symm
  have htop : ∀ m, some m = ctx.top → m ∈ ctx.nodes := fun m hm => Ctx.mem_nodes_of_top hm.symm
  -- the tree before the link to `n` is turned
  obtain ⟨t₄, ht₄⟩ : ∃ t₄, t₄ = (((t.setChild d.opp n Y.root?).setParentSafe Y.root?
    (some n)).setChild d x (some n)).setParent n (some x) := ⟨_, rfl⟩
  have heval : rbRotate d n t =
      some ((replaceChild ctx.top n (some x) t₄).setParent x ctx.top) := by
    simp [rbRotate, hn, hx, Ne.symm hnx, ht₄]
  have h₄ : ∀ m, m ≠ n → m ≠ x → some m ≠ Y.root? → t₄.node m = t.node m := by
    intro m h1 h2 h3
    simp [ht₄, h1, h2, h3]
  have hpatch : Patched t (replaceChild ctx.top n (some x) t₄) ctx (some x) := by
    apply patched_replaceChild h (by simp) (by simp [ht₄])
    intro m hm
    exact h₄ m (by grind) (by grind) (by grind)
  -- the nodes below, after the link is turned
  have hout : ∀ m, m ∉ ctx.nodes → m ≠ x →
      ((replaceChild ctx.top n (some x) t₄).setParent x ctx.top).node m = t₄.node m := by
    intro m hm hmx
    rw [node_setParent, if_neg hmx, node_replaceChild_of_ne]
    exact fun e => hm (htop m e)
  have hnY' : some n ≠ Y.root? := by grind
  have hxY' : some x ≠ Y.root? := by grind
  have hxtop : some x ≠ ctx.top := by grind
  refine ⟨_, heval, by simp [ht₄], h.subst_of_nodes ?_
    (rep_bin.mpr ⟨?_, rep_bin.mpr ⟨?_, hrA.congr ?_, hrY.reparent hdY ?_ ?_⟩, hrZ.congr ?_⟩)
    (Tree.nodes_rotate d c' c c c' A n Y x Z)⟩
  · rw [Tree.root?_bin]
    refine hpatch.congr rfl fun m hm => ?_
    have hmx : m ≠ x := by grind
    simp [hmx]
  · rw [node_setParent, if_pos rfl, node_replaceChild_of_ne _ _ _ _ _ hxtop]
    simp [ht₄, Ne.symm hnx, hx, hxY']
  · rw [hout n (by grind) hnx]
    simp [ht₄, hnx, hn, hnY']
  · intro m hm
    rw [hout m (by grind) (by grind), h₄ m (by grind) (by grind) (by grind)]
  · intro m hm
    have hmY := hY m hm.symm
    have hmn : m ≠ n := by grind
    have hmx : m ≠ x := by grind
    rw [hout m (by grind) hmx]
    simp [ht₄, hmn, hmx, hm]
  · intro m hm hne
    rw [hout m (by grind) (by grind), h₄ m (by grind) (by grind) hne]
  · intro m hm
    rw [hout m (by grind) (by grind), h₄ m (by grind) (by grind) (by grind)]

/-! ## A new leaf -/

/-- The address of the link at the place of a context. -/
def linkOf : Ctx N → Link N
  | [] => .root
  | f :: _ => .child f.dir f.node

/-- The stores of `rb_insert` hang a red node into an empty place. -/
lemma store_holds {t : RbTree N} {ctx : Ctx N} {n : N} (h : Holds t (plug ctx .nil))
    (hn : n ∉ ctx.nodes) :
    Holds ((t.modify n fun _ => ⟨ctx.top, none, none, .red⟩).store (linkOf ctx) (some n))
      (plug ctx (.bin .left .red .nil n .nil)) := by
  obtain ⟨-, h2, -⟩ := nodup_nodes_plug.mp h.nodup
  refine h.subst ⟨?_, ?_, ?_⟩ (rep_bin.mpr ⟨?_, trivial, trivial⟩) ?_
  · cases ctx <;> rfl
  · cases ctx with
    | nil => trivial
    | cons f ctx =>
        have hne : f.node ≠ n := by
          rintro rfl
          exact hn (Ctx.mem_nodes_cons.mpr (.inl rfl))
        simp [Relinked, linkOf, RbTree.store, RbTree.modify, hne]
  · intro m hm hne
    have hmn : m ≠ n := by rintro rfl; exact hn hm
    cases ctx with
    | nil => simp [linkOf, RbTree.store, RbTree.modify, hmn]
    | cons f ctx =>
        have hmf : m ≠ f.node := fun e => hne (by rw [e, Ctx.top_cons])
        simp [linkOf, RbTree.store, RbTree.modify, hmn, hmf]
  · cases ctx with
    | nil => simp [linkOf, RbTree.store, RbTree.modify, RbNode.ofSides]
    | cons f ctx =>
        have hne : n ≠ f.node := by
          rintro rfl
          exact hn (Ctx.mem_nodes_cons.mpr (.inl rfl))
        simp [linkOf, RbTree.store, RbTree.modify, RbNode.ofSides, hne]
  · refine nodup_nodes_plug.mpr ⟨by simp [Tree.bin], h2, ?_⟩
    simpa [Tree.bin] using hn

/-! ## Taking a node out -/

/-- A node with at most one child is taken out of the tree. -/
lemma unlink_holds {t : RbTree N} {ctx : Ctx N} {d : Dir} {c : Color} {C : Tree N} {n : N}
    (h : Holds t (plug ctx (.bin d c .nil n C))) :
    ∃ t', unlink n C.root? t = (ctx.top, t') ∧ t'.rbCount = t.rbCount ∧ t'.node n = t.node n ∧
      Holds t' (plug ctx C) := by
  obtain ⟨h1, h2, h3⟩ := nodup_nodes_plug.mp h.nodup
  obtain ⟨-, hn, -, hrC⟩ := (rep_plug.mp h.rep).imp id rep_bin.mp
  simp only [Tree.nodup_nodes_bin, Tree.mem_nodes_bin, List.disjoint_left] at h1 h3
  have hC : ∀ m, some m = C.root? → m ∈ C.nodes := fun m hm => Tree.mem_nodes_of_root? hm.symm
  have htop : ∀ m, some m = ctx.top → m ∈ ctx.nodes := fun m hm => Ctx.mem_nodes_of_top hm.symm
  have hout : ∀ m, m ∉ ctx.nodes →
      (replaceChild ctx.top n C.root? (t.setParentSafe C.root? ctx.top)).node m =
        (t.setParentSafe C.root? ctx.top).node m :=
    fun m hm => node_replaceChild_of_ne _ _ _ _ _ fun e => hm (htop m e)
  have hnC : some n ≠ C.root? := by grind
  have heval : unlink n C.root? t =
      (ctx.top, replaceChild ctx.top n C.root? (t.setParentSafe C.root? ctx.top)) := by
    simp [unlink, hn]
  refine ⟨_, heval, by simp, ?_, h.subst ?_ (hrC.reparent h1.2.2.2.1 ?_ ?_) ?_⟩
  · rw [hout n (by grind), node_setParentSafe, if_neg hnC]
  · apply patched_replaceChild h (by simp) (by simp)
    intro m hm
    rw [node_setParentSafe, if_neg (by grind)]
  · intro m hm
    rw [hout m (by grind), node_setParentSafe, if_pos hm.symm]
  · intro m hm hne
    rw [hout m (by grind), node_setParentSafe, if_neg hne]
  · exact nodup_nodes_plug.mpr ⟨h1.2.2.2.1, h2, fun m hm hm' => h3 (.inr (.inr hm)) hm'⟩

@[simp] lemma rbCount_swapColors (a b : N) (t : RbTree N) :
    (swapColors a b t).rbCount = t.rbCount := rfl

@[simp] lemma root_swapColors (a b : N) (t : RbTree N) : (swapColors a b t).root = t.root := rfl

@[simp] lemma Color.xor_xor_right (c c' : Color) : Color.xor (Color.xor c c') c' = c := by
  cases c <;> cases c' <;> rfl

@[simp] lemma Color.xor_xor_left (c c' : Color) : Color.xor (Color.xor c c') c = c' := by
  cases c <;> cases c' <;> rfl

/-- The three assignments with `^` exchange the two colours. -/
lemma node_swapColors {a b : N} (hab : a ≠ b) (t : RbTree N) (m : N) :
    (swapColors a b t).node m =
      if m = a then (t.node a).setColor (t.node b).color
      else if m = b then (t.node b).setColor (t.node a).color else t.node m := by
  rcases eq_or_ne m a with rfl | hma
  · simp [swapColors, hab, hab.symm, RbNode.setColor]
  · rcases eq_or_ne m b with rfl | hmb
    · simp [swapColors, hab, hma, RbNode.setColor]
    · simp [swapColors, hma, hmb]

/-- What is left of the subtree of `replace` when `replace` is taken out of it. -/
lemma rep_unlink {t : RbTree N} {p : Option N} {f : Frame N} {ctx : Ctx N} {c : Color}
    {C : Tree N} {r : N} (h : Rep t.node p (plug (f :: ctx) (.bin .left c .nil r C)))
    (hnd : (plug (f :: ctx) (.bin .left c .nil r C)).nodes.Nodup) :
    Rep ((t.setParentSafe C.root? (some f.node)).setChild f.dir f.node C.root?).node p
      (plug (f :: ctx) C) := by
  obtain ⟨h1, h2, h3⟩ := nodup_nodes_plug.mp hnd
  obtain ⟨-, hr, -, hrC⟩ := (rep_plug.mp h).imp id rep_bin.mp
  simp only [Tree.nodup_nodes_bin, Tree.mem_nodes_bin, List.disjoint_left] at h1 h3
  have hC : ∀ m, some m = C.root? → m ∈ C.nodes := fun m hm => Tree.mem_nodes_of_root? hm.symm
  have hf : f.node ∈ Ctx.nodes (f :: ctx) := Ctx.mem_nodes_cons.mpr (.inl rfl)
  refine h.subst h2 ?_ ?_ (hrC.reparent h1.2.2.2.1 ?_ ?_)
  · have hfC : some f.node ≠ C.root? := by grind
    simp [Relinked, hfC]
  · intro m hm hne
    have hmf : m ≠ f.node := fun e => hne (by rw [e, Ctx.top_cons])
    have hmC : some m ≠ C.root? := by grind
    simp [hmf, hmC]
  · intro m hm
    have hmf : m ≠ f.node := by grind
    simp [hmf, hm]
  · intro m hm hne
    have hmf : m ≠ f.node := by grind
    simp [hmf, hne]

/-- What `takePlace` leaves behind: `r` hangs at the place of `n`, with the left subtree of `n`
below it. -/
lemma takePlace_spec {t : RbTree N} {ctx : Ctx N} {c : Color} {L R : Tree N} {n r : N}
    (h : Holds t (plug ctx (.bin .left c L n R))) (hL : L ≠ .nil) (hr : r ∈ R.nodes) :
    ∃ t', takePlace n r t = some t' ∧ t'.rbCount = t.rbCount ∧ Patched t t' ctx (some r) ∧
      t'.node r = ⟨ctx.top, L.root?, (t.node r).right, (t.node r).color⟩ ∧
      Rep t'.node (some r) L ∧ t'.node n = t.node n ∧
      ∀ m ∈ R.nodes, m ≠ r → t'.node m = t.node m := by
  obtain ⟨h1, -, h3⟩ := nodup_nodes_plug.mp h.nodup
  obtain ⟨-, -, hrL, -⟩ := (rep_plug.mp h.rep).imp id rep_bin.mp
  have hn := h.node_bin
  simp only [Tree.nodup_nodes_bin, Tree.mem_nodes_bin, List.disjoint_left] at h1 h3
  obtain ⟨hnL, hnR, hdL, -, hLR⟩ := h1
  obtain ⟨l, hl⟩ : ∃ l, L.root? = some l := by
    obtain ⟨c', A, l, B, rfl⟩ := Tree.exists_bin .left hL
    exact ⟨l, by simp⟩
  have hlL : l ∈ L.nodes := Tree.mem_nodes_of_root? hl
  have htop : ∀ m, some m = ctx.top → m ∈ ctx.nodes := fun m hm => Ctx.mem_nodes_of_top hm.symm
  obtain ⟨t₁, ht₁⟩ : ∃ t₁, t₁ = replaceChild ctx.top n (some r) t := ⟨_, rfl⟩
  have hpatch : Patched t t₁ ctx (some r) := by
    rw [ht₁]
    exact patched_replaceChild h (by simp) rfl fun _ _ => rfl
  have hout : ∀ m, m ∉ ctx.nodes → t₁.node m = t.node m := by
    intro m hm
    rw [ht₁]
    exact node_replaceChild_of_ne _ _ _ _ _ fun e => hm (htop m e)
  have hn₁ : t₁.node n = t.node n := hout n (by grind)
  have hnr : n ≠ r := by grind
  have hnl : n ≠ l := by grind
  have hlr : l ≠ r := by grind
  have heval : takePlace n r t =
      some (((t₁.setParent r ctx.top).setChild .left r L.root?).setParent l (some r)) := by
    simp [takePlace, hn, ← ht₁, hn₁, hnr, hl, RbNode.ofSides]
  refine ⟨_, heval, by simp [ht₁], hpatch.congr rfl ?_, ?_, hrL.reparent hdL ?_ ?_, ?_, ?_⟩
  · intro m hm
    have hml : m ≠ l := by grind
    have hmr : m ≠ r := by grind
    simp [hml, hmr]
  · simp [hlr.symm, hout r (by grind), RbNode.setChild, RbNode.setParent]
  · intro m hm
    obtain rfl : l = m := by rw [hl, Option.some.injEq] at hm; exact hm
    simp [hlr, hout l (by grind)]
  · intro m hm hne
    have hml : m ≠ l := by rintro rfl; exact hne hl.symm
    have hmr : m ≠ r := by grind
    simp [hml, hmr, hout m (by grind)]
  · simp [hnl, hnr, hn₁]
  · intro m hm hmr
    have hml : m ≠ l := by grind
    simp [hml, hmr, hout m (by grind)]

/-- The path for two children, when the right child of `n` is its successor. -/
lemma replaceNode_child {t : RbTree N} {ctx : Ctx N} {c rc : Color} {L C : Tree N} {n r : N}
    (h : Holds t (plug ctx (.bin .left c L n (.bin .left rc .nil r C)))) (hL : L ≠ .nil) :
    ∃ t', replaceNode n r t = some (r, t') ∧ t'.rbCount = t.rbCount ∧
      t'.node n = (t.node n).setColor rc ∧ Holds t' (plug ctx (.bin .left c L r C)) := by
  obtain ⟨h1, -, h3⟩ := nodup_nodes_plug.mp h.nodup
  obtain ⟨-, -, -, hrR⟩ := (rep_plug.mp h.rep).imp id rep_bin.mp
  obtain ⟨hr, -, hrC⟩ := rep_bin.mp hrR
  have hn := h.node_bin
  simp only [Tree.nodup_nodes_bin, Tree.mem_nodes_bin, List.disjoint_left, Tree.nodes_nil,
    List.not_mem_nil, false_or] at h1 h3
  obtain ⟨t₁, heval, hcount, hpatch, hr₁, hrL, hn₁, hout⟩ :=
    takePlace_spec h hL (r := r) (Tree.mem_nodes_bin.mpr (.inr (.inl rfl)))
  have hnr : r ≠ n := by grind
  have hswap : ∀ m, m ≠ r → m ≠ n → (swapColors r n t₁).node m = t₁.node m := by
    intro m hm hm'
    rw [node_swapColors hnr, if_neg hm, if_neg hm']
  refine ⟨swapColors r n t₁, ?_, hcount, ?_, h.subst ?_ (rep_bin.mpr ⟨?_, ?_, ?_⟩) ?_⟩
  · simp [replaceNode, hr, heval]
  · simp [node_swapColors hnr, hnr.symm, hn₁, hr₁, hr, RbNode.setColor]
  · rw [Tree.root?_bin]
    exact hpatch.congr rfl fun m hm => hswap m (by grind) (by grind)
  · simp [node_swapColors hnr, hn₁, hr₁, hn, hr, RbNode.setColor, RbNode.ofSides]
  · exact hrL.congr fun m hm => hswap m (by grind) (by grind)
  · refine hrC.congr fun m hm => (hswap m (by grind) (by grind)).trans (hout m ?_ (by grind))
    exact Tree.mem_nodes_bin.mpr (.inr (.inr hm))
  · exact nodup_splice ctx [] c rc L C n r (by simp) h.nodup

/-- The path for two children, when the successor of `n` lies deeper. -/
lemma replaceNode_deep {t : RbTree N} {ctx ctxR : Ctx N} {f : Frame N} {c rc : Color}
    {L C : Tree N} {n r : N}
    (h : Holds t (plug ctx (.bin .left c L n (plug (f :: ctxR) (.bin .left rc .nil r C)))))
    (hL : L ≠ .nil) (hdirs : ∀ g ∈ f :: ctxR, g.dir = .left) :
    ∃ t', replaceNode n r t = some (f.node, t') ∧ t'.rbCount = t.rbCount ∧
      t'.node n = (t.node n).setColor rc ∧
      Holds t' (plug ctx (.bin .left c L r (plug (f :: ctxR) C))) := by
  have hnd := nodup_splice ctx _ c rc L C n r hdirs h.nodup
  obtain ⟨h1, -, h3⟩ := nodup_nodes_plug.mp h.nodup
  obtain ⟨h1', -, h3'⟩ := nodup_nodes_plug.mp hnd
  obtain ⟨-, -, -, hrR⟩ := (rep_plug.mp h.rep).imp id rep_bin.mp
  obtain ⟨hr, -, -⟩ := rep_bin.mp (rep_plug.mp hrR).2
  have hn := h.node_bin
  have hsub : ∀ m ∈ (plug (f :: ctxR) C).nodes,
      m ∈ (plug (f :: ctxR) (.bin .left rc .nil r C)).nodes := by
    intro m hm
    rw [(nodes_plug_perm _ _).mem_iff, List.mem_append] at hm ⊢
    exact hm.imp (fun hm => Tree.mem_nodes_bin.mpr (.inr (.inr hm))) id
  have hrR' : r ∈ (plug (f :: ctxR) (.bin .left rc .nil r C)).nodes := by
    rw [(nodes_plug_perm _ _).mem_iff, List.mem_append, Tree.mem_nodes_bin]
    exact .inl (.inr (.inl rfl))
  have hfR : f.node ∈ (plug (f :: ctxR) C).nodes := by
    rw [(nodes_plug_perm _ _).mem_iff, List.mem_append, Ctx.mem_nodes_cons]
    exact .inr (.inl rfl)
  obtain ⟨m₀, -, hm₀⟩ := root?_plug_cons f ctxR
  have hm₀R := Tree.mem_nodes_of_root? (hm₀ C)
  have hCR : ∀ m, some m = C.root? → m ∈ (plug (f :: ctxR) C).nodes := by
    intro m hm
    rw [(nodes_plug_perm _ _).mem_iff, List.mem_append]
    exact .inl (Tree.mem_nodes_of_root? hm.symm)
  have hu := rep_unlink hrR (Tree.nodup_nodes_bin.mp h1).2.2.2.1
  rw [hdirs f (by simp)] at hu
  simp only [Tree.nodup_nodes_bin, Tree.mem_nodes_bin, List.disjoint_left] at h1 h3 h1' h3'
  obtain ⟨t₁, heval, hcount, hpatch, hr₁, hrL, hn₁, hout⟩ := takePlace_spec h hL hrR'
  have hnr : r ≠ n := by grind
  have hrf : r ≠ f.node := by grind
  have hrm : r ≠ m₀ := by grind
  have hrC : some r ≠ C.root? := by grind
  have hnf : n ≠ f.node := by grind
  have hnm : n ≠ m₀ := by grind
  have hnC : some n ≠ C.root? := by grind
  -- the tree before the colours are exchanged
  obtain ⟨t₂, ht₂⟩ : ∃ t₂, t₂ = (((t₁.setParentSafe C.root? (some f.node)).setChild .left f.node
    C.root?).setChild .right r (some m₀)).setParent m₀ (some r) := ⟨_, rfl⟩
  have hr₂ : t₂.node r = ⟨ctx.top, L.root?, some m₀, rc⟩ := by
    simp [ht₂, hrf, hrm, hrC, hr₁, hr, RbNode.setChild]
  have hn₂ : t₂.node n = t.node n := by simp [ht₂, hnr.symm, hnf, hnm, hnC, hn₁]
  have h₂ : ∀ m, m ≠ r → m ∉ (plug (f :: ctxR) C).nodes → t₂.node m = t₁.node m := by
    intro m hmr hm
    have hmf : m ≠ f.node := by grind
    have hmm : m ≠ m₀ := by grind
    have hmC : some m ≠ C.root? := by grind
    simp [ht₂, hmr, hmf, hmm, hmC]
  have hswap : ∀ m, m ≠ r → m ≠ n → (swapColors r n t₂).node m = t₂.node m := by
    intro m hm hm'
    rw [node_swapColors hnr, if_neg hm, if_neg hm']
  refine ⟨swapColors r n t₂, ?_, ?_, ?_,
    h.subst ?_ (rep_bin.mpr ⟨?_, ?_, hu.reparent ?_ ?_ ?_⟩) hnd⟩
  · simp [replaceNode, hr, heval, hnf.symm, hnr.symm, hnf, hnC, hn₁, hn, hm₀, RbNode.ofSides, ht₂]
  · simp [ht₂, hcount]
  · simp [node_swapColors hnr, hnr.symm, hn₂, hr₂, RbNode.setColor]
  · rw [Tree.root?_bin]
    apply hpatch.congr (by simp [ht₂])
    intro m hm
    rw [hswap m (by grind) (by grind), h₂ m (by grind) (by grind)]
  · simp [node_swapColors hnr, hn₂, hr₂, hn, hm₀, RbNode.setColor, RbNode.ofSides]
  · apply hrL.congr
    intro m hm
    rw [hswap m (by grind) (by grind), h₂ m (by grind) (by grind)]
  · exact h1'.2.2.2.1
  · intro m hm
    obtain rfl : m₀ = m := by rw [hm₀, Option.some.injEq] at hm; exact hm
    rw [hswap m₀ hrm.symm hnm.symm]
    simp [ht₂, hrm.symm, hout m₀ (hsub m₀ hm₀R) hrm.symm]
  · intro m hm hne
    have hmr : m ≠ r := by grind
    have hmm : m ≠ m₀ := by
      rintro rfl
      exact hne (hm₀ C).symm
    rw [hswap m hmr (by grind)]
    simp [ht₂, hmr, hmm, hout m (hsub m hm) hmr]

end LinuxC.Rb
