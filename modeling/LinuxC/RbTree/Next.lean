import LinuxC.RbTree.OrderedSet

/-!
# Walking the tree, and walking on from a removed node

`rb_next` and `rb_prev` return the neighbours of a node in the order of the tree
(`IsSet.next`, `IsSet.prev`).

A loop that removes the node it stands on and then asks for its neighbour reads the links of a
node that is no longer in the tree.  `rb_remove` leaves these links alone: all that it assigns
after the node is taken out lies inside the tree that is left.  The argument is about any set
of nodes that is closed under the links (`Confined`); it gives `rbRemove_links`, and with it
`rbNext_removed`: the walk comes back into the tree that is left, or ends.
-/

namespace LinuxC.Rb

variable {N : Type}

/-! ## Neighbours in the order -/

/-- The nearest ancestor that lies on side `d` of the place. -/
def Ctx.nearest (d : Dir) (ctx : Ctx N) : Option N :=
  (ctx.find? fun f => f.dir = d.opp).map Frame.node

lemma Ctx.nearest_right (ctx : Ctx N) : Ctx.nearest .right ctx = (Ctx.after ctx).head? := by
  induction ctx with
  | nil => rfl
  | cons f ctx ih =>
      obtain ⟨d, c, a, s⟩ := f
      cases d with
      | left => simp [nearest, Ctx.after, Dir.opp]
      | right => simpa [nearest, Ctx.after, Dir.opp] using ih

lemma Ctx.nearest_left (ctx : Ctx N) : Ctx.nearest .left ctx = (Ctx.before ctx).getLast? := by
  induction ctx with
  | nil => rfl
  | cons f ctx ih =>
      obtain ⟨d, c, a, s⟩ := f
      cases d with
      | left => simpa [nearest, Ctx.before, Dir.opp] using ih
      | right => simp [nearest, Ctx.before, Dir.opp]

section Walk

variable [DecidableEq N] {t : RbTree N} {d : Dir} {fuel : ℕ}

/-- The climb ends at the nearest ancestor on the side of the walk. -/
lemma climb_spec {ctx : Ctx N} {T : Tree N} {n : N} (h : Holds t (plug ctx T))
    (hn : T.root? = some n) (hfuel : ctx.length < fuel) :
    climb d t fuel n = some (Ctx.nearest d ctx) := by
  induction ctx generalizing T n fuel with
  | nil =>
      obtain ⟨fuel, rfl⟩ : ∃ k, fuel = k + 1 := ⟨fuel - 1, by simp at hfuel; omega⟩
      simp [climb, (h.node_root hn).1, Ctx.nearest]
  | cons f ctx ih =>
      obtain ⟨fuel, rfl⟩ : ∃ k, fuel = k + 1 := ⟨fuel - 1, by omega⟩
      have hframe := h.node_frame
      have hother := root?_other_ne h.nodup (.inl (by simp [hn]))
      rw [climb, (h.node_root hn).1, Ctx.top_cons]
      dsimp only
      by_cases hdir : f.dir = d
      · have hchild : (t.node f.node).child d = some n := by
          rw [hframe, hdir, RbNode.child_ofSides, hn]
        have hup : Holds t (plug ctx (f.up T)) := h
        rw [if_pos hchild, ih hup (by simp [Frame.up]) (by simpa using hfuel)]
        simp [Ctx.nearest, hdir]
      · have hopp : f.dir = d.opp := by
          revert hdir
          cases f.dir <;> cases d <;> simp [Dir.opp]
        have hchild : (t.node f.node).child d ≠ some n := by
          have hd : d = f.dir.opp := by rw [hopp, Dir.opp_opp]
          rw [hframe, hd, RbNode.child_opp_ofSides, ← hn]
          exact hother
        rw [if_neg hchild]
        simp [Ctx.nearest, hopp]

/-- The neighbour is in the subtree on that side, or else the nearest ancestor. -/
lemma rbNeighbour_spec {ctx : Ctx N} {c : Color} {n : N} {A B : Tree N}
    (h : Holds t (plug ctx (.bin d c A n B)))
    (hfuel : (plug ctx (.bin d c A n B)).nodes.length < fuel) :
    rbNeighbour d fuel n t = some ((endOf d.opp A.nodes).or (Ctx.nearest d ctx)) := by
  have hnode := h.node_bin
  have hrA := (rep_bin.mp (rep_plug.mp h.rep).2).2.1
  have hlen := (nodes_plug_perm ctx (.bin d c A n B)).length_eq
  have hbin := (Tree.nodes_bin_perm d c A n B).length_eq
  simp only [List.length_append, List.length_cons] at hlen hbin
  rw [rbNeighbour, hnode, RbNode.child_ofSides]
  cases hroot : A.root? with
  | none =>
      obtain rfl : A = .nil := Tree.eq_nil_of_root? hroot
      have hctx := length_le_nodes_plug ctx (.bin d c .nil n B)
      have hclimb : climb d t fuel n = some (Ctx.nearest d ctx) :=
        climb_spec h (by simp) (by omega)
      have hempty : endOf d.opp (Tree.nil : Tree N).nodes = none := by cases d <;> rfl
      rw [hempty]
      exact hclimb
  | some a =>
      have hlenA : A.nodes.length ≤ fuel := by omega
      obtain ⟨hend, hsome⟩ := endmost_rep (d := d.opp) hrA hroot hlenA
      obtain ⟨m, hm⟩ := Option.ne_none_iff_exists'.mp hsome
      simp [hend, hm]

variable {cmp : N → N → ℤ} {ys zs : List N} {n : N}

omit [DecidableEq N] in
/-- A node of the tree as the focus, with the order on both of its sides. -/
lemma IsSet.focus (h : IsSet cmp t (ys ++ n :: zs)) :
    ∃ ctx c L R, Holds t (plug ctx (.bin .left c L n R)) ∧
      (plug ctx (.bin .left c L n R)).nodes.length = t.rbCount ∧
      ys = ctx.before ++ L.nodes ∧ zs = R.nodes ++ ctx.after := by
  have hnd := List.nodup_middle.mp h.nodup
  obtain ⟨⟨T, k, hT, -, -, hnodes⟩, -, hcount⟩ := h
  obtain ⟨ctx, c, L, R, rfl⟩ := exists_focus (a := n) (t := T) (by rw [hnodes]; simp)
  have hsplit : ys ++ n :: zs = (ctx.before ++ L.nodes) ++ n :: (R.nodes ++ ctx.after) := by
    rw [← hnodes, nodes_plug]
    simp [Tree.bin]
  have hnot := List.nodup_cons.mp hnd
  have hys : n ∉ ys := fun hmem => hnot.1 (List.mem_append_left _ hmem)
  have hzs : n ∉ zs := fun hmem => hnot.1 (List.mem_append_right _ hmem)
  obtain ⟨hleft, -, hright⟩ := (List.append_cons_inj_of_notMem hys hzs).mp hsplit
  exact ⟨ctx, c, L, R, hT, by rw [hnodes, hcount], hleft, hright⟩

/-- **`rb_next`** returns the node behind. -/
lemma IsSet.next (h : IsSet cmp t (ys ++ n :: zs)) (hfuel : t.rbCount < fuel) :
    rbNext fuel n t = some zs.head? := by
  obtain ⟨ctx, c, L, R, hT, hlen, -, rfl⟩ := h.focus
  have hT' : Holds t (plug ctx (.bin .right c R n L)) := hT
  rw [rbNext, rbNeighbour_spec hT' (hlen.trans_lt hfuel), Ctx.nearest_right]
  simp [endOf, Dir.opp, List.head?_append]

/-- **`rb_prev`** returns the node in front. -/
lemma IsSet.prev (h : IsSet cmp t (ys ++ n :: zs)) (hfuel : t.rbCount < fuel) :
    rbPrev fuel n t = some ys.getLast? := by
  obtain ⟨ctx, c, L, R, hT, hlen, rfl, -⟩ := h.focus
  rw [rbPrev, rbNeighbour_spec hT (hlen.trans_lt hfuel), Ctx.nearest_left]
  simp [endOf, Dir.opp, List.getLast?_append]

end Walk

/-! ## Assignments inside a closed set of nodes -/

/-- The nodes of `P` are closed under the links, and the root is one of them. -/
structure Confined (P : Set N) (t : RbTree N) : Prop where
  root : ∀ m, t.root = some m → m ∈ P
  child : ∀ n ∈ P, ∀ d m, (t.node n).child d = some m → m ∈ P
  parent : ∀ n ∈ P, ∀ m, (t.node n).parent = some m → m ∈ P

/-- The tree `t'` comes from `t` by assignments inside the closed set `P`. -/
structure Inside (P : Set N) (t t' : RbTree N) : Prop where
  confined : Confined P t'
  outside : ∀ m, m ∉ P → t'.node m = t.node m

section Inside

variable {P : Set N} {t t' t'' : RbTree N} {d : Dir} {n : N} {x : Option N}

lemma Confined.refl (h : Confined P t) : Inside P t t := ⟨h, fun _ _ => rfl⟩

lemma Inside.trans (h : Inside P t t') (h' : Inside P t' t'') : Inside P t t'' :=
  ⟨h'.confined, fun m hm => (h'.outside m hm).trans (h.outside m hm)⟩

/-- The nodes of a tree in memory are closed. -/
lemma Holds.confined {T : Tree N} (h : Holds t T) : Confined { m | m ∈ T.nodes } t where
  root m hm := Tree.mem_nodes_of_root? (h.root.symm.trans hm)
  child n hn d m hm := (h.child_cases hn hm).1
  parent n hn m hm := by
    obtain ⟨ctx, c, L, R, rfl⟩ := exists_focus hn
    rw [h.node_bin, RbNode.parent_ofSides] at hm
    exact (nodes_plug_perm _ _).mem_iff.mpr (List.mem_append_right _ (Ctx.mem_nodes_of_top hm))

variable [DecidableEq N]

lemma Confined.modify (h : Confined P t) (hn : n ∈ P) {f : RbNode N → RbNode N}
    (hchild : ∀ d m, (f (t.node n)).child d = some m → m ∈ P)
    (hparent : ∀ m, (f (t.node n)).parent = some m → m ∈ P) : Inside P t (t.modify n f) := by
  have hself : (t.modify n f).node n = f (t.node n) := if_pos rfl
  have hother : ∀ m, m ≠ n → (t.modify n f).node m = t.node m := fun m hm => if_neg hm
  refine ⟨⟨h.root, fun a ha e m hm => ?_, fun a ha m hm => ?_⟩, fun m hm => hother m ?_⟩
  · rcases eq_or_ne a n with rfl | hne
    · exact hchild e m (hself ▸ hm)
    · exact h.child a ha e m (hother a hne ▸ hm)
  · rcases eq_or_ne a n with rfl | hne
    · exact hparent m (hself ▸ hm)
    · exact h.parent a ha m (hother a hne ▸ hm)
  · rintro rfl
    exact hm hn

lemma Confined.setChild (h : Confined P t) (hn : n ∈ P) (hx : ∀ m, x = some m → m ∈ P) :
    Inside P t (t.setChild d n x) := by
  refine h.modify hn (fun e m hm => ?_) fun m hm => h.parent n hn m ?_
  · have hold := h.child n hn
    cases d <;> cases e <;>
      simp only [RbNode.setChild, RbNode.child] at hm
    · exact hx m hm
    · exact hold .right m hm
    · exact hold .left m hm
    · exact hx m hm
  · cases d <;> exact hm

lemma Confined.setParent (h : Confined P t) (hn : n ∈ P) (hx : ∀ m, x = some m → m ∈ P) :
    Inside P t (t.setParent n x) := by
  refine h.modify hn (fun e m hm => h.child n hn e m ?_) fun m hm => hx m hm
  cases e <;> exact hm

lemma Confined.setColor (h : Confined P t) (hn : n ∈ P) (c : Color) :
    Inside P t (t.setColor n c) := by
  refine h.modify hn (fun e m hm => h.child n hn e m ?_) fun m hm => h.parent n hn m hm
  cases e <;> exact hm

lemma Confined.setParentSafe (h : Confined P t) (hx : ∀ m, x = some m → m ∈ P) {p : Option N}
    (hp : ∀ m, p = some m → m ∈ P) : Inside P t (t.setParentSafe x p) := by
  cases x with
  | none => exact h.refl
  | some m => exact h.setParent (hx m rfl) hp

lemma Confined.replaceChild (h : Confined P t) {p : Option N} (hp : ∀ m, p = some m → m ∈ P)
    (hx : ∀ m, x = some m → m ∈ P) : Inside P t (replaceChild p n x t) := by
  cases p with
  | none => exact ⟨⟨hx, h.child, h.parent⟩, fun _ _ => rfl⟩
  | some q =>
      rw [Rb.replaceChild]
      split
      · exact h.setChild (hp q rfl) hx
      · exact h.setChild (hp q rfl) hx

lemma Confined.setBlackSafe (h : Confined P t) (hx : ∀ m, x = some m → m ∈ P) :
    Inside P t (setBlackSafe x t) := by
  cases x with
  | none => exact h.refl
  | some m => exact h.setColor (hx m rfl) .black

lemma Confined.swapColors (h : Confined P t) {a b : N} (ha : a ∈ P) (hb : b ∈ P) :
    Inside P t (swapColors a b t) := by
  let t₁ := t.setColor a (Color.xor (t.node a).color (t.node b).color)
  let t₂ := t₁.setColor b (Color.xor (t₁.node a).color (t₁.node b).color)
  have h₁ : Inside P t t₁ := h.setColor ha _
  have h₂ : Inside P t t₂ := h₁.trans (h₁.confined.setColor hb _)
  exact h₂.trans (h₂.confined.setColor ha _)

lemma Confined.rotate (h : Confined P t) (hn : n ∈ P) (hrot : rbRotate d n t = some t') :
    Inside P t t' := by
  obtain ⟨child, hchild, hrot⟩ := Option.bind_eq_some_iff.mp hrot
  have hc : child ∈ P := h.child n hn _ _ hchild
  have hsome : ∀ a ∈ P, ∀ m, some a = some m → m ∈ P := fun a ha m hm => Option.some.inj hm ▸ ha
  have h₁ := h.setChild (d := d.opp) hn (h.child child hc d)
  have h₂ := h₁.trans (h₁.confined.setParentSafe (h₁.confined.child child hc d) (hsome n hn))
  have h₃ := h₂.trans (h₂.confined.setChild (d := d) hc (hsome n hn))
  have h₄ := h₃.trans (h₃.confined.setParent hn (hsome child hc))
  have h₅ := h₄.trans (h₄.confined.replaceChild (n := n) (h.parent n hn) (hsome child hc))
  obtain rfl := Option.some.inj hrot
  exact h₅.trans (h₅.confined.setParent hc (h.parent n hn))

variable {p s s' : N}

lemma Confined.removeRecolor (h : Confined P t) (hp : p ∈ P) (hs : s ∈ P) :
    Inside P t (removeRecolor d p s t) := by
  cases d with
  | left =>
      have h₁ := h.setColor hp .red
      exact h₁.trans (h₁.confined.setColor hs .black)
  | right =>
      have h₁ := h.setColor hs .black
      exact h₁.trans (h₁.confined.setColor hp .red)

lemma Confined.removeCase1 (h : Confined P t) (hp : p ∈ P) (hs : s ∈ P)
    (heval : removeCase1 d p s t = some (s', t')) : s' ∈ P ∧ Inside P t t' := by
  rw [Rb.removeCase1] at heval
  split at heval
  · obtain ⟨t₁, hrot, heval⟩ := Option.bind_eq_some_iff.mp heval
    obtain ⟨s₁, hs₁, heval⟩ := Option.bind_eq_some_iff.mp heval
    obtain ⟨rfl, rfl⟩ := Prod.mk.inj (Option.some.inj heval)
    have h₁ := h.removeRecolor (d := d) hp hs
    have h₂ := h₁.trans (h₁.confined.rotate hp hrot)
    exact ⟨h₂.confined.child p hp _ _ hs₁, h₂⟩
  · obtain ⟨rfl, rfl⟩ := Prod.mk.inj (Option.some.inj heval)
    exact ⟨hs, h.refl⟩

lemma Confined.removeCase3 (h : Confined P t) (hp : p ∈ P) (hs : s ∈ P)
    (heval : removeCase3 d p s t = some (s', t')) : s' ∈ P ∧ Inside P t t' := by
  rw [Rb.removeCase3] at heval
  split at heval
  · obtain ⟨nephew, hnephew, heval⟩ := Option.bind_eq_some_iff.mp heval
    obtain ⟨t₁, hrot, heval⟩ := Option.bind_eq_some_iff.mp heval
    obtain ⟨s₁, hs₁, heval⟩ := Option.bind_eq_some_iff.mp heval
    obtain ⟨rfl, rfl⟩ := Prod.mk.inj (Option.some.inj heval)
    have h₁ := h.setColor hs .red
    have h₂ := h₁.trans (h₁.confined.setColor (h₁.confined.child s hs _ _ hnephew) .black)
    have h₃ := h₂.trans (h₂.confined.rotate hs hrot)
    exact ⟨h₃.confined.child p hp _ _ hs₁, h₃⟩
  · obtain ⟨rfl, rfl⟩ := Prod.mk.inj (Option.some.inj heval)
    exact ⟨hs, h.refl⟩

lemma Confined.removeCase4 (h : Confined P t) (hp : p ∈ P) (hs : s ∈ P)
    (heval : removeCase4 d p s t = some t') : Inside P t t' := by
  obtain ⟨nephew, hnephew, hrot⟩ := Option.bind_eq_some_iff.mp heval
  have h₁ := h.swapColors hp hs
  have h₂ := h₁.trans (h₁.confined.setColor (h₁.confined.child s hs _ _ hnephew) .black)
  exact h₂.trans (h₂.confined.rotate hp hrot)

/-- **`rb_remove_color`** stays inside the tree. -/
lemma Confined.removeColor {fuel : ℕ} {x y : Option N} (h : Confined P t)
    (hx : ∀ m, x = some m → m ∈ P) (hy : ∀ m, y = some m → m ∈ P)
    (heval : rbRemoveColor fuel x y t = some t') : Inside P t t' := by
  induction fuel generalizing x y t with
  | zero => cases heval
  | succ fuel ih =>
      rw [rbRemoveColor] at heval
      split at heval
      · obtain ⟨p, hyp, heval⟩ := Option.bind_eq_some_iff.mp heval
        have hp : p ∈ P := hy p hyp
        dsimp only at heval
        obtain ⟨s, hs, heval⟩ := Option.bind_eq_some_iff.mp heval
        obtain ⟨⟨s₁, t₁⟩, hcase1, heval⟩ := Option.bind_eq_some_iff.mp heval
        obtain ⟨hs₁, h₁⟩ := h.removeCase1 hp (h.child p hp _ _ hs) hcase1
        dsimp only at heval
        split at heval
        · have h₂ := h₁.trans (h₁.confined.setColor hs₁ .red)
          refine h₂.trans (ih h₂.confined ?_ (h₂.confined.parent p hp) heval)
          exact fun m hm => Option.some.inj hm ▸ hp
        · obtain ⟨⟨s₂, t₂⟩, hcase3, heval⟩ := Option.bind_eq_some_iff.mp heval
          obtain ⟨hs₂, h₂⟩ := h₁.confined.removeCase3 hp hs₁ hcase3
          obtain ⟨t₃, hcase4, heval⟩ := Option.bind_eq_some_iff.mp heval
          have h₃ := (h₁.trans h₂).trans (h₂.confined.removeCase4 hp hs₂ hcase4)
          obtain rfl := Option.some.inj heval
          exact h₃.trans (h₃.confined.setBlackSafe h₃.confined.root)
      · obtain rfl := Option.some.inj heval
        exact h.setBlackSafe hx

end Inside

/-! ## The links of a removed node -/

section Removed

variable [DecidableEq N] {t t' : RbTree N} {fuel : ℕ} {n : N}

/-- `color_fix` does not touch the node that was taken out. -/
lemma colorFix_outside {ctx : Ctx N} {C : Tree N} (h : Holds t (plug ctx C))
    (hn : n ∉ (plug ctx C).nodes) (heval : colorFix fuel n C.root? ctx.top t = some t') :
    t'.node n = t.node n := by
  rw [colorFix] at heval
  split at heval
  · obtain ⟨t₁, hcolor, heval⟩ := Option.bind_eq_some_iff.mp heval
    obtain rfl := Option.some.inj heval
    have hmem : ∀ m, m ∈ C.nodes ∨ m ∈ ctx.nodes → m ∈ (plug ctx C).nodes :=
      fun m hm => (nodes_plug_perm _ _).mem_iff.mpr (List.mem_append.mpr hm)
    have hin := h.confined.removeColor
      (fun m hm => hmem m (.inl (Tree.mem_nodes_of_root? hm)))
      (fun m hm => hmem m (.inr (Ctx.mem_nodes_of_top hm))) hcolor
    exact hin.outside n hn
  · obtain rfl := Option.some.inj heval
    rfl

/-- **`rb_remove` leaves the links of the removed node as they were.** -/
lemma rbRemove_links {T : Tree N} (h : Holds t T) (hn : n ∈ T.nodes)
    (hfuel : T.nodes.length < fuel) (heval : rbRemove fuel n t = some t') :
    (t'.node n).parent = (t.node n).parent ∧
      ∀ d, (t'.node n).child d = (t.node n).child d := by
  obtain ⟨ctx, C, c, t₁, hargs, hsp⟩ := spliced_spec h hn hfuel
  obtain ⟨ys, zs, hold, hnew⟩ := hsp.nodes
  have hnot : n ∉ (plug ctx C).nodes := by
    have hnd := h.nodup
    rw [hold] at hnd
    rw [hnew]
    exact (List.nodup_cons.mp (List.nodup_middle.mp hnd)).1
  rw [rbRemove_eq_colorFix, hargs] at heval
  rw [colorFix_outside hsp.holds hnot heval, hsp.node]
  exact ⟨rfl, fun d => by cases d <;> rfl⟩

/-- Down from a node of the tree one stays in the tree. -/
lemma endmost_mem {d : Dir} {T : Tree N} (h : Holds t T) (hn : n ∈ T.nodes)
    (hfuel : T.nodes.length ≤ fuel) : ∃ m ∈ T.nodes, endmost d t fuel n = some m := by
  obtain ⟨ctx, c, L, R, rfl⟩ := exists_focus hn
  have hsub : ∀ m ∈ (Tree.bin .left c L n R).nodes, m ∈ (plug ctx (.bin .left c L n R)).nodes :=
    fun m hm => (nodes_plug_perm _ _).mem_iff.mpr (List.mem_append_left _ hm)
  have hlen : (Tree.bin .left c L n R).nodes.length ≤ fuel := by
    have hall := (nodes_plug_perm ctx (.bin .left c L n R)).length_eq
    rw [List.length_append] at hall
    omega
  obtain ⟨hend, hsome⟩ := endmost_rep (d := d) (rep_plug.mp h.rep).2 (Tree.root?_bin ..) hlen
  obtain ⟨m, hm⟩ := Option.ne_none_iff_exists'.mp hsome
  refine ⟨m, hsub m ?_, hend.trans hm⟩
  cases d with
  | left => exact List.mem_of_head? hm
  | right => exact List.mem_of_getLast? hm

omit [DecidableEq N] in
lemma Holds.parent_ne {T : Tree N} (h : Holds t T) (hn : n ∈ T.nodes) :
    (t.node n).parent ≠ some n := by
  obtain ⟨ctx, c, L, R, rfl⟩ := exists_focus hn
  rw [h.node_bin, RbNode.parent_ofSides]
  intro htop
  refine List.disjoint_left.mp (nodup_nodes_plug.mp h.nodup).2.2 ?_ (Ctx.mem_nodes_of_top htop)
  exact Tree.mem_nodes_bin.mpr (.inr (.inl rfl))

/-- **`rb_next` of a removed node** is a node of the tree that is left, if there is one. -/
lemma IsSet.next_removed {cmp : N → N → ℤ} {xs xs' : List N} (h : IsSet cmp t xs) (hn : n ∈ xs)
    (hfuel : t.rbCount < fuel) (heval : rbRemove fuel n t = some t') (h' : IsSet cmp t' xs')
    (hxs' : ∀ m, m ∈ xs' ↔ m ∈ xs ∧ m ≠ n) :
    ∃ r, rbNext fuel n t' = some r ∧ ∀ m, r = some m → m ∈ xs' := by
  obtain ⟨⟨T, k, hT, -, -, rfl⟩, -, hcount⟩ := h
  obtain ⟨⟨T', k', hT', -, -, rfl⟩, -, hcount'⟩ := h'
  have hnot : n ∉ T'.nodes := fun hmem => ((hxs' n).mp hmem).2 rfl
  obtain ⟨hparent, hchild⟩ := rbRemove_links hT hn (hcount ▸ hfuel) heval
  have hfuel' : T'.nodes.length ≤ fuel := by
    have hle := (hT'.nodup.subperm fun m hm => ((hxs' m).mp hm).1).length_le
    omega
  rw [rbNext, rbNeighbour, hchild]
  cases hright : (t.node n).child .right with
  | some m =>
      obtain ⟨hm, hback⟩ := hT.child_cases hn hright
      have hne : m ≠ n := fun hmn => hT.parent_ne hm (hmn ▸ hback)
      obtain ⟨r, hr, hend⟩ := endmost_mem (d := .left) hT' ((hxs' m).mpr ⟨hm, hne⟩) hfuel'
      exact ⟨some r, by simp [Dir.opp, hend], fun _ h => Option.some.inj h ▸ hr⟩
  | none =>
      obtain ⟨fuel, rfl⟩ : ∃ k, fuel = k + 1 := ⟨fuel - 1, by omega⟩
      rw [climb, hparent]
      cases hp : (t.node n).parent with
      | none => exact ⟨none, rfl, by simp⟩
      | some p =>
          have hne : p ≠ n := fun hpn => hT.parent_ne hn (hpn ▸ hp)
          have hpT' : p ∈ T'.nodes := (hxs' p).mpr ⟨hT.confined.parent n hn p hp, hne⟩
          have hno : (t'.node p).child .right ≠ some n :=
            fun hc => hnot (hT'.confined.child p hpT' .right n hc)
          exact ⟨some p, by simp [hno], fun _ h => Option.some.inj h ▸ hpT'⟩

omit [DecidableEq N] in
/-- The first node has no left subtree, and behind it comes its only child or its parent. -/
lemma IsSet.first {cmp : N → N → ℤ} {zs : List N} (h : IsSet cmp t (n :: zs)) :
    (t.node n).child .left = none ∧
      match (t.node n).child .right with
      | some m => zs.head? = some m
      | none => zs.head? = (t.node n).parent := by
  obtain ⟨⟨T, k, hT, hrb, hb, hnodes⟩, -, -⟩ := h
  have hnd : n ∉ zs := (List.nodup_cons.mp (hnodes ▸ hT.nodup)).1
  obtain ⟨ctx, c, L, R, rfl⟩ := exists_focus (a := n) (t := T) (by rw [hnodes]; simp)
  have hsplit : [] ++ n :: zs = (ctx.before ++ L.nodes) ++ n :: (R.nodes ++ ctx.after) := by
    rw [List.nil_append, ← hnodes, nodes_plug]
    simp [Tree.bin]
  obtain ⟨hleft, -, rfl⟩ := (List.append_cons_inj_of_notMem (List.not_mem_nil) hnd).mp hsplit
  obtain ⟨hbefore, hL⟩ := List.append_eq_nil_iff.mp hleft.symm
  obtain rfl : L = .nil := Tree.eq_nil_of_nodes hL
  obtain ⟨j, hj, -⟩ := rb_of_plug hrb hb
  have hnode := hT.node_bin
  rw [hnode, RbNode.child_ofSides, Tree.root?_nil]
  refine ⟨rfl, ?_⟩
  have hright : (RbNode.ofSides .left ctx.top (none : Option N) R.root? c).child .right = R.root? :=
    RbNode.child_opp_ofSides ..
  rw [hright]
  rcases rb_sibling_nil hj with rfl | ⟨b, rfl⟩
  · -- the parent of a first node is behind it
    change (ctx.after).head? = ctx.top
    cases ctx with
    | nil => rfl
    | cons f ctx =>
        obtain ⟨d, e, b, S⟩ := f
        cases d with
        | left => rfl
        | right => simp [Ctx.before] at hbefore
  · rfl

/-- **`rb_next` of the first node, when that was removed**, is the new first node. -/
lemma IsSet.next_first_removed {cmp : N → N → ℤ} {zs : List N} (h : IsSet cmp t (n :: zs))
    (hfuel : t.rbCount < fuel) (heval : rbRemove fuel n t = some t') (h' : IsSet cmp t' zs) :
    rbNext fuel n t' = some zs.head? := by
  obtain ⟨-, hbehind⟩ := h.first
  obtain ⟨T, k, hT, -, -, hnodes⟩ := h.balanced
  have hnd := List.nodup_cons.mp h.nodup
  have hn : n ∈ T.nodes := by rw [hnodes]; exact List.mem_cons_self ..
  have hlen : T.nodes.length < fuel := by rw [hnodes, ← h.count]; exact hfuel
  obtain ⟨hparent, hchild⟩ := rbRemove_links hT hn hlen heval
  rw [rbNext, rbNeighbour, hchild]
  cases hright : (t.node n).child .right with
  | some m =>
      -- the child is the first node now, and has no left subtree
      rw [hright] at hbehind
      obtain ⟨ws, rfl⟩ : ∃ ws, zs = m :: ws := List.head?_eq_some_iff.mp hbehind
      obtain ⟨fuel, rfl⟩ : ∃ k, fuel = k + 1 := ⟨fuel - 1, by omega⟩
      have hend : endmost .left t' (fuel + 1) m = some m := by
        rw [endmost, h'.first.1]
      simp [Dir.opp, hend]
  | none =>
      rw [hright] at hbehind
      obtain ⟨fuel, rfl⟩ : ∃ k, fuel = k + 1 := ⟨fuel - 1, by omega⟩
      rw [climb, hparent, hbehind]
      cases hp : (t.node n).parent with
      | none => rfl
      | some p =>
          obtain ⟨T', k', hT', -, -, hnodes'⟩ := h'.balanced
          have hpT' : p ∈ T'.nodes := by
            rw [hnodes']
            exact List.mem_of_head? (hbehind.trans hp)
          have hno : (t'.node p).child .right ≠ some n := by
            intro hc
            have hmem : n ∈ T'.nodes := hT'.confined.child p hpT' .right n hc
            rw [hnodes'] at hmem
            exact hnd.1 hmem
          simp [hno]

end Removed

end LinuxC.Rb
