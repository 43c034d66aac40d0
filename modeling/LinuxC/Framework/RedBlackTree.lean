import Mathlib.Data.List.Nodup
import Mathlib.Analysis.SpecialFunctions.Log.Base

/-!
# Red-black trees with a focus

Binary trees with coloured nodes, and the same trees seen from a place inside them: a
*context* is the list of the ancestors of that place, innermost first, each with its other
subtree, and `plug` puts a subtree back.  A rebalancing loop that walks up from a place in
the tree is an induction on the context.

The two sides of a node are named by a direction, and `Tree.bin d` builds a node from the
subtree on side `d` and the one on the other side.  A case of an algorithm and its mirror
image are then one statement about `bin d`.

`RB t k` says that no red node of `t` has a red child and that every path of `t` down to a
nil link has `k` black nodes.  `CtxOk ctx k c` says that the context is that of a red-black
tree with a black root at a place where a subtree of black height `k` and root colour `c`
belongs; `rb_plug` and `rb_of_plug` take the two together and apart.  The last part reads the
invariant off in its usual form, with the logarithmic bound on the height.

Nothing here mentions a particular program.
-/

namespace LinuxC

/-- The colour of a node. -/
inductive Color
  | red
  | black
  deriving DecidableEq, Repr

/-- The side of a child. -/
inductive Dir
  | left
  | right
  deriving DecidableEq, Repr

/-- The other side. -/
def Dir.opp : Dir → Dir
  | .left => .right
  | .right => .left

@[simp] lemma Dir.opp_opp (d : Dir) : d.opp.opp = d := by cases d <;> rfl

@[simp] lemma Dir.opp_ne (d : Dir) : d.opp ≠ d := by cases d <;> decide

@[simp] lemma Dir.ne_opp (d : Dir) : d ≠ d.opp := by cases d <;> decide

/-- A binary tree with coloured nodes. -/
inductive Tree (α : Type)
  | nil
  | node (c : Color) (l : Tree α) (a : α) (r : Tree α)
  deriving DecidableEq

namespace Tree

variable {α : Type}

/-- The node at the root. -/
def root? : Tree α → Option α
  | nil => none
  | node _ _ a _ => some a

/-- The colour of the root; a nil link counts as black. -/
def color : Tree α → Color
  | nil => .black
  | node c _ _ _ => c

/-- The nodes from left to right. -/
def nodes : Tree α → List α
  | nil => []
  | node _ l a r => l.nodes ++ a :: r.nodes

/-- The number of nodes on the longest path from the root. -/
def height : Tree α → ℕ
  | nil => 0
  | node _ l _ r => max l.height r.height + 1

/-- A node with the subtree `t` on side `d` and the subtree `s` on the other side. -/
def bin (d : Dir) (c : Color) (t : Tree α) (a : α) (s : Tree α) : Tree α :=
  match d with
  | .left => node c t a s
  | .right => node c s a t

@[simp] lemma root?_nil : (nil : Tree α).root? = none := rfl

@[simp] lemma root?_node (c : Color) (l : Tree α) (a : α) (r : Tree α) :
    (node c l a r).root? = some a := rfl

@[simp] lemma color_nil : (nil : Tree α).color = .black := rfl

@[simp] lemma color_node (c : Color) (l : Tree α) (a : α) (r : Tree α) :
    (node c l a r).color = c := rfl

@[simp] lemma nodes_nil : (nil : Tree α).nodes = [] := rfl

@[simp] lemma nodes_node (c : Color) (l : Tree α) (a : α) (r : Tree α) :
    (node c l a r).nodes = l.nodes ++ a :: r.nodes := rfl

@[simp] lemma root?_bin (d : Dir) (c : Color) (t : Tree α) (a : α) (s : Tree α) :
    (bin d c t a s).root? = some a := by cases d <;> rfl

@[simp] lemma color_bin (d : Dir) (c : Color) (t : Tree α) (a : α) (s : Tree α) :
    (bin d c t a s).color = c := by cases d <;> rfl

lemma bin_opp (d : Dir) (c : Color) (t : Tree α) (a : α) (s : Tree α) :
    bin d.opp c t a s = bin d c s a t := by cases d <;> rfl

lemma mem_nodes_bin {d : Dir} {c : Color} {t s : Tree α} {a x : α} :
    x ∈ (bin d c t a s).nodes ↔ x ∈ t.nodes ∨ x = a ∨ x ∈ s.nodes := by
  cases d
  · simp [bin]
  · simp only [bin, nodes_node, List.mem_append, List.mem_cons]
    tauto

lemma nodes_rotate (d : Dir) (c c' e e' : Color) (t : Tree α) (a : α) (s : Tree α) (b : α)
    (u : Tree α) :
    (bin d c (bin d c' t a s) b u).nodes = (bin d e t a (bin d e' s b u)).nodes := by
  cases d <;> simp [bin]

lemma nodes_bin_congr {t t' s s' : Tree α} (d : Dir) (c c' : Color) (a : α)
    (ht : t.nodes = t'.nodes) (hs : s.nodes = s'.nodes) :
    (bin d c t a s).nodes = (bin d c' t' a s').nodes := by
  cases d <;> simp [bin, ht, hs]

lemma nodes_bin_perm (d : Dir) (c : Color) (t : Tree α) (a : α) (s : Tree α) :
    (bin d c t a s).nodes.Perm (a :: (t.nodes ++ s.nodes)) := by
  cases d
  · exact List.perm_middle
  · exact List.perm_middle.trans (List.perm_append_comm.cons a)

lemma nodup_nodes_bin {d : Dir} {c : Color} {t s : Tree α} {a : α} :
    (bin d c t a s).nodes.Nodup ↔
      a ∉ t.nodes ∧ a ∉ s.nodes ∧ t.nodes.Nodup ∧ s.nodes.Nodup ∧ t.nodes.Disjoint s.nodes := by
  rw [(nodes_bin_perm d c t a s).nodup_iff, List.nodup_cons, List.nodup_append', List.mem_append,
    not_or]
  tauto

lemma mem_nodes_of_root? {t : Tree α} {a : α} (h : t.root? = some a) : a ∈ t.nodes := by
  cases t with
  | nil => simp at h
  | node c l b r => simp_all

lemma eq_nil_of_root? {t : Tree α} (h : t.root? = none) : t = nil := by
  cases t with
  | nil => rfl
  | node c l a r => simp at h

lemma eq_nil_of_nodes {t : Tree α} (h : t.nodes = []) : t = nil := by
  cases t with
  | nil => rfl
  | node c l a r => simp at h

/-- A tree that is not nil is a `bin` in either direction. -/
lemma exists_bin {t : Tree α} (d : Dir) (h : t ≠ nil) :
    ∃ c t₁ a t₂, t = bin d c t₁ a t₂ := by
  cases t with
  | nil => exact absurd rfl h
  | node c l a r =>
      cases d
      · exact ⟨c, l, a, r, rfl⟩
      · exact ⟨c, r, a, l, rfl⟩

lemma exists_bin_of_root? {t : Tree α} (d : Dir) {a : α} (h : t.root? = some a) :
    ∃ c t₁ t₂, t = bin d c t₁ a t₂ := by
  obtain ⟨c, t₁, b, t₂, rfl⟩ := exists_bin d (t := t) (by rintro rfl; simp at h)
  rw [root?_bin, Option.some.injEq] at h
  exact ⟨c, t₁, t₂, by rw [h]⟩

end Tree

/-! ## Contexts -/

/-- An ancestor: the side of it on which the place is, its colour, the node, and the subtree
on its other side. -/
structure Frame (α : Type) where
  dir : Dir
  color : Color
  node : α
  other : Tree α

/-- The ancestors of a place, innermost first. -/
abbrev Ctx (α : Type) := List (Frame α)

variable {α : Type}

/-- A subtree put under its parent. -/
def Frame.up (f : Frame α) (t : Tree α) : Tree α := Tree.bin f.dir f.color t f.node f.other

/-- A subtree put back into its context. -/
def plug : Ctx α → Tree α → Tree α
  | [], t => t
  | f :: ctx, t => plug ctx (f.up t)

namespace Ctx

/-- The parent of the place. -/
def top (ctx : Ctx α) : Option α := ctx.head?.map Frame.node

/-- The nodes of the context left of the place. -/
def before : Ctx α → List α
  | [] => []
  | ⟨.left, _, _, _⟩ :: ctx => before ctx
  | ⟨.right, _, a, s⟩ :: ctx => before ctx ++ (s.nodes ++ [a])

/-- The nodes of the context right of the place. -/
def after : Ctx α → List α
  | [] => []
  | ⟨.left, _, a, s⟩ :: ctx => a :: s.nodes ++ after ctx
  | ⟨.right, _, _, _⟩ :: ctx => after ctx

/-- The nodes of the context. -/
def nodes (ctx : Ctx α) : List α := ctx.before ++ ctx.after

@[simp] lemma top_nil : Ctx.top ([] : Ctx α) = none := rfl

@[simp] lemma top_cons (f : Frame α) (ctx : Ctx α) : Ctx.top (f :: ctx) = some f.node := rfl

lemma nodes_cons_perm (f : Frame α) (ctx : Ctx α) :
    (Ctx.nodes (f :: ctx)).Perm (f.node :: (f.other.nodes ++ Ctx.nodes ctx)) := by
  obtain ⟨d, c, a, s⟩ := f
  cases d
  · simp only [nodes, before, after]
    apply List.perm_append_comm.trans
    simp only [List.cons_append, List.append_assoc]
    exact List.Perm.cons a (List.Perm.append_left _ List.perm_append_comm)
  · simp only [nodes, before, after, List.append_assoc]
    refine (List.perm_append_comm_assoc _ _ _).trans ?_
    have : (s.nodes ++ before ctx ++ a :: after ctx).Perm
        (a :: (s.nodes ++ before ctx ++ after ctx)) := List.perm_middle
    simpa only [List.append_assoc, List.singleton_append] using this

lemma nodup_nodes_cons {f : Frame α} {ctx : Ctx α} :
    (Ctx.nodes (f :: ctx)).Nodup ↔
      f.node ∉ f.other.nodes ∧ f.node ∉ Ctx.nodes ctx ∧ f.other.nodes.Nodup ∧
        (Ctx.nodes ctx).Nodup ∧ f.other.nodes.Disjoint (Ctx.nodes ctx) := by
  rw [(nodes_cons_perm f ctx).nodup_iff, List.nodup_cons, List.nodup_append', List.mem_append,
    not_or]
  tauto

lemma mem_nodes_cons {f : Frame α} {ctx : Ctx α} {x : α} :
    x ∈ Ctx.nodes (f :: ctx) ↔ x = f.node ∨ x ∈ f.other.nodes ∨ x ∈ ctx.nodes := by
  obtain ⟨d, c, a, s⟩ := f
  cases d
  · simp only [nodes, before, after, List.mem_append, List.mem_cons]
    tauto
  · simp only [nodes, before, after, List.mem_append, List.mem_cons]
    tauto

lemma mem_nodes_of_top {ctx : Ctx α} {x : α} (h : Ctx.top ctx = some x) : x ∈ Ctx.nodes ctx := by
  cases ctx with
  | nil => simp at h
  | cons f ctx =>
      rw [top_cons, Option.some.injEq] at h
      exact mem_nodes_cons.mpr (.inl h.symm)

/-- On the way down the left edge nothing is left of the place. -/
lemma before_eq_nil {ctx : Ctx α} (h : ∀ f ∈ ctx, f.dir = .left) : before ctx = [] := by
  induction ctx with
  | nil => rfl
  | cons f ctx ih =>
      obtain ⟨d, c, a, s⟩ := f
      obtain rfl : d = .left := h ⟨d, c, a, s⟩ (by simp)
      exact ih fun g hg => h g (by simp [hg])

lemma after_eq_nil {ctx : Ctx α} (h : ∀ f ∈ ctx, f.dir = .right) : after ctx = [] := by
  induction ctx with
  | nil => rfl
  | cons f ctx ih =>
      obtain ⟨d, c, a, s⟩ := f
      obtain rfl : d = .right := h ⟨d, c, a, s⟩ (by simp)
      exact ih fun g hg => h g (by simp [hg])

end Ctx

/-- **The order of the nodes.**  The nodes of a tree are those of the context left of a place,
those of the subtree there, and those of the context right of it. -/
lemma nodes_plug (ctx : Ctx α) (t : Tree α) :
    (plug ctx t).nodes = ctx.before ++ t.nodes ++ ctx.after := by
  induction ctx generalizing t with
  | nil => simp [plug, Ctx.before, Ctx.after]
  | cons f ctx ih =>
      obtain ⟨d, c, a, s⟩ := f
      rw [plug, ih]
      cases d <;> simp [Frame.up, Tree.bin, Ctx.before, Ctx.after]

lemma nodes_plug_congr {t s : Tree α} (ctx : Ctx α) (h : t.nodes = s.nodes) :
    (plug ctx t).nodes = (plug ctx s).nodes := by
  rw [nodes_plug, nodes_plug, h]

lemma nodes_plug_perm (ctx : Ctx α) (t : Tree α) :
    (plug ctx t).nodes.Perm (t.nodes ++ Ctx.nodes ctx) := by
  rw [nodes_plug, List.append_assoc, Ctx.nodes]
  exact List.perm_append_comm_assoc _ _ _

lemma nodup_nodes_plug {ctx : Ctx α} {t : Tree α} :
    (plug ctx t).nodes.Nodup ↔
      t.nodes.Nodup ∧ (Ctx.nodes ctx).Nodup ∧ t.nodes.Disjoint (Ctx.nodes ctx) := by
  rw [(nodes_plug_perm ctx t).nodup_iff, List.nodup_append']

lemma plug_append (ctx ctx' : Ctx α) (t : Tree α) :
    plug (ctx ++ ctx') t = plug ctx' (plug ctx t) := by
  induction ctx generalizing t with
  | nil => rfl
  | cons f ctx ih => exact ih (f.up t)

/-- Inside a context the root of the whole tree is a node of the context. -/
lemma root?_plug_cons (f : Frame α) (ctx : Ctx α) :
    ∃ a ∈ Ctx.nodes (f :: ctx), ∀ t, (plug (f :: ctx) t).root? = some a := by
  induction ctx generalizing f with
  | nil =>
      exact ⟨f.node, Ctx.mem_nodes_cons.mpr (.inl rfl), fun t => by simp [plug, Frame.up]⟩
  | cons g ctx ih =>
      obtain ⟨a, ha, h⟩ := ih g
      exact ⟨a, Ctx.mem_nodes_cons.mpr (.inr (.inr ha)), fun t => h (f.up t)⟩

lemma root?_other_ne {f : Frame α} {ctx : Ctx α} {t : Tree α}
    (hnd : (plug (f :: ctx) t).nodes.Nodup) (hne : t.root? ≠ none ∨ f.other.root? ≠ none) :
    f.other.root? ≠ t.root? := by
  intro e
  obtain ⟨a, ha⟩ : ∃ a, t.root? = some a := by
    rw [e, or_self] at hne
    exact Option.ne_none_iff_exists'.mp hne
  have h1 := Tree.mem_nodes_of_root? ha
  have h2 := Tree.mem_nodes_of_root? (e.trans ha)
  exact (nodup_nodes_plug.mp hnd).2.2 h1 (Ctx.mem_nodes_cons.mpr (.inr (.inl h2)))

/-- A node whose successor `r` lies at the left end of its right subtree is replaced by `r`: the
nodes keep their order. -/
lemma nodes_splice (ctx ctxR : Ctx α) (c rc : Color) (L C : Tree α) (n r : α)
    (hdirs : ∀ f ∈ ctxR, f.dir = .left) :
    ∃ xs ys, (plug ctx (.bin .left c L n (plug ctxR (.bin .left rc .nil r C)))).nodes =
        xs ++ n :: ys ∧
      (plug ctx (.bin .left c L r (plug ctxR C))).nodes = xs ++ ys := by
  have hbefore := Ctx.before_eq_nil hdirs
  refine ⟨Ctx.before ctx ++ L.nodes, r :: (C.nodes ++ Ctx.after ctxR) ++ Ctx.after ctx, ?_, ?_⟩
  · simp [nodes_plug, Tree.bin, hbefore]
  · simp [nodes_plug, Tree.bin, hbefore]

lemma nodup_splice (ctx ctxR : Ctx α) (c rc : Color) (L C : Tree α) (n r : α)
    (hdirs : ∀ f ∈ ctxR, f.dir = .left)
    (h : (plug ctx (.bin .left c L n (plug ctxR (.bin .left rc .nil r C)))).nodes.Nodup) :
    (plug ctx (.bin .left c L r (plug ctxR C))).nodes.Nodup := by
  obtain ⟨xs, ys, hold, hnew⟩ := nodes_splice ctx ctxR c rc L C n r hdirs
  rw [hold] at h
  rw [hnew]
  exact h.sublist ((List.sublist_cons_self n ys).append_left xs)

/-- Every node is the root of the subtree at some place. -/
lemma exists_focus {t : Tree α} {a : α} (h : a ∈ t.nodes) :
    ∃ ctx c l r, t = plug ctx (.bin .left c l a r) := by
  induction t with
  | nil => simp at h
  | node c l b r ihl ihr =>
      rw [Tree.nodes_node, List.mem_append, List.mem_cons] at h
      rcases h with h | rfl | h
      · obtain ⟨ctx, c', l', r', rfl⟩ := ihl h
        exact ⟨ctx ++ [⟨.left, c, b, r⟩], c', l', r', by rw [plug_append]; rfl⟩
      · exact ⟨[], c, l, r, rfl⟩
      · obtain ⟨ctx, c', l', r', rfl⟩ := ihr h
        exact ⟨ctx ++ [⟨.right, c, b, l⟩], c', l', r', by rw [plug_append]; rfl⟩

/-- The place is not deeper than there are nodes. -/
lemma length_le_nodes_plug (ctx : Ctx α) (t : Tree α) :
    ctx.length + t.nodes.length ≤ (plug ctx t).nodes.length := by
  induction ctx generalizing t with
  | nil => simp [plug]
  | cons f ctx ih =>
      have h : t.nodes.length + 1 ≤ (f.up t).nodes.length := by
        obtain ⟨d, c, a, s⟩ := f
        cases d
        · simp only [Frame.up, Tree.bin, Tree.nodes_node, List.length_append, List.length_cons]
          omega
        · simp only [Frame.up, Tree.bin, Tree.nodes_node, List.length_append, List.length_cons]
          omega
      have := ih (f.up t)
      rw [plug, List.length_cons]
      omega

/-! ## The red-black invariant -/

/-- No red node has a red child, and every path down to a nil link has `k` black nodes. -/
def RB : Tree α → ℕ → Prop
  | .nil, k => k = 0
  | .node .red l _ r, k => RB l k ∧ RB r k ∧ l.color = .black ∧ r.color = .black
  | .node .black l _ r, k => ∃ j, k = j + 1 ∧ RB l j ∧ RB r j

@[simp] lemma rb_nil {k : ℕ} : RB (Tree.nil : Tree α) k ↔ k = 0 := Iff.rfl

lemma rb_bin_red {d : Dir} {t s : Tree α} {a : α} {k : ℕ} :
    RB (Tree.bin d .red t a s) k ↔
      RB t k ∧ RB s k ∧ t.color = .black ∧ s.color = .black := by
  cases d
  · exact Iff.rfl
  · simp only [Tree.bin, RB]
    tauto

lemma rb_bin_black {d : Dir} {t s : Tree α} {a : α} {k : ℕ} :
    RB (Tree.bin d .black t a s) (k + 1) ↔ RB t k ∧ RB s k := by
  cases d
  · simp [Tree.bin, RB]
  · simp [Tree.bin, RB, and_comm]

/-- A subtree of positive black height is not nil. -/
lemma ne_nil_of_rb {t : Tree α} {k : ℕ} (h : RB t (k + 1)) : t ≠ .nil := by
  rintro rfl
  simp at h

lemma root?_of_rb {t : Tree α} {k : ℕ} (h : RB t (k + 1)) : ∃ a, t.root? = some a := by
  obtain ⟨c, t₁, a, t₂, rfl⟩ := Tree.exists_bin .left (ne_nil_of_rb h)
  exact ⟨a, Tree.root?_bin ..⟩

/-- The black height above a node of this colour. -/
def Color.weight : Color → ℕ
  | .red => 0
  | .black => 1

/-- The context of a red-black tree with a black root, at a place for a subtree of black
height `k` with a root of colour `c`. -/
def CtxOk : Ctx α → ℕ → Color → Prop
  | [], _, c => c = .black
  | f :: ctx, k, c => RB f.other k ∧ (f.color = .red → c = .black ∧ f.other.color = .black) ∧
      CtxOk ctx (k + f.color.weight) f.color

/-- A place for a red root is also one for a black root. -/
lemma CtxOk.black {ctx : Ctx α} {k : ℕ} {c : Color} (h : CtxOk ctx k c) : CtxOk ctx k .black := by
  cases ctx with
  | nil => rfl
  | cons f ctx => exact ⟨h.1, fun hr => ⟨rfl, (h.2.1 hr).2⟩, h.2.2⟩

/-- Under a black parent there is a place for a red root. -/
lemma CtxOk.red_of_black {f : Frame α} {ctx : Ctx α} {k : ℕ} {c : Color}
    (h : CtxOk (f :: ctx) k c) (hf : f.color = .black) : CtxOk (f :: ctx) k .red :=
  ⟨h.1, fun hr => by rw [hf] at hr; exact absurd hr (by decide), h.2.2⟩

lemma rb_up {f : Frame α} {t : Tree α} {k : ℕ} (ht : RB t k) (hs : RB f.other k)
    (hred : f.color = .red → t.color = .black ∧ f.other.color = .black) :
    RB (f.up t) (k + f.color.weight) := by
  obtain ⟨d, c, a, s⟩ := f
  cases c with
  | red => exact rb_bin_red.mpr ⟨ht, hs, (hred rfl).1, (hred rfl).2⟩
  | black => exact rb_bin_black.mpr ⟨ht, hs⟩

/-- A node with a nil link on one side is taken away from above the other subtree. -/
lemma rb_of_bin_nil {d : Dir} {c : Color} {t : Tree α} {a : α} {k : ℕ}
    (h : RB (Tree.bin d c .nil a t) k) :
    ∃ j, k = j + c.weight ∧ RB t j ∧ (c = .red → t.color = .black) := by
  cases c with
  | red =>
      obtain ⟨-, ht, -, htc⟩ := rb_bin_red.mp h
      exact ⟨k, rfl, ht, fun _ => htc⟩
  | black =>
      obtain ⟨j, rfl⟩ : ∃ j, k = j + 1 := by
        cases d <;> · obtain ⟨j, hj, -⟩ := h; exact ⟨j, hj⟩
      exact ⟨j, rfl, (rb_bin_black.mp h).2, fun hc => absurd hc (by decide)⟩

lemma eq_nil_of_rb_zero {t : Tree α} (h : RB t 0) (hb : t.color = .black) : t = .nil := by
  cases t with
  | nil => rfl
  | node c l a r =>
      cases c with
      | red => cases hb
      | black =>
          obtain ⟨j, hj, -⟩ := h
          omega

/-- Next to a nil link there is another one, or a red node without children. -/
lemma rb_sibling_nil {d : Dir} {c : Color} {t : Tree α} {a : α} {k : ℕ}
    (h : RB (Tree.bin d c .nil a t) k) : t = .nil ∨ ∃ b, t = .node .red .nil b .nil := by
  have hzero : RB t 0 := by
    cases c with
    | red =>
        obtain ⟨hnil, ht, -, -⟩ := rb_bin_red.mp h
        rw [rb_nil] at hnil
        exact hnil ▸ ht
    | black =>
        obtain ⟨j, rfl⟩ : ∃ j, k = j + 1 := by
          cases d <;> · obtain ⟨j, hj, -⟩ := h; exact ⟨j, hj⟩
        obtain ⟨hnil, ht⟩ := rb_bin_black.mp h
        rw [rb_nil] at hnil
        exact hnil ▸ ht
  cases t with
  | nil => exact .inl rfl
  | node e l b r =>
      cases e with
      | red =>
          obtain ⟨hl, hr, hlc, hrc⟩ := hzero
          exact .inr ⟨b, by rw [eq_nil_of_rb_zero hl hlc, eq_nil_of_rb_zero hr hrc]⟩
      | black =>
          obtain ⟨j, hj, -⟩ := hzero
          omega

/-- **Plugging.**  A red-black subtree in a fitting context is a red-black tree with a black
root. -/
lemma rb_plug {ctx : Ctx α} {t : Tree α} {k : ℕ} (ht : RB t k) (hctx : CtxOk ctx k t.color) :
    ∃ j, RB (plug ctx t) j ∧ (plug ctx t).color = .black := by
  induction ctx generalizing t k with
  | nil => exact ⟨k, ht, hctx⟩
  | cons f ctx ih =>
      obtain ⟨hs, hred, hrest⟩ := hctx
      apply ih (rb_up ht hs hred)
      rw [Frame.up, Tree.color_bin]
      exact hrest

/-- **Focusing.**  Every place of a red-black tree with a black root is a red-black subtree in
a fitting context. -/
lemma rb_of_plug {ctx : Ctx α} {t : Tree α} {j : ℕ} (h : RB (plug ctx t) j)
    (hb : (plug ctx t).color = .black) : ∃ k, RB t k ∧ CtxOk ctx k t.color := by
  induction ctx generalizing t with
  | nil => exact ⟨j, h, hb⟩
  | cons f ctx ih =>
      obtain ⟨k, hk, hctx⟩ := ih h hb
      obtain ⟨d, c, a, s⟩ := f
      rw [Frame.up, Tree.color_bin] at hctx
      rw [Frame.up] at hk
      cases c with
      | red =>
          obtain ⟨ht, hs, htc, hsc⟩ := rb_bin_red.mp hk
          exact ⟨k, ht, hs, fun _ => ⟨htc, hsc⟩, hctx⟩
      | black =>
          obtain ⟨k, rfl⟩ : ∃ i, k = i + 1 := by
            cases d <;> · obtain ⟨i, hi, -⟩ := hk; exact ⟨i, hi⟩
          obtain ⟨ht, hs⟩ := rb_bin_black.mp hk
          exact ⟨k, ht, hs, fun hr => absurd hr (by simp), hctx⟩

/-! ## The invariant in its usual form -/

namespace Tree

/-- No red node has a red child. -/
def NoRedRed : Tree α → Prop
  | nil => True
  | node c l _ r =>
      (c = .red → l.color = .black ∧ r.color = .black) ∧ l.NoRedRed ∧ r.NoRedRed

/-- The number of black nodes on each path from the root to a nil link. -/
def blackPaths : Tree α → List ℕ
  | nil => [0]
  | node c l _ r => (l.blackPaths ++ r.blackPaths).map (· + c.weight)

end Tree

lemma noRedRed_of_rb {t : Tree α} {k : ℕ} (h : RB t k) : t.NoRedRed := by
  induction t generalizing k with
  | nil => trivial
  | node c l a r ihl ihr =>
      cases c with
      | red => exact ⟨fun _ => ⟨h.2.2.1, h.2.2.2⟩, ihl h.1, ihr h.2.1⟩
      | black =>
          obtain ⟨j, -, hl, hr⟩ := h
          exact ⟨fun hc => absurd hc (by decide), ihl hl, ihr hr⟩

lemma blackPaths_of_rb {t : Tree α} {k : ℕ} (h : RB t k) : ∀ p ∈ t.blackPaths, p = k := by
  induction t generalizing k with
  | nil => simpa [Tree.blackPaths] using h.symm
  | node c l a r ihl ihr =>
      intro p hp
      simp only [Tree.blackPaths, List.mem_map, List.mem_append] at hp
      obtain ⟨q, hq, rfl⟩ := hp
      cases c with
      | red =>
          rcases hq with hq | hq
          · exact ihl h.1 q hq
          · exact ihr h.2.1 q hq
      | black =>
          obtain ⟨j, rfl, hl, hr⟩ := h
          rcases hq with hq | hq
          · rw [ihl hl q hq]
            rfl
          · rw [ihr hr q hq]
            rfl

/-- A tree of black height `k` has at least `2 ^ k - 1` nodes. -/
lemma two_pow_le_of_rb {t : Tree α} {k : ℕ} (h : RB t k) : 2 ^ k ≤ t.nodes.length + 1 := by
  induction t generalizing k with
  | nil =>
      rw [rb_nil] at h
      simp [h]
  | node c l a r ihl ihr =>
      rw [Tree.nodes_node, List.length_append, List.length_cons]
      cases c with
      | red =>
          have := ihl h.1
          omega
      | black =>
          obtain ⟨j, rfl, hl, hr⟩ := h
          have h1 := ihl hl
          have h2 := ihr hr
          rw [Nat.pow_succ]
          omega

/-- At least every second node of a path is black. -/
lemma height_le_of_rb {t : Tree α} {k : ℕ} (h : RB t k) :
    t.height ≤ 2 * k + (if t.color = .red then 1 else 0) := by
  induction t generalizing k with
  | nil => simp [Tree.height]
  | node c l a r ihl ihr =>
      rw [Tree.height, Tree.color_node]
      cases c with
      | red =>
          have h1 := ihl h.1
          have h2 := ihr h.2.1
          rw [if_neg (by rw [h.2.2.1]; decide)] at h1
          rw [if_neg (by rw [h.2.2.2]; decide)] at h2
          rw [if_pos rfl]
          omega
      | black =>
          obtain ⟨j, rfl, hl, hr⟩ := h
          have h1 := ihl hl
          have h2 := ihr hr
          rw [if_neg (by decide)]
          split_ifs at h1 h2 <;> omega

/-- **The height is logarithmic.** -/
lemma height_le_logb {t : Tree α} {k : ℕ} (h : RB t k) (hb : t.color = .black) :
    (t.height : ℝ) ≤ 2 * Real.logb 2 (t.nodes.length + 1) := by
  have h1 := height_le_of_rb h
  rw [if_neg (by rw [hb]; decide), Nat.add_zero] at h1
  have h2 : ((2 : ℝ) ^ k) ≤ t.nodes.length + 1 := by exact_mod_cast two_pow_le_of_rb h
  have hk : (k : ℝ) ≤ Real.logb 2 (t.nodes.length + 1) := by
    rw [Real.le_logb_iff_rpow_le (by norm_num) (by positivity), Real.rpow_natCast]
    exact h2
  calc (t.height : ℝ) ≤ ((2 * k : ℕ) : ℝ) := by exact_mod_cast h1
    _ = 2 * (k : ℝ) := by push_cast; ring
    _ ≤ 2 * Real.logb 2 (t.nodes.length + 1) := by linarith

end LinuxC
