import LinuxC.Framework.OrderedList
import LinuxC.Framework.RedBlackTree

/-!
# Searching in an ordered tree

A search is led by a function `f` on the nodes: it ends where `f` is zero, goes right where `f` is
positive and left where `f` is negative.  `Guides f xs` says that `f` is positive first, then zero at
most once, then negative along the list `xs`; this is what a comparison with a fixed item does on an
ordered list.

`locate f ctx t` is the place where the search through the subtree `t` ends.  When `f` guides the
search it ends between the smaller and the greater nodes (`splits_locate`).
-/

namespace LinuxC

variable {α : Type}

/-- Along the list the function is positive, then zero at most once, then negative. -/
def Guides (f : α → ℤ) (xs : List α) : Prop :=
  xs.Pairwise fun a b => (f a ≤ 0 → f b < 0) ∧ (0 ≤ f b → 0 < f a)

/-- The nodes left of the place are greater than zero under `f`, those right of it less. -/
def Splits (f : α → ℤ) (ctx : Ctx α) : Prop :=
  (∀ m ∈ ctx.before, 0 < f m) ∧ ∀ m ∈ ctx.after, f m < 0

/-- Where the search for a zero of `f` ends. -/
def locate (f : α → ℤ) : Ctx α → Tree α → Ctx α × Tree α
  | ctx, .nil => (ctx, .nil)
  | ctx, .node c l a r =>
      if f a = 0 then (ctx, .node c l a r)
      else if 0 < f a then locate f (⟨.right, c, a, l⟩ :: ctx) r
      else locate f (⟨.left, c, a, r⟩ :: ctx) l

/-- The number of nodes that the search for a zero of `f` passes. -/
def passes (f : α → ℤ) : Tree α → ℕ
  | .nil => 0
  | .node _ l a r => if f a = 0 then 0 else if 0 < f a then passes f r + 1 else passes f l + 1

variable {f : α → ℤ}

lemma length_locate (f : α → ℤ) (ctx : Ctx α) (t : Tree α) :
    (locate f ctx t).1.length = ctx.length + passes f t := by
  induction t generalizing ctx with
  | nil => rfl
  | node c l a r ihl ihr =>
      rw [locate, passes]
      split_ifs
      · rfl
      · rw [ihr, List.length_cons]
        omega
      · rw [ihl, List.length_cons]
        omega

lemma passes_le_height (f : α → ℤ) (t : Tree α) : passes f t ≤ t.height := by
  induction t with
  | nil => rfl
  | node c l a r ihl ihr =>
      rw [passes, Tree.height]
      split_ifs
      · omega
      · omega
      · omega

lemma splits_nil : Splits f [] := by simp [Splits, Ctx.before, Ctx.after]

lemma guides_node {c : Color} {l r : Tree α} {a : α} (h : Guides f (Tree.node c l a r).nodes) :
    Guides f l.nodes ∧ Guides f r.nodes ∧ (0 ≤ f a → ∀ m ∈ l.nodes, 0 < f m) ∧
      (f a ≤ 0 → ∀ m ∈ r.nodes, f m < 0) := by
  rw [Guides, Tree.nodes_node, List.pairwise_append, List.pairwise_cons] at h
  obtain ⟨hl, ⟨har, hr⟩, hla⟩ := h
  exact ⟨hl, hr, fun h0 m hm => (hla m hm a (by simp)).2 h0, fun h0 m hm => (har m hm).1 h0⟩

lemma plug_locate (f : α → ℤ) (ctx : Ctx α) (t : Tree α) :
    plug (locate f ctx t).1 (locate f ctx t).2 = plug ctx t := by
  induction t generalizing ctx with
  | nil => rfl
  | node c l a r ihl ihr =>
      rw [locate]
      split_ifs
      · rfl
      · exact ihr _
      · exact ihl _

/-- The search ends at a zero or at an empty place. -/
lemma locate_cases (f : α → ℤ) (ctx : Ctx α) (t : Tree α) :
    (locate f ctx t).2 = .nil ∨
      ∃ c l a r, (locate f ctx t).2 = .bin .left c l a r ∧ a ∈ t.nodes ∧ f a = 0 := by
  induction t generalizing ctx with
  | nil => exact .inl rfl
  | node c l a r ihl ihr =>
      rw [locate]
      split_ifs with h0 hpos
      · exact .inr ⟨c, l, a, r, rfl, by simp, h0⟩
      · refine (ihr _).imp id ?_
        rintro ⟨c', l', a', r', he, hm, h0'⟩
        exact ⟨c', l', a', r', he, by simp [hm], h0'⟩
      · refine (ihl _).imp id ?_
        rintro ⟨c', l', a', r', he, hm, h0'⟩
        exact ⟨c', l', a', r', he, by simp [hm], h0'⟩

/-- **The search ends between the smaller and the greater nodes.** -/
lemma splits_locate {ctx : Ctx α} {t : Tree α} (h : Guides f t.nodes) (hctx : Splits f ctx) :
    Splits f (locate f ctx t).1 := by
  induction t generalizing ctx with
  | nil => exact hctx
  | node c l a r ihl ihr =>
      obtain ⟨hl, hr, hleft, hright⟩ := guides_node h
      rw [locate]
      split_ifs with h0 hpos
      · exact hctx
      · refine ihr hr ⟨fun m hm => ?_, hctx.2⟩
        simp only [Ctx.before, List.mem_append, List.mem_cons, List.not_mem_nil, or_false] at hm
        rcases hm with hm | hm | rfl
        · exact hctx.1 m hm
        · exact hleft hpos.le m hm
        · exact hpos
      · have hneg : f a < 0 := by omega
        refine ihl hl ⟨hctx.1, fun m hm => ?_⟩
        simp only [Ctx.after, List.mem_append, List.mem_cons] at hm
        rcases hm with (rfl | hm) | hm
        · exact hneg
        · exact hright hneg.le m hm
        · exact hctx.2 m hm

lemma locate_of_zero {t : Tree α} (h : Guides f t.nodes) {x : α} (hx : x ∈ t.nodes)
    (h0 : f x = 0) : ∃ c l r, (locate f [] t).2 = .bin .left c l x r := by
  have hplug := plug_locate f [] t
  have hsplit := splits_locate h (splits_nil (f := f))
  have hnot : ∀ m ∈ (locate f [] t).1.nodes, f m ≠ 0 := by
    intro m hm
    rcases List.mem_append.mp hm with hm | hm
    · exact (hsplit.1 m hm).ne'
    · exact (hsplit.2 m hm).ne
  have hmem : x ∈ (plug (locate f [] t).1 (locate f [] t).2).nodes := by
    rw [hplug]
    exact hx
  rw [(nodes_plug_perm _ _).mem_iff, List.mem_append] at hmem
  have hmem := hmem.resolve_right fun hm => hnot x hm h0
  rcases locate_cases f [] t with hnil | ⟨c, l, a, r, he, ha, ha0⟩
  · rw [hnil] at hmem
    simp at hmem
  · -- next to the zero `a` there is no other one
    have hguides : Guides f (Tree.node c l a r).nodes := by
      rw [← show (locate f [] t).2 = .node c l a r from he]
      rw [Guides, ← show plug (locate f [] t).1 (locate f [] t).2 = t from hplug, nodes_plug] at h
      exact (List.pairwise_append.mp (List.pairwise_append.mp h).1).2.1
    obtain ⟨-, -, hleft, hright⟩ := guides_node hguides
    rw [he, Tree.mem_nodes_bin] at hmem
    rcases hmem with hm | rfl | hm
    · have := hleft ha0.ge x hm
      omega
    · exact ⟨c, l, r, he⟩
    · have := hright ha0.le x hm
      omega

/-- Comparing with an item guides the search in an ordered tree. -/
lemma Sorted.guides {cmp : α → α → ℤ} {xs : List α} (h : Sorted cmp xs)
    (hbelow : ∀ a ∈ xs, ∀ b ∈ xs, cmp a b < 0 → f a ≤ 0 → f b < 0)
    (habove : ∀ a ∈ xs, ∀ b ∈ xs, cmp a b < 0 → 0 ≤ f b → 0 < f a) : Guides f xs :=
  List.Pairwise.imp_of_mem (fun ha hb hab => ⟨hbelow _ ha _ hb hab, habove _ ha _ hb hab⟩) h

lemma Comparator.guides {cmp : α → α → ℤ} (hcmp : Comparator cmp) {xs : List α}
    (h : Sorted cmp xs) (n : α) : Guides (cmp n) xs := by
  refine h.guides (fun a _ b _ hab hna => hcmp.trans n a b hna hab) fun a _ b _ hab hnb => ?_
  by_contra hle
  have := hcmp.trans n a b (not_lt.mp hle) hab
  omega

/-- A new node at the place that splits the others is in order. -/
lemma Comparator.sorted_insert {cmp : α → α → ℤ} (hcmp : Comparator cmp) {n : α} {ctx : Ctx α}
    (h : Sorted cmp (plug ctx .nil).nodes) (hsplit : Splits (cmp n) ctx) (c : Color) :
    Sorted cmp (plug ctx (.bin .left c .nil n .nil)).nodes := by
  simp only [nodes_plug, Tree.bin, Tree.nodes_node, Tree.nodes_nil, List.append_nil,
    List.nil_append, List.append_assoc, List.singleton_append, Sorted, List.pairwise_append] at h ⊢
  obtain ⟨hbefore, hafter, hcross⟩ := h
  refine ⟨hbefore, List.pairwise_cons.mpr ⟨hsplit.2, hafter⟩, fun a ha b hb => ?_⟩
  rcases List.mem_cons.mp hb with rfl | hb
  · exact (hcmp.swap b a).mp (hsplit.1 a ha)
  · exact hcross a ha b hb

end LinuxC
