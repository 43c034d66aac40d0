import LinuxC.Bst.Balance

/-!
# Iterators

`Stacked it as` says that the stack of the iterator holds the nodes `as`, the root at the bottom.
An iterator is `Valid` when its current node is in the tree, not deeper than the stack is long, and
the nodes above it are on the stack, unless the generation of the table has moved on.

Each loop of the iterator functions is described for itself: it arrives with the right stack, or the
stack is full, and then the tree is higher than the stack is long.  So a function that has balanced
the tree does not meet a full stack again; `IsTree.step` and `IsTree.end` say what the functions
return, whether they balance the tree or not.
-/

namespace LinuxC.Bst

open Rb (endOf)

variable {N I : Type}

/-! ## The stack -/

/-- The stack holds the nodes `as`, root first. -/
structure Stacked (it : BstIterator N) (as : List N) : Prop where
  height : it.height = as.length
  entry : ∀ i < as.length, it.stack i = as[i]?

/-- The nodes above a place, root first. -/
def names (ctx : Ctx N) : List N := (ctx.map Frame.node).reverse

@[simp] lemma names_nil : names ([] : Ctx N) = [] := rfl

@[simp] lemma names_cons (f : Frame N) (ctx : Ctx N) :
    names (f :: ctx) = names ctx ++ [f.node] := by
  simp [names]

@[simp] lemma length_names (ctx : Ctx N) : (names ctx).length = ctx.length := by simp [names]

/-- The root of the subtree lies below the nodes of the context. -/
lemma at_names (ctx : Ctx N) {S : Tree N} {x : N} (h : At S [] x) :
    At (plug ctx S) (names ctx) x := by
  have hat : At (plug ctx S) (names ctx ++ []) x := at_plug h
  rwa [List.append_nil] at hat

lemma stacked_nil {it : BstIterator N} (h : it.height = 0) : Stacked it [] := ⟨h, by simp⟩

/-- **Pushing.** -/
lemma Stacked.push {it : BstIterator N} {as : List N} (h : Stacked it as) {maxHeight : ℕ} (x : N)
    (hroom : as.length < maxHeight) :
    ∃ it', it.push maxHeight x = .ok it' ∧ Stacked it' (as ++ [x]) ∧ it'.node = it.node ∧
      it'.generation = it.generation := by
  refine ⟨{ it with stack := Function.update it.stack it.height (some x), height := it.height + 1 },
    ?_, ⟨?_, ?_⟩, rfl, rfl⟩
  · rw [BstIterator.push, if_pos (by rw [h.height]; exact hroom)]
  · simp [h.height]
  · intro i hi
    rw [List.length_append, List.length_singleton] at hi
    by_cases hlast : i = it.height
    · subst hlast
      simp [h.height]
    · have hi' : i < as.length := by
        have := h.height
        omega
      rw [List.getElem?_append_left hi']
      simpa [hlast] using h.entry i hi'

/-- **Popping.** -/
lemma Stacked.pop {it : BstIterator N} {as : List N} {x : N} (h : Stacked it (as ++ [x])) :
    it.height ≠ 0 ∧ it.stack (it.height - 1) = some x ∧
      Stacked { it with height := it.height - 1 } as := by
  have hheight : it.height = as.length + 1 := by simpa using h.height
  refine ⟨by omega, ?_, ⟨by simp [hheight], fun i hi => ?_⟩⟩
  · have hentry := h.entry as.length (by simp)
    rw [List.getElem?_concat_length] at hentry
    simpa [hheight] using hentry
  · have hentry := h.entry i (by simp; omega)
    rwa [List.getElem?_append_left hi] at hentry

lemma Stacked.of_eq {it it' : BstIterator N} {as : List N} (h : Stacked it as)
    (hstack : it'.stack = it.stack) (hheight : it'.height = it.height) : Stacked it' as :=
  ⟨hheight.trans h.height, fun i hi => by rw [hstack]; exact h.entry i hi⟩

/-! ## The loops -/

section Loops

variable {cmp : N → N → ℤ} {t : BstTable N}

/-- The comparison leads back to the node from above. -/
lemma side_of_sorted (hcmp : Comparator cmp) {f : Frame N} {ctx : Ctx N} {S : Tree N} {x : N}
    (h : Sorted cmp (plug (f :: ctx) S).nodes) (hx : x ∈ S.nodes) :
    side (cmp x f.node) = f.dir := by
  obtain ⟨d, c, a, s⟩ := f
  rw [Sorted, nodes_plug] at h
  cases d with
  | left =>
      have hlt : cmp x a < 0 := by
        refine (List.pairwise_append.mp h).2.2 x (List.mem_append_right _ hx) a ?_
        simp [Ctx.after]
      exact side_of_neg (not_lt.mpr hlt.le)
  | right =>
      have hlt : cmp a x < 0 := by
        refine (List.pairwise_append.mp (List.pairwise_append.mp h).1).2.2 a ?_ x hx
        simp [Ctx.before]
      exact side_of_pos ((hcmp.swap x a).mpr hlt)

/-- **The loop of `bst_iterator_refresh`** puts the nodes above the current one on the stack. -/
lemma refreshLoop_spec [DecidableEq N] (hcmp : Comparator cmp) {ctx ctxx : Ctx N} {c : Color}
    {L R : Tree N} {x : N} {it : BstIterator N} {fuel : ℕ}
    (h : Holds t (plug ctx (plug ctxx (.bin .left c L x R))))
    (hsorted : Sorted cmp (plug ctx (plug ctxx (.bin .left c L x R))).nodes)
    (hstack : Stacked it (names ctx)) (hdepth : ctxx.length + ctx.length ≤ t.maxHeight)
    (hfuel : ctxx.length < fuel) :
    ∃ it', refreshLoop cmp x t fuel (plug ctxx (.bin .left c L x R)).root? it = .ok it' ∧
      Stacked it' (names (ctxx ++ ctx)) ∧ it'.node = it.node ∧ it'.generation = it.generation := by
  induction ctxx using List.reverseRecOn generalizing ctx it fuel with
  | nil =>
      obtain ⟨fuel, rfl⟩ : ∃ k, fuel = k + 1 := ⟨fuel - 1, by omega⟩
      refine ⟨it, ?_, hstack, rfl, rfl⟩
      rw [plug, Tree.root?_bin, refreshLoop, if_pos rfl]
  | append_singleton ctxx f ih =>
      rw [List.length_append, List.length_singleton] at hdepth hfuel
      obtain ⟨fuel, rfl⟩ : ∃ k, fuel = k + 1 := ⟨fuel - 1, by omega⟩
      have hplug : plug (ctxx ++ [f]) (.bin .left c L x R) =
          .bin f.dir f.color (plug ctxx (.bin .left c L x R)) f.node f.other := by
        rw [plug_append]
        rfl
      rw [hplug] at h hsorted ⊢
      have hx : x ∈ (plug ctxx (.bin .left c L x R)).nodes :=
        (nodes_plug_perm _ _).mem_iff.mpr
          (List.mem_append_left _ (Tree.mem_nodes_bin.mpr (.inr (.inl rfl))))
      have hne : f.node ≠ x := by
        rintro rfl
        exact (Tree.nodup_nodes_bin.mp (nodup_nodes_plug.mp h.nodup).1).1 hx
      have hroom : (names ctx).length < t.maxHeight := by
        rw [length_names]
        omega
      obtain ⟨it₁, hpush, hstack₁, hnode₁, hgen₁⟩ := hstack.push f.node hroom
      have hstack₂ : Stacked it₁ (names (f :: ctx)) := by rwa [names_cons]
      have hdepth₁ : ctxx.length + (f :: ctx).length ≤ t.maxHeight := by
        rw [List.length_cons]
        omega
      obtain ⟨it', heval, hstack', hnode', hgen'⟩ :=
        ih h hsorted hstack₂ hdepth₁ (by omega : ctxx.length < fuel)
      refine ⟨it', ?_, by simpa using hstack', hnode'.trans hnode₁, hgen'.trans hgen₁⟩
      rw [Tree.root?_bin, refreshLoop, if_neg (by simpa using hne),
        if_pos (by rw [hstack.height]; exact hroom)]
      simp only [hpush, side_of_sorted hcmp hsorted hx, h.link.1]
      exact heval

/-- **The descent on side `d`** arrives at the last node, or the edge of the tree is longer than the
stack. -/
lemma descend_spec {d : Dir} {ctx : Ctx N} {S : Tree N} {y : N} {it : BstIterator N} {fuel : ℕ}
    (h : Holds t (plug ctx S)) (hy : S.root? = some y) (hstack : Stacked it (names ctx))
    (hdepth : ctx.length ≤ t.maxHeight) (hfuel : S.nodes.length < fuel) :
    ∃ r it', descend d t fuel y it = .ok (r, it') ∧ it'.node = it.node ∧
      it'.generation = it.generation ∧
      ((r = none ∧ t.maxHeight + 1 < ctx.length + spine d S) ∨
        ∃ ctx' c x C, S = plug ctx' (.bin d c .nil x C) ∧ (∀ f ∈ ctx', f.dir = d) ∧ r = some x ∧
          Stacked it' (names (ctx' ++ ctx)) ∧ (ctx' ++ ctx).length ≤ t.maxHeight) := by
  induction fuel generalizing S ctx y it with
  | zero => omega
  | succ fuel ih =>
      obtain ⟨c, A, B, rfl⟩ := Tree.exists_bin_of_root? d hy
      have hlink := h.link.1
      have hlen := (Tree.nodes_bin_perm d c A y B).length_eq
      rw [List.length_cons, List.length_append] at hlen
      cases hA : A.root? with
      | none =>
          obtain rfl : A = .nil := Tree.eq_nil_of_root? hA
          refine ⟨some y, it, ?_, rfl, rfl, .inr ⟨[], c, y, B, rfl, by simp, rfl, hstack, hdepth⟩⟩
          rw [descend, hlink]
          rfl
      | some z =>
          rw [hA] at hlink
          by_cases hfull : t.maxHeight ≤ it.height
          · refine ⟨none, it, ?_, rfl, rfl, .inl ⟨rfl, ?_⟩⟩
            · rw [descend, hlink]
              exact if_pos hfull
            · obtain ⟨c', A₁, A₂, rfl⟩ := Tree.exists_bin_of_root? d hA
              rw [hstack.height, length_names] at hfull
              rw [spine_bin, spine_bin]
              omega
          · have hroom : (names ctx).length < t.maxHeight := by
              rw [← hstack.height]
              omega
            obtain ⟨it₁, hpush, hstack₁, hnode₁, hgen₁⟩ := hstack.push y hroom
            have hstack₂ : Stacked it₁ (names (⟨d, c, y, B⟩ :: ctx)) := by simpa using hstack₁
            rw [length_names] at hroom
            obtain ⟨r, it', heval, hnode', hgen', hend⟩ :=
              ih h.down hA hstack₂ hroom (by omega : A.nodes.length < fuel)
            refine ⟨r, it', ?_, hnode'.trans hnode₁, hgen'.trans hgen₁, ?_⟩
            · rw [descend, hlink]
              simp only [if_neg hfull, hpush]
              exact heval
            · rcases hend with ⟨hr, hlong⟩ | ⟨ctx', c', x, C, rfl, hdirs, hr, hst, hle⟩
              · rw [List.length_cons] at hlong
                rw [spine_bin]
                exact .inl ⟨hr, by omega⟩
              · refine .inr ⟨ctx' ++ [⟨d, c, y, B⟩], c', x, C, ?_, ?_, hr, ?_, ?_⟩
                · rw [plug_append]
                  rfl
                · intro f hf
                  rw [List.mem_append, List.mem_singleton] at hf
                  rcases hf with hf | rfl
                  · exact hdirs f hf
                  · rfl
                · rwa [List.append_assoc]
                · rwa [List.append_assoc]

/-- The nodes of the context on side `d` of the place. -/
def beyond (d : Dir) (ctx : Ctx N) : List N :=
  match d with
  | .left => ctx.before
  | .right => ctx.after

/-- **The climb** ends at the next node on side `d` outside the subtree. -/
lemma climb_spec [DecidableEq N] {d : Dir} {ctx : Ctx N} {S : Tree N} {y : N} {it : BstIterator N}
    {fuel : ℕ} (h : Holds t (plug ctx S)) (hy : S.root? = some y) (hstack : Stacked it (names ctx))
    (hfuel : ctx.length < fuel) :
    ∃ r it', climb d t fuel y it = .ok (r, it') ∧ r = endOf d.opp (beyond d ctx) ∧
      it'.generation = it.generation ∧
      ∀ x, r = some x → ∃ as, At (plug ctx S) as x ∧ as.length ≤ ctx.length ∧ Stacked it' as := by
  induction ctx generalizing S y it fuel with
  | nil =>
      obtain ⟨fuel, rfl⟩ : ∃ k, fuel = k + 1 := ⟨fuel - 1, by omega⟩
      refine ⟨none, it, ?_, ?_, rfl, by simp⟩
      · rw [climb, if_pos (by simpa using hstack.height)]
      · cases d <;> rfl
  | cons f ctx ih =>
      obtain ⟨fuel, rfl⟩ : ∃ k, fuel = k + 1 := ⟨fuel - 1, by omega⟩
      rw [List.length_cons] at hfuel
      rw [names_cons] at hstack
      obtain ⟨hne, htop, hrest⟩ := hstack.pop
      have hother : f.other.root? ≠ some y := by
        have hother := root?_other_ne h.nodup (.inl (by simp [hy]))
        rwa [hy] at hother
      obtain ⟨hdir, hopp, -, -⟩ := (rep_plug.mp h.rep).1
      rw [hy] at hdir
      have heval : climb d t (fuel + 1) y it =
          if t.link f.node d = some y then climb d t fuel f.node { it with height := it.height - 1 }
          else .ok (some f.node, { it with height := it.height - 1 }) := by
        rw [climb, if_neg hne, htop]
      by_cases hd : f.dir = d
      · -- from side `d`: the node is not beyond the subtree
        have hup : Holds t (plug ctx (f.up S)) := h
        have hroot : (f.up S).root? = some f.node := by simp [Frame.up]
        obtain ⟨r, it', hclimb, hr, hgen, hat⟩ :=
          ih hup hroot hrest (by omega : ctx.length < fuel)
        refine ⟨r, it', ?_, ?_, hgen, fun x hx => ?_⟩
        · rw [heval, if_pos (by rw [← hd]; exact hdir)]
          exact hclimb
        · rw [hr]
          obtain ⟨e, c, a, s⟩ := f
          subst hd
          cases e <;> simp [beyond, Ctx.before, Ctx.after]
        · obtain ⟨as, hx, hle, hst⟩ := hat x hx
          exact ⟨as, hx, by simp; omega, hst⟩
      · have hopp' : d = f.dir.opp := by
          cases hfd : f.dir <;> cases d <;> simp_all [Dir.opp]
        refine ⟨some f.node, { it with height := it.height - 1 }, ?_, ?_, rfl, fun x hx => ?_⟩
        · rw [heval, if_neg]
          rw [hopp', hopp]
          exact hother
        · obtain ⟨e, c, a, s⟩ := f
          subst hopp'
          cases e <;> simp [beyond, Ctx.before, Ctx.after, endOf, Dir.opp]
        · obtain rfl : f.node = x := by simpa using hx
          refine ⟨names ctx, ?_, by simp, hrest⟩
          have hup : At (f.up S) [] f.node := at_bin_nil.mpr rfl
          exact at_names ctx hup

/-- How the loop of `bst_iterator_find` and `bst_iterator_insert` ends, from the place where
`locate` ends. -/
inductive Sought (t : BstTable N) (it : BstIterator N) (r : Ctx N × Tree N) :
    Descent N → Prop
  | full {it' : BstIterator N} : t.maxHeight < r.1.length → it'.node = it.node →
      it'.generation = it.generation → Sought t it r (.full it')
  | outside {it' : BstIterator N} : r.2 = .nil → Stacked it' (names r.1) →
      it'.generation = it.generation → r.1.length ≤ t.maxHeight →
      Sought t it r (.outside (placeOf r.1) (dirOf r.1) it')
  | arrived {it' : BstIterator N} {c : Color} {l R : Tree N} {x : N} :
      r.2 = .node c l x R → Stacked it' (names r.1) → it'.generation = it.generation →
      r.1.length ≤ t.maxHeight → Sought t it r (.arrived x it')

lemma seek_spec {f : N → ℤ} {ctx : Ctx N} {S : Tree N} {it : BstIterator N} {fuel : ℕ}
    (h : Holds t (plug ctx S)) (hstack : Stacked it (names ctx)) (hroom : ctx.length ≤ t.maxHeight)
    (hfuel : S.nodes.length < fuel) :
    ∃ e, seek f t fuel (placeOf ctx) (dirOf ctx) it = .ok e ∧
      Sought t it (locate f ctx S) e := by
  induction S generalizing ctx it fuel with
  | nil =>
      obtain ⟨fuel, rfl⟩ : ∃ k, fuel = k + 1 := ⟨fuel - 1, by omega⟩
      refine ⟨_, ?_, .outside rfl hstack rfl hroom⟩
      rw [seek, h.load]
      rfl
  | node c l a r ihl ihr =>
      obtain ⟨fuel, rfl⟩ : ∃ k, fuel = k + 1 := ⟨fuel - 1, by omega⟩
      rw [Tree.nodes_node, List.length_append, List.length_cons] at hfuel
      have hload : t.load (placeOf ctx) (dirOf ctx) = some a := h.load
      rw [locate]
      by_cases h0 : f a = 0
      · rw [if_pos h0]
        refine ⟨_, ?_, .arrived rfl hstack rfl hroom⟩
        rw [seek, hload]
        exact if_pos h0
      · rw [if_neg h0]
        by_cases hfull : t.maxHeight ≤ it.height
        · refine ⟨.full it, ?_, .full ?_ rfl rfl⟩
          · rw [seek, hload]
            simp only [if_neg h0, if_pos hfull]
          · rw [hstack.height, length_names] at hfull
            split_ifs
            · rw [length_locate, List.length_cons]
              omega
            · rw [length_locate, List.length_cons]
              omega
        · have hroom' : (names ctx).length < t.maxHeight := by
            rw [← hstack.height]
            omega
          obtain ⟨it₁, hpush, hstack₁, hnode₁, hgen₁⟩ := hstack.push a hroom'
          rw [length_names] at hroom'
          have heval : ∀ e, seek f t fuel (.node a) (side (f a)) it₁ = .ok e →
              seek f t (fuel + 1) (placeOf ctx) (dirOf ctx) it = .ok e := by
            intro e he
            rw [seek, hload]
            simp only [if_neg h0, if_neg hfull, hpush]
            exact he
          have hback : ∀ {e : Descent N} {q : Ctx N × Tree N},
              Sought t it₁ q e → Sought t it q e := by
            intro e q he
            cases he with
            | full h1 h2 h3 => exact .full h1 (h2.trans hnode₁) (h3.trans hgen₁)
            | outside h1 h2 h3 h4 => exact .outside h1 h2 (h3.trans hgen₁) h4
            | arrived h1 h2 h3 h4 => exact .arrived h1 h2 (h3.trans hgen₁) h4
          by_cases hpos : 0 < f a
          · rw [if_pos hpos]
            have hdown : Holds t (plug (⟨.right, c, a, l⟩ :: ctx) r) := h
            obtain ⟨e, he, hsought⟩ := ihr hdown (by simpa using hstack₁) (by simpa using hroom')
              (by omega : r.nodes.length < fuel)
            exact ⟨e, heval e (by rw [side_of_pos hpos]; exact he), hback hsought⟩
          · rw [if_neg hpos]
            have hdown : Holds t (plug (⟨.left, c, a, r⟩ :: ctx) l) := h
            obtain ⟨e, he, hsought⟩ := ihl hdown (by simpa using hstack₁) (by simpa using hroom')
              (by omega : l.nodes.length < fuel)
            exact ⟨e, heval e (by rw [side_of_neg hpos]; exact he), hback hsought⟩

end Loops

/-! ## Neighbours -/

/-- `r` is the neighbour of `x` on side `d` in the order `xs`; the null node stands before the first
node and behind the last one. -/
def Adjacent (d : Dir) (xs : List N) : Option N → Option N → Prop
  | none, r => r = endOf d.opp xs
  | some x, r => ∃ ys zs, xs = ys ++ x :: zs ∧
      r = endOf d.opp (match d with
        | .left => ys
        | .right => zs)

lemma adjacent_nil (d : Dir) (ctx : Ctx N) (c : Color) (x : N) (B : Tree N) :
    Adjacent d (plug ctx (.bin d c .nil x B)).nodes (some x) (endOf d.opp (beyond d ctx)) := by
  cases d with
  | left => exact ⟨ctx.before, B.nodes ++ ctx.after, by simp [nodes_plug, Tree.bin], rfl⟩
  | right => exact ⟨ctx.before ++ B.nodes, ctx.after, by simp [nodes_plug, Tree.bin], rfl⟩

lemma adjacent_bin {d : Dir} (ctx : Ctx N) (c : Color) {A : Tree N} (x : N) (B : Tree N) {y : N}
    (hy : endOf d.opp A.nodes = some y) :
    Adjacent d (plug ctx (.bin d c A x B)).nodes (some x) (some y) := by
  cases d with
  | left =>
      refine ⟨ctx.before ++ A.nodes, B.nodes ++ ctx.after, by simp [nodes_plug, Tree.bin], ?_⟩
      have hy : A.nodes.getLast? = some y := hy
      simp [endOf, Dir.opp, List.getLast?_append, hy]
  | right =>
      refine ⟨ctx.before ++ B.nodes, A.nodes ++ ctx.after, by simp [nodes_plug, Tree.bin], ?_⟩
      have hy : A.nodes.head? = some y := hy
      simp [endOf, Dir.opp, List.head?_append, hy]

lemma endOf_plug {d : Dir} {ctx : Ctx N} (h : ∀ f ∈ ctx, f.dir = d) (c : Color) (x : N)
    (C : Tree N) : endOf d (plug ctx (.bin d c .nil x C)).nodes = some x := by
  cases d with
  | left => simp [endOf, nodes_plug, Tree.bin, Ctx.before_eq_nil h]
  | right => simp [endOf, nodes_plug, Tree.bin, Ctx.after_eq_nil h]

/-! ## Valid iterators -/

/-- The current node is in the tree, and the stack is long enough for the nodes above it.  They are
on the stack unless the generation has moved on. -/
structure Valid (t : BstTable N) (T : Tree N) (it : BstIterator N) : Prop where
  generation_le : it.generation ≤ t.generation
  path : ∀ x, it.node = some x → ∃ as, At T as x ∧ as.length ≤ t.maxHeight ∧
    (it.generation = t.generation → Stacked it as)

/-- The generation of the iterator tells whether the stack is right. -/
def Fresh (t : BstTable N) (it : BstIterator N) : Prop :=
  sameGeneration it.generation t.generation → it.generation = t.generation

/-- The tree was balanced. -/
structure Balanced (cmp : N → N → ℤ) (t : BstTable N) (T : Tree N) (t' : BstTable N)
    (T' : Tree N) : Prop where
  isTree : IsTree cmp t' T'
  nodes : T'.nodes = T.nodes
  height : T'.height ≤ t'.maxHeight
  generation : t'.generation = t.generation + 1
  maxHeight : t'.maxHeight = t.maxHeight

/-- The tree was balanced, or nothing happened to it. -/
def Rebalanced (cmp : N → N → ℤ) (t : BstTable N) (T : Tree N) (t' : BstTable N) (T' : Tree N) :
    Prop :=
  t' = t ∧ T' = T ∨ Balanced cmp t T t' T'

section Frame

variable {cmp : N → N → ℤ} {t t' : BstTable N} {T T' : Tree N} {it : BstIterator N}

lemma valid_none (hnode : it.node = none) (hgen : it.generation = t.generation) :
    Valid t T it := ⟨hgen.le, by simp [hnode]⟩

lemma valid_of_stacked {as : List N} {x : N} (hx : At T as x) (hle : as.length ≤ t.maxHeight)
    (hnode : it.node = some x) (hstack : Stacked it as) (hgen : it.generation = t.generation) :
    Valid t T it := by
  refine ⟨hgen.le, fun y hy => ?_⟩
  obtain rfl : x = y := Option.some.inj (hnode.symm.trans hy)
  exact ⟨as, hx, hle, fun _ => hstack⟩

lemma Valid.keeps (h : Valid t T it) (hkeeps : Keeps T T') (hgen : t'.generation = t.generation)
    (hmax : t'.maxHeight = t.maxHeight) : Valid t' T' it := by
  refine ⟨hgen ▸ h.generation_le, fun x hx => ?_⟩
  obtain ⟨as, hat, hle, hst⟩ := h.path x hx
  exact ⟨as, hkeeps as x hat, hmax ▸ hle, fun heq => hst (heq.trans hgen)⟩

/-- A change of the tree at which the generation moves on. -/
lemma Valid.moved (h : Valid t T it) (hgen : t'.generation = t.generation + 1)
    (hpath : ∀ as x, it.node = some x → At T as x → as.length ≤ t.maxHeight →
      ∃ as', At T' as' x ∧ as'.length ≤ t'.maxHeight) : Valid t' T' it := by
  have hle := h.generation_le
  refine ⟨by omega, fun x hx => ?_⟩
  obtain ⟨as, hat, hle, -⟩ := h.path x hx
  obtain ⟨as', hat', hle'⟩ := hpath as x hx hat hle
  exact ⟨as', hat', hle', fun heq => by omega⟩

lemma Valid.removed (h : Valid t T it) {d : N} (hd : it.node ≠ some d) (hshallow : NoDeeper d T T')
    (hgen : t'.generation = t.generation + 1) (hmax : t'.maxHeight = t.maxHeight) :
    Valid t' T' it := by
  apply h.moved hgen
  intro as x hx hat hle
  have hxd : x ≠ d := by
    rintro rfl
    exact hd hx
  obtain ⟨as', hat', hle'⟩ := hshallow as x hxd hat
  exact ⟨as', hat', by omega⟩

/-- Every node of a tree that was balanced fits on the stack. -/
lemma Balanced.exists_at (h : Balanced cmp t T t' T') {as : List N} {x : N} (hx : At T as x) :
    ∃ as', At T' as' x ∧ as'.length ≤ t'.maxHeight := by
  have hmem : x ∈ T'.nodes := by
    rw [h.nodes]
    exact hx.mem
  obtain ⟨as', hat⟩ := LinuxC.exists_at hmem
  exact ⟨as', hat, (hat.length_lt_height.trans_le h.height).le⟩

lemma Valid.balanced (h : Valid t T it) (hbal : Balanced cmp t T t' T') : Valid t' T' it :=
  h.moved hbal.generation fun _ _ _ hat _ => hbal.exists_at hat

lemma Valid.rebalanced (h : Valid t T it) (hbal : Rebalanced cmp t T t' T') : Valid t' T' it := by
  rcases hbal with ⟨rfl, rfl⟩ | hbal
  · exact h
  · exact h.balanced hbal

lemma Rebalanced.nodes (h : Rebalanced cmp t T t' T') : T'.nodes = T.nodes := by
  rcases h with ⟨-, rfl⟩ | h
  · rfl
  · exact h.nodes

lemma Rebalanced.maxHeight (h : Rebalanced cmp t T t' T') : t'.maxHeight = t.maxHeight := by
  rcases h with ⟨rfl, -⟩ | h
  · rfl
  · exact h.maxHeight

lemma Rebalanced.isTree (h : Rebalanced cmp t T t' T') (hT : IsTree cmp t T) : IsTree cmp t' T' := by
  rcases h with ⟨rfl, rfl⟩ | h
  · exact hT
  · exact h.isTree

end Frame

end LinuxC.Bst
