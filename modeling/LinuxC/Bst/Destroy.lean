import LinuxC.Bst.Layout

/-!
# Destroying the tree

`bst_destroy` needs neither a stack nor recursion.  While the node it stands on has a left child it
rotates the tree to the right there; a node without a left child is the least one of those that are
left, and it is given to the destroyer.

The destroyer may free the node, so its links hold anything afterwards.  The loop is modelled with
all its accesses to the nodes, in their order: a node is not touched any more once it was given to
the destroyer (`destroy_inOrder`).
-/

namespace LinuxC.Bst

variable {N : Type} [DecidableEq N]

/-- What `bst_destroy` does with the nodes. -/
inductive Access (N : Type)
  /-- `n->bst_link[d]` is read. -/
  | read (n : N) (d : Dir)
  /-- `n->bst_link[d]` is written. -/
  | write (n : N) (d : Dir)
  /-- `destroyer(n)`. -/
  | destroy (n : N)
  deriving DecidableEq

/-- The node of an access. -/
def Access.node : Access N → N
  | .read n _ => n
  | .write n _ => n
  | .destroy n => n

/-- The nodes that were given to the destroyer. -/
def destroyed (tr : List (Access N)) : List N :=
  tr.filterMap fun
    | .destroy n => some n
    | _ => none

/-- The destroyer leaves `junk` in the links of the node. -/
def scrap (junk : N → Dir → Option N) (n : N) (t : BstTable N) : BstTable N :=
  { t with link := fun m d => if m = n then junk m d else t.link m d }

/-- `if (destroyer != NULL) destroyer(p)`. -/
def destroyNode (destroyer : Option (N → Dir → Option N)) (p : N) (t : BstTable N) :
    BstTable N × List (Access N) :=
  match destroyer with
  | none => (t, [])
  | some junk => (scrap junk p t, [.destroy p])

/-- The loop of `bst_destroy`, with its accesses to the nodes. -/
def destroyLoop (destroyer : Option (N → Dir → Option N)) :
    ℕ → Option N → BstTable N → Except Fault (BstTable N × List (Access N))
  | 0, _, _ => .error .fuel
  | _ + 1, none, t => .ok (t, [])
  | fuel + 1, some p, t =>
      match t.link p .left with
      | none => do
          let q := t.link p .right
          let (t, tr) := destroyNode destroyer p t
          let (t, tr') ← destroyLoop destroyer fuel q t
          .ok (t, [.read p .left, .read p .right] ++ tr ++ tr')
      | some q => do
          let t := t.setLink p .left (t.link q .right)
          let t := t.setLink q .right (some p)
          let (t, tr') ← destroyLoop destroyer fuel (some q) t
          .ok (t, [.read p .left, .read p .left, .read q .right, .write p .left,
            .write q .right] ++ tr')

/-- `bst_destroy`: the table afterwards, unless it was freed, and the accesses to the nodes. -/
def bstDestroy (destroyer : Option (N → Dir → Option N)) (cleanall : Bool) (fuel : ℕ)
    (t : BstTable N) : Except Fault (Option (BstTable N) × List (Access N)) := do
  let (t, tr) ← destroyLoop destroyer fuel t.root t
  if cleanall then .ok (none, tr)
  else .ok (some { t with count := 0, generation := 0, root := none }, tr)

/-! ## The rest of the tree -/

section Rest

variable {t : BstTable N}

omit [DecidableEq N] in
@[simp] lemma destroyed_append (tr tr' : List (Access N)) :
    destroyed (tr ++ tr') = destroyed tr ++ destroyed tr' := List.filterMap_append

lemma Rep.rotateRight {c c' : Color} {A B R : Tree N} {p q : N}
    (h : Rep t.link (.node c (.node c' A q B) p R))
    (hnd : (Tree.node c (.node c' A q B) p R).nodes.Nodup) :
    Rep ((t.setLink p .left (t.link q .right)).setLink q .right (some p)).link
      (.node c' A q (.node c B p R)) := by
  obtain ⟨-, hpR, ⟨hqA, hqB, hA, hB⟩, hR⟩ := h
  simp only [Tree.nodes_node] at hnd
  have hpq : p ≠ q := by grind
  let t₁ := (t.setLink p .left (t.link q .right)).setLink q .right (some p)
  have hframe : ∀ m, m ≠ p → m ≠ q → ∀ e, t₁.link m e = t.link m e := by
    intro m hmp hmq e
    simp [t₁, hmp, hmq]
  refine ⟨?_, by simp, hA.congr ?_, ?_, ?_, hB.congr ?_, hR.congr ?_⟩
  · simpa [hpq.symm] using hqA
  · exact fun m hm => hframe m (by grind) (by grind)
  · simpa [hpq] using hqB
  · simpa [hpq] using hpR
  · exact fun m hm => hframe m (by grind) (by grind)
  · exact fun m hm => hframe m (by grind) (by grind)

/-- What the loop does with the nodes `xs` that are left: they are destroyed in order, no other node
is touched, and none of them after it was destroyed. -/
structure Destroys (tr : List (Access N)) (xs : List N) : Prop where
  order : destroyed tr = xs
  inside : ∀ a ∈ tr, a.node ∈ xs
  once : ∀ tr₁ n tr₂, tr = tr₁ ++ .destroy n :: tr₂ → ∀ a ∈ tr₂, a.node ≠ n

omit [DecidableEq N] in
lemma Destroys.after {tr tr' : List (Access N)} {xs : List N} (h : Destroys tr xs)
    (hquiet : destroyed tr' = []) (hin : ∀ a ∈ tr', a.node ∈ xs) : Destroys (tr' ++ tr) xs := by
  refine ⟨by rw [destroyed_append, hquiet, h.order, List.nil_append], ?_, ?_⟩
  · intro a ha
    rcases List.mem_append.mp ha with ha | ha
    · exact hin a ha
    · exact h.inside a ha
  · induction tr' with
    | nil => exact h.once
    | cons b tr' ih =>
        have hb : ∀ n, b ≠ .destroy n := by
          rintro n rfl
          simp [destroyed] at hquiet
        have hrest : destroyed tr' = [] := by
          cases b with
          | read => simpa [destroyed] using hquiet
          | write => simpa [destroyed] using hquiet
          | destroy n => exact absurd rfl (hb n)
        intro tr₁ n tr₂ heq
        cases tr₁ with
        | nil => exact absurd (List.cons.inj heq).1 (hb n)
        | cons b' tr₁ =>
            exact ih hrest (fun a ha => hin a (List.mem_cons_of_mem _ ha)) tr₁ n tr₂
              (List.cons.inj heq).2

omit [DecidableEq N] in
lemma Destroys.cons {tr : List (Access N)} {xs : List N} {n : N} (h : Destroys tr xs)
    (hn : n ∉ xs) : Destroys (.destroy n :: tr) (n :: xs) := by
  refine ⟨?_, ?_, ?_⟩
  · change n :: destroyed tr = _
    rw [h.order]
  · intro a ha
    rcases List.mem_cons.mp ha with rfl | ha
    · exact List.mem_cons_self
    · exact List.mem_cons_of_mem _ (h.inside a ha)
  · intro tr₁ m tr₂ heq a ha
    cases tr₁ with
    | nil =>
        obtain ⟨hm, rfl⟩ := List.cons.inj heq
        obtain rfl : n = m := by simpa using hm
        rintro rfl
        exact hn (h.inside a ha)
    | cons b tr₁ => exact h.once tr₁ m tr₂ (List.cons.inj heq).2 a ha

/-- **The loop of `bst_destroy`** on the tree that is left.  A rotation makes the right edge longer
by a node, and a destroyed node makes the tree smaller; so there are at most two turns for each
node. -/
lemma destroyLoop_spec (junk : N → Dir → Option N) {P : Tree N} {fuel : ℕ} (h : Rep t.link P)
    (hnd : P.nodes.Nodup) (hfuel : 2 * P.nodes.length < fuel + spine .right P) :
    ∃ t' tr, destroyLoop (some junk) fuel P.root? t = .ok (t', tr) ∧ Destroys tr P.nodes := by
  induction fuel generalizing t P with
  | zero =>
      have := spine_le .right P
      omega
  | succ fuel ih =>
      match P with
      | .nil => exact ⟨t, [], rfl, ⟨rfl, by simp, by simp⟩⟩
      | .node c .nil p R =>
          obtain ⟨hleft, hright, -, hR⟩ := h
          simp only [Tree.nodes_node, Tree.nodes_nil, List.nil_append, List.nodup_cons] at hnd
          simp only [Tree.nodes_node, Tree.nodes_nil, List.nil_append, List.length_cons,
            spine] at hfuel
          have hscrap : Rep (scrap junk p t).link R := by
            apply hR.congr
            intro m hm e
            have hmp : m ≠ p := fun he => hnd.1 (he ▸ hm)
            simp [scrap, hmp]
          obtain ⟨t', tr, heval, hd⟩ := ih hscrap hnd.2 (by omega)
          refine ⟨t', [.read p .left, .read p .right] ++ .destroy p :: tr, ?_, ?_⟩
          · rw [Tree.root?_node, destroyLoop, hleft, hright]
            simp only [Tree.root?_nil, destroyNode, bind, Except.bind, heval]
            rfl
          · refine (hd.cons hnd.1).after rfl fun a ha => ?_
            simp only [List.mem_cons, List.not_mem_nil, or_false] at ha
            rcases ha with rfl | rfl
            · exact List.mem_cons_self
            · exact List.mem_cons_self
      | .node c (.node c' A q B) p R =>
          have hrot := h.rotateRight hnd
          have hnodes : (Tree.node c' A q (.node c B p R)).nodes =
              (Tree.node c (.node c' A q B) p R).nodes := by simp
          have hlen : 2 * (Tree.node c' A q (.node c B p R)).nodes.length <
              fuel + spine .right (Tree.node c' A q (.node c B p R)) := by
            rw [hnodes]
            simp only [spine] at hfuel ⊢
            omega
          rw [← hnodes] at hnd
          obtain ⟨t', tr, heval, hd⟩ := ih hrot hnd hlen
          rw [hnodes] at hd
          refine ⟨t', [.read p .left, .read p .left, .read q .right, .write p .left,
            .write q .right] ++ tr, ?_, hd.after rfl fun a ha => ?_⟩
          · have hleft : t.link p .left = some q := h.1
            rw [Tree.root?_node] at heval
            rw [Tree.root?_node, destroyLoop, hleft]
            simp only [bind, Except.bind, heval]
          · simp only [List.mem_cons, List.not_mem_nil, or_false] at ha
            rcases ha with rfl | rfl | rfl | rfl | rfl <;> simp [Access.node]

end Rest

/-- **In-place destruction in order.**  On every tree `bst_destroy` returns, it gives the nodes to
the destroyer in the order of the tree, each of them once, and touches no link of a node that it has
given away. -/
theorem destroy_inOrder {t : BstTable N} {T : Tree N} (h : Holds t T)
    (junk : N → Dir → Option N) (cleanall : Bool) {fuel : ℕ} (hfuel : 2 * T.nodes.length < fuel) :
    ∃ t' tr, bstDestroy (some junk) cleanall fuel t = .ok (t', tr) ∧ destroyed tr = T.nodes ∧
      T.nodes.Nodup ∧ (∀ tr₁ n tr₂, tr = tr₁ ++ .destroy n :: tr₂ → ∀ a ∈ tr₂, a.node ≠ n) ∧
      ∀ t'', t' = some t'' → Holds t'' .nil ∧ t''.count = 0 := by
  obtain ⟨t₁, tr, heval, hd⟩ :=
    destroyLoop_spec junk h.rep h.nodup (by omega : _ < fuel + spine .right T)
  rw [← h.root] at heval
  have hempty : ∀ t'' : BstTable N, t''.root = none → Holds t'' .nil :=
    fun t'' hroot => ⟨hroot, trivial, List.nodup_nil⟩
  cases cleanall with
  | true =>
      refine ⟨none, tr, ?_, hd.order, h.nodup, hd.once, by simp⟩
      rw [bstDestroy, heval]
      rfl
  | false =>
      refine ⟨some { t₁ with count := 0, generation := 0, root := none }, tr, ?_, hd.order, h.nodup,
        hd.once, ?_⟩
      · rw [bstDestroy, heval]
        rfl
      · intro t'' ht''
        obtain rfl := Option.some.inj ht''
        exact ⟨hempty _ rfl, rfl⟩

/-- The table with the nodes `1`, `2` and `3`, the second one at the root. -/
def threeNodes : BstTable ℕ where
  root := some 2
  link := fun n d =>
    match n, d with
    | 2, .left => some 1
    | 2, .right => some 3
    | _, _ => none
  count := 3
  maxHeight := 2
  generation := 0

/-- On a tree with three nodes. -/
theorem destroy_inOrder_sample : ∃ t' tr,
    bstDestroy (some fun _ _ => none) true 7 threeNodes = .ok (t', tr) ∧
      destroyed tr = [1, 2, 3] := by
  have h : Holds threeNodes
      (.node .black (.node .black .nil 1 .nil) 2 (.node .black .nil 3 .nil)) :=
    ⟨rfl, ⟨rfl, rfl, ⟨rfl, rfl, trivial, trivial⟩, rfl, rfl, trivial, trivial⟩, by decide⟩
  have hfuel : 2 * (Tree.node .black (.node .black .nil 1 .nil) 2
      (.node .black .nil 3 .nil)).nodes.length < 7 := by decide
  obtain ⟨t', tr, heval, horder, -⟩ := destroy_inOrder h (fun _ _ => none) true hfuel
  exact ⟨t', tr, heval, horder⟩

end LinuxC.Bst
