import LinuxC.Bst.Traversal
import LinuxC.Framework.Transition
import LinuxC.RbTree.OrderedSet

/-!
# Iterating a tree while it changes

A `World` is one table with the iterators that were allocated for it.  An `Op` is a call of a
function of `common/bst.c`, for the table or for one of the iterators; a run is any sequence of
calls.  When a node is taken out, the iterators whose current node it was are lost: the caller must
not go on with them before they are placed again.

`Inv` says that the table is an ordered tree and that the iterators that are not lost are valid.
Every call keeps it, and no call ends in a fault, as long as the number of nodes stays below
`2 ^ bst_max_height` and the generation of an iterator still tells whether its stack is right
(`step_inv`).  That can go wrong: `bst_generation` has 64 bits, and after `2 ^ 64` removals and
balancings an iterator takes a stack for current that is not (`stale_stack`).
-/

namespace LinuxC.Bst

open Rb (endOf)

variable {N I K : Type}

/-- An iterator, and whether its current node was taken out. -/
structure Cursor (N : Type) where
  it : BstIterator N
  lost : Bool

/-- A table with its iterators. -/
structure World (N K : Type) where
  table : BstTable N
  iter : K → Option (Cursor N)

/-- The calls. -/
inductive Op (N I K : Type)
  | insert (n : N)
  | remove (n : N) (self : Bool)
  | delete (item : I)
  | balance
  /-- `bst_iterator_init`, with what is in the memory of the new stack. -/
  | init (k : K) (stack : ℕ → Option N)
  | free (k : K)
  | first (k : K)
  | last (k : K)
  | find (k : K) (item : I)
  | iteratorInsert (k : K) (n : N)
  | next (k : K)
  | prev (k : K)

/-- Enough turns for the loops of every function. -/
def budget (t : BstTable N) : ℕ := 2 * t.count + 4

namespace World

variable [DecidableEq N] [DecidableEq K]

/-- The iterator `k` has a new place, and the table may have changed. -/
def put (w : World N K) (k : K) (it : BstIterator N) (t : BstTable N) : World N K :=
  ⟨t, Function.update w.iter k (some ⟨it, false⟩)⟩

/-- The table after a removal that returned `r`: the iterators at a node that was taken out are
lost.  The generation tells whether one was. -/
def removed (w : World N K) (t : BstTable N) (r : Option N) : World N K :=
  ⟨t, fun k => (w.iter k).map fun c =>
    { c with lost := c.lost || decide (t.generation ≠ w.table.generation ∧ c.it.node = r) }⟩

/-- The world after a call, or the fault in which the call ends. -/
def settle {β : Type} (w : World N K) (x : Except Fault β) (f : β → World N K) :
    Option (World N K × List Fault) :=
  match x with
  | .ok r => some (f r, [])
  | .error e => some (w, [e])

variable (cmp : N → N → ℤ) (searcher : I → N → ℤ)

/-- One call. -/
def step (w : World N K) : Op N I K → Option (World N K × List Fault)
  | .insert n => w.settle (bstInsert cmp (budget w.table) n w.table) fun r => { w with table := r.1 }
  | .remove n self =>
      w.settle (bstRemove cmp (budget w.table) n self w.table) fun r => w.removed r.1 r.2
  | .delete item =>
      w.settle (bstDelete searcher (budget w.table) item w.table) fun r => w.removed r.1 r.2
  | .balance => w.settle (bstBalance (budget w.table) w.table) fun t => { w with table := t }
  | .init k stack => some (w.put k (bstIteratorInit stack w.table) w.table, [])
  | .free k => some ({ w with iter := Function.update w.iter k none }, [])
  | .first k => (w.iter k).bind fun c =>
      w.settle (bstIteratorFirst (budget w.table) c.it w.table) fun r => w.put k r.2.1 r.2.2
  | .last k => (w.iter k).bind fun c =>
      w.settle (bstIteratorLast (budget w.table) c.it w.table) fun r => w.put k r.2.1 r.2.2
  | .find k item => (w.iter k).bind fun c =>
      w.settle (bstIteratorFind searcher item (budget w.table) c.it w.table) fun r =>
        w.put k r.2.1 r.2.2
  | .iteratorInsert k n => (w.iter k).bind fun c =>
      w.settle (bstIteratorInsert cmp n (budget w.table) c.it w.table) fun r => w.put k r.2.1 r.2.2
  | .next k => (w.iter k).bind fun c =>
      if c.lost then none
      else w.settle (bstIteratorNext cmp (budget w.table) c.it w.table) fun r =>
        w.put k r.2.1 r.2.2
  | .prev k => (w.iter k).bind fun c =>
      if c.lost then none
      else w.settle (bstIteratorPrev cmp (budget w.table) c.it w.table) fun r =>
        w.put k r.2.1 r.2.2

end World

/-- `bst_create`, without iterators. -/
def World.create (link : N → Dir → Option N) (height : ℕ) : World N K :=
  ⟨bstCreate link height, fun _ => none⟩

/-- The number of nodes is below `2 ^ bst_max_height`. -/
def World.Small (w : World N K) : Prop := w.table.count < 2 ^ w.table.maxHeight

/-- The number of removals and balancings since the generation of the iterator was set is not a
positive multiple of `2 ^ 64`. -/
def World.Timely (w : World N K) (k : K) : Prop := ∀ c, w.iter k = some c → Fresh w.table c.it

/-- The condition on a call: the tree is small, and the iterator that goes on is timely. -/
def World.Admits (w : World N K) : Op N I K → Prop
  | .next k => w.Small ∧ w.Timely k
  | .prev k => w.Small ∧ w.Timely k
  | _ => w.Small

instance (w : World N K) : Decidable w.Small := inferInstanceAs (Decidable (_ < _))

instance (t : BstTable N) (it : BstIterator N) : Decidable (Fresh t it) :=
  inferInstanceAs (Decidable (_ → _))

instance (w : World N K) (k : K) : Decidable (w.Timely k) :=
  match h : w.iter k with
  | none => .isTrue fun c hc => by simp [h] at hc
  | some c =>
      decidable_of_iff (Fresh w.table c.it)
        ⟨fun hc c' hc' => Option.some.inj (h.symm.trans hc') ▸ hc, fun hk => hk c h⟩

instance (w : World N K) : (l : Op N I K) → Decidable (w.Admits l)
  | .next _ | .prev _ => inferInstanceAs (Decidable (_ ∧ _))
  | .insert _ | .remove _ _ | .delete _ | .balance | .init _ _ | .free _ | .first _ | .last _
  | .find _ _ | .iteratorInsert _ _ => inferInstanceAs (Decidable (World.Small _))

/-! ## The invariant -/

/-- The table is an ordered tree, and the iterators that are not lost are valid. -/
def World.Inv (cmp : N → N → ℤ) (w : World N K) : Prop :=
  ∃ T, IsTree cmp w.table T ∧ ∀ k c, w.iter k = some c → c.lost = false → Valid w.table T c.it

section Inv

variable [DecidableEq N] [DecidableEq K] {cmp : N → N → ℤ} {searcher : I → N → ℤ} {w w' : World N K}
  {t : BstTable N} {T T' : Tree N}

omit [DecidableEq N] [DecidableEq K] in
lemma World.inv_create (link : N → Dir → Option N) (height : ℕ) :
    (World.create link height : World N K).Inv cmp := by
  refine ⟨.nil, ⟨⟨rfl, trivial, by simp⟩, by simp [Sorted], rfl⟩, ?_⟩
  simp [World.create]

omit [DecidableEq N] in
lemma World.inv_put {k : K} {it : BstIterator N} (hT : IsTree cmp t T)
    (hframe : ∀ k c, w.iter k = some c → c.lost = false → Valid t T c.it) (hv : Valid t T it) :
    (w.put k it t).Inv cmp := by
  refine ⟨T, hT, fun j c hj hc => ?_⟩
  by_cases hjk : j = k
  · subst hjk
    obtain rfl : ⟨it, false⟩ = c := by simpa [World.put] using hj
    exact hv
  · exact hframe j c (by simpa [World.put, hjk] using hj) hc

omit [DecidableEq N] in
lemma World.inv_answer {A : List N → Option N → Prop} (hT : IsTree cmp w.table T)
    (hvalid : ∀ k c, w.iter k = some c → c.lost = false → Valid w.table T c.it) (k : K)
    {r : Option N × BstIterator N × BstTable N} (hbal : Rebalanced cmp w.table T t T')
    (hr : Answer A t T' r) : (w.put k r.2.1 r.2.2).Inv cmp := by
  rw [hr.table]
  exact inv_put (hbal.isTree hT) (fun j c hj hc => (hvalid j c hj hc).rebalanced hbal) hr.valid

omit [DecidableEq K] in
/-- A removal, whether a node was taken out or not. -/
lemma World.inv_removed {r : Option N} (hT : IsTree cmp w.table T)
    (hvalid : ∀ k c, w.iter k = some c → c.lost = false → Valid w.table T c.it)
    (hrem : Removed cmp w.table T t r) : (w.removed t r).Inv cmp := by
  cases hrem with
  | nothing r =>
      refine ⟨T, hT, fun k c hk hc => ?_⟩
      obtain ⟨c₀, hk₀, rfl⟩ := Option.map_eq_some_iff.mp hk
      exact hvalid k c₀ hk₀ (by simpa using hc)
  | @node t' T' d hT' _ hshallow _ hgen hmax =>
      refine ⟨T', hT', fun k c hk hc => ?_⟩
      obtain ⟨c₀, hk₀, rfl⟩ := Option.map_eq_some_iff.mp hk
      have hne : t.generation ≠ w.table.generation := by omega
      obtain ⟨hlost, hnode⟩ : c₀.lost = false ∧ c₀.it.node ≠ some d := by simpa [hne] using hc
      exact (hvalid k c₀ hk₀ hlost).removed hnode hshallow hgen hmax

omit [DecidableEq N] [DecidableEq K] in
lemma World.settle_ok {β : Type} {x : Except Fault β} {f : β → World N K} {r : β} {es : List Fault}
    (h : w.settle x f = some (w', es)) (hx : x = .ok r) : f r = w' ∧ es = [] := by
  rw [hx] at h
  obtain ⟨h1, h2⟩ := Prod.mk.inj (Option.some.inj h)
  exact ⟨h1, h2.symm⟩

/-- **Every call keeps the invariant** and ends without a fault. -/
lemma World.step_inv (hcmp : Comparator cmp) {l : Op N I K} {es : List Fault} (hinv : w.Inv cmp)
    (hok : w.Admits l) (hstep : w.step cmp searcher l = some (w', es)) : w'.Inv cmp ∧ es = [] := by
  obtain ⟨T, hT, hvalid⟩ := hinv
  have hcount : w.table.count < budget w.table := by
    rw [budget]
    omega
  have hfuel : 2 * w.table.count + 3 ≤ budget w.table := Nat.le_succ _
  cases l with
  | insert n =>
      obtain ⟨t', T', r, heval, hT', hkeeps, hgen, hmax⟩ := hT.insert (n := n) hcmp hcount
      obtain ⟨rfl, rfl⟩ := settle_ok hstep heval
      exact ⟨⟨T', hT', fun k c hk hc => (hvalid k c hk hc).keeps hkeeps hgen hmax⟩, rfl⟩
  | remove n self =>
      obtain ⟨t', r, heval, hrem⟩ := hT.remove n self hcount
      obtain ⟨rfl, rfl⟩ := settle_ok hstep heval
      exact ⟨inv_removed hT hvalid hrem, rfl⟩
  | delete item =>
      obtain ⟨t', r, heval, hrem⟩ := hT.delete searcher item hcount
      obtain ⟨rfl, rfl⟩ := settle_ok hstep heval
      exact ⟨inv_removed hT hvalid hrem, rfl⟩
  | balance =>
      obtain ⟨t', T', heval, hbal, -⟩ := hT.balanced hok (Nat.lt_of_lt_of_le (by omega) hfuel)
      obtain ⟨rfl, rfl⟩ := settle_ok hstep heval
      exact ⟨⟨T', hbal.isTree, fun k c hk hc => (hvalid k c hk hc).balanced hbal⟩, rfl⟩
  | init k stack =>
      obtain ⟨rfl, rfl⟩ := Prod.mk.inj (Option.some.inj hstep)
      exact ⟨inv_put hT hvalid (valid_none rfl rfl), rfl⟩
  | free k =>
      obtain ⟨rfl, rfl⟩ := Prod.mk.inj (Option.some.inj hstep)
      refine ⟨⟨T, hT, fun j c hj hc => ?_⟩, rfl⟩
      by_cases hjk : j = k
      · simp [hjk] at hj
      · exact hvalid j c (by simpa [hjk] using hj) hc
  | first k =>
      obtain ⟨c, -, hstep⟩ := Option.bind_eq_some_iff.mp hstep
      obtain ⟨t', T', r, heval, hbal, hr⟩ := hT.iteratorEnd hok .left c.it hfuel
      obtain ⟨rfl, rfl⟩ := settle_ok hstep heval
      exact ⟨inv_answer hT hvalid k hbal hr, rfl⟩
  | last k =>
      obtain ⟨c, -, hstep⟩ := Option.bind_eq_some_iff.mp hstep
      obtain ⟨t', T', r, heval, hbal, hr⟩ := hT.iteratorEnd hok .right c.it hfuel
      obtain ⟨rfl, rfl⟩ := settle_ok hstep heval
      exact ⟨inv_answer hT hvalid k hbal hr, rfl⟩
  | find k item =>
      obtain ⟨c, -, hstep⟩ := Option.bind_eq_some_iff.mp hstep
      obtain ⟨t', T', r, heval, hbal, hr⟩ := hT.iteratorFind hok searcher item c.it hfuel
      obtain ⟨rfl, rfl⟩ := settle_ok hstep heval
      exact ⟨inv_answer hT hvalid k hbal hr, rfl⟩
  | iteratorInsert k n =>
      obtain ⟨c, -, hstep⟩ := Option.bind_eq_some_iff.mp hstep
      obtain ⟨t', T', r, heval, hbal, T'', hT'', hkeeps, hgen, hmax, hv⟩ :=
        hT.iteratorInsert hcmp hok n c.it hfuel
      obtain ⟨rfl, rfl⟩ := settle_ok hstep heval
      exact ⟨inv_put hT'' (fun j c hj hc =>
        ((hvalid j c hj hc).rebalanced hbal).keeps hkeeps hgen hmax) hv, rfl⟩
  | next k =>
      obtain ⟨c, hk, hstep⟩ := Option.bind_eq_some_iff.mp hstep
      by_cases hlost : c.lost
      · simp [hlost] at hstep
      · rw [if_neg hlost] at hstep
        obtain ⟨t', T', r, heval, hbal, hr⟩ := hT.iteratorStep hcmp hok.1 .right
          (hvalid k c hk (by simpa using hlost)) (hok.2 c hk) (le_refl _)
        obtain ⟨rfl, rfl⟩ := settle_ok hstep heval
        exact ⟨inv_answer hT hvalid k hbal hr, rfl⟩
  | prev k =>
      obtain ⟨c, hk, hstep⟩ := Option.bind_eq_some_iff.mp hstep
      by_cases hlost : c.lost
      · simp [hlost] at hstep
      · rw [if_neg hlost] at hstep
        obtain ⟨t', T', r, heval, hbal, hr⟩ := hT.iteratorStep hcmp hok.1 .left
          (hvalid k c hk (by simpa using hlost)) (hok.2 c hk) (le_refl _)
        obtain ⟨rfl, rfl⟩ := settle_ok hstep heval
        exact ⟨inv_answer hT hvalid k hbal hr, rfl⟩

end Inv

/-! ## Every run -/

/-- What `bst_iterator_next` does for the iterator `k` in this state, given enough turns: it returns
the successor of the current node, and the table is the same ordered set afterwards. -/
def World.GoesToSuccessor [DecidableEq N] (cmp : N → N → ℤ) (w : World N K) (k : K) : Prop :=
  ∀ c, w.iter k = some c → c.lost = false →
    ∃ T, IsTree cmp w.table T ∧ ∀ fuel, budget w.table ≤ fuel →
      ∃ r it' t' T', bstIteratorNext cmp fuel c.it w.table = .ok (r, it', t') ∧
        Adjacent .right T.nodes c.it.node r ∧ it'.node = r ∧ IsTree cmp t' T' ∧
        T'.nodes = T.nodes

/-- **Iterating a tree while it changes.**  In every run no call ends in a fault, and an iterator
whose current node is still in the tree goes to the successor of that node. -/
theorem iterator_next_successor [DecidableEq N] [DecidableEq K] {cmp : N → N → ℤ}
    (hcmp : Comparator cmp) {searcher : I → N → ℤ} {link : N → Dir → Option N} {height : ℕ}
    {ls : List (Op N I K)} {w : World N K} {es : List Fault}
    (hok : Along (World.step cmp searcher) World.Admits ls (World.create link height))
    (hrun : run (World.step cmp searcher) ls (World.create link height) = some (w, es)) :
    es = [] ∧ ∀ k, w.Small → w.Timely k → w.GoesToSuccessor cmp k := by
  obtain ⟨⟨T, hT, hvalid⟩, hes⟩ := run_safe (I := World.Inv cmp) (P := fun _ => False)
    (fun hinv hok hstep => by
      obtain ⟨hinv', rfl⟩ := World.step_inv hcmp hinv hok hstep
      exact ⟨hinv', by simp⟩)
    (World.inv_create link height) hok hrun
  refine ⟨List.eq_nil_iff_forall_not_mem.mpr hes, fun k hsmall htimely c hk hc => ?_⟩
  refine ⟨T, hT, fun fuel hfuel => ?_⟩
  obtain ⟨t', T', r, heval, hbal, hr⟩ :=
    hT.iteratorStep hcmp hsmall .right (hvalid k c hk hc) (htimely c hk) hfuel
  refine ⟨r.1, r.2.1, r.2.2, T', heval, ?_, hr.node, ?_, hbal.nodes⟩
  · rw [← hbal.nodes]
    exact hr.answer
  · rw [hr.table]
    exact hbal.isTree hT

/-- Three nodes in one path; the second one is taken out while the iterator is at the first. -/
def sampleCalls : List (Op ℕ ℕ Unit) :=
  [.insert 1, .insert 2, .insert 3, .init () fun _ => none, .next (), .remove 2 true, .insert 5,
    .balance]

/-- The iterator is at the first node, and its stack is not current. -/
theorem iterator_next_successor_sample : ∃ w : World ℕ Unit,
    run (World.step Rb.natCmp Rb.natCmp) sampleCalls (World.create (fun _ _ => none) 2) =
      some (w, []) ∧
    (w.iter ()).map (fun c => (c.it.node, c.it.generation)) = some (some 1, 0) ∧
    w.table.generation = 2 ∧ w.GoesToSuccessor Rb.natCmp () := by
  have heval : (run (World.step Rb.natCmp Rb.natCmp) sampleCalls
      (World.create (fun _ _ => none) 2)).map (fun r =>
        ((r.1.iter ()).map fun c => (c.it.node, c.it.generation), r.1.table.generation,
          decide (r.1.Small ∧ r.1.Timely ()))) = some (some (some 1, 0), 2, true) := by
    decide +kernel
  obtain ⟨⟨w, es⟩, hrun, he⟩ := Option.map_eq_some_iff.mp heval
  obtain ⟨hiter, he⟩ := Prod.mk.inj he
  obtain ⟨hgen, he⟩ := Prod.mk.inj he
  obtain ⟨hsmall, htimely⟩ := of_decide_eq_true he
  obtain ⟨rfl, hnext⟩ := iterator_next_successor Rb.comparator_natCmp
    (by decide +kernel : Along (World.step Rb.natCmp Rb.natCmp) World.Admits sampleCalls
      (World.create (fun _ _ => none) 2)) hrun
  exact ⟨w, hrun, hiter, hgen, hnext () hsmall htimely⟩

/-! ## The generation comes round -/

section Wrap

variable [DecidableEq N] [DecidableEq K] {cmp : N → N → ℤ}

omit [DecidableEq N] in
lemma Rep.nodes_eq {link : N → Dir → Option N} {T T' : Tree N} (h : Rep link T) (h' : Rep link T')
    (hroot : T.root? = T'.root?) : T.nodes = T'.nodes := by
  induction T generalizing T' with
  | nil =>
      cases T' with
      | nil => rfl
      | node => simp at hroot
  | node c l a r ihl ihr =>
      cases T' with
      | nil => simp at hroot
      | node c' l' a' r' =>
          obtain rfl : a = a' := by simpa using hroot
          obtain ⟨hl, hr, hL, hR⟩ := h
          obtain ⟨hl', hr', hL', hR'⟩ := h'
          rw [Tree.nodes_node, Tree.nodes_node, ihl hL hL' (hl.symm.trans hl'),
            ihr hR hR' (hr.symm.trans hr')]

omit [DecidableEq N] in
lemma IsTree.nodes_eq {t : BstTable N} {T T' : Tree N} (h : IsTree cmp t T) (h' : IsTree cmp t T') :
    T.nodes = T'.nodes :=
  h.holds.rep.nodes_eq h'.holds.rep (h.holds.root.symm.trans h'.holds.root)

/-- **Any number of balancings.** -/
lemma World.run_balance (searcher : I → N → ℤ) {w : World N K} {T : Tree N}
    (hT : IsTree cmp w.table T) (hsmall : w.Small) (n : ℕ) :
    ∃ w' T', run (World.step cmp searcher) (List.replicate n .balance) w = some (w', []) ∧
      Along (World.step cmp searcher) (fun w _ => w.Small) (List.replicate n .balance) w ∧
      IsTree cmp w'.table T' ∧ T'.nodes = T.nodes ∧ w'.table.maxHeight = w.table.maxHeight ∧
      w'.table.generation = w.table.generation + n ∧ w'.iter = w.iter ∧
      (0 < n ∨ T.height ≤ w.table.maxHeight → T'.height ≤ w'.table.maxHeight) := by
  induction n generalizing w T with
  | zero => exact ⟨w, T, rfl, trivial, hT, rfl, rfl, rfl, rfl, by simp⟩
  | succ n ih =>
      have hfuel : 2 * w.table.count < budget w.table := by
        rw [budget]
        omega
      obtain ⟨t', T', heval, hbal, hcount⟩ := hT.balanced hsmall hfuel
      have hstep : World.step cmp searcher w .balance = some ({ w with table := t' }, []) := by
        rw [World.step, heval]
        rfl
      have hsmall' : World.Small { w with table := t' } := by
        change t'.count < 2 ^ t'.maxHeight
        rw [hcount, hbal.maxHeight]
        exact hsmall
      obtain ⟨w'', T'', hrun, halong, hT'', hnodes, hmax, hgen, hiter, hheight⟩ :=
        ih (w := { w with table := t' }) hbal.isTree hsmall'
      replace hgen : w''.table.generation = t'.generation + n := hgen
      refine ⟨w'', T'', ?_, ⟨hsmall, ?_⟩, hT'', hnodes.trans hbal.nodes, hmax.trans hbal.maxHeight,
        ?_, hiter, fun _ => ?_⟩
      · rw [List.replicate_succ]
        exact run_cons.mpr ⟨_, [], [], hstep, hrun, rfl⟩
      · intro s es hs
        obtain ⟨rfl, rfl⟩ := Prod.mk.inj (Option.some.inj (hstep.symm.trans hs))
        exact halong
      · rw [hgen, hbal.generation]
        omega
      · exact hheight (.inr hbal.height)

omit [DecidableEq N] in
lemma eq_leaf_of_height {T : Tree N} (h : T.height ≤ 1) :
    T = .nil ∨ ∃ c a, T = .node c .nil a .nil := by
  cases T with
  | nil => exact .inl rfl
  | node c l a r =>
      rw [Tree.height] at h
      cases l with
      | node => simp [Tree.height] at h
      | nil =>
          cases r with
          | node => simp [Tree.height] at h
          | nil => exact .inr ⟨c, a, rfl⟩

omit [DecidableEq N] in
/-- Three nodes fit in two levels in one way. -/
lemma eq_of_three {T : Tree N} {a b c : N} (h : T.height ≤ 2) (hnodes : T.nodes = [a, b, c]) :
    ∃ c₁ c₂ c₃, T = .node c₁ (.node c₂ .nil a .nil) b (.node c₃ .nil c .nil) := by
  cases T with
  | nil => simp at hnodes
  | node c₁ l x r =>
      rw [Tree.height] at h
      rcases eq_leaf_of_height (by omega : l.height ≤ 1) with rfl | ⟨c₂, y, rfl⟩
      · rcases eq_leaf_of_height (by omega : r.height ≤ 1) with rfl | ⟨c₃, z, rfl⟩ <;> simp at hnodes
      · rcases eq_leaf_of_height (by omega : r.height ≤ 1) with rfl | ⟨c₃, z, rfl⟩
        · simp at hnodes
        · obtain ⟨rfl, rfl, rfl⟩ : y = a ∧ x = b ∧ z = c := by simpa using hnodes
          exact ⟨c₁, c₂, c₃, rfl⟩

end Wrap

/-- Three nodes in one path, and an iterator at the last one. -/
def chainCalls : List (Op ℕ ℕ Unit) :=
  [.insert 1, .insert 2, .insert 3, .init () fun _ => none, .next (), .next (), .next ()]

lemma chain_world : ∃ (w : World ℕ Unit) (c : Cursor ℕ),
    run (World.step Rb.natCmp Rb.natCmp) chainCalls (World.create (fun _ _ => none) 2) =
      some (w, []) ∧
    IsTree Rb.natCmp w.table (.node .black .nil 1 (.node .black .nil 2 (.node .black .nil 3 .nil))) ∧
    w.table.maxHeight = 2 ∧ w.table.generation = 0 ∧ w.iter () = some c ∧ c.lost = false ∧
    c.it.node = some 3 ∧ c.it.generation = 0 ∧ Stacked c.it [1, 2] := by
  have heval : (run (World.step Rb.natCmp Rb.natCmp) chainCalls
      (World.create (fun _ _ => none) 2)).bind (fun r => (r.1.iter ()).map fun c =>
        (decide (r.2 = []), decide (r.1.table.root = some 1 ∧
          [1, 2, 3].map (r.1.table.link · .left) = [none, none, none] ∧
          [1, 2, 3].map (r.1.table.link · .right) = [some 2, some 3, none] ∧
          r.1.table.count = 3 ∧ r.1.table.maxHeight = 2 ∧ r.1.table.generation = 0),
        decide (c.lost = false ∧ c.it.node = some 3 ∧ c.it.generation = 0 ∧ c.it.height = 2 ∧
          c.it.stack 0 = some 1 ∧ c.it.stack 1 = some 2))) = some (true, true, true) := by
    decide +kernel
  obtain ⟨⟨w, es⟩, hrun, heval⟩ := Option.bind_eq_some_iff.mp heval
  obtain ⟨c, hc, heval⟩ := Option.map_eq_some_iff.mp heval
  simp only [Prod.mk.injEq, decide_eq_true_eq, List.map_cons, List.map_nil, List.cons.injEq,
    and_true] at heval
  obtain ⟨rfl, ⟨hroot, ⟨h1, h2, h3⟩, ⟨h4, h5, h6⟩, hcount, hmax, hgen⟩, hlost, hnode, hcgen, hheight,
    hs0, hs1⟩ := heval
  refine ⟨w, c, hrun, ⟨⟨hroot, ?_, by decide⟩, ?_, hcount⟩, hmax, hgen, hc, hlost, hnode, hcgen,
    hheight, fun i hi => ?_⟩
  · exact ⟨h1, h4, trivial, h2, h5, trivial, h3, h6, trivial, trivial⟩
  · simp [Sorted, Rb.natCmp]
  · rw [List.length_cons, List.length_singleton] at hi
    obtain rfl | rfl : i = 0 ∨ i = 1 := by omega
    · exact hs0
    · exact hs1

/-- `bst_iterator_next` goes up a path that is not there any more. -/
lemma next_old_path {t : BstTable ℕ} {it : BstIterator ℕ} (h₁ : t.link 1 .right = none)
    (h₂ : t.link 2 .right = some 3) (h₃ : t.link 3 .right = none) (hnode : it.node = some 3)
    (hsame : sameGeneration it.generation t.generation) (hstack : Stacked it [1, 2]) (k : ℕ) :
    ∃ it', bstIteratorNext Rb.natCmp (k + 3) it t = .ok (some 1, it', t) := by
  have hheight : it.height = 2 := hstack.height
  have hs₀ : it.stack 0 = some 1 := hstack.entry 0 (by decide)
  have hs₁ : it.stack 1 = some 2 := hstack.entry 1 (by decide)
  have hclimb : climb .right t (k + 2) 3 it = .ok (some 1, { it with height := 0 }) := by
    simp [climb, hheight, hs₀, hs₁, h₁, h₂]
  refine ⟨{ it with height := 0, node := some 1 }, ?_⟩
  simp [bstIteratorNext, bstIteratorStep, refreshStale, hsame, hnode, h₃, hclimb, bind, Except.bind]

/-- **The generation comes round.**  The iterator is at the last of three nodes, with the two others
on its stack.  After `2 ^ 64` balancings the generation has its old value, and `bst_iterator_next`
goes up the old path, back to the first node. -/
theorem stale_stack : ∃ (ls : List (Op ℕ ℕ Unit)) (w : World ℕ Unit), Comparator Rb.natCmp ∧
    Along (World.step Rb.natCmp Rb.natCmp) (fun w _ => w.Small) ls
      (World.create (fun _ _ => none) 2) ∧
    run (World.step Rb.natCmp Rb.natCmp) ls (World.create (fun _ _ => none) 2) = some (w, []) ∧
    w.Small ∧ ¬ w.GoesToSuccessor Rb.natCmp () := by
  obtain ⟨w₀, c, hrun₀, hT₀, hmax₀, hgen₀, hc, hlost, hnode, hcgen, hstack⟩ := chain_world
  have hsmall₀ : w₀.Small := by
    rw [World.Small, hT₀.count, hmax₀]
    decide
  obtain ⟨w, T, hrun, halong, hT, hnodes, hmax, hgen, hiter, hheight⟩ :=
    World.run_balance Rb.natCmp hT₀ hsmall₀ (2 ^ 64)
  replace hnodes : T.nodes = [1, 2, 3] := hnodes
  refine ⟨chainCalls ++ List.replicate (2 ^ 64) .balance, w, Rb.comparator_natCmp, ?_,
    run_append.mpr ⟨w₀, [], [], hrun₀, hrun, rfl⟩, ?_, fun hgo => ?_⟩
  · apply along_append (by decide +kernel)
    intro s es hs
    obtain ⟨rfl, rfl⟩ := Prod.mk.inj (Option.some.inj (hrun₀.symm.trans hs))
    exact halong
  · rw [World.Small, hT.count, hnodes, hmax, hmax₀]
    decide
  · obtain ⟨T₁, hT₁, hnext⟩ := hgo c (hiter ▸ hc) hlost
    obtain ⟨r, it', t', -, heval, hadj, -⟩ := hnext (budget w.table) (le_refl _)
    rw [hT₁.nodes_eq hT, hnodes, hnode] at hadj
    have hlow : T.height ≤ 2 := by
      rw [← hmax₀, ← hmax]
      exact hheight (.inl (by decide))
    obtain ⟨c₁, c₂, c₃, rfl⟩ := eq_of_three hlow hnodes
    obtain ⟨-, h₂, ⟨-, h₁, -⟩, ⟨-, h₃, -⟩⟩ := hT.holds.rep
    have hsame : sameGeneration c.it.generation w.table.generation := by
      rw [hcgen, hgen, hgen₀, sameGeneration]
      decide
    have hbudget : budget w.table = 7 + 3 := by
      rw [budget, hT.count, hnodes]
      rfl
    obtain ⟨it₁, hone⟩ := next_old_path h₁ h₂ h₃ hnode hsame hstack 7
    rw [hbudget, hone] at heval
    obtain rfl : some 1 = r := (Prod.mk.inj (Except.ok.inj heval)).1
    obtain ⟨ys, zs, hsplit, hr⟩ := hadj
    -- nothing comes after the last node
    replace hr : some 1 = zs.head? := hr
    rcases ys with _ | ⟨a, _ | ⟨b, _ | ⟨c, ys⟩⟩⟩
    · simp at hsplit
    · simp at hsplit
    · obtain ⟨-, -, rfl⟩ : 1 = a ∧ 2 = b ∧ zs = [] := by simpa using hsplit
      simp at hr
    · simp at hsplit

end LinuxC.Bst
