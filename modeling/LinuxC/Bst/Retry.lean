import LinuxC.Bst.Height
import LinuxC.Bst.Stability

/-!
# Balancing and starting again

`bst_iterator_first`, `bst_iterator_last` and `bst_iterator_find` balance the tree and call
themselves when the stack is too short for the path they follow.  Balancing makes the lowest tree
over the nodes, so a second time it changes nothing: when the path is too long then, too, the
function never returns.  `Retries` describes such a function by the length of its path, and
`Retries.returns_iff` says when it returns.

For the ends of the order the path in the lowest tree is known from the number of the nodes
(`iterators_return_iff`).  `bst_balance` is to ensure that no path has more than `bst_max_height`
nodes, but nothing relates this height to the number of nodes that are inserted.
-/

namespace LinuxC.Bst

open Rb (endOf)

variable {N I : Type} [DecidableEq N] {cmp : N → N → ℤ} {β : Type}

/-- The function returns a result with the property, if it is given enough turns. -/
def Returns (x : ℕ → Except Fault β) (P : β → Prop) : Prop :=
  ∃ k, ∀ fuel, k ≤ fuel → ∃ r, x fuel = .ok r ∧ P r

/-- A function that follows a path of `depth T` nodes in the tree `T`: it returns when the stack is
long enough for the path, and otherwise balances the tree and starts again. -/
structure Retries (cmp : N → N → ℤ) (g : ℕ → BstIterator N → BstTable N → Except Fault β)
    (depth : Tree N → ℕ) (P : List N → β → Prop) : Prop where
  zero : ∀ it t r, g 0 it t ≠ .ok r
  short : ∀ {t T k} it, IsTree cmp t T → depth T ≤ t.maxHeight → t.count < k →
    ∃ r, g (k + 1) it t = .ok r ∧ P T.nodes r
  long : ∀ {t T k} it, IsTree cmp t T → t.maxHeight < depth T → t.count < k →
    ∃ it', g (k + 1) it t = (bstBalance k t >>= g k it')
  again : ∀ {t T k it r}, IsTree cmp t T → t.maxHeight < depth T → g (k + 1) it t = .ok r →
    ∃ it' t', bstBalance k t = .ok t' ∧ g k it' t' = .ok r

section Retries

variable {g : ℕ → BstIterator N → BstTable N → Except Fault β} {depth : Tree N → ℕ}
  {P : List N → β → Prop} {t : BstTable N} {T : Tree N}

/-- **The path is too long in the lowest tree, too.** -/
lemma Retries.never (hg : Retries cmp g depth P) (low : List N → ℕ)
    (hlow : ∀ T, Filled (fullLevels T.nodes.length) (lastLevel T.nodes.length) T →
      depth T = low T.nodes) (h : IsTree cmp t T) (hlong : t.maxHeight < depth T)
    (hlowest : t.maxHeight < low T.nodes) (fuel : ℕ) (it : BstIterator N) (r : β) :
    g fuel it t ≠ .ok r := by
  induction fuel generalizing t T it with
  | zero => exact hg.zero it t r
  | succ fuel ih =>
      intro heval
      obtain ⟨it', t', hbalance, heval'⟩ := hg.again h hlong heval
      obtain ⟨T', hT', hnodes, hfilled, hmax, -⟩ := h.balance_filled_of_eq hbalance
      rw [h.count, ← hnodes] at hfilled
      have hlowest' : t'.maxHeight < low T'.nodes := by rwa [hmax, hnodes]
      refine ih hT' ?_ hlowest' it' heval'
      rwa [hlow T' hfilled]

/-- **When the function returns.** -/
lemma Retries.returns_iff (hg : Retries cmp g depth P) (low : List N → ℕ)
    (hlow : ∀ T, Filled (fullLevels T.nodes.length) (lastLevel T.nodes.length) T →
      depth T = low T.nodes) (h : IsTree cmp t T) (it : BstIterator N) :
    Returns (fun fuel => g fuel it t) (P T.nodes) ↔
      depth T ≤ t.maxHeight ∨ low T.nodes ≤ t.maxHeight := by
  constructor
  · rintro ⟨k, hk⟩
    by_contra hnot
    push Not at hnot
    obtain ⟨r, heval, -⟩ := hk k (le_refl k)
    exact hg.never low hlow h hnot.1 hnot.2 k it r heval
  · intro hfits
    refine ⟨2 * t.count + 4, fun fuel hfuel => ?_⟩
    obtain ⟨k, rfl⟩ : ∃ k, fuel = k + 1 + 1 := ⟨fuel - 2, by omega⟩
    rcases le_or_gt (depth T) t.maxHeight with hshort | hlong
    · exact hg.short it h hshort (by omega)
    · obtain ⟨it', heval⟩ := hg.long it h hlong (by omega : t.count < k + 1)
      obtain ⟨t', T', hbalance, hT', hnodes, hfilled, -, hmax, hcount⟩ :=
        h.balance_filled (by omega : 2 * t.count < k + 1)
      rw [h.count, ← hnodes] at hfilled
      have hshort : depth T' ≤ t'.maxHeight := by
        rw [hlow T' hfilled, hmax, hnodes]
        exact hfits.resolve_left (not_le.mpr hlong)
      obtain ⟨r, heval', hr⟩ := hg.short it' hT' hshort (by omega : t'.count < k)
      rw [hnodes] at hr
      refine ⟨r, ?_, hr⟩
      change g (k + 1 + 1) it t = _
      rw [heval, hbalance]
      exact heval'

end Retries

/-! ## The ends of the order -/

/-- The number of nodes above the end of the tree on side `d`. -/
def aboveEnd (d : Dir) (T : Tree N) : ℕ := spine d T - 1

/-- `bst_iterator_first` and `bst_iterator_last` follow the edge of the tree. -/
lemma retries_end (d : Dir) : Retries cmp (bstIteratorEnd d) (aboveEnd d)
    fun xs (r : Option N × BstIterator N × BstTable N) => r.1 = endOf d xs where
  zero := by
    intro it t r h
    cases h
  short := by
    intro t T k it h hshort hk
    unfold aboveEnd at hshort
    rcases end_turn d it h hk with ⟨-, r, heval, hr⟩ | ⟨hlong, -⟩
    · exact ⟨r, heval, hr.answer⟩
    · omega
  long := by
    intro t T k it h hlong hk
    unfold aboveEnd at hlong
    rcases end_turn d it h hk with ⟨hshort, -⟩ | ⟨-, hretry⟩
    · omega
    · exact hretry
  again := by
    intro t T k it r h hlong heval
    unfold aboveEnd at hlong
    rw [bstIteratorEnd, h.holds.root] at heval
    cases hroot : T.root? with
    | none =>
        have hnil : T = .nil := Tree.eq_nil_of_root? hroot
        simp [hnil, spine] at hlong
    | some x =>
        rw [hroot] at heval
        obtain ⟨⟨y, it₁⟩, hdescend, heval⟩ := ok_of_bind heval
        have hheld : Holds t (plug [] T) := h.holds
        have hstack : Stacked { it with height := 0, generation := t.generation }
            (names ([] : Ctx N)) := stacked_nil rfl
        obtain ⟨-, -, hend⟩ := descend_of_eq hheld hroot hstack (Nat.zero_le _) hdescend
        dsimp only at hend
        rcases hend with rfl | ⟨ctx, c, z, C, rfl, hdirs, -, -, hle⟩
        · obtain ⟨t', hbalance, heval⟩ := ok_of_bind heval
          exact ⟨it₁, t', hbalance, heval⟩
        · rw [List.append_nil] at hle
          rw [spine_plug hdirs] at hlong
          omega

/-- The left edge of the lowest tree over `n` nodes. -/
lemma fullLevels_le_iff {n m : ℕ} : fullLevels n ≤ m ↔ n + 1 < 2 ^ (m + 1) := by
  rw [fullLevels, ← Nat.lt_succ_iff]
  exact Nat.log2_lt (by omega)

lemma fhs_le_iff {n m : ℕ} : fhs n ≤ m ↔ n < 2 ^ m :=
  ⟨fun h => (lt_two_pow_fhs n).trans_le (Nat.pow_le_pow_right (by decide) h), fhs_le⟩

omit [DecidableEq N] in
lemma aboveEnd_left_of_filled {T : Tree N}
    (h : Filled (fullLevels T.nodes.length) (lastLevel T.nodes.length) T) :
    aboveEnd .left T = fullLevels T.nodes.length - 1 := by
  rw [aboveEnd, h.spine_left (lastLevel_lt _)]

omit [DecidableEq N] in
lemma aboveEnd_right_of_filled {T : Tree N}
    (h : Filled (fullLevels T.nodes.length) (lastLevel T.nodes.length) T) :
    aboveEnd .right T = fhs T.nodes.length - 1 := by
  rw [aboveEnd, h.height_eq.2, height_filled h]

/-- **`bst_iterator_first`** returns the least node. -/
lemma first_returns_iff {t : BstTable N} {T : Tree N} (h : IsTree cmp t T) (it : BstIterator N) :
    Returns (fun fuel => bstIteratorFirst fuel it t) (fun r => r.1 = T.nodes.head?) ↔
      spine .left T ≤ t.maxHeight + 1 ∨ T.nodes.length + 1 < 2 ^ (t.maxHeight + 2) := by
  refine ((retries_end .left).returns_iff (fun xs => fullLevels xs.length - 1)
    (fun _ => aboveEnd_left_of_filled) h it).trans ?_
  rw [aboveEnd, Nat.sub_le_iff_le_add, Nat.sub_le_iff_le_add, fullLevels_le_iff]

/-- **`bst_iterator_last`** returns the greatest node. -/
lemma last_returns_iff {t : BstTable N} {T : Tree N} (h : IsTree cmp t T) (it : BstIterator N) :
    Returns (fun fuel => bstIteratorLast fuel it t) (fun r => r.1 = T.nodes.getLast?) ↔
      spine .right T ≤ t.maxHeight + 1 ∨ T.nodes.length < 2 ^ (t.maxHeight + 1) := by
  refine ((retries_end .right).returns_iff (fun xs => fhs xs.length - 1)
    (fun _ => aboveEnd_right_of_filled) h it).trans ?_
  rw [aboveEnd, Nat.sub_le_iff_le_add, Nat.sub_le_iff_le_add, fhs_le_iff]

/-! ## Finding -/

section Find

variable {searcher : I → N → ℤ}

lemma retries_find (hsearch : Rb.Consistent cmp searcher) (item : I) :
    Retries cmp (bstIteratorFind searcher item) (passes (searcher item))
      fun xs (r : Option N × BstIterator N × BstTable N) =>
        ∀ m, r.1 = some m ↔ m ∈ xs ∧ searcher item m = 0 where
  zero := by
    intro it t r h
    cases h
  short := by
    intro t T k it h hshort hk
    rcases find_turn searcher item it h hk with ⟨-, r, heval, hr, hloc⟩ | ⟨hlong, -⟩
    · refine ⟨r, heval, fun m => ⟨hr.answer m, fun ⟨hm, h0⟩ => ?_⟩⟩
      obtain ⟨c, l, s, he⟩ := locate_of_zero (guides_searcher hsearch h.sorted item) hm h0
      rw [hloc, he, Tree.root?_bin]
    · omega
  long := by
    intro t T k it h hlong hk
    rcases find_turn searcher item it h hk with ⟨hshort, -⟩ | ⟨-, hretry⟩
    · omega
    · exact hretry
  again := by
    intro t T k it r h hlong heval
    rw [bstIteratorFind] at heval
    obtain ⟨e, hseek, heval⟩ := ok_of_bind heval
    have hheight : ({ it with
      height := 0, generation := t.generation } : BstIterator N).height = 0 := rfl
    have hlength : (locate (searcher item) [] T).1.length = passes (searcher item) T := by
      simpa using length_locate (searcher item) [] T
    obtain ⟨e', hseek', hsought⟩ :=
      h.seek (searcher item) hheight (by omega : t.count < k + (t.count + 1))
    rw [stable_add (x := fun n => seek (searcher item) t n .table .left _) seek_succ hseek]
      at hseek'
    obtain rfl := Except.ok.inj hseek'
    cases hsought with
    | @full it' _ _ _ =>
        obtain ⟨t', hbalance, heval⟩ := ok_of_bind heval
        exact ⟨it', t', hbalance, heval⟩
    | outside _ _ _ hle => omega
    | arrived _ _ _ hle => omega

/-- **`bst_iterator_find`** returns the matching node. -/
lemma find_returns_iff (hsearch : Rb.Consistent cmp searcher) {t : BstTable N} {T : Tree N}
    (h : IsTree cmp t T) (item : I) (it : BstIterator N) :
    Returns (fun fuel => bstIteratorFind searcher item fuel it t)
        (fun r => ∀ m, r.1 = some m ↔ m ∈ T.nodes ∧ searcher item m = 0) ↔
      passes (searcher item) T ≤ t.maxHeight ∨
        passes (searcher item) (lowest T.nodes) ≤ t.maxHeight :=
  (retries_find hsearch item).returns_iff (fun xs => passes (searcher item) (lowest xs))
    (fun _ hfilled => hfilled.passes_eq _) h it

end Find

/-! ## The three functions -/

/-- **When the iterator functions return.**  On a search tree with `n` nodes and the maximal height
`h`, `bst_iterator_first` returns the least node exactly when the left edge has at most `h + 1` nodes
or `n + 1 < 2 ^ (h + 2)`; `bst_iterator_last` returns the greatest node exactly when the right edge
has at most `h + 1` nodes or `n < 2 ^ (h + 1)`; and `bst_iterator_find` returns the matching node
exactly when the search passes at most `h` nodes in this tree or in the lowest tree over its nodes.
-/
theorem iterators_return_iff {searcher : I → N → ℤ} (hsearch : Rb.Consistent cmp searcher)
    {t : BstTable N} {T : Tree N} (h : IsTree cmp t T) (it : BstIterator N) :
    (Returns (fun fuel => bstIteratorFirst fuel it t) (fun r => r.1 = T.nodes.head?) ↔
        spine .left T ≤ t.maxHeight + 1 ∨ T.nodes.length + 1 < 2 ^ (t.maxHeight + 2)) ∧
      (Returns (fun fuel => bstIteratorLast fuel it t) (fun r => r.1 = T.nodes.getLast?) ↔
        spine .right T ≤ t.maxHeight + 1 ∨ T.nodes.length < 2 ^ (t.maxHeight + 1)) ∧
      ∀ item, Returns (fun fuel => bstIteratorFind searcher item fuel it t)
          (fun r => ∀ m, r.1 = some m ↔ m ∈ T.nodes ∧ searcher item m = 0) ↔
        passes (searcher item) T ≤ t.maxHeight ∨
          passes (searcher item) (lowest T.nodes) ≤ t.maxHeight :=
  ⟨first_returns_iff h it, last_returns_iff h it, fun item => find_returns_iff hsearch h item it⟩

/-- The tree of four nodes that were inserted in their order. -/
def chain : Tree ℕ :=
  .node .black .nil 1 (.node .black .nil 2 (.node .black .nil 3 (.node .black .nil 4 .nil)))

lemma exists_chain (height : ℕ) : ∃ t, t.maxHeight = height ∧ IsTree Rb.natCmp t chain ∧
    insertEntries Rb.natCmp 5 [1, 2, 3, 4] (bstCreate (fun _ _ => none) height) = .ok t := by
  refine ⟨_, rfl, ⟨⟨rfl, ?_, by decide⟩, ?_, rfl⟩, rfl⟩
  · exact ⟨rfl, rfl, trivial, rfl, rfl, trivial, rfl, rfl, trivial, rfl, rfl, trivial, trivial⟩
  · simp [chain, Sorted, Rb.natCmp]

/-- With a stack for two nodes the last one of four nodes is found. -/
theorem iterators_return_iff_sample : ∃ t, t.maxHeight = 2 ∧ IsTree Rb.natCmp t chain ∧
    Returns (fun fuel => bstIteratorLast fuel (bstIteratorInit (fun _ => none) t) t)
      fun r => r.1 = some 4 := by
  obtain ⟨t, hmax, h, -⟩ := exists_chain 2
  refine ⟨t, hmax, h, ?_⟩
  refine (iterators_return_iff Rb.consistent_natCmp h
    (bstIteratorInit (fun _ => none) t)).2.1.mpr (.inr ?_)
  rw [hmax]
  decide

/-- **A search for the last node that does not end.**  A table is created with the maximal height
one, and four nodes are inserted.  The right edge of the balanced tree has three nodes, so
`bst_iterator_last` balances it again and again. -/
theorem last_never_returns : ∃ t,
    insertEntries Rb.natCmp 5 [1, 2, 3, 4] (bstCreate (fun _ _ => none) 1) = .ok t ∧
      ∀ fuel r, bstIteratorLast fuel (bstIteratorInit (fun _ => none) t) t ≠ .ok r := by
  obtain ⟨t, hmax, h, heval⟩ := exists_chain 1
  refine ⟨t, heval, fun fuel r => ?_⟩
  refine (retries_end .right).never (fun xs => fhs xs.length - 1)
    (fun _ => aboveEnd_right_of_filled) h ?_ ?_ fuel _ r
  · rw [hmax]
    decide
  · rw [hmax, fhs_eq]
    decide

end LinuxC.Bst
