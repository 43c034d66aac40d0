import LinuxC.Bst.Balance
import LinuxC.RbTree.OrderedSet

/-!
# The height after balancing

`bst_balance` makes the lowest tree: with `n` nodes its height is that of the binary numeral of `n`,
which is what `fhs` counts and what `slant_back` finds in its variable `height`
(`balance_lowest`).  `uapi_ipc_init` and `uapi_event_register` create their tables with the height
`fhs(n)` for `n` entries, insert the entries and balance the table; so the iterators have a stack
that is long enough.
-/

namespace LinuxC.Bst

variable {N : Type}

/-- `fhs`, the number of the highest bit that is set. -/
def fhs (n : ℕ) : ℕ := if n = 0 then 0 else fhs (n >>> 1) + 1
decreasing_by
  rw [Nat.shiftRight_one]
  omega

lemma fhs_eq (n : ℕ) : fhs n = if n = 0 then 0 else Nat.log2 n + 1 := by
  induction n using Nat.strong_induction_on with
  | _ n ih =>
      rw [fhs]
      by_cases h0 : n = 0
      · rw [if_pos h0, if_pos h0]
      · rw [if_neg h0, if_neg h0, Nat.shiftRight_one, ih (n / 2) (by omega), Nat.log2_def n]
        by_cases h2 : 2 ≤ n
        · rw [if_pos h2, if_neg (by omega)]
        · rw [if_neg h2, if_pos (by omega)]

lemma lt_two_pow_fhs (n : ℕ) : n < 2 ^ fhs n := by
  rw [fhs_eq]
  split_ifs with h0
  · rw [h0]
    decide
  · exact Nat.lt_log2_self

lemma fhs_le {n m : ℕ} (h : n < 2 ^ m) : fhs n ≤ m := by
  rw [fhs_eq]
  split_ifs with h0
  · exact Nat.zero_le m
  · have : 2 ^ Nat.log2 n < 2 ^ m := (Nat.log2_self_le h0).trans_lt h
    exact (Nat.pow_lt_pow_iff_right (by decide)).mp this

/-- A tree of height `m` has fewer than `2 ^ m` nodes. -/
lemma length_lt_two_pow (T : Tree N) : T.nodes.length < 2 ^ T.height := by
  induction T with
  | nil => simp [Tree.height]
  | node c l a r ihl ihr =>
      have hl : 2 ^ l.height ≤ 2 ^ max l.height r.height :=
        Nat.pow_le_pow_right (by decide) (le_max_left _ _)
      have hr : 2 ^ r.height ≤ 2 ^ max l.height r.height :=
        Nat.pow_le_pow_right (by decide) (le_max_right _ _)
      rw [Tree.height, Nat.pow_succ, Tree.nodes_node, List.length_append, List.length_cons]
      omega

lemma height_filled {T : Tree N}
    (h : Filled (fullLevels T.nodes.length) (lastLevel T.nodes.length) T) :
    T.height = fhs T.nodes.length :=
  le_antisymm (h.height_le (lt_two_pow_fhs _)) (fhs_le (length_lt_two_pow T))

variable [DecidableEq N] {cmp : N → N → ℤ}

/-- The loop with `bst_insert` over the entries. -/
def insertEntries (cmp : N → N → ℤ) (fuel : ℕ) :
    List N → BstTable N → Except Fault (BstTable N)
  | [], t => .ok t
  | n :: ns, t => do
      let (t, _) ← bstInsert cmp fuel n t
      insertEntries cmp fuel ns t

/-- The table that `uapi_ipc_init` and `uapi_event_register` make of their entries. -/
def entryTable (cmp : N → N → ℤ) (link : N → Dir → Option N) (fuel : ℕ) (entries : List N) :
    Except Fault (BstTable N) := do
  let t ← insertEntries cmp fuel entries (bstCreate link (fhs entries.length))
  bstBalance fuel t

/-- **Inserting the entries.**  Those that are equal to an entry before them are left out. -/
lemma IsTree.insertEntries (hcmp : Comparator cmp) {ns : List N} {t : BstTable N} {T : Tree N}
    (h : IsTree cmp t T) {fuel : ℕ} (hfuel : t.count + ns.length < fuel) :
    ∃ t' T', insertEntries cmp fuel ns t = .ok t' ∧ IsTree cmp t' T' ∧
      t'.count ≤ t.count + ns.length ∧ t'.maxHeight = t.maxHeight := by
  induction ns generalizing t T with
  | nil => exact ⟨t, T, rfl, h, le_refl _, rfl⟩
  | cons n ns ih =>
      rw [List.length_cons] at hfuel ⊢
      obtain ⟨t₁, T₁, r, heval, h₁, hcount, hmax⟩ : ∃ t₁ T₁ r, bstInsert cmp fuel n t = .ok (t₁, r) ∧
          IsTree cmp t₁ T₁ ∧ t₁.count ≤ t.count + 1 ∧ t₁.maxHeight = t.maxHeight := by
        by_cases hequal : ∃ m ∈ T.nodes, cmp n m = 0
        · obtain ⟨m, hm, hnm⟩ := hequal
          exact ⟨t, T, m, h.insert_equal hcmp hm hnm (by omega), h, Nat.le_succ _, rfl⟩
        · have hnew : ∀ m ∈ T.nodes, cmp n m ≠ 0 := fun m hm h0 => hequal ⟨m, hm, h0⟩
          obtain ⟨t₁, T₁, heval, h₁, ⟨ys, zs, hold, hadded⟩, hmax⟩ :=
            h.insert_new hcmp hnew (by omega : t.count < fuel)
          refine ⟨t₁, T₁, n, heval, h₁, ?_, hmax⟩
          rw [h₁.count, h.count, hold, hadded]
          simp only [List.length_append, List.length_cons]
          omega
      obtain ⟨t', T', heval', h', hcount', hmax'⟩ := ih h₁ (by omega)
      refine ⟨t', T', ?_, h', by omega, hmax'.trans hmax⟩
      rw [Bst.insertEntries, heval]
      exact heval'

/-- **Balancing makes the lowest tree.**  `bst_balance` returns on every search tree; the order of
the nodes and `bst_count` do not change, and the height is `⌊log₂ n⌋ + 1` for `n` nodes, which is the
last value of the variable `height` of `slant_back` when there is a node.  The tables of
`uapi_ipc_init` and `uapi_event_register` are within their maximal height afterwards. -/
theorem balance_lowest (hcmp : Comparator cmp) :
    (∀ (t : BstTable N) T fuel, IsTree cmp t T → 2 * t.count < fuel →
      ∃ t₁ t₂ T' height, slantLeft fuel .table t.root t = .ok t₁ ∧
        slantBack fuel t₁ = .ok (t₂, height) ∧
        bstBalance fuel t = .ok { t₂ with generation := t₂.generation + 1 } ∧
        IsTree cmp { t₂ with generation := t₂.generation + 1 } T' ∧ T'.nodes = T.nodes ∧
        t₂.count = t.count ∧
        T'.height = (if t.count = 0 then 0 else Nat.log2 t.count + 1) ∧
        (1 ≤ t.count → height = T'.height) ∧
        (t.maxHeight = fhs t.count → T'.height ≤ t₂.maxHeight)) ∧
      ∀ link (entries : List N) fuel, 2 * entries.length < fuel →
        ∃ t T, entryTable cmp link fuel entries = .ok t ∧ IsTree cmp t T ∧
          t.maxHeight = fhs entries.length ∧ T.height ≤ t.maxHeight := by
  constructor
  · intro t T fuel h hfuel
    obtain ⟨t₁, t₂, T', height, heval₁, heval₂, h₂, hnodes, hfilled, hheight, hf⟩ :=
      h.holds.slant h.count hfuel
    have hcount : t.count = T'.nodes.length := by rw [hnodes, h.count]
    have hlow : T'.height = fhs t.count := by
      rw [hcount] at hfilled ⊢
      exact height_filled hfilled
    refine ⟨t₁, t₂, T', height, heval₁, heval₂, ?_, ⟨h₂.of_eq rfl rfl, ?_, ?_⟩, hnodes, hf.count,
      hlow.trans (fhs_eq _), hheight, fun hmax => ?_⟩
    · rw [bstBalance, heval₁]
      change (slantBack fuel t₁ >>= _) = _
      rw [heval₂]
      rfl
    · rw [hnodes]
      exact h.sorted
    · exact hf.count.trans hcount
    · rw [hlow, hf.maxHeight, hmax]
  · intro link entries fuel hfuel
    have hnew : IsTree cmp (bstCreate link (fhs entries.length)) .nil :=
      ⟨⟨rfl, trivial, List.nodup_nil⟩, List.Pairwise.nil, rfl⟩
    have hzero : (bstCreate link (fhs entries.length)).count = 0 := rfl
    obtain ⟨t₁, T₁, heval₁, h₁, hcount₁, hmax₁⟩ :=
      hnew.insertEntries hcmp (by omega : _ + entries.length < fuel)
    obtain ⟨t, T, heval, h, hnodes, hlow, -, hmax, -⟩ :=
      h₁.balance (by omega : 2 * t₁.count < fuel)
    have hheight : t₁.maxHeight = fhs entries.length := hmax₁
    refine ⟨t, T, ?_, h, hmax.trans hheight, ?_⟩
    · rw [entryTable, heval₁]
      exact heval
    · rw [hmax]
      apply hlow
      rw [hheight]
      have := lt_two_pow_fhs entries.length
      omega

/-- The table of four entries, two of them equal. -/
theorem balance_lowest_sample : ∃ t T,
    entryTable Rb.natCmp (fun _ _ => none) 9 [3, 1, 3, 2] = .ok t ∧ IsTree Rb.natCmp t T ∧
      T.height ≤ t.maxHeight := by
  have hfuel : 2 * [3, 1, 3, 2].length < 9 := by decide
  obtain ⟨t, T, heval, h, -, hheight⟩ :=
    (balance_lowest Rb.comparator_natCmp).2 (fun _ _ => none) [3, 1, 3, 2] 9 hfuel
  exact ⟨t, T, heval, h, hheight⟩

end LinuxC.Bst
