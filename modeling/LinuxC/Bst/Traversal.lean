import LinuxC.Bst.Iterator

/-!
# What the iterator functions return

A function that meets a full stack balances the tree and starts again.  `Round` describes one round
of such a function: it returns, or the tree is higher than the stack is long.  After the tree was
balanced the second case is impossible, so that a function takes at most two rounds (`rounds`).

The functions that only look at the tree have an `Answer`: the node they return is the new current
node, and the iterator is valid.
-/

namespace LinuxC.Bst

open Rb (endOf)

variable {N I : Type} [DecidableEq N] {cmp : N → N → ℤ}

/-! ## Rounds -/

section Rounds

variable {β : Type} {g : ℕ → BstIterator N → BstTable N → Except Fault β}
  {R : BstTable N → Tree N → BstIterator N → Prop} {P : BstTable N → Tree N → β → Prop}

/-- One round of the function `g`: it returns with the property `P`, or it balances a tree that is
too high and starts again with an iterator that has the property `R` then. -/
def Round (cmp : N → N → ℤ) (g : ℕ → BstIterator N → BstTable N → Except Fault β)
    (R : BstTable N → Tree N → BstIterator N → Prop) (P : BstTable N → Tree N → β → Prop)
    (t : BstTable N) (T : Tree N) (it : BstIterator N) (k : ℕ) : Prop :=
  (∃ r, g (k + 1) it t = .ok r ∧ P t T r) ∨
    t.maxHeight < T.height ∧ ∃ it', g (k + 1) it t = (bstBalance k t >>= g k it') ∧
      ∀ t' T', Balanced cmp t T t' T' → R t' T' it'

lemma IsTree.balanced {t : BstTable N} {T : Tree N} (h : IsTree cmp t T)
    (hlow : t.count < 2 ^ t.maxHeight) {fuel : ℕ} (hfuel : 2 * t.count < fuel) :
    ∃ t' T', bstBalance fuel t = .ok t' ∧ Balanced cmp t T t' T' ∧ t'.count = t.count := by
  obtain ⟨t', T', heval, hT', hnodes, hheight, hgen, hmax, hcount⟩ := h.balance hfuel
  exact ⟨t', T', heval, ⟨hT', hnodes, hmax ▸ hheight hlow, hgen, hmax⟩, hcount⟩

/-- **Two rounds are enough.** -/
lemma rounds (hround : ∀ {t T it k}, IsTree cmp t T → R t T it → t.count < k →
      Round cmp g R P t T it k) {t : BstTable N} {T : Tree N} {it : BstIterator N} {fuel : ℕ}
    (h : IsTree cmp t T) (hlow : t.count < 2 ^ t.maxHeight) (hR : R t T it)
    (hfuel : 2 * t.count + 3 ≤ fuel) :
    ∃ t' T' r, g fuel it t = .ok r ∧ Rebalanced cmp t T t' T' ∧ P t' T' r := by
  obtain ⟨k, rfl⟩ : ∃ k, fuel = k + 1 + 1 := ⟨fuel - 2, by omega⟩
  rcases hround h hR (by omega : t.count < k + 1) with ⟨r, heval, hr⟩ | ⟨-, it', heval, hready⟩
  · exact ⟨t, T, r, heval, .inl ⟨rfl, rfl⟩, hr⟩
  · obtain ⟨t', T', hbalance, hbal, hcount⟩ := h.balanced hlow (by omega : 2 * t.count < k + 1)
    rw [hbalance] at heval
    replace heval : g (k + 1 + 1) it t = g (k + 1) it' t' := heval
    rcases hround hbal.isTree (hready t' T' hbal) (by omega : t'.count < k) with
      ⟨r, heval', hr⟩ | ⟨hhigh, -⟩
    · exact ⟨t', T', r, heval.trans heval', .inr hbal, hr⟩
    · exact absurd hbal.height (not_le.mpr hhigh)

end Rounds

/-! ## The ends of the order -/

/-- The result of a function that looks at the tree: the node has the property `A`. -/
structure Answer (A : List N → Option N → Prop) (t : BstTable N) (T : Tree N)
    (r : Option N × BstIterator N × BstTable N) : Prop where
  answer : A T.nodes r.1
  node : r.2.1.node = r.1
  table : r.2.2 = t
  valid : Valid t T r.2.1

section End

variable {d : Dir} {t : BstTable N} {T : Tree N} {it : BstIterator N} {k : ℕ}

/-- One turn of `bst_iterator_first` or `bst_iterator_last`: the edge of the tree decides whether it
returns. -/
lemma end_turn (d : Dir) (it : BstIterator N) (h : IsTree cmp t T) (hk : t.count < k) :
    (spine d T ≤ t.maxHeight + 1 ∧ ∃ r, bstIteratorEnd d (k + 1) it t = .ok r ∧
        Answer (fun xs r => r = endOf d xs) t T r) ∨
      (t.maxHeight + 1 < spine d T ∧ ∃ it',
        bstIteratorEnd d (k + 1) it t = (bstBalance k t >>= bstIteratorEnd d k it')) := by
  have hheld : Holds t (plug [] T) := h.holds
  cases hroot : T.root? with
  | none =>
      obtain rfl : T = .nil := Tree.eq_nil_of_root? hroot
      refine .inl ⟨by simp [spine],
        (none, { it with height := 0, generation := t.generation, node := none }, t), ?_,
        ⟨?_, rfl, rfl, valid_none rfl rfl⟩⟩
      · rw [bstIteratorEnd, h.holds.root, hroot]
      · cases d <;> rfl
  | some x =>
      have hstack : Stacked { it with height := 0, generation := t.generation }
          (names ([] : Ctx N)) := stacked_nil rfl
      rw [h.count] at hk
      obtain ⟨r, it₁, heval, -, hgen, hend⟩ :=
        descend_spec (d := d) hheld hroot hstack (Nat.zero_le _) hk
      rcases hend with ⟨rfl, hlong⟩ | ⟨ctx, c, y, C, rfl, hdirs, rfl, hst, hle⟩
      · refine .inr ⟨by simpa using hlong, it₁, ?_⟩
        rw [bstIteratorEnd, h.holds.root, hroot]
        change (descend d t k x _ >>= _) = _
        rw [heval]
        rfl
      · rw [List.append_nil] at hst hle
        have hat : At (plug ctx (.bin d c .nil y C)) (names ctx) y :=
          at_names ctx (at_bin_nil.mpr rfl)
        refine .inl ⟨?_, (some y, { it₁ with node := some y }, t), ?_, ⟨?_, rfl, rfl, ?_⟩⟩
        · rw [spine_plug hdirs]
          omega
        · rw [bstIteratorEnd, h.holds.root, hroot]
          change (descend d t k x _ >>= _) = _
          rw [heval]
          rfl
        · exact (endOf_plug hdirs c y C).symm
        · exact valid_of_stacked hat (by rwa [length_names]) rfl (hst.of_eq rfl rfl) hgen

lemma end_round (h : IsTree cmp t T) (hk : t.count < k) :
    Round cmp (bstIteratorEnd d) (fun _ _ _ => True) (Answer fun xs r => r = endOf d xs) t T it
      k := by
  rcases end_turn d it h hk with ⟨-, hreturn⟩ | ⟨hlong, it', heval⟩
  · exact .inl hreturn
  · have := spine_le_height d T
    exact .inr ⟨by omega, it', heval, fun _ _ _ => trivial⟩

/-- **`bst_iterator_first` and `bst_iterator_last`** select the ends of the order. -/
lemma IsTree.iteratorEnd (h : IsTree cmp t T) (hlow : t.count < 2 ^ t.maxHeight) (d : Dir)
    (it : BstIterator N) {fuel : ℕ} (hfuel : 2 * t.count + 3 ≤ fuel) :
    ∃ t' T' r, bstIteratorEnd d fuel it t = .ok r ∧ Rebalanced cmp t T t' T' ∧
      Answer (fun xs r => r = endOf d xs) t' T' r :=
  rounds (fun h _ hk => end_round h hk) h hlow trivial hfuel

end End

/-! ## The next node -/

section Step

variable {d : Dir} {t : BstTable N} {T : Tree N} {it : BstIterator N} {k : ℕ}

/-- **The stack is made right.**  Where the generation is the old one, it is right already. -/
lemma IsTree.synchronised (h : IsTree cmp t T) (hcmp : Comparator cmp) (hv : Valid t T it)
    (hfresh : Fresh t it) {x : N} (hnode : it.node = some x) (d : Dir) (hk : t.count < k) :
    ∃ it₁ ctx c A B, refreshStale cmp k t it = .ok it₁ ∧ it₁.node = some x ∧
      it₁.generation = t.generation ∧ T = plug ctx (.bin d c A x B) ∧ Stacked it₁ (names ctx) ∧
      ctx.length ≤ t.maxHeight := by
  obtain ⟨as, hat, hle, hst⟩ := hv.path x hnode
  obtain ⟨ctx, c, l, r, rfl, rfl⟩ := hat.exists_focus
  replace hle : (names ctx).length ≤ t.maxHeight := hle
  rw [length_names] at hle
  obtain ⟨A, B, hbin⟩ : ∃ A B, Tree.bin .left c l x r = .bin d c A x B := by
    cases d with
    | left => exact ⟨l, r, rfl⟩
    | right => exact ⟨r, l, rfl⟩
  by_cases hsame : sameGeneration it.generation t.generation
  · have hgen := hfresh hsame
    exact ⟨it, ctx, c, A, B, if_pos hsame, hnode, hgen, by rw [hbin], hst hgen, hle⟩
  · have hheld : Holds t (plug [] (plug ctx (.bin .left c l x r))) := h.holds
    have hsorted : Sorted cmp (plug [] (plug ctx (.bin .left c l x r))).nodes := h.sorted
    have hlen := length_le_nodes_plug ctx (.bin .left c l x r)
    rw [← h.count] at hlen
    have hstack : Stacked { it with height := 0, generation := t.generation }
        (names ([] : Ctx N)) := stacked_nil rfl
    obtain ⟨it₁, heval, hst₁, hnode₁, hgen₁⟩ := refreshLoop_spec hcmp hheld hsorted hstack
      (by simpa using hle) (by omega : ctx.length < k)
    rw [List.append_nil] at hst₁
    refine ⟨it₁, ctx, c, A, B, ?_, hnode₁.trans hnode, hgen₁, by rw [hbin], hst₁, hle⟩
    rw [refreshStale, if_neg hsame, bstIteratorRefresh]
    simp only [hnode, h.holds.root] at heval ⊢
    exact heval

omit [DecidableEq N] in
lemma height_pos_of_root? {A : Tree N} {y : N} (h : A.root? = some y) : 0 < A.height := by
  cases A with
  | nil => cases h
  | node c l a r => exact Nat.succ_pos _

/-- The iterator is at the node `x` and can be used. -/
def Ready (x : N) (t : BstTable N) (T : Tree N) (it : BstIterator N) : Prop :=
  it.node = some x ∧ Valid t T it ∧ Fresh t it

omit [DecidableEq N] in
/-- After the tree was balanced an iterator with the generation from before can be used, whatever is
on its stack. -/
lemma ready_balanced {t' : BstTable N} {T' : Tree N} {as : List N} {x : N}
    (hbal : Balanced cmp t T t' T') (hx : At T as x) (hnode : it.node = some x)
    (hgen : it.generation = t.generation) : Ready x t' T' it := by
  have hgen' := hbal.generation
  obtain ⟨as', hat, hle⟩ := hbal.exists_at hx
  refine ⟨hnode, ⟨by omega, fun y hy => ?_⟩, fun hsame => ?_⟩
  · obtain rfl : x = y := Option.some.inj (hnode.symm.trans hy)
    exact ⟨as', hat, hle, fun heq => by omega⟩
  · rw [sameGeneration] at hsame
    omega

/-- One turn of `bst_iterator_next` or `bst_iterator_prev`: it returns, or the path to the next node
is too long for the stack. -/
lemma step_turn (hcmp : Comparator cmp) {x : N} (h : IsTree cmp t T) (hready : Ready x t T it)
    (hk : t.count < k) :
    (∃ r, bstIteratorStep cmp d (k + 1) it t = .ok r ∧
        Answer (fun xs r => Adjacent d xs (some x) r) t T r) ∨
      (t.maxHeight + 1 < T.height ∧ ∃ it',
        bstIteratorStep cmp d (k + 1) it t = (bstBalance k t >>= bstIteratorStep cmp d k it') ∧
          ∀ t' T', Balanced cmp t T t' T' → Ready x t' T' it') := by
  obtain ⟨hnode, hv, hfresh⟩ := hready
  obtain ⟨it₁, ctx, c, A, B, hsync, hnode₁, hgen₁, rfl, hst, hle⟩ :=
    h.synchronised hcmp hv hfresh hnode d hk
  have hlink := h.holds.link.1
  have hat : At (plug ctx (.bin d c A x B)) (names ctx) x := at_names ctx (at_bin_nil.mpr rfl)
  have hlen := length_le_nodes_plug ctx (.bin d c A x B)
  rw [← h.count, (Tree.nodes_bin_perm d c A x B).length_eq, List.length_cons,
    List.length_append] at hlen
  cases hA : A.root? with
  | none =>
      obtain rfl : A = .nil := Tree.eq_nil_of_root? hA
      obtain ⟨r, it', heval, hr, hgen', hend⟩ := climb_spec (d := d) h.holds
        (Tree.root?_bin d c .nil x B) hst (by omega : ctx.length < k)
      refine .inl ⟨(r, { it' with node := r }, t), ?_, ⟨?_, rfl, rfl, ?_⟩⟩
      · rw [bstIteratorStep, hsync]
        simp only [bind, Except.bind, hnode₁, hlink, Tree.root?_nil, heval]
      · rw [hr]
        exact adjacent_nil d ctx c x B
      · cases r with
        | none => exact valid_none rfl (hgen'.trans hgen₁)
        | some y =>
            obtain ⟨as, hy, hle', hst'⟩ := hend y rfl
            exact valid_of_stacked hy (hle'.trans hle) rfl (hst'.of_eq rfl rfl) (hgen'.trans hgen₁)
  | some y =>
      rw [hA] at hlink
      have hbelow : ctx.length + 1 + A.height ≤ (plug ctx (.bin d c A x B)).height :=
        length_add_height_le (⟨d, c, x, B⟩ :: ctx) A
      by_cases hfull : t.maxHeight ≤ it₁.height
      · refine .inr ⟨?_, it₁, ?_, fun _ _ hbal => ready_balanced hbal hat hnode₁ hgen₁⟩
        · have hpos := height_pos_of_root? hA
          rw [hst.height, length_names] at hfull
          omega
        · rw [bstIteratorStep, hsync]
          simp only [bind, Except.bind, hnode₁, hlink, if_pos hfull]
      · have hroom : (names ctx).length < t.maxHeight := by
          rw [← hst.height]
          omega
        obtain ⟨it₂, hpush, hst₂, hnode₂, hgen₂⟩ := hst.push x hroom
        rw [length_names] at hroom
        have hst₃ : Stacked it₂ (names (⟨d, c, x, B⟩ :: ctx)) := by rwa [names_cons]
        obtain ⟨r, it₃, heval, hnode₃, hgen₃, hend⟩ := descend_spec (d := d.opp) h.holds.down hA hst₃
          hroom (by omega : A.nodes.length < k)
        have hgen := hgen₃.trans (hgen₂.trans hgen₁)
        rcases hend with ⟨rfl, hlong⟩ | ⟨ctx', c', z, C, rfl, hdirs, rfl, hst', hle'⟩
        · have hhigh : t.maxHeight + 1 < (plug ctx (.bin d c A x B)).height := by
            have hspine := spine_le_height d.opp A
            rw [List.length_cons] at hlong
            omega
          refine .inr ⟨hhigh, it₃, ?_, fun _ _ hbal =>
            ready_balanced hbal hat (hnode₃.trans (hnode₂.trans hnode₁)) hgen⟩
          rw [bstIteratorStep, hsync]
          simp only [bind, Except.bind, hnode₁, hlink, if_neg hfull, hpush, heval]
        · have hz : At (plug (ctx' ++ ⟨d, c, x, B⟩ :: ctx) (.bin d.opp c' .nil z C))
              (names (ctx' ++ ⟨d, c, x, B⟩ :: ctx)) z := at_names _ (at_bin_nil.mpr rfl)
          rw [plug_append] at hz
          refine .inl ⟨(some z, { it₃ with node := some z }, t), ?_, ⟨?_, rfl, rfl, ?_⟩⟩
          · rw [bstIteratorStep, hsync]
            simp only [bind, Except.bind, hnode₁, hlink, if_neg hfull, hpush, heval]
          · exact adjacent_bin ctx c x B (endOf_plug hdirs c' z C)
          · exact valid_of_stacked hz (by rwa [length_names]) rfl (hst'.of_eq rfl rfl) hgen

lemma step_round (hcmp : Comparator cmp) {x : N} (h : IsTree cmp t T) (hready : Ready x t T it)
    (hk : t.count < k) :
    Round cmp (bstIteratorStep cmp d) (Ready x) (Answer fun xs r => Adjacent d xs (some x) r) t T it
      k := by
  rcases step_turn (d := d) hcmp h hready hk with hreturn | ⟨hhigh, hretry⟩
  · exact .inl hreturn
  · exact .inr ⟨by omega, hretry⟩

/-- **`bst_iterator_next` and `bst_iterator_prev`** go to the neighbour of the current node. -/
lemma IsTree.iteratorStep (h : IsTree cmp t T) (hcmp : Comparator cmp)
    (hlow : t.count < 2 ^ t.maxHeight) (d : Dir) (hv : Valid t T it) (hfresh : Fresh t it)
    {fuel : ℕ} (hfuel : 2 * t.count + 4 ≤ fuel) :
    ∃ t' T' r, bstIteratorStep cmp d fuel it t = .ok r ∧ Rebalanced cmp t T t' T' ∧
      Answer (fun xs r => Adjacent d xs it.node r) t' T' r := by
  cases hnode : it.node with
  | some x =>
      exact rounds (fun h hready hk => step_round hcmp h hready hk) h hlow ⟨hnode, hv, hfresh⟩
        (by omega)
  | none =>
      obtain ⟨k, rfl⟩ : ∃ k, fuel = k + 1 := ⟨fuel - 1, by omega⟩
      obtain ⟨it₁, hsync, hnode₁⟩ : ∃ it₁, refreshStale cmp k t it = .ok it₁ ∧
          it₁.node = none := by
        by_cases hsame : sameGeneration it.generation t.generation
        · exact ⟨it, if_pos hsame, hnode⟩
        · refine ⟨{ it with generation := t.generation }, ?_, hnode⟩
          rw [refreshStale, if_neg hsame, bstIteratorRefresh]
          simp only [hnode]
      obtain ⟨t', T', r, heval, hbal, hr⟩ :=
        h.iteratorEnd hlow d.opp it₁ (by omega : 2 * t.count + 3 ≤ k)
      refine ⟨t', T', r, ?_, hbal, hr⟩
      rw [bstIteratorStep, hsync]
      simp only [bind, Except.bind, hnode₁, heval]

end Step

/-! ## Finding and inserting -/

section Seek

variable {t : BstTable N} {T : Tree N} {it : BstIterator N} {k : ℕ}

omit [DecidableEq N] in
/-- The loop of the two functions, from the root. -/
lemma IsTree.seek (h : IsTree cmp t T) (f : N → ℤ) (hheight : it.height = 0) (hk : t.count < k) :
    ∃ e, seek f t k .table .left it = .ok e ∧ Sought t it (locate f [] T) e := by
  have hheld : Holds t (plug [] T) := h.holds
  have hstack : Stacked it (names ([] : Ctx N)) := stacked_nil hheight
  rw [h.count] at hk
  exact seek_spec hheld hstack (Nat.zero_le _) hk

omit [DecidableEq N] in
lemma at_locate {f : N → ℤ} {c : Color} {l r : Tree N} {x : N}
    (h : (locate f [] T).2 = .node c l x r) :
    At T (names (locate f [] T).1) x ∧ f x = 0 := by
  have hplug : plug (locate f [] T).1 (locate f [] T).2 = T := plug_locate f [] T
  rw [h] at hplug
  constructor
  · have hx : At (.node c l x r) [] x := rfl
    have hat := at_names (locate f [] T).1 hx
    rwa [hplug] at hat
  · rcases locate_cases f [] T with hnil | ⟨c', l', a, r', he, -, h0⟩
    · rw [h] at hnil
      simp at hnil
    · rw [h] at he
      obtain ⟨-, -, rfl, -⟩ : c = c' ∧ l = l' ∧ x = a ∧ r = r' := by simpa [Tree.bin] using he
      exact h0

/-- One turn of `bst_iterator_find`: the number of nodes that the search passes decides whether it
returns. -/
lemma find_turn (searcher : I → N → ℤ) (item : I) (it : BstIterator N) (h : IsTree cmp t T)
    (hk : t.count < k) :
    (passes (searcher item) T ≤ t.maxHeight ∧ ∃ r,
        bstIteratorFind searcher item (k + 1) it t = .ok r ∧
          Answer (fun xs r => ∀ m, r = some m → m ∈ xs ∧ searcher item m = 0) t T r ∧
        r.1 = (locate (searcher item) [] T).2.root?) ∨
      (t.maxHeight < passes (searcher item) T ∧ ∃ it', bstIteratorFind searcher item (k + 1) it t =
        (bstBalance k t >>= bstIteratorFind searcher item k it')) := by
  have hheight : ({ it with height := 0, generation := t.generation } : BstIterator N).height = 0 :=
    rfl
  have hlength : (locate (searcher item) [] T).1.length = passes (searcher item) T := by
    simpa using length_locate (searcher item) [] T
  obtain ⟨e, heval, hsought⟩ := h.seek (searcher item) hheight hk
  cases hsought with
  | @full it' hlong _ _ =>
      refine .inr ⟨hlength ▸ hlong, it', ?_⟩
      rw [bstIteratorFind, heval]
      rfl
  | @outside it' hloc _ hgen hle =>
      refine .inl ⟨hlength ▸ hle, (none, { it' with height := 0, node := none }, t), ?_,
        ⟨by simp, rfl, rfl, valid_none rfl hgen⟩, by rw [hloc]; rfl⟩
      rw [bstIteratorFind, heval]
      rfl
  | @arrived it' c l R x hloc hst hgen hle =>
      obtain ⟨hx, h0⟩ := at_locate hloc
      refine .inl ⟨hlength ▸ hle, (some x, { it' with node := some x }, t), ?_,
        ⟨fun m hm => ?_, rfl, rfl, ?_⟩, by rw [hloc]; rfl⟩
      · rw [bstIteratorFind, heval]
        rfl
      · obtain rfl : x = m := by simpa using hm
        exact ⟨hx.mem, h0⟩
      · exact valid_of_stacked hx (by rwa [length_names]) rfl (hst.of_eq rfl rfl) hgen

lemma find_round {searcher : I → N → ℤ} {item : I} (h : IsTree cmp t T) (hk : t.count < k) :
    Round cmp (bstIteratorFind searcher item) (fun _ _ _ => True)
      (Answer fun xs r => ∀ m, r = some m → m ∈ xs ∧ searcher item m = 0) t T it k := by
  rcases find_turn searcher item it h hk with ⟨-, r, heval, hr, -⟩ | ⟨hlong, it', heval⟩
  · exact .inl ⟨r, heval, hr⟩
  · exact .inr ⟨hlong.trans_le (passes_le_height _ T), it', heval, fun _ _ _ => trivial⟩

/-- **`bst_iterator_find`.** -/
lemma IsTree.iteratorFind (h : IsTree cmp t T) (hlow : t.count < 2 ^ t.maxHeight)
    (searcher : I → N → ℤ) (item : I) (it : BstIterator N) {fuel : ℕ}
    (hfuel : 2 * t.count + 3 ≤ fuel) :
    ∃ t' T' r, bstIteratorFind searcher item fuel it t = .ok r ∧ Rebalanced cmp t T t' T' ∧
      Answer (fun xs r => ∀ m, r = some m → m ∈ xs ∧ searcher item m = 0) t' T' r :=
  rounds (fun h _ hk => find_round h hk) h hlow trivial hfuel

/-- The result of `bst_iterator_insert` on the tree `T`. -/
def Inserted (cmp : N → N → ℤ) (t : BstTable N) (T : Tree N) (r : N × BstIterator N × BstTable N) :
    Prop :=
  ∃ T', IsTree cmp r.2.2 T' ∧ Keeps T T' ∧ r.2.2.generation = t.generation ∧
    r.2.2.maxHeight = t.maxHeight ∧ Valid r.2.2 T' r.2.1

lemma insert_round (hcmp : Comparator cmp) {n : N} (h : IsTree cmp t T) (hk : t.count < k) :
    Round cmp (bstIteratorInsert cmp n) (fun _ _ _ => True) (Inserted cmp) t T it k := by
  have hheight : ({ it with height := 0 } : BstIterator N).height = 0 := rfl
  obtain ⟨e, heval, hsought⟩ := h.seek (cmp n) hheight hk
  cases hsought with
  | @full it' hlong _ _ =>
      have hlength : (locate (cmp n) [] T).1.length = passes (cmp n) T := by
        simpa using length_locate (cmp n) [] T
      refine .inr ⟨(hlength ▸ hlong).trans_le (passes_le_height _ T), it', ?_,
        fun _ _ _ => trivial⟩
      rw [bstIteratorInsert, heval]
      rfl
  | @outside it' hloc hst _ hle =>
      obtain ⟨T', hT', hkeeps, hn, -⟩ := h.linkLeaf hcmp (Prod.ext rfl hloc)
      refine .inl ⟨(n, { it' with node := some n, generation := t.generation },
        linkLeaf n (placeOf (locate (cmp n) [] T).1) (dirOf (locate (cmp n) [] T).1) t), ?_, T', hT',
        hkeeps, by simp, by simp, ?_⟩
      · rw [bstIteratorInsert, heval]
        rfl
      · exact valid_of_stacked hn (by simpa using hle) rfl (hst.of_eq rfl rfl) (by simp)
  | @arrived it' c l R x hloc hst _ hle =>
      refine .inl ⟨(x, { it' with node := some x, generation := t.generation }, t), ?_, T, h,
        fun _ _ hy => hy, rfl, rfl, ?_⟩
      · rw [bstIteratorInsert, heval]
        rfl
      · exact valid_of_stacked (at_locate hloc).1 (by rwa [length_names]) rfl (hst.of_eq rfl rfl) rfl

/-- **`bst_iterator_insert`** leaves the paths alone, but for balancing the tree. -/
lemma IsTree.iteratorInsert (h : IsTree cmp t T) (hcmp : Comparator cmp)
    (hlow : t.count < 2 ^ t.maxHeight) (n : N) (it : BstIterator N) {fuel : ℕ}
    (hfuel : 2 * t.count + 3 ≤ fuel) :
    ∃ t' T' r, bstIteratorInsert cmp n fuel it t = .ok r ∧ Rebalanced cmp t T t' T' ∧
      Inserted cmp t' T' r :=
  rounds (fun h _ hk => insert_round hcmp h hk) h hlow trivial hfuel

end Seek

end LinuxC.Bst
