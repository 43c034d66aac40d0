import LinuxC.Bst.Retry

/-!
# The iterator in the lowest tree

`bst_balance` makes the lowest tree over the nodes.  In it `bst_iterator_next` never has to balance
again if the tree has at most `bst_max_height + 1` levels (`IsTree.step_returns`).  If it has more,
the last node cannot be reached: where a call returns, the stack has room for all nodes above the one
it returns (`IsTree.step_placed`), and above the last node there are too many (`Placed.lowest`).
-/

namespace LinuxC.Bst

open Rb (endOf)

variable {N : Type} [DecidableEq N] {cmp : N → N → ℤ}

/-- A tree as `bst_balance` makes it. -/
def Lowest (T : Tree N) : Prop :=
  Filled (fullLevels T.nodes.length) (lastLevel T.nodes.length) T

/-- The iterator is at the node `x`, and its stack is right. -/
structure Placed (x : N) (t : BstTable N) (T : Tree N) (it : BstIterator N) : Prop where
  node : it.node = some x
  generation : it.generation = t.generation
  path : ∃ as, At T as x ∧ as.length ≤ t.maxHeight ∧ Stacked it as

/-- The iterator is at the node `x`, and its stack is right or known to be old. -/
def Usable (x : N) (t : BstTable N) (T : Tree N) (it : BstIterator N) : Prop :=
  it.node = some x ∧ (Placed x t T it ∨ ¬ sameGeneration it.generation t.generation)

section Visit

variable {t t' : BstTable N} {T : Tree N} {it it' : BstIterator N} {x : N} {d : Dir} {fuel : ℕ}

omit [DecidableEq N] in
lemma Placed.ready (h : Placed x t T it) : Ready x t T it := by
  obtain ⟨as, hat, hle, hst⟩ := h.path
  exact ⟨h.node, valid_of_stacked hat hle h.node hst h.generation, fun _ => h.generation⟩

/-- **The stack after a refresh** holds the nodes above the current one. -/
lemma refreshLoop_of_eq {ctx : Ctx N} {S : Tree N} (h : Holds t (plug ctx S))
    (hstack : Stacked it (names ctx)) (hdepth : ctx.length ≤ t.maxHeight)
    (heq : refreshLoop cmp x t fuel S.root? it = .ok it') :
    it'.node = it.node ∧ it'.generation = it.generation ∧
      ∃ as, At (plug ctx S) as x ∧ as.length ≤ t.maxHeight ∧ Stacked it' as := by
  induction fuel generalizing ctx S it with
  | zero => cases heq
  | succ fuel ih =>
      unfold refreshLoop at heq
      split_ifs at heq with hx hroom
      · obtain rfl := Except.ok.inj heq
        obtain ⟨c, A, B, rfl⟩ := Tree.exists_bin_of_root? .left hx
        refine ⟨rfl, rfl, names ctx, at_names ctx (at_bin_nil.mpr rfl), ?_, hstack⟩
        rwa [length_names]
      · cases hroot : S.root? with
        | none =>
            rw [hroot] at heq
            cases heq
        | some i =>
            rw [hroot] at heq
            obtain ⟨it₁, hpush, heq⟩ := ok_of_bind heq
            obtain ⟨c, A, B, rfl⟩ := Tree.exists_bin_of_root? (side (cmp x i)) hroot
            have hless : (names ctx).length < t.maxHeight := hstack.height ▸ hroom
            obtain ⟨it₂, hpush', hst₂, hnode₂, hgen₂⟩ := hstack.push i hless
            obtain rfl := Except.ok.inj (hpush.symm.trans hpush')
            rw [h.link.1] at heq
            have hst : Stacked it₁ (names (⟨side (cmp x i), c, i, B⟩ :: ctx)) := by
              rwa [names_cons]
            rw [length_names] at hless
            obtain ⟨hnode, hgen, hpath⟩ := ih h.down hst hless heq
            exact ⟨hnode.trans hnode₂, hgen.trans hgen₂, hpath⟩

lemma refreshStale_placed (h : IsTree cmp t T) (huse : Usable x t T it)
    (heq : refreshStale cmp fuel t it = .ok it') : Placed x t T it' := by
  obtain ⟨hnode, hplaced⟩ := huse
  unfold refreshStale at heq
  split_ifs at heq with hsame
  · obtain rfl := Except.ok.inj heq
    exact hplaced.resolve_right fun hold => hold hsame
  · unfold bstIteratorRefresh at heq
    simp only [hnode] at heq
    have hheld : Holds t (plug [] T) := h.holds
    rw [h.holds.root] at heq
    obtain ⟨hnode', hgen', hpath⟩ := refreshLoop_of_eq hheld (stacked_nil rfl) (Nat.zero_le _) heq
    exact ⟨hnode', hgen', hpath⟩

lemma IsTree.balance_generation (h : IsTree cmp t T) (heq : bstBalance fuel t = .ok t') :
    t'.generation = t.generation + 1 := by
  have hfuel : 2 * t.count < fuel + (2 * t.count + 1) := by omega
  obtain ⟨t₁, T₁, heval, -, -, -, hgen, -⟩ := h.balance_filled hfuel
  rw [stable_add (x := fun k => bstBalance k t) bstBalance_succ heq] at heval
  obtain rfl := Except.ok.inj heval
  exact hgen

lemma IsTree.lowest_of_balance (h : IsTree cmp t T) (heq : bstBalance fuel t = .ok t') :
    ∃ T', IsTree cmp t' T' ∧ T'.nodes = T.nodes ∧ Lowest T' ∧ t'.maxHeight = t.maxHeight := by
  obtain ⟨T', hT', hnodes, hfilled, hmax, -⟩ := h.balance_filled_of_eq heq
  rw [h.count, ← hnodes] at hfilled
  exact ⟨T', hT', hnodes, hfilled, hmax⟩

/-- **A call of `bst_iterator_next` or `bst_iterator_prev` that returns** has room on the stack for
the nodes above the one it returns. -/
lemma IsTree.step_placed {r : Option N × BstIterator N × BstTable N} (h : IsTree cmp t T)
    (hlow : Lowest T) (huse : Usable x t T it) (heq : bstIteratorStep cmp d fuel it t = .ok r) :
    ∃ T', IsTree cmp r.2.2 T' ∧ T'.nodes = T.nodes ∧ Lowest T' ∧
      r.2.2.maxHeight = t.maxHeight ∧ Adjacent d T.nodes (some x) r.1 ∧
      ∀ y, r.1 = some y → Placed y r.2.2 T' r.2.1 := by
  induction fuel generalizing it t T with
  | zero => cases heq
  | succ fuel ih =>
      rw [bstIteratorStep] at heq
      obtain ⟨it₁, hsync, heq⟩ := ok_of_bind heq
      obtain ⟨hnode, hgen, as, hat, hle, hst⟩ := refreshStale_placed h huse hsync
      have hagain : ∀ {it₂ : BstIterator N}, it₂.node = some x → it₂.generation = t.generation →
          (do
            let t ← bstBalance fuel t
            bstIteratorStep cmp d fuel it₂ t) = .ok r →
          ∃ T', IsTree cmp r.2.2 T' ∧ T'.nodes = T.nodes ∧ Lowest T' ∧
            r.2.2.maxHeight = t.maxHeight ∧ Adjacent d T.nodes (some x) r.1 ∧
            ∀ y, r.1 = some y → Placed y r.2.2 T' r.2.1 := by
        intro it₂ hnode₂ hgen₂ heq
        obtain ⟨t₁, hbalance, heq⟩ := ok_of_bind heq
        obtain ⟨T₁, hT₁, hnodes, hlow₁, hmax⟩ := h.lowest_of_balance hbalance
        have hgen₁ := h.balance_generation hbalance
        have hold : ¬ sameGeneration it₂.generation t₁.generation := by
          rw [sameGeneration, hgen₂, hgen₁]
          omega
        obtain ⟨T', hT', hnodes', hlow', hmax', hadj, hplaced⟩ :=
          ih hT₁ hlow₁ ⟨hnode₂, .inr hold⟩ heq
        exact ⟨T', hT', hnodes'.trans hnodes, hlow', hmax'.trans hmax, hnodes ▸ hadj, hplaced⟩
      obtain ⟨ctx, c, l, r₀, rfl, rfl⟩ := hat.exists_focus
      replace hst : Stacked it₁ (names ctx) := hst
      replace hle : (names ctx).length ≤ t.maxHeight := hle
      rw [length_names] at hle
      obtain ⟨A, B, hbin⟩ : ∃ A B, Tree.bin .left c l x r₀ = .bin d c A x B := by
        cases d with
        | left => exact ⟨l, r₀, rfl⟩
        | right => exact ⟨r₀, l, rfl⟩
      rw [hbin] at h hlow hagain ⊢
      have hlink := h.holds.link.1
      simp only [hnode, hlink] at heq
      cases hA : A.root? with
      | none =>
          obtain rfl : A = .nil := by
            cases A with
            | nil => rfl
            | node => cases hA
          simp only [Tree.root?_nil] at heq
          obtain ⟨⟨z, it₂⟩, hclimb, heq⟩ := ok_of_bind heq
          obtain rfl := Except.ok.inj heq
          obtain ⟨hz, hgen', hend⟩ :=
            climb_of_eq h.holds (Tree.root?_bin d c .nil x B) hst hclimb
          refine ⟨_, h, rfl, hlow, rfl, hz ▸ adjacent_nil d ctx c x B, fun y hy => ?_⟩
          obtain ⟨as, hy', hle', hst'⟩ := hend y hy
          exact ⟨hy, hgen'.trans hgen, as, hy', hle'.trans hle, hst'.of_eq rfl rfl⟩
      | some y =>
          simp only [hA] at heq
          split_ifs at heq with hfull
          · exact hagain hnode hgen heq
          · obtain ⟨it₂, hpush, heq⟩ := ok_of_bind heq
            obtain ⟨⟨z, it₃⟩, hdescend, heq⟩ := ok_of_bind heq
            have hroom : (names ctx).length < t.maxHeight := by
              rw [← hst.height]
              omega
            obtain ⟨it₂', hpush', hst₂, hnode₂, hgen₂⟩ := hst.push x hroom
            obtain rfl := Except.ok.inj (hpush.symm.trans hpush')
            rw [length_names] at hroom
            have hst₃ : Stacked it₂ (names (⟨d, c, x, B⟩ :: ctx)) := by rwa [names_cons]
            obtain ⟨hnode₃, hgen₃, hend⟩ := descend_of_eq h.holds.down hA hst₃ hroom hdescend
            have hgen' := hgen₃.trans (hgen₂.trans hgen)
            dsimp only at hend
            rcases hend with rfl | ⟨ctx', c', z', C, rfl, hdirs, rfl, hst', hle'⟩
            · exact hagain (hnode₃.trans (hnode₂.trans hnode)) hgen' heq
            · obtain rfl := Except.ok.inj heq
              have hz : At (plug (ctx' ++ ⟨d, c, x, B⟩ :: ctx) (.bin d.opp c' .nil z' C))
                  (names (ctx' ++ ⟨d, c, x, B⟩ :: ctx)) z' := at_names _ (at_bin_nil.mpr rfl)
              rw [plug_append] at hz
              refine ⟨_, h, rfl, hlow, rfl, adjacent_bin ctx c x B (endOf_plug hdirs c' z' C),
                fun y hy => ?_⟩
              obtain rfl := Option.some.inj hy
              exact ⟨rfl, hgen', _, hz, by rwa [length_names], hst'.of_eq rfl rfl⟩

/-- **A call of `bst_iterator_first` or `bst_iterator_last` that returns.** -/
lemma IsTree.end_placed {r : Option N × BstIterator N × BstTable N} (h : IsTree cmp t T)
    (hlow : Lowest T) (heq : bstIteratorEnd d fuel it t = .ok r) :
    ∃ T', IsTree cmp r.2.2 T' ∧ T'.nodes = T.nodes ∧ Lowest T' ∧
      r.2.2.maxHeight = t.maxHeight ∧ r.1 = endOf d T.nodes ∧
      ∀ y, r.1 = some y → Placed y r.2.2 T' r.2.1 := by
  induction fuel generalizing it t T with
  | zero => cases heq
  | succ fuel ih =>
      rw [bstIteratorEnd, h.holds.root] at heq
      cases hroot : T.root? with
      | none =>
          obtain rfl : T = .nil := by
            cases T with
            | nil => rfl
            | node => cases hroot
          obtain rfl := Except.ok.inj heq
          refine ⟨.nil, h, rfl, hlow, rfl, ?_, fun y hy => by cases hy⟩
          cases d <;> rfl
      | some x =>
          rw [hroot] at heq
          obtain ⟨⟨z, it₁⟩, hdescend, heq⟩ := ok_of_bind heq
          have hheld : Holds t (plug [] T) := h.holds
          have hstack : Stacked { it with height := 0, generation := t.generation }
              (names ([] : Ctx N)) := stacked_nil rfl
          obtain ⟨-, hgen, hend⟩ := descend_of_eq hheld hroot hstack (Nat.zero_le _) hdescend
          dsimp only at hend
          rcases hend with rfl | ⟨ctx, c, y, C, rfl, hdirs, rfl, hst, hle⟩
          · obtain ⟨t₁, hbalance, heq⟩ := ok_of_bind heq
            obtain ⟨T₁, hT₁, hnodes, hlow₁, hmax⟩ := h.lowest_of_balance hbalance
            obtain ⟨T', hT', hnodes', hlow', hmax', hend, hplaced⟩ := ih hT₁ hlow₁ heq
            exact ⟨T', hT', hnodes'.trans hnodes, hlow', hmax'.trans hmax, hnodes ▸ hend, hplaced⟩
          · obtain rfl := Except.ok.inj heq
            rw [List.append_nil] at hst hle
            refine ⟨_, h, rfl, hlow, rfl, (endOf_plug hdirs c y C).symm, fun z hz => ?_⟩
            obtain rfl := Option.some.inj hz
            exact ⟨rfl, hgen, names ctx, at_names ctx (at_bin_nil.mpr rfl),
              by rwa [length_names], hst.of_eq rfl rfl⟩

/-! ## The height of the tree -/

omit [DecidableEq N] in
lemma dir_of_after_eq_nil {ctx : Ctx N} (h : ctx.after = []) : ∀ f ∈ ctx, f.dir = .right := by
  induction ctx with
  | nil => simp
  | cons f ctx ih =>
      obtain ⟨e, c, a, s⟩ := f
      cases e with
      | left => cases h
      | right => exact List.forall_mem_cons.mpr ⟨rfl, ih h⟩

omit [DecidableEq N] in
lemma lowest_height (h : Lowest T) {m : ℕ} : T.height ≤ m ↔ T.nodes.length < 2 ^ m := by
  rw [height_filled h, fhs_le_iff]

omit [DecidableEq N] in
/-- **The last node is reached** only if the tree is not too high. -/
lemma Placed.lowest {pre : List N} (hp : Placed x t T it) (h : IsTree cmp t T) (hlow : Lowest T)
    (hlast : T.nodes = pre ++ [x]) : T.nodes.length < 2 ^ (t.maxHeight + 1) := by
  obtain ⟨-, -, as, hat, hle, -⟩ := hp
  have hnodup := h.holds.nodup
  rw [← lowest_height hlow]
  obtain ⟨ctx, c, l, r, rfl, rfl⟩ := hat.exists_focus
  have hright := hlow.height_eq.2
  have hnodes : (plug ctx (.bin .left c l x r)).nodes =
      (ctx.before ++ l.nodes) ++ x :: (r.nodes ++ ctx.after) := by
    simp [nodes_plug, Tree.bin]
  rw [hnodes] at hlast hnodup
  obtain ⟨hpre, -⟩ := List.nodup_cons.mp (List.nodup_middle.mp hnodup)
  rw [List.mem_append, not_or] at hpre
  obtain ⟨-, -, hnil⟩ := (List.append_cons_inj_of_notMem hpre.1 hpre.2).mp hlast
  obtain ⟨hr, hafter⟩ := List.append_eq_nil_iff.mp hnil
  obtain rfl : r = .nil := Tree.eq_nil_of_nodes hr
  rw [List.length_reverse, List.length_map] at hle
  have hbin : Tree.bin .left c l x .nil = .bin .right c .nil x l := rfl
  rw [hbin, spine_plug (dir_of_after_eq_nil hafter)] at hright
  rw [hbin]
  omega

/-- **In a tree that is not too high** the calls return. -/
lemma IsTree.step_returns (h : IsTree cmp t T) (hcmp : Comparator cmp) (hlow : Lowest T)
    (hfits : T.nodes.length < 2 ^ (t.maxHeight + 1)) (hp : Placed x t T it) (hk : t.count < fuel) :
    ∃ r, bstIteratorStep cmp d (fuel + 1) it t = .ok r := by
  rcases step_turn (d := d) hcmp h hp.ready hk with ⟨r, heval, -⟩ | ⟨hhigh, -⟩
  · exact ⟨r, heval⟩
  · have hheight := (lowest_height hlow).mpr hfits
    omega

lemma IsTree.end_returns (h : IsTree cmp t T) (hlow : Lowest T)
    (hfits : T.nodes.length < 2 ^ (t.maxHeight + 1)) (d : Dir) (it : BstIterator N)
    (hk : t.count < fuel) : ∃ r, bstIteratorEnd d (fuel + 1) it t = .ok r := by
  rcases end_turn d it h hk with ⟨-, r, heval, -⟩ | ⟨hlong, -⟩
  · exact ⟨r, heval⟩
  · have hheight := (lowest_height hlow).mpr hfits
    have hspine := spine_le_height d T
    omega

omit [DecidableEq N] in
lemma Adjacent.next {xs pre rest : List N} {r : Option N} (h : Adjacent .right xs (some x) r)
    (hnodup : xs.Nodup) (hxs : xs = pre ++ x :: rest) : r = rest.head? := by
  obtain ⟨ys, zs, hsplit, rfl⟩ := h
  rw [hsplit] at hnodup
  obtain ⟨hx, -⟩ := List.nodup_cons.mp (List.nodup_middle.mp hnodup)
  rw [List.mem_append, not_or] at hx
  obtain ⟨-, -, rfl⟩ := (List.append_cons_inj_of_notMem hx.1 hx.2).mp (hsplit.symm.trans hxs)
  rfl

end Visit

end LinuxC.Bst
