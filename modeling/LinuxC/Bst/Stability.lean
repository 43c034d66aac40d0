import LinuxC.Bst.Traversal

/-!
# What the iterator functions do to the table

The functions that go through the tree with an iterator change the table in one way only: they
balance it.  So when such a function returns, in however many turns, the table holds the same nodes
in the same order.  Nothing is asked of the height of the tree or of the iterator here.
-/

namespace LinuxC.Bst

open Rb (endOf)

variable {N : Type} [DecidableEq N]

/-- A computation that returned has come through its first part. -/
lemma ok_of_bind {ε α β : Type} {x : Except ε α} {f : α → Except ε β} {b : β}
    (h : (x >>= f) = .ok b) : ∃ a, x = .ok a ∧ f a = .ok b := by
  cases x with
  | error e => cases h
  | ok a => exact ⟨a, rfl, h⟩

/-! ## More turns make no difference -/

lemma slantLeft_succ {fuel : ℕ} {q : Place N} {p : Option N} {t t' : BstTable N}
    (h : slantLeft fuel q p t = .ok t') : slantLeft (fuel + 1) q p t = .ok t' := by
  induction fuel generalizing q p t with
  | zero => cases h
  | succ fuel ih =>
      cases p with
      | none => exact h
      | some p =>
          rw [slantLeft] at h ⊢
          cases hr : t.link p .right with
          | none =>
              rw [hr] at h
              exact ih h
          | some r =>
              rw [hr] at h
              exact ih h

lemma highBit_succ {fuel x y : ℕ} (h : highBit fuel x = .ok y) : highBit (fuel + 1) x = .ok y := by
  induction fuel generalizing x with
  | zero => cases h
  | succ fuel ih =>
      rw [highBit] at h ⊢
      split_ifs at h ⊢
      · exact h
      · exact ih h

lemma slantLoop_succ {fuel vine height : ℕ} {t : BstTable N} {r : BstTable N × ℕ}
    (h : slantLoop fuel vine height t = .ok r) : slantLoop (fuel + 1) vine height t = .ok r := by
  induction fuel generalizing vine height t with
  | zero => cases h
  | succ fuel ih =>
      rw [slantLoop] at h ⊢
      split_ifs at h ⊢
      · obtain ⟨t₁, h₁, h₂⟩ := ok_of_bind h
        rw [h₁]
        exact ih h₂
      · exact h

lemma bstBalance_succ {fuel : ℕ} {t t' : BstTable N} (h : bstBalance fuel t = .ok t') :
    bstBalance (fuel + 1) t = .ok t' := by
  unfold bstBalance slantBack at h ⊢
  obtain ⟨t₁, h₁, h⟩ := ok_of_bind h
  obtain ⟨r, h₂, h⟩ := ok_of_bind h
  obtain ⟨high, hhigh, h₂⟩ := ok_of_bind h₂
  obtain ⟨t₂, hback, hloop⟩ := ok_of_bind h₂
  rw [slantLeft_succ h₁]
  change ((highBit (fuel + 1) (t₁.count + 1) >>= _) >>= _) = _
  rw [highBit_succ hhigh]
  change ((slantLeftBack .table (t₁.count + 1 - high) t₁ >>= _) >>= _) = _
  rw [hback]
  change (slantLoop (fuel + 1) _ _ t₂ >>= _) = _
  rw [slantLoop_succ hloop]
  exact h

omit [DecidableEq N] in
lemma descend_succ {d : Dir} {t : BstTable N} {fuel : ℕ} {x : N} {it : BstIterator N}
    {r : Option N × BstIterator N} (h : descend d t fuel x it = .ok r) :
    descend d t (fuel + 1) x it = .ok r := by
  induction fuel generalizing x it with
  | zero => cases h
  | succ fuel ih =>
      rw [descend] at h ⊢
      cases hlink : t.link x d with
      | none =>
          rw [hlink] at h
          exact h
      | some y =>
          rw [hlink] at h
          dsimp only at h ⊢
          split_ifs at h ⊢
          · exact h
          · obtain ⟨it₁, hpush, h⟩ := ok_of_bind h
            rw [hpush]
            exact ih h

lemma climb_succ {d : Dir} {t : BstTable N} {fuel : ℕ} {y : N} {it : BstIterator N}
    {r : Option N × BstIterator N} (h : climb d t fuel y it = .ok r) :
    climb d t (fuel + 1) y it = .ok r := by
  induction fuel generalizing y it with
  | zero => cases h
  | succ fuel ih =>
      rw [climb] at h ⊢
      split_ifs at h ⊢
      · exact h
      · cases hstack : it.stack (it.height - 1) with
        | none =>
            rw [hstack] at h
            cases h
        | some x =>
            rw [hstack] at h
            dsimp only at h ⊢
            split_ifs at h ⊢
            · exact ih h
            · exact h

omit [DecidableEq N] in
lemma seek_succ {f : N → ℤ} {t : BstTable N} {fuel : ℕ} {p : Place N} {d : Dir}
    {it : BstIterator N} {e : Descent N} (h : seek f t fuel p d it = .ok e) :
    seek f t (fuel + 1) p d it = .ok e := by
  induction fuel generalizing p d it with
  | zero => cases h
  | succ fuel ih =>
      rw [seek] at h ⊢
      cases hload : t.load p d with
      | none =>
          rw [hload] at h
          exact h
      | some x =>
          rw [hload] at h
          dsimp only at h ⊢
          split_ifs at h ⊢
          · exact h
          · exact h
          · obtain ⟨it₁, hpush, h⟩ := ok_of_bind h
            rw [hpush]
            exact ih h

/-- A result that one more turn does not change. -/
lemma stable_add {β : Type} {x : ℕ → Except Fault β} {r : β} {fuel : ℕ}
    (hsucc : ∀ {k}, x k = .ok r → x (k + 1) = .ok r) (h : x fuel = .ok r) (k : ℕ) :
    x (fuel + k) = .ok r := by
  induction k with
  | zero => exact h
  | succ k ih => exact hsucc ih

/-! ## Searches that return -/

omit [DecidableEq N] in
lemma descend_of_eq {d : Dir} {t : BstTable N} {fuel : ℕ} {it : BstIterator N} {ctx : Ctx N}
    {S : Tree N} {y : N} {r : Option N × BstIterator N}
    (h : Holds t (plug ctx S)) (hy : S.root? = some y) (hstack : Stacked it (names ctx))
    (hdepth : ctx.length ≤ t.maxHeight) (heq : descend d t fuel y it = .ok r) :
    r.2.node = it.node ∧ r.2.generation = it.generation ∧
      (r.1 = none ∨ ∃ ctx' c z C, S = plug ctx' (.bin d c .nil z C) ∧ (∀ f ∈ ctx', f.dir = d) ∧
        r.1 = some z ∧ Stacked r.2 (names (ctx' ++ ctx)) ∧ (ctx' ++ ctx).length ≤ t.maxHeight) := by
  have hfuel : S.nodes.length < fuel + (S.nodes.length + 1) := by omega
  obtain ⟨z, it₁, heval, hnode, hgen, hend⟩ := descend_spec h hy hstack hdepth hfuel
  rw [stable_add (x := fun n => descend d t n y it) descend_succ heq] at heval
  obtain rfl := Except.ok.inj heval
  exact ⟨hnode, hgen, hend.imp_left And.left⟩

lemma climb_of_eq {d : Dir} {t : BstTable N} {fuel : ℕ} {it : BstIterator N} {ctx : Ctx N}
    {S : Tree N} {y : N} {r : Option N × BstIterator N}
    (h : Holds t (plug ctx S)) (hy : S.root? = some y) (hstack : Stacked it (names ctx))
    (heq : climb d t fuel y it = .ok r) :
    r.1 = endOf d.opp (beyond d ctx) ∧ r.2.generation = it.generation ∧
      ∀ x, r.1 = some x →
        ∃ as, At (plug ctx S) as x ∧ as.length ≤ ctx.length ∧ Stacked r.2 as := by
  have hfuel : ctx.length < fuel + (ctx.length + 1) := by omega
  obtain ⟨z, it₁, heval, hz, hgen, hend⟩ := climb_spec (d := d) h hy hstack hfuel
  rw [stable_add (x := fun n => climb d t n y it) climb_succ heq] at heval
  obtain rfl := Except.ok.inj heval
  exact ⟨hz, hgen, hend⟩

/-! ## The nodes stay -/

variable {cmp : N → N → ℤ} {t t' : BstTable N} {T : Tree N} {fuel : ℕ}

/-- The table holds the nodes of `T` in their order. -/
def SameNodes (cmp : N → N → ℤ) (T : Tree N) (t : BstTable N) : Prop :=
  ∃ T', IsTree cmp t T' ∧ T'.nodes = T.nodes

/-- **Balancing**, in any number of turns. -/
lemma IsTree.balance_filled_of_eq (h : IsTree cmp t T) (heq : bstBalance fuel t = .ok t') :
    ∃ T', IsTree cmp t' T' ∧ T'.nodes = T.nodes ∧
      Filled (fullLevels t.count) (lastLevel t.count) T' ∧ t'.maxHeight = t.maxHeight ∧
      t'.count = t.count := by
  have hfuel : 2 * t.count < fuel + (2 * t.count + 1) := by omega
  obtain ⟨t₁, T₁, heval, hT₁, hnodes, hfilled, -, hmax, hcount⟩ := h.balance_filled hfuel
  rw [stable_add (x := fun k => bstBalance k t) bstBalance_succ heq] at heval
  obtain rfl := Except.ok.inj heval
  exact ⟨T₁, hT₁, hnodes, hfilled, hmax, hcount⟩

lemma IsTree.balance_of_eq (h : IsTree cmp t T) (heq : bstBalance fuel t = .ok t') :
    SameNodes cmp T t' := by
  obtain ⟨T', hT', hnodes, -⟩ := h.balance_filled_of_eq heq
  exact ⟨T', hT', hnodes⟩

omit [DecidableEq N] in
lemma SameNodes.trans {T' : Tree N} (h : T'.nodes = T.nodes) (h' : SameNodes cmp T' t') :
    SameNodes cmp T t' := by
  obtain ⟨T₁, hT₁, hnodes⟩ := h'
  exact ⟨T₁, hT₁, hnodes.trans h⟩

/-- **`bst_iterator_first` and `bst_iterator_last`.** -/
lemma IsTree.iteratorEnd_of_eq {d : Dir} {it : BstIterator N}
    {r : Option N × BstIterator N × BstTable N} (h : IsTree cmp t T)
    (heq : bstIteratorEnd d fuel it t = .ok r) : SameNodes cmp T r.2.2 := by
  induction fuel generalizing it t T with
  | zero => cases heq
  | succ fuel ih =>
      rw [bstIteratorEnd] at heq
      cases hroot : t.root with
      | none =>
          rw [hroot] at heq
          obtain rfl := Except.ok.inj heq
          exact ⟨T, h, rfl⟩
      | some x =>
          rw [hroot] at heq
          obtain ⟨⟨y, it₁⟩, -, heq⟩ := ok_of_bind heq
          cases y with
          | some y =>
              obtain rfl := Except.ok.inj heq
              exact ⟨T, h, rfl⟩
          | none =>
              obtain ⟨t₁, hbalance, heq⟩ := ok_of_bind heq
              obtain ⟨T₁, hT₁, hnodes⟩ := h.balance_of_eq hbalance
              exact (ih hT₁ heq).trans hnodes

/-- **`bst_iterator_next` and `bst_iterator_prev`.** -/
lemma IsTree.iteratorStep_of_eq {d : Dir} {it : BstIterator N}
    {r : Option N × BstIterator N × BstTable N} (h : IsTree cmp t T)
    (heq : bstIteratorStep cmp d fuel it t = .ok r) : SameNodes cmp T r.2.2 := by
  induction fuel generalizing it t T with
  | zero => cases heq
  | succ fuel ih =>
      rw [bstIteratorStep] at heq
      obtain ⟨it₁, -, heq⟩ := ok_of_bind heq
      cases hnode : it₁.node with
      | none =>
          rw [hnode] at heq
          exact h.iteratorEnd_of_eq heq
      | some x =>
          rw [hnode] at heq
          have hagain : ∀ {it₂ : BstIterator N}, (do
              let t ← bstBalance fuel t
              bstIteratorStep cmp d fuel it₂ t) = .ok r → SameNodes cmp T r.2.2 := by
            intro it₂ heq
            obtain ⟨t₁, hbalance, heq⟩ := ok_of_bind heq
            obtain ⟨T₁, hT₁, hnodes⟩ := h.balance_of_eq hbalance
            exact (ih hT₁ heq).trans hnodes
          cases hlink : t.link x d with
          | none =>
              simp only [hlink] at heq
              obtain ⟨r₁, -, heq⟩ := ok_of_bind heq
              obtain rfl := Except.ok.inj heq
              exact ⟨T, h, rfl⟩
          | some y =>
              simp only [hlink] at heq
              split_ifs at heq
              · exact hagain heq
              · obtain ⟨it₂, -, heq⟩ := ok_of_bind heq
                obtain ⟨⟨z, it₃⟩, -, heq⟩ := ok_of_bind heq
                cases z with
                | some z =>
                    obtain rfl := Except.ok.inj heq
                    exact ⟨T, h, rfl⟩
                | none => exact hagain heq

end LinuxC.Bst
