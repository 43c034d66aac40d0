import LinuxC.RbTree.Next

/-!
# Whole walks through the tree

The users of the tree go through it with `for (n = rb_first(tree); n; n = rb_next(n))`, or backwards
with `rb_last` and `rb_prev`.  `walk` is such a loop, with the nodes it visits.  On every tree that
insertions and removals make, the two loops visit the nodes in order and in the opposite order
(`reachable_walks`).
-/

namespace LinuxC.Rb

variable {N : Type}

/-- The loop `for (; n; n = next(n))`: the nodes that it visits before it ends. -/
def walk (next : N → Option (Option N)) : ℕ → Option N → Option (List N)
  | _, none => some []
  | 0, some _ => none
  | fuel + 1, some n => do
      let r ← next n
      let ns ← walk next fuel r
      some (n :: ns)

/-- **A loop that goes to the next entry of a list** visits the rest of the list. -/
lemma walk_eq {next : N → Option (Option N)} {xs zs : List N} {fuel : ℕ}
    (hnext : ∀ ys n zs, ys ++ n :: zs = xs → next n = some zs.head?) (hzs : zs <:+ xs)
    (hfuel : zs.length ≤ fuel) : walk next fuel zs.head? = some zs := by
  induction zs generalizing fuel with
  | nil => cases fuel <;> rfl
  | cons n zs ih =>
      obtain ⟨ys, hys⟩ := hzs
      rw [List.length_cons] at hfuel
      obtain ⟨fuel, rfl⟩ : ∃ k, fuel = k + 1 := ⟨fuel - 1, by omega⟩
      have hrest : zs <:+ xs := ⟨ys ++ [n], by rw [List.append_assoc]; exact hys⟩
      rw [List.head?_cons, walk, hnext ys n zs hys]
      change (walk next fuel zs.head? >>= _) = _
      rw [ih hrest (by omega)]
      rfl

section Loops

variable [DecidableEq N] {cmp : N → N → ℤ} {t : RbTree N} {xs : List N} {fuel : ℕ}

lemma IsSet.walk_next (h : IsSet cmp t xs) (hfuel : t.rbCount < fuel) :
    (rbFirst fuel t >>= walk (fun n => rbNext fuel n t) fuel) = some xs := by
  rw [(h.ends hfuel).1]
  refine walk_eq (fun ys n zs hxs => ?_) List.suffix_rfl ?_
  · subst hxs
    exact h.next hfuel
  · rw [← h.count]
    exact hfuel.le

lemma IsSet.walk_prev (h : IsSet cmp t xs) (hfuel : t.rbCount < fuel) :
    (rbLast fuel t >>= walk (fun n => rbPrev fuel n t) fuel) = some xs.reverse := by
  rw [(h.ends hfuel).2, ← List.head?_reverse]
  refine walk_eq (fun ys n zs hxs => ?_) List.suffix_rfl ?_
  · obtain rfl : zs.reverse ++ n :: ys.reverse = xs := by
      rw [← List.reverse_eq_iff] at hxs
      simpa using hxs
    rw [h.prev hfuel, List.getLast?_reverse]
  · rw [List.length_reverse, ← h.count]
    exact hfuel.le

lemma IsSet.prev_next (h : IsSet cmp t xs) (hfuel : t.rbCount < fuel) {n m : N} (hn : n ∈ xs)
    (hm : rbNext fuel n t = some (some m)) : rbPrev fuel m t = some (some n) := by
  obtain ⟨ys, zs, rfl⟩ := List.append_of_mem hn
  rw [h.next hfuel, Option.some.injEq] at hm
  obtain ⟨zs, rfl⟩ := List.head?_eq_some_iff.mp hm
  have h' : IsSet cmp t ((ys ++ [n]) ++ m :: zs) := by simpa using h
  rw [h'.prev hfuel]
  simp

end Loops

/-- **The walks through the tree.**  The loop with `rb_first` and `rb_next` visits every node once,
in strictly increasing order, and ends; the loop with `rb_last` and `rb_prev` visits them in the
opposite order; and `rb_prev` takes back `rb_next`. -/
theorem reachable_walks [DecidableEq N] {cmp : N → N → ℤ} (hcmp : Comparator cmp) {t : RbTree N}
    (h : Reachable cmp t) {fuel : ℕ} (hfuel : t.rbCount < fuel) :
    ∃ xs, Sorted cmp xs ∧ xs.Nodup ∧ (∀ n, n ∈ xs ↔ n ∈ members t) ∧
      (rbFirst fuel t >>= walk (fun n => rbNext fuel n t) fuel) = some xs ∧
      (rbLast fuel t >>= walk (fun n => rbPrev fuel n t) fuel) = some xs.reverse ∧
      ∀ n ∈ members t, ∀ m, rbNext fuel n t = some (some m) →
        rbPrev fuel m t = some (some n) := by
  obtain ⟨xs, hxs⟩ := h.isSet hcmp
  refine ⟨xs, hxs.sorted, hxs.nodup, fun n => hxs.mem_members.symm, hxs.walk_next hfuel,
    hxs.walk_prev hfuel, fun n hn m hm => ?_⟩
  exact hxs.prev_next hfuel (hxs.mem_members.mp hn) hm

/-- On a tree with the nodes `1` and `3`. -/
theorem reachable_walks_sample : ∃ t, Reachable natCmp t ∧ members t = {1, 3} ∧
    (rbFirst (t.rbCount + 1) t >>= walk (fun n => rbNext (t.rbCount + 1) n t) (t.rbCount + 1)) =
      some [1, 3] := by
  obtain ⟨t, h, hm⟩ := exists_reachable_sample
  obtain ⟨xs, hs, hnd, hmem, hwalk, -, -⟩ :=
    reachable_walks comparator_natCmp h (Nat.lt_succ_self t.rbCount)
  refine ⟨t, h, hm, ?_⟩
  have hperm : xs.Perm [1, 3] := by
    rw [List.perm_ext_iff_of_nodup hnd (by decide)]
    intro n
    rw [hmem, hm]
    simp
  have hsorted : Sorted natCmp [1, 3] := by simp [Sorted, natCmp]
  have hanti : ∀ a b, natCmp a b < 0 → natCmp b a < 0 → a = b := by
    intro a b hab hba
    unfold natCmp at hab hba
    omega
  rw [hwalk, hperm.eq_of_pairwise (fun a b _ _ => hanti a b) hs hsorted]

end LinuxC.Rb
