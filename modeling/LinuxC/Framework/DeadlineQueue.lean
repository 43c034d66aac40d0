import Mathlib.Data.List.Induction
import Mathlib.Data.List.Sort
import Mathlib.Data.List.TakeWhile

/-!
# Deadline queues

A queue of elements with a deadline that has the latest in front.  A new element goes in front of
the first one that is not later (`List.orderedInsert`), so that equal deadlines stand in the order
opposite to that of their insertion.  What the order is for is `LatestFirst.mem_scan`: a scan from
the tail that stops at the first deadline that is still to come has seen every deadline that is not.
An element that is put at the tail regardless of its deadline keeps the order only if it is the
earliest (`latestFirst_concat`).
-/

namespace LinuxC

variable {T K : Type} [LinearOrder K]

/-- The deadlines never rise. -/
def LatestFirst (due : T → K) (xs : List T) : Prop := xs.Pairwise fun a b => due b ≤ due a

variable {due : T → K} {t : T} {xs ys : List T} {now : K}

lemma LatestFirst.sublist (h : LatestFirst due xs) (hsub : ys.Sublist xs) : LatestFirst due ys :=
  List.Pairwise.sublist hsub h

lemma LatestFirst.congr {due' : T → K} (h : LatestFirst due xs)
    (hxs : ∀ u ∈ xs, due' u = due u) : LatestFirst due' xs :=
  List.Pairwise.imp_of_mem (fun ha hb hab => by rwa [hxs _ ha, hxs _ hb]) h

lemma LatestFirst.orderedInsert (t : T) (h : LatestFirst due xs) :
    LatestFirst due (xs.orderedInsert (fun a b => due b ≤ due a) t) := by
  have htotal : Std.Total fun a b : T => due b ≤ due a := ⟨fun a b => le_total (due b) (due a)⟩
  have htrans : IsTrans T fun a b => due b ≤ due a := ⟨fun _ _ _ hab hbc => hbc.trans hab⟩
  exact List.Pairwise.orderedInsert t xs h

lemma latestFirst_concat :
    LatestFirst due (xs ++ [t]) ↔ LatestFirst due xs ∧ ∀ u ∈ xs, due t ≤ due u := by
  simp [LatestFirst, List.pairwise_append]

/-- **A scan from the tail finds all.**  What the scan has not seen stands in front of a deadline
that is to come. -/
lemma LatestFirst.mem_scan (h : LatestFirst due xs) (ht : t ∈ xs) (hdue : due t ≤ now) :
    t ∈ xs.reverse.takeWhile fun u => due u ≤ now := by
  induction xs using List.reverseRecOn with
  | nil => cases ht
  | append_singleton xs u ih =>
      obtain ⟨hxs, hu⟩ := latestFirst_concat.mp h
      have hlate : due u ≤ now := by
        rcases List.mem_append.mp ht with ht | ht
        · exact (hu t ht).trans hdue
        · rwa [← List.mem_singleton.mp ht]
      rw [List.reverse_append, List.reverse_singleton, List.singleton_append,
        List.takeWhile_cons_of_pos (by simpa using hlate)]
      rcases List.mem_append.mp ht with ht | ht
      · exact List.mem_cons_of_mem u (ih hxs ht)
      · rw [List.mem_singleton.mp ht]
        exact List.mem_cons_self

end LinuxC
