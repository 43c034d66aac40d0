import LinuxC.Co.Model

/-!
# The state queues

`Queues l live state q` says that the two rings run through the coroutines `q`, that every live
coroutine outside them is a ring of its own, and that a live coroutine is in the queue its state
calls for.  `co_transfer` keeps this whatever the new state is (`Queues.transfer`): it takes the
coroutine out of its queue, if it is in one, and puts it at the end of the new one, if there is
one.
-/

namespace LinuxC.Co

variable {C : Type} [DecidableEq C]

/-- The queues are `q`, and every live coroutine is where its state says. -/
structure Queues (l : Links (Item C)) (live : C → Bool) (state : C → CoState)
    (q : Queue → List C) : Prop where
  rings : l.Family Item.head fun i => (q i).map Item.co
  alone : ∀ c, live c → (∀ i, c ∉ q i) → l.next (.co c) = .co c ∧ l.prev (.co c) = .co c
  mem : ∀ i c, c ∈ q i ↔ live c ∧ queueOf (state c) = some i

/-- The queues after `co_transfer`. -/
def moved (q : Queue → List C) (c : C) (st : CoState) (i : Queue) : List C :=
  if queueOf st = some i then (q i).erase c ++ [c] else (q i).erase c

section Queues

variable {l : Links (Item C)} {live : C → Bool} {state : C → CoState} {q : Queue → List C}
  {c : C}

omit [DecidableEq C] in
lemma co_notMem_iff {i : Queue} {ys : List C} :
    Item.co c ∉ Item.head i :: ys.map Item.co ↔ c ∉ ys := by
  simp

lemma map_erase_co (ys : List C) : (ys.map Item.co).erase (Item.co c) = (ys.erase c).map Item.co :=
  (List.map_erase (fun _ _ h => Item.co.inj h) ys).symm

omit [DecidableEq C] in
lemma Queues.nodup (h : Queues l live state q) (i : Queue) : (q i).Nodup :=
  ((List.nodup_cons.mp (h.rings.ring i).nodup).2).of_map _

lemma Queues.not_mem_erase (h : Queues l live state q) (i : Queue) : c ∉ (q i).erase c :=
  (h.nodup i).not_mem_erase

lemma Queues.delete (h : Queues l live state q) (hc : live c) :
    (listDelInit (.co c) l).Family Item.head (fun i => ((q i).erase c).map Item.co) ∧
      ∀ x, live x → (∀ i, x ∉ (q i).erase c) →
        (listDelInit (.co c) l).next (.co x) = .co x ∧
          (listDelInit (.co c) l).prev (.co x) = .co x := by
  by_cases hin : ∃ i, c ∈ q i
  · obtain ⟨i, hi⟩ := hin
    have hmem : Item.co c ∈ (q i).map Item.co := List.mem_map_of_mem hi
    obtain ⟨hfamily, hframe⟩ := family_listDelInit h.rings hmem (by simp)
    refine ⟨hfamily.of_eq fun j => (map_erase_co (q j)).symm, fun x hx hxq => ?_⟩
    rcases eq_or_ne x c with rfl | hne
    · exact listDelInit_self ..
    · have hout : ∀ j, x ∉ q j := fun j hj => hxq j ((List.mem_erase_of_ne hne).mpr hj)
      have hsame := hframe (.co x) fun j => co_notMem_iff.mpr (hout j)
      rw [hsame.1, hsame.2]
      exact h.alone x hx hout
  · have hout : ∀ i, c ∉ q i := fun i hi => hin ⟨i, hi⟩
    obtain ⟨hnext, hprev⟩ := h.alone c hc hout
    have hsame := listDelInit_alone hnext hprev
    have herase : ∀ i, (q i).erase c = q i := fun i => List.erase_of_not_mem (hout i)
    refine ⟨(h.rings.congr (fun i x _ => (hsame x).1) fun i x _ => (hsame x).2).of_eq fun i => ?_,
      fun x hx hxq => ?_⟩
    · rw [herase]
    · rw [(hsame _).1, (hsame _).2]
      exact h.alone x hx fun i hi => hxq i ((herase i).symm ▸ hi)

lemma mem_moved (h : Queues l live state q) {st : CoState} {i : Queue} {x : C} :
    x ∈ moved q c st i ↔ (x ∈ q i ∧ x ≠ c) ∨ (x = c ∧ queueOf st = some i) := by
  have herase : x ∈ (q i).erase c ↔ x ≠ c ∧ x ∈ q i := (h.nodup i).mem_erase_iff
  unfold moved
  split
  · rw [List.mem_append, List.mem_singleton, herase]
    tauto
  · rw [herase]
    tauto

/-- **`co_transfer`** moves the coroutine to the queue of its new state. -/
lemma Queues.transfer {s : Scheduler C} (h : Queues s.list s.live s.state q) (hc : s.live c)
    (st : CoState) :
    Queues (coTransfer c st s).list s.live (Function.update s.state c st) (moved q c st) := by
  obtain ⟨hdel, halone⟩ := h.delete hc
  have hmem : ∀ i x, x ∈ moved q c st i ↔
      s.live x ∧ queueOf (Function.update s.state c st x) = some i := by
    intro i x
    rw [mem_moved h, h.mem]
    rcases eq_or_ne x c with rfl | hne
    · simp [hc]
    · simp [hne]
  unfold coTransfer
  cases hst : queueOf st with
  | none =>
      have hmoved : ∀ i, moved q c st i = (q i).erase c := fun i => by simp [moved, hst]
      refine ⟨hdel.of_eq fun i => by rw [hmoved], fun x hx hxq => halone x hx fun i => ?_, hmem⟩
      rw [← hmoved]
      exact hxq i
  | some k =>
      have hmoved : ∀ i, (moved q c st i).map Item.co =
          Function.update (fun j => ((q j).erase c).map Item.co) k
            (((q k).erase c).map Item.co ++ [Item.co c]) i := by
        intro i
        rcases eq_or_ne i k with rfl | hne
        · simp [moved, hst]
        · simp [moved, hst, hne, Ne.symm hne]
      have hout : ∀ j, Item.co c ∉ Item.head j :: ((q j).erase c).map Item.co :=
        fun j => co_notMem_iff.mpr (h.not_mem_erase j)
      refine ⟨(family_listAddTail hdel k hout).of_eq hmoved, fun x hx hxq => ?_, hmem⟩
      have hxc : x ≠ c := by
        rintro rfl
        exact hxq k ((mem_moved h).mpr (.inr ⟨rfl, hst⟩))
      have hxout : ∀ j, x ∉ (q j).erase c := by
        intro j hj
        have hj := (h.nodup j).mem_erase_iff.mp hj
        exact hxq j ((mem_moved h).mpr (.inl ⟨hj.2, hxc⟩))
      have hsame := listAddTail_outside hdel k (n := Item.co c) (x := Item.co x)
        (fun j => co_notMem_iff.mpr (hxout j)) (fun e => hxc (Item.co.inj e))
      rw [hsame.1, hsame.2]
      exact halone x hx hxout

/-- A new coroutine is a ring of its own before it is transferred. -/
lemma Queues.initialised (h : Queues l live state q) (hc : live c = false) (st : CoState)
    (hst : queueOf st = none) :
    Queues (initListHead (.co c) l) (Function.update live c true) (Function.update state c st)
      q := by
  have hout : ∀ i, c ∉ q i := by
    intro i hi
    have hlive := ((h.mem i c).mp hi).1
    rw [hc] at hlive
    cases hlive
  have hframe : ∀ x, x ≠ Item.co c →
      (initListHead (.co c) l).next x = l.next x ∧ (initListHead (.co c) l).prev x = l.prev x :=
    fun x hx => ⟨if_neg hx, if_neg hx⟩
  have hne : ∀ i, ∀ x ∈ Item.head i :: (q i).map Item.co, x ≠ Item.co c := by
    rintro i x hx rfl
    exact co_notMem_iff.mpr (hout i) hx
  refine ⟨h.rings.congr (fun i x hx => (hframe x (hne i x hx)).1)
    fun i x hx => (hframe x (hne i x hx)).2, fun x hx hxq => ?_, fun i x => ?_⟩
  · rcases eq_or_ne x c with rfl | hxc
    · simp [initListHead, Links.setNext, Links.setPrev]
    · rw [Function.update_of_ne hxc] at hx
      have hsame := hframe (.co x) fun e => hxc (Item.co.inj e)
      rw [hsame.1, hsame.2]
      exact h.alone x hx hxq
  · rcases eq_or_ne x c with rfl | hxc
    · simp [hout, hst]
    · rw [Function.update_of_ne hxc, Function.update_of_ne hxc]
      exact h.mem i x

lemma Queues.released (h : Queues l live state q) (hst : queueOf (state c) = none) :
    Queues l (Function.update live c false) state q := by
  refine ⟨h.rings, fun x hx hxq => h.alone x ?_ hxq, fun i x => ?_⟩
  · rcases eq_or_ne x c with rfl | hxc
    · simp at hx
    · rwa [Function.update_of_ne hxc] at hx
  · rcases eq_or_ne x c with rfl | hxc
    · simp [h.mem, hst]
    · rw [Function.update_of_ne hxc]
      exact h.mem i x

lemma Queues.any {s : Scheduler C} (h : Queues s.list s.live s.state q) (i : Queue) :
    stqAny i s = decide (q i ≠ []) := by
  rw [stqAny, (h.rings.ring i).listEmpty]
  simp

omit [DecidableEq C] in
lemma Queues.first {s : Scheduler C} (h : Queues s.list s.live s.state q) (i : Queue) :
    stqFirst i s = (q i).head? := by
  have hseg := (h.rings.ring i).seg
  unfold stqFirst
  cases hq : q i with
  | nil =>
      rw [hq] at hseg
      rw [hseg.1]
      rfl
  | cons c cs =>
      rw [hq] at hseg
      rw [hseg.1]
      rfl

end Queues

end LinuxC.Co
