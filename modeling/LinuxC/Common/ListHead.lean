import LinuxC.Framework.IntrusiveList

/-!
# `struct list_head` (`include/list.h`)

The assignments of the macros and inline functions of the header, in their order, and their
meaning for families of rings.
-/

namespace LinuxC

variable {A : Type} [DecidableEq A]

namespace Links

/-- `a->next = b`. -/
def setNext (l : Links A) (a b : A) : Links A :=
  { l with next := fun x => if x = a then b else l.next x }

/-- `a->prev = b`. -/
def setPrev (l : Links A) (a b : A) : Links A :=
  { l with prev := fun x => if x = a then b else l.prev x }

end Links

def initListHead (a : A) (l : Links A) : Links A := (l.setNext a a).setPrev a a

/-- `__list_add`. -/
def listAddBetween (node before after : A) (l : Links A) : Links A :=
  (((l.setPrev after node).setNext node after).setPrev node before).setNext before node

def listAddTail (node head : A) (l : Links A) : Links A :=
  listAddBetween node (l.prev head) head l

/-- `list_delete`: the second assignment reads the links after the first one. -/
def listDelete (a : A) (l : Links A) : Links A :=
  let l := l.setNext (l.prev a) (l.next a)
  l.setPrev (l.next a) (l.prev a)

def listAdd (node head : A) (l : Links A) : Links A :=
  listAddBetween node head (l.next head) l

/-- `list_del`, with the value `null` of `LIST_POISON1` and `LIST_POISON2`. -/
def listDel (null entry : A) (l : Links A) : Links A :=
  let before := l.prev entry
  let after := l.next entry
  (((l.setPrev after before).setNext before after).setNext entry null).setPrev entry null

def listDelInit (entry : A) (l : Links A) : Links A :=
  let before := l.prev entry
  let after := l.next entry
  initListHead entry ((l.setPrev after before).setNext before after)

def listEmpty (head : A) (l : Links A) : Bool := l.next head = head

/-- `list_for_each_entry` over all nodes, with a bound on the number of its turns. -/
def listForEach (fuel : ℕ) (head : A) (l : Links A) : Option (List A) :=
  l.walk head fuel (l.next head)

/-- `list_for_each_entry` with a `break` at the first node with a property. -/
def listFind (fuel : ℕ) (head : A) (good : A → Bool) (l : Links A) : Option (Option A) :=
  l.search head good fuel (l.next head)

section Family

variable {ι : Type} {head : ι → A} {xs : ι → List A} {l : Links A}

lemma family_listAddTail [DecidableEq ι] (hf : l.Family head xs) (i : ι) {n : A}
    (hn : ∀ j, n ∉ head j :: xs j) :
    (listAddTail n (head i) l).Family head (Function.update xs i (xs i ++ [n])) :=
  hf.append i (fun _ => rfl) (fun _ => rfl) hn

lemma family_listDelete (hf : l.Family head xs) {i : ι} {n : A} (hmem : n ∈ xs i) :
    (listDelete n l).Family head fun j => (xs j).erase n := by
  refine hf.erase hmem (fun x => rfl) fun x => ?_
  simp [listDelete, Links.setNext, Links.setPrev]

lemma family_listAdd [DecidableEq ι] (hf : l.Family head xs) (i : ι) {n : A}
    (hn : ∀ j, n ∉ head j :: xs j) :
    (listAdd n (head i) l).Family head (Function.update xs i (n :: xs i)) :=
  hf.cons i (fun _ => rfl) (fun _ => rfl) hn

/-- **An entry taken out.**  Links that agree, away from the entry, with those of its neighbours
joined have the rings without the entry, whatever its own links are. -/
lemma family_joined (hf : l.Family head xs) {i : ι} {n : A} (hmem : n ∈ xs i)
    (hhead : ∀ j, n ≠ head j) {l' : Links A}
    (hnext : ∀ x, x ≠ n →
      l'.next x = ((l.setPrev (l.next n) (l.prev n)).setNext (l.prev n) (l.next n)).next x)
    (hprev : ∀ x, x ≠ n →
      l'.prev x = ((l.setPrev (l.next n) (l.prev n)).setNext (l.prev n) (l.next n)).prev x) :
    l'.Family head fun j => (xs j).erase n := by
  have hjoined : ((l.setPrev (l.next n) (l.prev n)).setNext (l.prev n) (l.next n)).Family head
      fun j => (xs j).erase n := hf.erase hmem (fun _ => rfl) fun _ => rfl
  have hout : ∀ j, n ∉ head j :: (xs j).erase n := by
    intro j hj
    rcases List.mem_cons.mp hj with hj | hj
    · exact hhead j hj
    · exact (List.nodup_cons.mp (hf.ring j).nodup).2.not_mem_erase hj
  refine hjoined.congr (fun j x hx => ?_) fun j x hx => ?_
  · exact hnext x fun h => hout j (h ▸ hx)
  · exact hprev x fun h => hout j (h ▸ hx)

/-- The entry is out of all rings when its own links are overwritten. -/
lemma family_listDel (hf : l.Family head xs) {i : ι} {n : A} (null : A) (hmem : n ∈ xs i)
    (hhead : ∀ j, n ≠ head j) : (listDel null n l).Family head fun j => (xs j).erase n :=
  family_joined hf hmem hhead (fun _ hx => if_neg hx) fun _ hx => if_neg hx

/-- The entry is a ring of its own afterwards. -/
@[simp] lemma listDelInit_self (n : A) (l : Links A) :
    (listDelInit n l).next n = n ∧ (listDelInit n l).prev n = n := by
  simp [listDelInit, initListHead, Links.setNext, Links.setPrev]

/-- **An entry of a ring** is taken out of it, and no link outside the rings is touched. -/
lemma family_listDelInit (hf : l.Family head xs) {i : ι} {n : A} (hmem : n ∈ xs i)
    (hhead : ∀ j, n ≠ head j) :
    (listDelInit n l).Family head (fun j => (xs j).erase n) ∧
      ∀ x, (∀ j, x ∉ head j :: xs j) →
        (listDelInit n l).next x = l.next x ∧ (listDelInit n l).prev x = l.prev x := by
  refine ⟨family_joined hf hmem hhead (fun _ hx => if_neg hx) fun _ hx => if_neg hx, fun x hx => ?_⟩
  have hnear := (hf.ring i).neighbours (List.mem_cons_of_mem _ hmem)
  have hxn : x ≠ n := fun h => hx i (h ▸ List.mem_cons_of_mem _ hmem)
  have hnext : x ≠ l.prev n := fun h => hx i (h ▸ hnear.2)
  have hprev : x ≠ l.next n := fun h => hx i (h ▸ hnear.1)
  exact ⟨(if_neg hxn).trans (if_neg hnext), (if_neg hxn).trans (if_neg hprev)⟩

/-- **An entry that is a ring of its own** stays as it is. -/
lemma listDelInit_alone {n : A} (hnext : l.next n = n) (hprev : l.prev n = n) (x : A) :
    (listDelInit n l).next x = l.next x ∧ (listDelInit n l).prev x = l.prev x := by
  rcases eq_or_ne x n with rfl | hx
  · rw [(listDelInit_self x l).1, (listDelInit_self x l).2, hnext, hprev]
    exact ⟨rfl, rfl⟩
  · simp [listDelInit, initListHead, Links.setNext, Links.setPrev, hnext, hprev, hx]

/-- A link outside the rings is not touched when another node is put into one of them. -/
lemma listAddTail_outside (hf : l.Family head xs) (i : ι) {n x : A}
    (hx : ∀ j, x ∉ head j :: xs j) (hxn : x ≠ n) :
    (listAddTail n (head i) l).next x = l.next x ∧
      (listAddTail n (head i) l).prev x = l.prev x := by
  have hlast := ((hf.ring i).neighbours (List.mem_cons_self ..)).2
  have hxl : x ≠ l.prev (head i) := fun h => hx i (h ▸ hlast)
  have hxh : x ≠ head i := fun h => hx i (by simp [h])
  simp [listAddTail, listAddBetween, Links.setNext, Links.setPrev, hxl, hxh, hxn]

/-- `list_add_tail` changes nothing outside a set with the node, the head and the last node. -/
lemma listAddTail_frame {T : Set A} {n h x : A} (hn : n ∈ T) (hh : h ∈ T) (hlast : l.prev h ∈ T)
    (hx : x ∉ T) :
    (listAddTail n h l).next x = l.next x ∧ (listAddTail n h l).prev x = l.prev x := by
  have hxn : x ≠ n := fun heq => hx (heq ▸ hn)
  have hxh : x ≠ h := fun heq => hx (heq ▸ hh)
  have hxl : x ≠ l.prev h := fun heq => hx (heq ▸ hlast)
  simp [listAddTail, listAddBetween, Links.setNext, Links.setPrev, hxl, hxh, hxn]

/-- What `list_add_tail` writes at a place depends on the links of the place and on the last
node. -/
lemma listAddTail_congr {l' : Links A} {n h x : A} (hlast : l'.prev h = l.prev h)
    (hnext : l'.next x = l.next x) (hprev : l'.prev x = l.prev x) :
    (listAddTail n h l').next x = (listAddTail n h l).next x ∧
      (listAddTail n h l').prev x = (listAddTail n h l).prev x := by
  simp [listAddTail, listAddBetween, Links.setNext, Links.setPrev, hlast, hnext, hprev]

/-- **One `list_add_tail` in each of several places**: in its place each does what it would do
alone. -/
lemma foldl_listAddTail {node hd : ι → A} {T : ι → Set A} {ks : List ι} (hnodup : ks.Nodup)
    (hapart : ∀ k ∈ ks, ∀ k' ∈ ks, k ≠ k' → ∀ x ∈ T k, x ∉ T k')
    (hplace : ∀ k ∈ ks, node k ∈ T k ∧ hd k ∈ T k ∧ l.prev (hd k) ∈ T k) :
    (∀ k ∈ ks, ∀ x ∈ T k,
      (ks.foldl (fun l k => listAddTail (node k) (hd k) l) l).next x =
          (listAddTail (node k) (hd k) l).next x ∧
        (ks.foldl (fun l k => listAddTail (node k) (hd k) l) l).prev x =
          (listAddTail (node k) (hd k) l).prev x) ∧
      ∀ x, (∀ k ∈ ks, x ∉ T k) →
        (ks.foldl (fun l k => listAddTail (node k) (hd k) l) l).next x = l.next x ∧
          (ks.foldl (fun l k => listAddTail (node k) (hd k) l) l).prev x = l.prev x := by
  induction ks generalizing l with
  | nil => exact ⟨by simp, fun x _ => ⟨rfl, rfl⟩⟩
  | cons k ks ih =>
      rw [List.nodup_cons] at hnodup
      obtain ⟨hnode, hhd, hlast⟩ := hplace k (by simp)
      have hframe : ∀ x, x ∉ T k → (listAddTail (node k) (hd k) l).next x = l.next x ∧
          (listAddTail (node k) (hd k) l).prev x = l.prev x :=
        fun x hx => listAddTail_frame hnode hhd hlast hx
      have hout : ∀ k' ∈ ks, ∀ x ∈ T k', x ∉ T k := by
        intro k' hk' x hx
        have hne : k' ≠ k := fun heq => hnodup.1 (heq ▸ hk')
        exact hapart k' (by simp [hk']) k (by simp) hne x hx
      obtain ⟨hin, hrest⟩ := ih (l := listAddTail (node k) (hd k) l) hnodup.2
        (fun k₁ h₁ k₂ h₂ => hapart k₁ (by simp [h₁]) k₂ (by simp [h₂])) fun k' hk' => by
          obtain ⟨h1, h2, h3⟩ := hplace k' (by simp [hk'])
          refine ⟨h1, h2, ?_⟩
          rw [(hframe _ (hout k' hk' _ h2)).2]
          exact h3
      refine ⟨fun k' hk' x hx => ?_, fun x hx => ?_⟩
      · rcases List.mem_cons.mp hk' with rfl | hk'
        · apply hrest x
          intro k₂ h₂ hmem
          exact hout k₂ h₂ x hmem hx
        · have h2 := (hplace k' (by simp [hk'])).2.1
          have hsame := hframe x (hout k' hk' x hx)
          have hcongr := listAddTail_congr (n := node k') (hframe _ (hout k' hk' _ h2)).2
            hsame.1 hsame.2
          exact ⟨(hin k' hk' x hx).1.trans hcongr.1, (hin k' hk' x hx).2.trans hcongr.2⟩
      · have hfirst := hframe x (hx k (by simp))
        have hothers := hrest x fun k' hk' => hx k' (by simp [hk'])
        exact ⟨hothers.1.trans hfirst.1, hothers.2.trans hfirst.2⟩

lemma Links.Ring.listEmpty {h : A} {ys : List A} (hr : l.Ring h ys) :
    listEmpty h l = decide (ys = []) := by
  cases ys with
  | nil => simp [LinuxC.listEmpty, hr.seg.1]
  | cons y ys =>
      have hne : y ≠ h := by
        rintro rfl
        exact (List.nodup_cons.mp hr.nodup).1 (by simp)
      simp [LinuxC.listEmpty, hr.seg.1, hne]

end Family

/-! ## Heads that are made while the program runs -/

section FamilyOn

variable {ι : Type} {s : Set ι} {head : ι → A} {xs : ι → List A} {l : Links A}

omit [DecidableEq A] in
/-- A longer list for one index is a longer list for that index of the set. -/
lemma update_val [DecidableEq ι] (xs : ι → List A) (i : s) (ys : List A) (j : s) :
    Function.update xs i ys j = Function.update (fun k : s => xs k) i ys j := by
  by_cases hj : j = i
  · rw [hj, Function.update_self, Function.update_self]
  · rw [Function.update_of_ne hj, Function.update_of_ne fun h => hj (Subtype.ext h)]

lemma familyOn_listAddTail [DecidableEq ι] (hf : l.FamilyOn s head xs) {i : ι} (hi : i ∈ s) {n : A}
    (hn : ∀ j ∈ s, n ∉ head j :: xs j) :
    (listAddTail n (head i) l).FamilyOn s head (Function.update xs i (xs i ++ [n])) := by
  have hadded := family_listAddTail hf ⟨i, hi⟩ fun j => hn j j.2
  exact hadded.of_eq fun j => update_val xs ⟨i, hi⟩ _ j

lemma familyOn_listDel (hf : l.FamilyOn s head xs) {i : ι} (hi : i ∈ s) {n : A} (null : A)
    (hmem : n ∈ xs i) (hhead : ∀ j ∈ s, n ≠ head j) :
    (listDel null n l).FamilyOn s head fun j => (xs j).erase n :=
  family_listDel (i := (⟨i, hi⟩ : s)) hf null hmem fun j => hhead j j.2

/-- **A new head**, of an empty ring. -/
lemma familyOn_initListHead (hf : l.FamilyOn s head xs) {i : ι} (hi : xs i = [])
    (hhead : ∀ j ∈ s, head i ∉ head j :: xs j) :
    (initListHead (head i) l).FamilyOn (insert i s) head xs := by
  have hother : ∀ j ∈ s, ∀ x ∈ head j :: xs j, x ≠ head i := by
    rintro j hj x hx rfl
    exact hhead j hj hx
  refine ⟨?_, ?_⟩
  · rintro ⟨j, hj⟩
    rcases Set.mem_insert_iff.mp hj with rfl | hj
    · rw [hi]
      exact Links.ring_nil (by simp [initListHead, Links.setNext, Links.setPrev])
        (by simp [initListHead, Links.setNext, Links.setPrev])
    · refine (hf.ring ⟨j, hj⟩).congr (fun x hx => ?_) fun x hx => ?_
      · exact if_neg (hother j hj x hx)
      · exact if_neg (hother j hj x hx)
  · rintro ⟨j, hj⟩ ⟨k, hk⟩ hne a ha hka
    replace hne : j ≠ k := fun h => hne (Subtype.ext h)
    rcases Set.mem_insert_iff.mp hj with rfl | hjs
    · have hks : k ∈ s := (Set.mem_insert_iff.mp hk).resolve_left hne.symm
      rw [hi, List.mem_singleton] at ha
      exact hother k hks a hka ha
    · rcases Set.mem_insert_iff.mp hk with rfl | hks
      · rw [hi, List.mem_singleton] at hka
        exact hother j hjs a ha hka
      · exact hf.disjoint ⟨j, hjs⟩ ⟨k, hks⟩ (fun h => hne (congrArg Subtype.val h)) a ha hka

end FamilyOn

end LinuxC
