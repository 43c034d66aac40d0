import Mathlib.Data.List.Basic
import Mathlib.Data.Set.Insert

/-!
# Circular doubly linked lists

Every node has a successor and a predecessor, and a list is a ring of nodes through a node that
stands for the list itself, its head.  Many rings share one pair of link functions.

`Ring l h xs` says that the ring of `h` runs through the nodes `xs` in this order, in both
directions.  `Ring.append` and `Ring.remove` describe the change of the links that puts a node in
front of the head and the one that takes a node out, `Ring.congr` is the frame rule, and
`Ring.walk` says that a walk along the successors visits the nodes in order and ends.
-/

namespace LinuxC

variable {A : Type}

/-- The links of all nodes. -/
structure Links (A : Type) where
  next : A → A
  prev : A → A

namespace Links

/-- From `a` through the nodes `xs` to `b`, linked in both directions. -/
def Seg (l : Links A) : A → List A → A → Prop
  | a, [], b => l.next a = b ∧ l.prev b = a
  | a, x :: xs, b => l.next a = x ∧ l.prev x = a ∧ l.Seg x xs b

/-- The ring of `h` runs through `xs`. -/
structure Ring (l : Links A) (h : A) (xs : List A) : Prop where
  seg : l.Seg h xs h
  nodup : (h :: xs).Nodup

lemma seg_append {l : Links A} {a b x : A} {xs ys : List A} :
    l.Seg a (xs ++ x :: ys) b ↔ l.Seg a xs x ∧ l.Seg x ys b := by
  induction xs generalizing a with
  | nil => simp [Seg, and_assoc]
  | cons y xs ih => simp [Seg, ih, and_assoc]

/-- The frame rule: a segment depends on the links of its nodes only. -/
lemma Seg.congr {l l' : Links A} {a b : A} {xs : List A} (h : l.Seg a xs b)
    (hnext : ∀ x ∈ a :: xs, l'.next x = l.next x)
    (hprev : ∀ x ∈ b :: xs, l'.prev x = l.prev x) : l'.Seg a xs b := by
  induction xs generalizing a with
  | nil => exact ⟨(hnext a (by simp)).trans h.1, (hprev b (by simp)).trans h.2⟩
  | cons x xs ih =>
      refine ⟨(hnext a (by simp)).trans h.1, (hprev x (by simp)).trans h.2.1,
        ih h.2.2 (fun y hy => hnext y (List.mem_cons_of_mem a hy)) fun y hy => hprev y ?_⟩
      rcases List.mem_cons.mp hy with rfl | hy
      · simp
      · simp [hy]

lemma Seg.prev_mem {l : Links A} {a b : A} {xs : List A} (h : l.Seg a xs b) :
    l.prev b ∈ a :: xs := by
  induction xs generalizing a with
  | nil => simp [h.2]
  | cons x xs ih => exact List.mem_cons_of_mem a (ih h.2.2)

lemma Seg.next_mem {l : Links A} {a b : A} {xs : List A} (h : l.Seg a xs b) :
    l.next a ∈ b :: xs := by
  cases xs with
  | nil => simp [h.1]
  | cons x xs => simp [h.1]

lemma Seg.prev_next {l : Links A} {a b x : A} {xs : List A} (h : l.Seg a xs b) (hx : x ∈ a :: xs) :
    l.prev (l.next x) = x := by
  induction xs generalizing a with
  | nil =>
      obtain rfl := List.mem_singleton.mp hx
      rw [h.1, h.2]
  | cons y ys ih =>
      rcases List.mem_cons.mp hx with rfl | hx
      · rw [h.1, h.2.1]
      · exact ih h.2.2 hx

lemma Ring.congr {l l' : Links A} {h : A} {xs : List A} (hr : l.Ring h xs)
    (hnext : ∀ x ∈ h :: xs, l'.next x = l.next x)
    (hprev : ∀ x ∈ h :: xs, l'.prev x = l.prev x) : l'.Ring h xs :=
  ⟨hr.seg.congr hnext hprev, hr.nodup⟩

lemma ring_nil {l : Links A} {h : A} (hnext : l.next h = h) (hprev : l.prev h = h) :
    l.Ring h [] :=
  ⟨⟨hnext, hprev⟩, by simp⟩

/-- The neighbours of a node of a ring are in the ring. -/
lemma Ring.neighbours {l : Links A} {h n : A} {xs : List A} (hr : l.Ring h xs)
    (hn : n ∈ h :: xs) : l.next n ∈ h :: xs ∧ l.prev n ∈ h :: xs := by
  rcases List.mem_cons.mp hn with rfl | hn
  · exact ⟨hr.seg.next_mem, hr.seg.prev_mem⟩
  · obtain ⟨us, vs, rfl⟩ := List.append_of_mem hn
    obtain ⟨hs₁, hs₂⟩ := seg_append.mp hr.seg
    have hnext := hs₂.next_mem
    have hprev := hs₁.prev_mem
    grind

variable [DecidableEq A]

lemma Seg.append {l l' : Links A} {a b n : A} {xs : List A} (hs : l.Seg a xs b)
    (hnext : ∀ x, l'.next x = if x = l.prev b then n else if x = n then b else l.next x)
    (hprev : ∀ x, l'.prev x = if x = n then l.prev b else if x = b then n else l.prev x)
    (hnodup : (a :: xs).Nodup) (hb : b ∉ xs) (hn : n ∉ a :: xs) (hnb : n ≠ b) :
    l'.Seg a (xs ++ [n]) b := by
  induction xs generalizing a with
  | nil =>
      obtain ⟨-, hpb⟩ := hs
      have hna : n ≠ a := by simpa using hn
      refine ⟨by simp [hnext, hpb], by simp [hprev, hpb], ?_, ?_⟩
      · simp [hnext, hpb, hna]
      · simp [hprev, hnb.symm]
  | cons x xs ih =>
      obtain ⟨hax, hxa, hs⟩ := hs
      rw [List.nodup_cons] at hnodup
      have hlast : a ≠ l.prev b := by
        intro h
        exact hnodup.1 (h ▸ hs.prev_mem)
      simp only [List.mem_cons, not_or] at hb hn
      refine ⟨?_, ?_, ih hs hnodup.2 hb.2 (by simp [hn.2])⟩
      · rw [hnext, if_neg hlast, if_neg (Ne.symm hn.1), hax]
      · rw [hprev, if_neg (Ne.symm hn.2.1), if_neg (Ne.symm hb.1), hxa]

/-- **A node is put in front of the head.** -/
lemma Ring.append {l l' : Links A} {h n : A} {xs : List A} (hr : l.Ring h xs)
    (hnext : ∀ x, l'.next x = if x = l.prev h then n else if x = n then h else l.next x)
    (hprev : ∀ x, l'.prev x = if x = n then l.prev h else if x = h then n else l.prev x)
    (hn : n ∉ h :: xs) : l'.Ring h (xs ++ [n]) := by
  have hnodup := hr.nodup
  have hh := (List.nodup_cons.mp hr.nodup).1
  refine ⟨hr.seg.append hnext hprev hr.nodup hh hn (fun hnh => hn (by simp [hnh])), ?_⟩
  rw [← List.cons_append]
  refine List.nodup_append.mpr ⟨hr.nodup, by simp, fun x hx y hy => ?_⟩
  rintro rfl
  exact hn (List.mem_singleton.mp hy ▸ hx)

/-- **A node is put in front of another one**, of the head if the ring ends there. -/
lemma Ring.insert {l l' : Links A} {h p n : A} {us vs : List A} (hr : l.Ring h (us ++ vs))
    (hp : p = vs.head?.getD h)
    (hnext : ∀ x, l'.next x = if x = l.prev p then n else if x = n then p else l.next x)
    (hprev : ∀ x, l'.prev x = if x = n then l.prev p else if x = p then n else l.prev x)
    (hn : n ∉ h :: (us ++ vs)) : l'.Ring h (us ++ n :: vs) := by
  cases vs with
  | nil =>
      obtain rfl : p = h := hp
      rw [List.append_nil] at hr hn
      exact hr.append hnext hprev hn
  | cons q vs =>
      obtain rfl : p = q := hp
      obtain ⟨hs₁, hs₂⟩ := seg_append.mp hr.seg
      have hnodup := hr.nodup
      have hlast := hs₁.prev_mem
      have hnew := hs₁.append hnext hprev (by grind) (by grind) (by grind) (by grind)
      have hold : l'.Seg p vs h := by
        refine hs₂.congr (fun x hx => ?_) fun x hx => ?_
        · rw [hnext, if_neg (by grind), if_neg (by grind)]
        · rw [hprev, if_neg (by grind), if_neg (by grind)]
      have hseg : l'.Seg h ((us ++ [n]) ++ p :: vs) h := seg_append.mpr ⟨hnew, hold⟩
      rw [List.append_assoc, List.singleton_append] at hseg
      exact ⟨hseg, by grind⟩

/-- **A node is put behind the head.** -/
lemma Ring.cons {l l' : Links A} {h n : A} {xs : List A} (hr : l.Ring h xs)
    (hnext : ∀ x, l'.next x = if x = h then n else if x = n then l.next h else l.next x)
    (hprev : ∀ x, l'.prev x = if x = n then h else if x = l.next h then n else l.prev x)
    (hn : n ∉ h :: xs) : l'.Ring h (n :: xs) := by
  obtain ⟨hs, hnodup⟩ := hr
  have hnh : n ≠ h := fun e => hn (by simp [e])
  refine ⟨⟨by rw [hnext, if_pos rfl], by rw [hprev, if_pos rfl], ?_⟩, by grind⟩
  cases xs with
  | nil =>
      obtain ⟨hh, -⟩ := hs
      refine ⟨by rw [hnext, if_neg hnh, if_pos rfl, hh], ?_⟩
      rw [hprev, if_neg hnh.symm, if_pos hh.symm]
  | cons x xs =>
      obtain ⟨hx, -, hs⟩ := hs
      have hnx : n ≠ x := fun e => hn (by simp [e])
      refine ⟨by rw [hnext, if_neg hnh, if_pos rfl, hx], ?_, hs.congr (fun y hy => ?_) ?_⟩
      · rw [hprev, if_neg hnx.symm, if_pos hx.symm]
      · have hyh : y ≠ h := by grind
        have hyn : y ≠ n := by grind
        rw [hnext, if_neg hyh, if_neg hyn]
      · intro y hy
        have hyx : y ≠ l.next h := by grind
        have hyn : y ≠ n := by grind
        rw [hprev, if_neg hyn, if_neg hyx]

lemma Seg.remove {l l' : Links A} {a b n : A} {xs ys : List A}
    (hs : l.Seg a (xs ++ n :: ys) b)
    (hnext : ∀ x, l'.next x = if x = l.prev n then l.next n else l.next x)
    (hprev : ∀ x, l'.prev x = if x = l.next n then l.prev n else l.prev x)
    (hnodup : (a :: (xs ++ n :: ys)).Nodup) (hb : b ∉ xs ++ n :: ys) :
    l'.Seg a (xs ++ ys) b := by
  induction xs generalizing a with
  | nil =>
      obtain ⟨han, hna, hs⟩ := hs
      cases ys with
      | nil =>
          obtain ⟨hnb, -⟩ := hs
          exact ⟨by rw [hnext, hna, if_pos rfl, hnb], by rw [hprev, hnb, if_pos rfl, hna]⟩
      | cons y ys =>
          obtain ⟨hny, -, hs⟩ := hs
          refine ⟨by rw [hnext, hna, if_pos rfl, hny], by rw [hprev, hny, if_pos rfl, hna],
            hs.congr (fun x hx => ?_) fun x hx => ?_⟩
          · rw [hnext, hna, if_neg]
            rintro rfl
            simp only [List.nil_append, List.nodup_cons, List.mem_cons, not_or] at hnodup hx
            grind
          · rw [hprev, hny, if_neg]
            rintro rfl
            simp only [List.nil_append, List.nodup_cons, List.mem_cons, not_or] at hnodup hb hx
            grind
  | cons x xs ih =>
      obtain ⟨hax, hxa, hs⟩ := hs
      obtain ⟨hs₁, hs₂⟩ := seg_append.mp hs
      rw [List.cons_append, List.nodup_cons] at hnodup
      have hlast : a ≠ l.prev n := by
        intro h
        refine hnodup.1 (h ▸ ?_)
        have hmem := hs₁.prev_mem
        grind
      have hfirst : x ≠ l.next n := by
        intro h
        have hmem := hs₂.next_mem
        rw [← h] at hmem
        grind
      refine ⟨by rw [hnext, if_neg hlast, hax], by rw [hprev, if_neg hfirst, hxa],
        ih hs hnodup.2 fun hmem => hb (List.mem_cons_of_mem x hmem)⟩

/-- **A node is taken out.** -/
lemma Ring.remove {l l' : Links A} {h n : A} {xs ys : List A} (hr : l.Ring h (xs ++ n :: ys))
    (hnext : ∀ x, l'.next x = if x = l.prev n then l.next n else l.next x)
    (hprev : ∀ x, l'.prev x = if x = l.next n then l.prev n else l.prev x) :
    l'.Ring h (xs ++ ys) := by
  have hh := (List.nodup_cons.mp hr.nodup).1
  refine ⟨hr.seg.remove hnext hprev hr.nodup hh, ?_⟩
  have hnodup := hr.nodup
  grind

/-- A walk from `pos` along the successors up to the head; there is no result when the head is
not reached within the given number of steps. -/
def walk (l : Links A) (h : A) : ℕ → A → Option (List A)
  | 0, pos => if pos = h then some [] else none
  | fuel + 1, pos => if pos = h then some [] else (l.walk h fuel (l.next pos)).map (pos :: ·)

lemma Seg.walk {l : Links A} {a h : A} {xs : List A} (hs : l.Seg a xs h) (hh : h ∉ xs)
    {fuel : ℕ} (hfuel : xs.length ≤ fuel) : l.walk h fuel (l.next a) = some xs := by
  induction xs generalizing a fuel with
  | nil => cases fuel <;> simp [Links.walk, hs.1]
  | cons x xs ih =>
      obtain ⟨fuel, rfl⟩ : ∃ k, fuel = k + 1 := ⟨fuel - 1, by simp at hfuel; omega⟩
      simp only [List.mem_cons, not_or] at hh
      obtain ⟨hax, -, hs⟩ := hs
      rw [hax, Links.walk, if_neg (Ne.symm hh.1), ih hs hh.2 (by simpa using hfuel)]
      rfl

/-- **A walk visits the nodes of the ring in order.** -/
lemma Ring.walk {l : Links A} {h : A} {xs : List A} (hr : l.Ring h xs) {fuel : ℕ}
    (hfuel : xs.length ≤ fuel) : l.walk h fuel (l.next h) = some xs :=
  hr.seg.walk (List.nodup_cons.mp hr.nodup).1 hfuel

omit [DecidableEq A] in
/-- No node of a ring is its own successor. -/
lemma Ring.next_ne {l : Links A} {h n : A} {xs : List A} (hr : l.Ring h xs) (hn : n ∈ xs) :
    l.next n ≠ n := by
  obtain ⟨us, vs, rfl⟩ := List.append_of_mem hn
  have hmem := (seg_append.mp hr.seg).2.next_mem
  have hnodup := hr.nodup
  intro heq
  rw [heq] at hmem
  grind

/-- **A walk in a trap.**  Among nodes that lead to each other only, a walk never reaches the
head. -/
lemma walk_trapped {l : Links A} {h : A} {trap : List A} (hh : h ∉ trap)
    (hclosed : ∀ x ∈ trap, l.next x ∈ trap) (fuel : ℕ) {x : A} (hx : x ∈ trap) :
    l.walk h fuel x = none := by
  have hxh : x ≠ h := fun heq => hh (heq ▸ hx)
  induction fuel generalizing x with
  | zero => rw [Links.walk, if_neg hxh]
  | succ fuel ih =>
      have hnext := hclosed x hx
      rw [Links.walk, if_neg hxh, ih hnext fun heq => hh (heq ▸ hnext), Option.map_none]

/-- The same walk, up to the first node with a property. -/
def search (l : Links A) (h : A) (good : A → Bool) : ℕ → A → Option (Option A)
  | 0, pos => if pos = h then some none else none
  | fuel + 1, pos =>
      if pos = h then some none
      else if good pos then some (some pos)
      else l.search h good fuel (l.next pos)

lemma Seg.search {l : Links A} {a h : A} {xs : List A} (hs : l.Seg a xs h) (hh : h ∉ xs)
    (good : A → Bool) {fuel : ℕ} (hfuel : xs.length ≤ fuel) :
    l.search h good fuel (l.next a) = some (xs.find? good) := by
  induction xs generalizing a fuel with
  | nil => cases fuel <;> simp [Links.search, hs.1]
  | cons x xs ih =>
      obtain ⟨fuel, rfl⟩ : ∃ k, fuel = k + 1 := ⟨fuel - 1, by simp at hfuel; omega⟩
      simp only [List.mem_cons, not_or] at hh
      obtain ⟨hax, -, hs⟩ := hs
      rw [hax, Links.search, if_neg (Ne.symm hh.1), List.find?_cons]
      cases hx : good x with
      | true => simp
      | false => simpa using ih hs hh.2 (by simpa using hfuel)

/-- **A search finds the first node of the ring with the property.** -/
lemma Ring.search {l : Links A} {h : A} {xs : List A} (hr : l.Ring h xs) (good : A → Bool)
    {fuel : ℕ} (hfuel : xs.length ≤ fuel) :
    l.search h good fuel (l.next h) = some (xs.find? good) :=
  hr.seg.search (List.nodup_cons.mp hr.nodup).1 good hfuel

/-! ## Families of rings -/

section Family

variable {ι : Type} {head : ι → A} {xs : ι → List A}

/-- Rings without a node in common. -/
structure Family (l : Links A) (head : ι → A) (xs : ι → List A) : Prop where
  ring : ∀ i, l.Ring (head i) (xs i)
  disjoint : ∀ i j, i ≠ j → ∀ a ∈ head i :: xs i, a ∉ head j :: xs j

omit [DecidableEq A] in
lemma Family.of_eq {l : Links A} (hf : l.Family head xs) {ys : ι → List A}
    (h : ∀ i, ys i = xs i) : l.Family head ys := by
  rw [funext h]
  exact hf

omit [DecidableEq A] in
/-- One of the rings gets the node `n`, and the other ones are not touched. -/
lemma Family.grow [DecidableEq ι] {l l' : Links A} (hf : l.Family head xs) {i : ι} {n : A}
    {ys : List A} (hring : l'.Ring (head i) ys) (hys : ∀ a ∈ ys, a = n ∨ a ∈ xs i)
    (hother : ∀ j, j ≠ i → ∀ x ∈ head j :: xs j, l'.next x = l.next x ∧ l'.prev x = l.prev x)
    (hn : ∀ j, n ∉ head j :: xs j) : l'.Family head (Function.update xs i ys) := by
  have hgrown : ∀ a ∈ head i :: ys, a = n ∨ a ∈ head i :: xs i := by
    intro a ha
    rcases List.mem_cons.mp ha with rfl | ha
    · exact .inr (List.mem_cons_self ..)
    · exact (hys a ha).imp_right (List.mem_cons_of_mem _)
  refine ⟨fun j => ?_, fun j k hjk a ha hk => ?_⟩
  · rcases eq_or_ne j i with rfl | hji
    · rw [Function.update_self]
      exact hring
    · rw [Function.update_of_ne hji]
      exact (hf.ring j).congr (fun x hx => (hother j hji x hx).1) fun x hx => (hother j hji x hx).2
  · rcases eq_or_ne j i with rfl | hji
    · rw [Function.update_self] at ha
      rw [Function.update_of_ne hjk.symm] at hk
      rcases hgrown a ha with rfl | ha
      · exact hn k hk
      · exact hf.disjoint j k hjk a ha hk
    · rw [Function.update_of_ne hji] at ha
      rcases eq_or_ne k i with rfl | hki
      · rw [Function.update_self] at hk
        rcases hgrown a hk with rfl | hk
        · exact hn j ha
        · exact hf.disjoint j k hjk a ha hk
      · rw [Function.update_of_ne hki] at hk
        exact hf.disjoint j k hjk a ha hk

/-- A new node is put in front of one of the heads. -/
lemma Family.append [DecidableEq ι] {l l' : Links A} (hf : l.Family head xs) (i : ι) {n : A}
    (hnext : ∀ x, l'.next x =
      if x = l.prev (head i) then n else if x = n then head i else l.next x)
    (hprev : ∀ x, l'.prev x =
      if x = n then l.prev (head i) else if x = head i then n else l.prev x)
    (hn : ∀ j, n ∉ head j :: xs j) :
    l'.Family head (Function.update xs i (xs i ++ [n])) := by
  have hlast := ((hf.ring i).neighbours (List.mem_cons_self ..)).2
  refine hf.grow ((hf.ring i).append hnext hprev (hn i)) (fun a ha => ?_) (fun j hji x hx => ?_) hn
  · exact (List.mem_append.mp ha).symm.imp_left List.mem_singleton.mp
  · have hxi := hf.disjoint j i hji x hx
    have hxn : x ≠ n := fun h => hn j (h ▸ hx)
    constructor
    · rw [hnext, if_neg fun h : x = l.prev (head i) => hxi (h ▸ hlast), if_neg hxn]
    · rw [hprev, if_neg hxn, if_neg fun h : x = head i => hxi (by simp [h])]

omit [DecidableEq A] in
lemma Family.congr {l l' : Links A} (hf : l.Family head xs)
    (hnext : ∀ i, ∀ x ∈ head i :: xs i, l'.next x = l.next x)
    (hprev : ∀ i, ∀ x ∈ head i :: xs i, l'.prev x = l.prev x) : l'.Family head xs :=
  ⟨fun i => (hf.ring i).congr (hnext i) (hprev i), hf.disjoint⟩

/-- A new node is put behind one of the heads. -/
lemma Family.cons [DecidableEq ι] {l l' : Links A} (hf : l.Family head xs) (i : ι) {n : A}
    (hnext : ∀ x, l'.next x =
      if x = head i then n else if x = n then l.next (head i) else l.next x)
    (hprev : ∀ x, l'.prev x =
      if x = n then head i else if x = l.next (head i) then n else l.prev x)
    (hn : ∀ j, n ∉ head j :: xs j) :
    l'.Family head (Function.update xs i (n :: xs i)) := by
  have hfirst := ((hf.ring i).neighbours (List.mem_cons_self ..)).1
  refine hf.grow ((hf.ring i).cons hnext hprev (hn i)) (fun a ha => List.mem_cons.mp ha)
    (fun j hji x hx => ?_) hn
  have hxi := hf.disjoint j i hji x hx
  have hxn : x ≠ n := fun h => hn j (h ▸ hx)
  constructor
  · rw [hnext, if_neg fun h : x = head i => hxi (by simp [h]), if_neg hxn]
  · rw [hprev, if_neg hxn, if_neg fun h : x = l.next (head i) => hxi (h ▸ hfirst)]

lemma Family.erase {l l' : Links A} (hf : l.Family head xs) {i : ι} {n : A} (hmem : n ∈ xs i)
    (hnext : ∀ x, l'.next x = if x = l.prev n then l.next n else l.next x)
    (hprev : ∀ x, l'.prev x = if x = l.next n then l.prev n else l.prev x) :
    l'.Family head fun j => (xs j).erase n := by
  have hnear := (hf.ring i).neighbours (List.mem_cons_of_mem _ hmem)
  refine ⟨fun j => ?_, fun j k hjk a ha hk => ?_⟩
  · rcases eq_or_ne j i with rfl | hji
    · obtain ⟨us, vs, hxs⟩ := List.append_of_mem hmem
      have hr := hf.ring j
      have hus : n ∉ us := by
        have hnodup := hr.nodup
        rw [hxs] at hnodup
        grind
      rw [hxs] at hr ⊢
      rw [List.erase_append_right _ hus, List.erase_cons_head]
      exact hr.remove hnext hprev
    · have hnot : n ∉ xs j := fun h =>
        hf.disjoint j i hji n (List.mem_cons_of_mem _ h) (List.mem_cons_of_mem _ hmem)
      rw [List.erase_of_not_mem hnot]
      refine (hf.ring j).congr (fun x hx => ?_) fun x hx => ?_
      · rw [hnext, if_neg]
        exact fun h => hf.disjoint j i hji x hx (h ▸ hnear.2)
      · rw [hprev, if_neg]
        exact fun h => hf.disjoint j i hji x hx (h ▸ hnear.1)
  · have hsub : ∀ m, ∀ b ∈ head m :: (xs m).erase n, b ∈ head m :: xs m := by
      intro m b hb
      rcases List.mem_cons.mp hb with rfl | hb
      · simp
      · exact List.mem_cons_of_mem _ (List.mem_of_mem_erase hb)
    exact hf.disjoint j k hjk a (hsub j a ha) (hsub k a hk)

/-- The rings of the indices in a set. -/
def FamilyOn (l : Links A) (s : Set ι) (head : ι → A) (xs : ι → List A) : Prop :=
  l.Family (fun i : s => head i) fun i : s => xs i

end Family

end Links

end LinuxC
