import LinuxC.Framework.ByteMemory
import Mathlib.Data.List.Nodup
import Mathlib.Data.List.Perm.Subperm
import Mathlib.Logic.Function.Basic

/-!
# Slabs

A slab allocator hands out cells of one size.  It takes blocks of `n` cells from elsewhere, hands
out the cells of a block in order the first time, and keeps the cells that come back in a list of
the block, from which it serves the next requests.

The first part is about addresses: the cells of a block follow one another (`cell`), and the list
of returned cells can be threaded through the cells themselves (`Threaded`).  The second part is
the allocator without addresses: a `Slab` knows which blocks it has, in two lists, how many cells of
each were handed out (`index`) and which of them came back (`recycle`).  `Slab.Held` are the cells
in use.  `take` and `put` are the two operations; each keeps the state well formed (`Slab.Wf`) and
changes the cells in use by exactly one.
-/

namespace LinuxC

/-! ## Cells and the list threaded through them -/

/-- The address of cell `j` of a row of cells that starts at `base`. -/
def cell (base size j : ℕ) : ℕ := base + j * size

lemma cell_apart {size i j : ℕ} (base : ℕ) (h : i ≠ j) :
    cell base size i + size ≤ cell base size j ∨ cell base size j + size ≤ cell base size i := by
  have key : ∀ a b, a < b → cell base size a + size ≤ cell base size b := by
    intro a b hab
    have : (a + 1) * size ≤ b * size := Nat.mul_le_mul_right size hab
    rw [Nat.succ_mul] at this
    unfold cell
    omega
  rcases Nat.lt_or_gt_of_ne h with h | h
  · exact .inl (key i j h)
  · exact .inr (key j i h)

lemma cell_end_le {size j n : ℕ} (base : ℕ) (h : j < n) :
    cell base size j + size ≤ base + n * size := by
  have : (j + 1) * size ≤ n * size := Nat.mul_le_mul_right size h
  rw [Nat.succ_mul] at this
  unfold cell
  omega

lemma cell_inj {base size i j : ℕ} (hsize : 0 < size) (h : cell base size i = cell base size j) :
    i = j := by
  by_contra hne
  rcases (cell_apart base hne :
    cell base size i + size ≤ cell base size j ∨ cell base size j + size ≤ cell base size i) with
    hle | hle
  · omega
  · omega

/-- The cells `cs` are linked through their first `w` bytes, from `a` to the null address. -/
def Threaded (m : Mem) (w : ℕ) : ℕ → List ℕ → Prop
  | a, [] => a = 0
  | a, c :: cs => a = c ∧ c ≠ 0 ∧ Threaded m w (leNat (m.read c w)) cs

section Threaded

variable {m m' : Mem} {w a : ℕ} {cs : List ℕ}

lemma Threaded.eq_nil_iff (h : Threaded m w a cs) : cs = [] ↔ a = 0 := by
  cases cs with
  | nil => exact iff_of_true rfl h
  | cons c cs => exact iff_of_false (by simp) (h.1 ▸ h.2.1)

/-- The frame rule: the list depends on the first bytes of its cells only. -/
lemma Threaded.congr (h : Threaded m w a cs) (hread : ∀ c ∈ cs, m'.read c w = m.read c w) :
    Threaded m' w a cs := by
  induction cs generalizing a with
  | nil => exact h
  | cons c cs ih =>
      obtain ⟨ha, hc, hcs⟩ := h
      refine ⟨ha, hc, ?_⟩
      rw [hread c (by simp)]
      exact ih hcs fun d hd => hread d (by simp [hd])

/-- A write that stays clear of the cells leaves the list as it is. -/
lemma Threaded.write (h : Threaded m w a cs) {b : ℕ} {bs : List UInt8}
    (hclear : ∀ c ∈ cs, c + w ≤ b ∨ b + bs.length ≤ c) : Threaded (m.write b bs) w a cs := by
  apply h.congr
  intro c hc
  rcases hclear c hc with hb | hb
  · exact Mem.read_write_below m bs hb
  · exact Mem.read_write_above m bs hb

/-- **Pushing a cell** stores the old first address in it. -/
lemma Threaded.push (h : Threaded m w a cs) {c : ℕ} (hc : c ≠ 0) (ha : a < 256 ^ w)
    (hclear : ∀ d ∈ cs, d + w ≤ c ∨ c + w ≤ d) :
    Threaded (m.write c (toLE w a)) w c (c :: cs) := by
  refine ⟨rfl, hc, ?_⟩
  rw [Mem.read_write_self m c _ (length_toLE w a).symm, leNat_toLE_of_lt ha]
  exact h.write (by simpa using hclear)

end Threaded

/-! ## Slabs without addresses -/

/-- The blocks of an allocator, with the number of cells handed out for the first time and the
cells that came back. -/
structure Slab (A : Type) where
  full : List A
  free : List A
  index : A → ℕ
  recycle : A → List ℕ

namespace Slab

variable {A : Type}

/-- The block is one of the allocator. -/
def Live (s : Slab A) (a : A) : Prop := a ∈ s.full ∨ a ∈ s.free

/-- The block with `n` cells has none to hand out. -/
def Exhausted (n : ℕ) (s : Slab A) (a : A) : Prop := s.index a = n ∧ s.recycle a = []

instance (n : ℕ) (s : Slab A) (a : A) : Decidable (s.Exhausted n a) :=
  inferInstanceAs (Decidable (_ ∧ _))

/-- The cell `j` of the block `a` is in use. -/
def Held (s : Slab A) (a : A) (j : ℕ) : Prop := s.Live a ∧ j < s.index a ∧ j ∉ s.recycle a

/-- The counters of a block fit its `n` cells. -/
structure Fits (n : ℕ) (s : Slab A) (a : A) : Prop where
  index_le : s.index a ≤ n
  nodup : (s.recycle a).Nodup
  recycle_lt : ∀ j ∈ s.recycle a, j < s.index a

/-- The state is well formed: every block is in one of the lists, in the first one when it is
exhausted, and its counters fit. -/
structure Wf (n : ℕ) (s : Slab A) : Prop where
  nodup : (s.full ++ s.free).Nodup
  full : ∀ a ∈ s.full, s.Exhausted n a
  free : ∀ a ∈ s.free, ¬ s.Exhausted n a
  fits : ∀ a, s.Live a → s.Fits n a

lemma Fits.length_le {n : ℕ} {s : Slab A} {a : A} (h : s.Fits n a) :
    (s.recycle a).length ≤ s.index a := by
  have hsub : s.recycle a ⊆ List.range (s.index a) := fun j hj => by
    simpa using h.recycle_lt j hj
  simpa using (List.subperm_of_subset h.nodup hsub).length_le

/-- When as many cells came back as were handed out, no cell of the block is in use. -/
lemma Fits.not_held {n : ℕ} {s : Slab A} {a : A} (h : s.Fits n a)
    (hall : (s.recycle a).length = s.index a) (j : ℕ) : ¬ s.Held a j := by
  rintro ⟨-, hj, hnot⟩
  have hsub : s.recycle a ⊆ List.range (s.index a) := fun j hj => by
    simpa using h.recycle_lt j hj
  have hperm := (List.subperm_of_subset h.nodup hsub).perm_of_length_le (by simp [hall])
  exact hnot (hperm.mem_iff.mpr (by simpa using hj))

variable [DecidableEq A]

/-! ## The operations -/

/-- A new block. -/
def grow (a : A) (s : Slab A) : Slab A where
  full := s.full
  free := a :: s.free
  index := Function.update s.index a 0
  recycle := Function.update s.recycle a []

/-- The cell that is handed out next from the block `a`, and the counters afterwards. -/
def pop (a : A) (s : Slab A) : ℕ × Slab A :=
  match s.recycle a with
  | j :: js => (j, { s with recycle := Function.update s.recycle a js })
  | [] => (s.index a, { s with index := Function.update s.index a (s.index a + 1) })

/-- An exhausted block goes to the other list. -/
def close (n : ℕ) (a : A) (s : Slab A) : Slab A :=
  if s.Exhausted n a then { s with full := a :: s.full, free := s.free.erase a } else s

/-- **A cell of the block `a` is handed out.** -/
def take (n : ℕ) (a : A) (s : Slab A) : ℕ × Slab A :=
  ((s.pop a).1, (s.pop a).2.close n a)

/-- An exhausted block comes back from the other list. -/
def reopen (n : ℕ) (a : A) (s : Slab A) : Slab A :=
  if s.Exhausted n a then { s with full := s.full.erase a, free := a :: s.free } else s

/-- The cell is put into the list of its block. -/
def push (a : A) (j : ℕ) (s : Slab A) : Slab A :=
  { s with recycle := Function.update s.recycle a (j :: s.recycle a) }

/-- A block without a cell in use is given up when it is not the only one with free cells. -/
def shrink (a : A) (s : Slab A) : Slab A :=
  if (s.recycle a).length = s.index a ∧ 2 ≤ s.free.length then
    { s with free := s.free.erase a }
  else s

/-- **The cell `j` of the block `a` comes back.** -/
def put (n : ℕ) (a : A) (j : ℕ) (s : Slab A) : Slab A :=
  ((s.reopen n a).push a j).shrink a

/-! ## The block that is worked on -/

/-- Well formed, but the block `a` of the second list may be exhausted. -/
structure Nearly (n : ℕ) (a : A) (s : Slab A) : Prop where
  nodup : (s.full ++ s.free).Nodup
  mem : a ∈ s.free
  full : ∀ b ∈ s.full, s.Exhausted n b
  free : ∀ b ∈ s.free, b ≠ a → ¬ s.Exhausted n b
  fits : ∀ b, s.Live b → s.Fits n b

section Operations

variable {n j : ℕ} {a : A} {s : Slab A}

omit [DecidableEq A] in
lemma Wf.nearly (h : s.Wf n) (ha : a ∈ s.free) : s.Nearly n a :=
  ⟨h.nodup, ha, h.full, fun b hb _ => h.free b hb, h.fits⟩

omit [DecidableEq A] in
lemma Nearly.wf (h : s.Nearly n a) (ha : ¬ s.Exhausted n a) : s.Wf n := by
  refine ⟨h.nodup, h.full, fun b hb => ?_, h.fits⟩
  by_cases hba : b = a
  · exact hba ▸ ha
  · exact h.free b hb hba

omit [DecidableEq A] in
lemma Nearly.not_mem_full (h : s.Nearly n a) : a ∉ s.full := by
  intro hmem
  exact (List.nodup_append.mp h.nodup).2.2 a hmem a h.mem rfl

omit [DecidableEq A] in
/-- The cells in use depend on the counters and on which blocks there are. -/
lemma held_congr {s s' : Slab A} {b : A} {i : ℕ} (hlive : s'.Live b ↔ s.Live b)
    (hindex : s'.index b = s.index b) (hrecycle : s'.recycle b = s.recycle b) :
    s'.Held b i ↔ s.Held b i := by
  rw [Held, Held, hlive, hindex, hrecycle]

/-! ## Handing out -/

lemma live_grow {b : A} : (s.grow a).Live b ↔ b = a ∨ s.Live b := by
  simp only [Live, grow, List.mem_cons]
  tauto

/-- **A new block** has no cell in use. -/
lemma Wf.grow (h : s.Wf n) (hn : 0 < n) (ha : ¬ s.Live a) : (s.grow a).Wf n := by
  have hne : ∀ b, s.Live b → b ≠ a := fun b hb e => ha (e ▸ hb)
  refine ⟨?_, fun b hb => ?_, fun b hb => ?_, fun b hb => ?_⟩
  · simp only [Slab.grow, List.nodup_middle, List.nodup_cons, List.mem_append]
    exact ⟨ha, h.nodup⟩
  · have hba := hne b (.inl hb)
    simpa [Exhausted, Slab.grow, Function.update_of_ne hba] using h.full b hb
  · rcases List.mem_cons.mp hb with rfl | hb
    · intro hex
      have : (0 : ℕ) = n := by simpa [Slab.grow] using hex.1
      omega
    · have hba := hne b (.inr hb)
      simpa [Exhausted, Slab.grow, Function.update_of_ne hba] using h.free b hb
  · rcases live_grow.mp hb with rfl | hb
    · exact ⟨by simp [Slab.grow], by simp [Slab.grow], by simp [Slab.grow]⟩
    · have hba := hne b hb
      obtain ⟨h1, h2, h3⟩ := h.fits b hb
      exact ⟨by simpa [Slab.grow, Function.update_of_ne hba] using h1,
        by simpa [Slab.grow, Function.update_of_ne hba] using h2,
        by simpa [Slab.grow, Function.update_of_ne hba] using h3⟩

lemma held_grow (ha : ¬ s.Live a) {b : A} : (s.grow a).Held b j ↔ s.Held b j := by
  by_cases hba : b = a
  · subst hba
    refine iff_of_false (fun h => ?_) fun h => ha h.1
    have : j < 0 := by simpa [Slab.grow] using h.2.1
    omega
  · refine held_congr ?_ (by simp [grow, hba]) (by simp [grow, hba])
    rw [live_grow, or_iff_right hba]

@[simp] lemma full_pop : (s.pop a).2.full = s.full := by
  unfold pop
  split <;> rfl

@[simp] lemma free_pop : (s.pop a).2.free = s.free := by
  unfold pop
  split <;> rfl

lemma index_pop_of_ne {b : A} (hb : b ≠ a) : (s.pop a).2.index b = s.index b := by
  unfold pop
  split
  · rfl
  · exact Function.update_of_ne hb _ _

lemma recycle_pop_of_ne {b : A} (hb : b ≠ a) : (s.pop a).2.recycle b = s.recycle b := by
  unfold pop
  split
  · exact Function.update_of_ne hb _ _
  · rfl

/-- The cell handed out was not in use, and now it is. -/
lemma Nearly.held_pop (h : s.Nearly n a) {b : A} {i : ℕ} :
    (s.pop a).2.Held b i ↔ s.Held b i ∨ b = a ∧ i = (s.pop a).1 := by
  have hlive : ∀ b, (s.pop a).2.Live b ↔ s.Live b := by simp [Live]
  by_cases hba : b = a
  · subst hba
    have hfits := h.fits b (.inr h.mem)
    have hb : s.Live b := .inr h.mem
    rw [Held, hlive]
    unfold pop
    split
    · next k ks hrec =>
        have hnodup := hfits.nodup
        have hlt := hfits.recycle_lt k (by simp [hrec])
        simp only [Function.update_self, Held, hrec, true_and, hb, List.mem_cons, not_or]
        rw [hrec, List.nodup_cons] at hnodup
        grind
    · next hrec =>
        simp only [Function.update_self, Held, hrec, true_and, hb, List.not_mem_nil]
        grind
  · rw [held_congr (hlive b) (index_pop_of_ne hba) (recycle_pop_of_ne hba)]
    simp [hba]

lemma not_held_pop : ¬ s.Held a (s.pop a).1 := by
  rintro ⟨-, hlt, hnot⟩
  unfold pop at hlt hnot
  split at hlt
  · next k ks hrec => simp [hrec] at hnot
  · exact lt_irrefl _ hlt

lemma Wf.pop (h : s.Wf n) (ha : a ∈ s.free) : (s.pop a).2.Nearly n a := by
  have hne : ∀ b ∈ s.full, b ≠ a := fun b hb e => (h.nearly ha).not_mem_full (e ▸ hb)
  have hex : ∀ b, b ≠ a → ((s.pop a).2.Exhausted n b ↔ s.Exhausted n b) := fun b hb => by
    rw [Exhausted, Exhausted, index_pop_of_ne hb, recycle_pop_of_ne hb]
  refine ⟨by simpa using h.nodup, by simpa using ha, fun b hb => ?_, fun b hb hba => ?_,
    fun b hb => ?_⟩
  · rw [full_pop] at hb
    exact (hex b (hne b hb)).mpr (h.full b hb)
  · rw [free_pop] at hb
    exact fun hexh => h.free b hb ((hex b hba).mp hexh)
  · have hb : s.Live b := by simpa [Live] using hb
    have hfits := h.fits b hb
    by_cases hba : b = a
    · subst hba
      have hroom := h.free b ha
      unfold Slab.pop
      split
      · next k ks hrec =>
          obtain ⟨h1, h2, h3⟩ := hfits
          rw [hrec] at h2 h3
          exact ⟨h1, by simpa using (List.nodup_cons.mp h2).2, by simpa using (by simpa using h3 :
            k < s.index b ∧ ∀ i ∈ ks, i < s.index b).2⟩
      · next hrec =>
          have hlt : s.index b ≠ n := fun e => hroom ⟨e, hrec⟩
          have hle := hfits.index_le
          exact ⟨by simp only [Function.update_self]; omega, by simp [hrec], by simp [hrec]⟩
    · obtain ⟨h1, h2, h3⟩ := hfits
      exact ⟨by rwa [index_pop_of_ne hba], by rwa [recycle_pop_of_ne hba],
        by rwa [index_pop_of_ne hba, recycle_pop_of_ne hba]⟩

lemma Nearly.live_close (h : s.Nearly n a) {b : A} : (s.close n a).Live b ↔ s.Live b := by
  unfold close
  split_ifs
  · have hnodup := (List.nodup_append.mp h.nodup).2.1
    by_cases hba : b = a
    · subst hba
      exact iff_of_true (.inl (by simp)) (.inr h.mem)
    · simp [Live, hba]
  · rfl

@[simp] lemma index_close : (s.close n a).index = s.index := by
  unfold close
  split_ifs <;> rfl

@[simp] lemma recycle_close : (s.close n a).recycle = s.recycle := by
  unfold close
  split_ifs <;> rfl

/-- The block that is worked on goes to the list it belongs to. -/
lemma Nearly.close (h : s.Nearly n a) : (s.close n a).Wf n := by
  unfold Slab.close
  split_ifs with hex
  · have hfree := (List.nodup_append.mp h.nodup).2.1
    refine ⟨?_, fun b hb => ?_, fun b hb => ?_, fun b hb => ?_⟩
    · have hperm : (a :: s.full ++ s.free.erase a).Perm (s.full ++ s.free) := by
        rw [List.cons_append]
        exact List.perm_middle.symm.trans
          ((List.perm_cons_erase h.mem).symm.append_left s.full)
      exact hperm.nodup_iff.mpr h.nodup
    · rcases List.mem_cons.mp hb with rfl | hb
      · exact hex
      · exact h.full b hb
    · obtain ⟨hba, hb⟩ := hfree.mem_erase_iff.mp hb
      exact h.free b hb hba
    · have hlive := h.live_close (b := b)
      rw [Slab.close, if_pos hex] at hlive
      exact ⟨(h.fits b (hlive.mp hb)).index_le, (h.fits b (hlive.mp hb)).nodup,
        (h.fits b (hlive.mp hb)).recycle_lt⟩
  · exact h.wf hex

/-- **Handing out a cell** keeps the state well formed; the cell was not in use. -/
lemma Wf.take (h : s.Wf n) (ha : a ∈ s.free) :
    (s.take n a).2.Wf n ∧ (∀ b, (s.take n a).2.Live b ↔ s.Live b) ∧
      ¬ s.Held a (s.take n a).1 ∧
      ∀ b i, (s.take n a).2.Held b i ↔ s.Held b i ∨ b = a ∧ i = (s.take n a).1 := by
  have hpop := h.pop ha
  refine ⟨hpop.close, fun b => ?_, not_held_pop, fun b i => ?_⟩
  · exact hpop.live_close.trans (by simp [Live])
  · refine Iff.trans ?_ (h.nearly ha).held_pop
    exact held_congr hpop.live_close (by simp [Slab.take]) (by simp [Slab.take])

/-- The cells that were handed out before, and the one that is handed out now. -/
lemma lt_index_take {b : A} {i : ℕ} (hi : i < (s.take n a).2.index b) :
    i < s.index b ∨ b = a ∧ i = (s.take n a).1 := by
  rw [Slab.take, index_close] at hi
  rw [Slab.take]
  by_cases hba : b = a
  · subst hba
    unfold pop at hi ⊢
    split at hi
    · exact .inl hi
    · have hi : i < s.index b + 1 := by simpa using hi
      grind
  · rw [index_pop_of_ne hba] at hi
    exact .inl hi

/-! ## Taking back -/

@[simp] lemma index_reopen : (s.reopen n a).index = s.index := by
  unfold reopen
  split_ifs <;> rfl

@[simp] lemma recycle_reopen : (s.reopen n a).recycle = s.recycle := by
  unfold reopen
  split_ifs <;> rfl

lemma live_reopen (ha : s.Live a) {b : A} :
    (s.reopen n a).Live b ↔ s.Live b := by
  unfold reopen
  split_ifs with hex
  · by_cases hba : b = a
    · subst hba
      exact iff_of_true (.inr (by simp)) ha
    · simp [Live, hba]
  · rfl

/-- The block that is worked on is in the second list. -/
lemma Wf.reopen (h : s.Wf n) (ha : s.Live a) : (s.reopen n a).Nearly n a := by
  have hlive : ∀ b, (s.reopen n a).Live b ↔ s.Live b := fun b => live_reopen ha
  have hfits : ∀ b, (s.reopen n a).Live b → (s.reopen n a).Fits n b := by
    intro b hb
    obtain ⟨h1, h2, h3⟩ := h.fits b ((hlive b).mp hb)
    exact ⟨by simpa using h1, by simpa using h2, by simpa using h3⟩
  unfold Slab.reopen at hfits ⊢
  split_ifs at hfits ⊢ with hex
  · have hfull : a ∈ s.full := by
      rcases ha with ha | ha
      · exact ha
      · exact absurd hex (h.free a ha)
    have hperm : (s.full.erase a ++ a :: s.free).Perm (s.full ++ s.free) :=
      List.perm_middle.trans ((List.perm_cons_erase hfull).symm.append_right s.free)
    refine ⟨hperm.nodup_iff.mpr h.nodup, by simp, fun b hb => ?_, fun b hb hba => ?_, hfits⟩
    · exact h.full b (List.mem_of_mem_erase hb)
    · exact h.free b ((List.mem_cons.mp hb).resolve_left hba)
  · apply h.nearly
    rcases ha with ha | ha
    · exact absurd (h.full a ha) hex
    · exact ha

/-- The cell that comes back was in use; its block is not exhausted any more. -/
lemma Nearly.push (h : s.Nearly n a) (hj : s.Held a j) :
    (s.push a j).Wf n ∧ ∀ b i, (s.push a j).Held b i ↔ s.Held b i ∧ ¬ (b = a ∧ i = j) := by
  obtain ⟨-, hlt, hnot⟩ := hj
  have hrec : ∀ b, b ≠ a → (s.push a j).recycle b = s.recycle b := fun b hb =>
    Function.update_of_ne hb _ _
  have hself : (s.push a j).recycle a = j :: s.recycle a := Function.update_self ..
  refine ⟨⟨h.nodup, fun b hb => ?_, fun b hb => ?_, fun b hb => ?_⟩, fun b i => ?_⟩
  · have hba : b ≠ a := fun e => h.not_mem_full (e ▸ hb)
    exact ⟨(h.full b hb).1, (hrec b hba).trans (h.full b hb).2⟩
  · rintro ⟨hindex, hnil⟩
    by_cases hba : b = a
    · rw [hba, hself] at hnil
      exact absurd hnil (by simp)
    · exact h.free b hb hba ⟨hindex, (hrec b hba).symm.trans hnil⟩
  · obtain ⟨h1, h2, h3⟩ := h.fits b hb
    by_cases hba : b = a
    · subst hba
      refine ⟨h1, by rw [hself]; exact List.nodup_cons.mpr ⟨hnot, h2⟩, ?_⟩
      rw [hself]
      intro i hi
      rcases List.mem_cons.mp hi with rfl | hi
      · exact hlt
      · exact h3 i hi
    · exact ⟨h1, by rwa [hrec b hba], by rwa [hrec b hba]⟩
  · by_cases hba : b = a
    · subst hba
      rw [Held, Held, hself, List.mem_cons]
      change s.Live b ∧ i < s.index b ∧ _ ↔ _
      tauto
    · have hsame : (s.push a j).Held b i ↔ s.Held b i := held_congr Iff.rfl rfl (hrec b hba)
      rw [hsame]
      simp [hba]

lemma Wf.shrink (h : s.Wf n) (ha : a ∈ s.free) :
    (s.shrink a).Wf n ∧ ∀ b i, (s.shrink a).Held b i ↔ s.Held b i := by
  unfold Slab.shrink
  split_ifs with hcond
  · have hfree := (List.nodup_append.mp h.nodup).2.1
    have hout : a ∉ s.full := (h.nearly ha).not_mem_full
    have hsub : (s.full ++ s.free.erase a).Sublist (s.full ++ s.free) :=
      List.erase_sublist.append_left s.full
    have hlive : ∀ b, b ≠ a → (b ∈ s.full ∨ b ∈ s.free.erase a ↔ s.Live b) := by
      intro b hba
      rw [List.mem_erase_of_ne hba]
      rfl
    have hgone : ¬ (a ∈ s.full ∨ a ∈ s.free.erase a) := by
      rintro (hmem | hmem)
      · exact hout hmem
      · exact hfree.not_mem_erase hmem
    refine ⟨⟨hsub.nodup h.nodup, h.full, fun b hb => h.free b (List.mem_of_mem_erase hb),
      fun b hb => ?_⟩, fun b i => ?_⟩
    · have hba : b ≠ a := fun e => hgone (e ▸ hb)
      obtain ⟨h1, h2, h3⟩ := h.fits b ((hlive b hba).mp hb)
      exact ⟨h1, h2, h3⟩
    · by_cases hba : b = a
      · subst hba
        exact iff_of_false (fun hh => hgone hh.1) ((h.fits b (.inr ha)).not_held hcond.1 i)
      · exact held_congr (hlive b hba) rfl rfl
  · exact ⟨h, fun _ _ => Iff.rfl⟩

/-- **Taking a cell back** keeps the state well formed; the cell is not in use any more. -/
lemma Wf.put (h : s.Wf n) (hj : s.Held a j) :
    (s.put n a j).Wf n ∧
      ∀ b i, (s.put n a j).Held b i ↔ s.Held b i ∧ ¬ (b = a ∧ i = j) := by
  have hopen := h.reopen hj.1
  have hheld : ∀ b i, (s.reopen n a).Held b i ↔ s.Held b i := fun b i =>
    held_congr (live_reopen hj.1) (by simp) (by simp)
  obtain ⟨hpush, hpushed⟩ := hopen.push ((hheld a j).mpr hj)
  obtain ⟨hshrink, hshrunk⟩ := hpush.shrink hopen.mem
  refine ⟨hshrink, fun b i => ?_⟩
  rw [Slab.put, hshrunk, hpushed, hheld]

@[simp] lemma index_put : (s.put n a j).index = s.index := by
  unfold put shrink
  split_ifs <;> simp [push]

lemma live_of_live_put (ha : s.Live a) {b : A} (hb : (s.put n a j).Live b) : s.Live b := by
  rw [← live_reopen (n := n) ha]
  unfold put shrink at hb
  split_ifs at hb
  · exact hb.imp id List.mem_of_mem_erase
  · exact hb

/-! ## The transitions -/

/-- One transition of the allocator: a new block is taken when no block has a free cell. -/
inductive Step (n : ℕ) (s : Slab A) : Slab A → Prop
  | idle : Step n s s
  | take {a : A} (ha : a ∈ s.free) : Step n s (s.take n a).2
  | grow {a : A} (hfree : s.free = []) (ha : ¬ s.Live a) : Step n s ((s.grow a).take n a).2
  | put {a : A} {j : ℕ} (hj : s.Held a j) : Step n s (s.put n a j)

omit [DecidableEq A] in
/-- All cells of the block that were handed out came back. -/
def Unused (s : Slab A) (a : A) : Prop := (s.recycle a).length = s.index a

omit [DecidableEq A] in
/-- **At most one block is unused.** -/
def Thrifty (s : Slab A) : Prop :=
  ∀ a b, s.Live a → s.Live b → s.Unused a → s.Unused b → a = b

omit [DecidableEq A] in
lemma Wf.not_unused (h : s.Wf n) (hj : s.Held a j) : ¬ s.Unused a :=
  fun hall => (h.fits a hj.1).not_held hall j hj

omit [DecidableEq A] in
lemma Wf.not_unused_full (h : s.Wf n) (hn : 0 < n) (ha : a ∈ s.full) : ¬ s.Unused a := by
  obtain ⟨hindex, hrecycle⟩ := h.full a ha
  intro hall
  rw [Unused, hindex, hrecycle, List.length_nil] at hall
  omega

lemma index_take_of_ne {b : A} (hb : b ≠ a) : (s.take n a).2.index b = s.index b := by
  rw [take, index_close, index_pop_of_ne hb]

lemma recycle_take_of_ne {b : A} (hb : b ≠ a) : (s.take n a).2.recycle b = s.recycle b := by
  rw [take, recycle_close, recycle_pop_of_ne hb]

/-- **Handing out a cell** makes no block unused. -/
lemma Wf.unused_take (h : s.Wf n) (ha : a ∈ s.free) {b : A} (hb : (s.take n a).2.Live b)
    (hall : (s.take n a).2.Unused b) : b ≠ a ∧ s.Live b ∧ s.Unused b := by
  obtain ⟨hwf, hlive, -, hheld⟩ := h.take ha
  have hba : b ≠ a := by
    rintro rfl
    exact hwf.not_unused ((hheld b _).mpr (.inr ⟨rfl, rfl⟩)) hall
  rw [Unused, index_take_of_ne hba, recycle_take_of_ne hba] at hall
  exact ⟨hba, (hlive b).mp hb, hall⟩

lemma Thrifty.take (hs : s.Thrifty) (h : s.Wf n) (ha : a ∈ s.free) : (s.take n a).2.Thrifty := by
  intro b c hb hc hallb hallc
  obtain ⟨-, hb, hallb⟩ := h.unused_take ha hb hallb
  obtain ⟨-, hc, hallc⟩ := h.unused_take ha hc hallc
  exact hs b c hb hc hallb hallc

lemma Thrifty.grow (hs : s.Thrifty) (h : s.Wf n) (hn : 0 < n) (ha : ¬ s.Live a) :
    ((s.grow a).take n a).2.Thrifty := by
  have hwf := h.grow hn ha
  have hmem : a ∈ (s.grow a).free := List.mem_cons_self ..
  have hold : ∀ b, ((s.grow a).take n a).2.Live b → ((s.grow a).take n a).2.Unused b →
      s.Live b ∧ s.Unused b := by
    intro b hb hall
    obtain ⟨hba, hb, hall⟩ := hwf.unused_take hmem hb hall
    refine ⟨(live_grow.mp hb).resolve_left hba, ?_⟩
    simpa [Unused, Slab.grow, hba] using hall
  intro b c hb hc hallb hallc
  exact hs b c (hold b hb hallb).1 (hold c hc hallc).1 (hold b hb hallb).2 (hold c hc hallc).2

/-- After a cell came back, the other unused blocks were unused before. -/
lemma unused_put_of_ne {b : A} (hba : b ≠ a) : (s.put n a j).Unused b ↔ s.Unused b := by
  have hrecycle : (s.put n a j).recycle b = s.recycle b := by
    unfold put shrink
    split_ifs <;> simp [push, hba]
  rw [Unused, Unused, index_put, hrecycle]

/-- When the block itself is unused then, it is the only block with free cells, or given up. -/
lemma Wf.unused_put (h : s.Wf n) (hj : s.Held a j) (hlive : (s.put n a j).Live a)
    (hall : (s.put n a j).Unused a) {b : A} (hb : (s.put n a j).Live b) :
    b = a ∨ b ∈ (s.put n a j).full := by
  have hopen := h.reopen hj.1
  have hheld : (s.reopen n a).Held a j :=
    (held_congr (live_reopen hj.1) (by simp) (by simp)).mpr hj
  obtain ⟨hpush, -⟩ := hopen.push hheld
  unfold Slab.put Slab.shrink at hlive hall hb ⊢
  split_ifs at hlive hall hb ⊢ with hcond
  · -- the block has been given up
    have hnodup := (List.nodup_append.mp hpush.nodup).2.1
    rcases hlive with hlive | hlive
    · exact absurd hlive hopen.not_mem_full
    · exact absurd hlive hnodup.not_mem_erase
  · rcases hb with hb | hb
    · exact .inr hb
    · have hone : ((s.reopen n a).push a j).free.length < 2 :=
        Nat.lt_of_not_le fun htwo => hcond ⟨hall, htwo⟩
      obtain ⟨c, hc⟩ : ∃ c, ((s.reopen n a).push a j).free = [c] := by
        apply List.length_eq_one_iff.mp
        have hpos := List.length_pos_of_mem hb
        omega
      have ha : a ∈ ((s.reopen n a).push a j).free := hopen.mem
      rw [hc, List.mem_singleton] at hb ha
      exact .inl (hb.trans ha.symm)

lemma Thrifty.put (hs : s.Thrifty) (h : s.Wf n) (hn : 0 < n) (hj : s.Held a j) :
    (s.put n a j).Thrifty := by
  have hwf := (h.put hj).1
  -- an unused block next to `a` is exhausted
  have hself : ∀ b, (s.put n a j).Live a → (s.put n a j).Unused a → (s.put n a j).Live b →
      (s.put n a j).Unused b → b = a := by
    intro b ha halla hb hallb
    rcases h.unused_put hj ha halla hb with hba | hfull
    · exact hba
    · exact absurd hallb (hwf.not_unused_full hn hfull)
  intro b c hb hc hallb hallc
  by_cases hba : b = a
  · subst hba
    exact (hself c hb hallb hc hallc).symm
  · by_cases hca : c = a
    · subst hca
      exact hself b hc hallc hb hallb
    · exact hs b c (live_of_live_put hj.1 hb) (live_of_live_put hj.1 hc)
        ((unused_put_of_ne hba).mp hallb) ((unused_put_of_ne hca).mp hallc)

/-- **At most one block stays unused.** -/
lemma Step.thrifty {s' : Slab A} (hstep : s.Step n s') (h : s.Wf n) (hn : 0 < n)
    (hs : s.Thrifty) : s'.Thrifty := by
  cases hstep with
  | idle => exact hs
  | take ha => exact hs.take h ha
  | grow _ ha => exact hs.grow h hn ha
  | put hj => exact hs.put h hn hj

/-- **When a block is given up**, no other block comes. -/
lemma Step.live_of_gone {s' : Slab A} (hstep : s.Step n s') (h : s.Wf n) (hn : 0 < n)
    (ha : s.Live a) (hgone : ¬ s'.Live a) {b : A} (hb : s'.Live b) : s.Live b := by
  cases hstep with
  | idle => exact hb
  | take hmem => exact absurd (((h.take hmem).2.1 a).mpr ha) hgone
  | @grow c hfree hc =>
      have hlive := ((h.grow hn hc).take (List.mem_cons_self ..)).2.1
      exact absurd ((hlive a).mpr (live_grow.mpr (.inr ha))) hgone
  | put hj => exact live_of_live_put hj.1 hb

end Operations

end Slab

end LinuxC
