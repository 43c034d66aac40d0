import LinuxC.Framework.Slab
import LinuxC.MemPool.Model
import LinuxC.RbTree.Operations

/-!
# The stocks of a cache are a slab

`Represents g a s` says that the memory `a` holds the slab `s`: the two lists of stocks, the tree,
the allocated blocks and, for every stock, its header and its recycle list.  `g` is the geometry of
the slot, the number and the size of the chunks, in which nothing overflows.

Each part of `chunk_alloc` and `chunk_free` does on the memory what the operation of the same name
does on the slab.
-/

namespace LinuxC.MemPool

open Arena

/-! ## The geometry of a stock -/

/-- The number and the size of the chunks of a stock, such that the counters and the size of the
stock do not overflow. -/
structure Geometry where
  count : ℕ
  size : ℕ
  count_pos : 0 < count
  count_lt : count < 2 ^ 31
  size_ge : sizeofMemChunk ≤ size
  size_dvd : align ∣ size
  fits : count * size + sizeofMemStock < word

namespace Geometry

variable (g : Geometry)

/-- The size of a stock. -/
def stockSize : ℕ := g.count * g.size + sizeofMemStock

/-- The address of the chunk `j` of the stock `p`. -/
def chunk (p j : ℕ) : ℕ := cell (p + sizeofMemStock) g.size j

/-- The slot. -/
def slot : MemSlot := ⟨g.size, g.count, g.stockSize⟩

/-- The stock may lie at `p`. -/
structure Place (p : ℕ) : Prop where
  ne_zero : p ≠ 0
  page : getpagesize ∣ p
  lt : p + g.stockSize < word

variable {g} {p q i j : ℕ}

lemma size_pos : 0 < g.size := lt_of_lt_of_le (by decide) g.size_ge

/-- The chunks lie in the data area of the stock. -/
lemma chunk_inside (hj : j < g.count) :
    p + sizeofMemStock ≤ g.chunk p j ∧ g.chunk p j + g.size ≤ p + g.stockSize := by
  have h : cell (p + sizeofMemStock) g.size j + g.size ≤ p + sizeofMemStock + g.count * g.size :=
    cell_end_le (p + sizeofMemStock) hj
  refine ⟨Nat.le_add_right _ _, ?_⟩
  unfold chunk stockSize
  omega

lemma Place.chunk_lt (h : g.Place p) (hj : j < g.count) : g.chunk p j < word := by
  have hin := chunk_inside (g := g) (p := p) hj
  have hlt := h.lt
  omega

lemma Place.chunk_ne_zero (h : g.Place p) : g.chunk p j ≠ 0 := by
  have hp := h.ne_zero
  unfold chunk cell
  omega

lemma Place.start_eq (h : g.Place p) : start p = p + sizeofMemStock := by
  have hlt := h.lt
  unfold stockSize at hlt
  exact Nat.mod_eq_of_lt (by omega)

lemma Place.chunk_dvd (h : g.Place p) : align ∣ g.chunk p j := by
  have hp : align ∣ p := dvd_trans (by decide) h.page
  have hstock : align ∣ sizeofMemStock := by decide
  exact dvd_add (dvd_add hp hstock) (dvd_mul_of_dvd_right g.size_dvd j)

lemma chunk_apart (hpq : p ≠ q → p + g.stockSize ≤ q ∨ q + g.stockSize ≤ p) (hi : i < g.count)
    (hj : j < g.count) (hne : ¬ (p = q ∧ i = j)) :
    g.chunk p i + g.size ≤ g.chunk q j ∨ g.chunk q j + g.size ≤ g.chunk p i := by
  by_cases hp : p = q
  · subst hp
    exact cell_apart _ fun e => hne ⟨rfl, e⟩
  · have h₁ := chunk_inside (g := g) (p := p) hi
    have h₂ := chunk_inside (g := g) (p := q) hj
    have := hpq hp
    omega

lemma chunk_inj (hpq : p ≠ q → p + g.stockSize ≤ q ∨ q + g.stockSize ≤ p) (hi : i < g.count)
    (hj : j < g.count) (h : g.chunk p i = g.chunk q j) : p = q ∧ i = j := by
  by_contra hne
  have hpos := g.size_pos
  have := chunk_apart hpq hi hj hne
  omega

end Geometry

/-! ## The relation -/

/-- The two lists of a slot. -/
inductive Kind
  | full
  | free
  deriving DecidableEq

/-- The head of a list. -/
def head : Kind → ListNode
  | .full => .fullHead 0
  | .free => .freeHead 0

/-- The nodes of a list. -/
def nodesOf (s : Slab ℕ) : Kind → List ListNode
  | .full => s.full.map .stock
  | .free => s.free.map .stock

/-- The header `st` of the stock `p` and its recycle list in the memory `m`. -/
structure HoldsStock (g : Geometry) (m : Mem) (st : MemStock) (s : Slab ℕ) (p : ℕ) : Prop where
  slot : st.slot = 0
  index : st.index = s.index p
  recycnt : st.recycnt = (s.recycle p).length
  recycle : Threaded m 8 st.recycle ((s.recycle p).map (g.chunk p))

/-- **The memory holds the slab.** -/
structure Represents (g : Geometry) (a : Arena) (s : Slab ℕ) : Prop where
  slot : a.slot 0 = g.slot
  lists : a.links.Family head (nodesOf s)
  tree : ∃ xs, Rb.IsSet stockCompare a.onrbt xs ∧ ∀ p, p ∈ xs ↔ s.Live p
  heap : ∀ b, b ∈ a.heap ↔ s.Live b.1 ∧ b.2 = g.stockSize
  place : ∀ p, s.Live p → g.Place p
  apart : ∀ p q, s.Live p → s.Live q → p ≠ q → p + g.stockSize ≤ q ∨ q + g.stockSize ≤ p
  stock : ∀ p, s.Live p → HoldsStock g a.mem (a.stock p) s p

/-! ## The tree and the search -/

lemma comparator_stockCompare : Comparator stockCompare := by
  refine ⟨fun a b => ?_, fun a b c hab hbc => ?_⟩
  · unfold stockCompare
    split_ifs <;> omega
  · unfold stockCompare at *
    split_ifs at * <;> omega

lemma stockCompare_lt {p q : ℕ} : stockCompare p q < 0 ↔ p < q := by
  unfold stockCompare
  split_ifs <;> grind

lemma stockCompare_eq {p q : ℕ} : stockCompare p q = 0 ↔ p = q := by
  unfold stockCompare
  split_ifs <;> grind

section Search

variable {g : Geometry} {a : Arena} {s : Slab ℕ} {p c : ℕ}

/-- The searcher compares with the data area of the stock. -/
lemma Represents.stockSearch (h : Represents g a s) (hp : s.Live p) :
    stockSearch a c p =
      if p + g.stockSize ≤ c then 1 else if c < p + sizeofMemStock then -1 else 0 := by
  have hplace := h.place p hp
  rw [MemPool.stockSearch, (h.stock p hp).slot, h.slot, hplace.start_eq]
  rw [show g.slot.stockSize = g.stockSize from rfl, Nat.mod_eq_of_lt hplace.lt]

/-- **`rb_search` in `chunk_free`** finds the stock of the chunk. -/
lemma Represents.findStock (h : Represents g a s) (hp : s.Live p) {j : ℕ} (hj : j < g.count) :
    findStock (g.chunk p j) a = .ok (some p) := by
  obtain ⟨xs, hset, hxs⟩ := h.tree
  have hin := g.chunk_inside (p := p) hj
  have hpos := g.size_pos
  have hsize : sizeofMemStock ≤ g.stockSize := Nat.le_add_left _ _
  have hcons : Rb.ConsistentOn stockCompare (MemPool.stockSearch a) (g.chunk p j) xs := by
    refine ⟨fun b hb d hd hbd hle => ?_, fun b hb d hd hbd hle => ?_⟩
    all_goals
      rw [hxs] at hb hd
      rw [stockCompare_lt] at hbd
      have hapart := h.apart b d hb hd (by omega)
      rw [h.stockSearch hb] at *
      rw [h.stockSearch hd] at *
      split_ifs at * <;> omega
  obtain ⟨r, heval, hr⟩ := hset.search_on hcons (Nat.lt_succ_self _)
  have hfound : r = some p := by
    rw [hr, hxs]
    refine ⟨hp, ?_⟩
    rw [h.stockSearch hp, if_neg (by omega), if_neg (by omega)]
  rw [MemPool.findStock, heval, hfound]
  rfl

end Search

/-! ## Machine integers -/

lemma sizeT_natCast {n : ℕ} (h : n < word) : sizeT n = n := by
  unfold word at h
  unfold sizeT
  omega

lemma intAdd_one {n : ℕ} (h : n + 1 < 2 ^ 31) : intAdd n 1 = (n + 1 : ℕ) := by
  unfold intAdd
  rw [Int.bmod_eq_of_le (by omega) (by omega)]
  omega

lemma intAdd_neg_one {n : ℕ} (h : n + 1 < 2 ^ 31) : intAdd (n + 1 : ℕ) (-1) = n := by
  unfold intAdd
  rw [Int.bmod_eq_of_le (by omega) (by omega)]
  omega

/-! ## Moving between the lists -/

section Lists

variable {g : Geometry} {a : Arena} {s : Slab ℕ} {p : ℕ}

lemma Represents.exhausted (h : Represents g a s) (hp : s.Live p) (hfits : s.Fits g.count p) :
    stockExhausted a p = decide (s.Exhausted g.count p) := by
  have hst := h.stock p hp
  have hindex : sizeT (s.index p) = s.index p := by
    have hle := hfits.index_le
    have hlt := g.count_lt
    exact sizeT_natCast (by unfold word; omega)
  have hnil : (s.recycle p).map (g.chunk p) = [] ↔ (a.stock p).recycle = 0 :=
    hst.recycle.eq_nil_iff
  rw [List.map_eq_nil_iff] at hnil
  rw [stockExhausted, hst.slot, h.slot, hst.index, hindex]
  exact decide_eq_decide.mpr (by simp only [Slab.Exhausted, Geometry.slot, hnil])

lemma stock_not_head {i : Kind} : ListNode.stock p ≠ head i := by
  cases i <;> simp [head]

lemma stock_mem_nodesOf_full : ListNode.stock p ∈ nodesOf s .full ↔ p ∈ s.full := by
  simp [nodesOf]

lemma stock_mem_nodesOf_free : ListNode.stock p ∈ nodesOf s .free ↔ p ∈ s.free := by
  simp [nodesOf]

lemma erase_map_stock (xs : List ℕ) (p : ℕ) :
    (xs.map ListNode.stock).erase (.stock p) = (xs.erase p).map ListNode.stock :=
  (List.map_erase (fun _ _ e => ListNode.stock.inj e) xs).symm

/-- Another order in the lists, with the same stocks. -/
lemma Represents.relist (h : Represents g a s) {l : Links ListNode} {s' : Slab ℕ}
    (hl : l.Family head (nodesOf s')) (hlive : ∀ p, s'.Live p ↔ s.Live p)
    (hindex : s'.index = s.index) (hrecycle : s'.recycle = s.recycle) :
    Represents g { a with links := l } s' := by
  refine ⟨h.slot, hl, ?_, fun b => ?_, fun p hp => ?_, fun p q hp hq => ?_, fun p hp => ?_⟩
  · obtain ⟨xs, hset, hxs⟩ := h.tree
    exact ⟨xs, hset, fun p => (hxs p).trans (hlive p).symm⟩
  · rw [hlive]
    exact h.heap b
  · exact h.place p ((hlive p).mp hp)
  · exact h.apart p q ((hlive p).mp hp) ((hlive q).mp hq)
  · obtain ⟨h1, h2, h3, h4⟩ := h.stock p ((hlive p).mp hp)
    exact ⟨h1, by rw [hindex]; exact h2, by rw [hrecycle]; exact h3, by rw [hrecycle]; exact h4⟩

/-- A stock goes from one list to the other. -/
lemma family_move {l : Links ListNode} (hl : l.Family head (nodesOf s)) {i j : Kind}
    (hmem : ListNode.stock p ∈ nodesOf s i) :
    (listAdd (.stock p) (head j) (listDel .null (.stock p) l)).Family head
      (Function.update (fun k => (nodesOf s k).erase (.stock p)) j
        (.stock p :: (nodesOf s j).erase (.stock p))) := by
  refine family_listAdd (family_listDel hl .null hmem fun _ => stock_not_head) j fun k hk => ?_
  rcases List.mem_cons.mp hk with hk | hk
  · exact stock_not_head hk
  · exact (List.nodup_cons.mp (hl.ring k).nodup).2.not_mem_erase hk

/-- **The end of `chunk_alloc`.** -/
lemma Represents.close (h : Represents g a s) (hp : s.Nearly g.count p) :
    Represents g (stockClose 0 p a) (s.close g.count p) := by
  have hlive : s.Live p := .inr hp.mem
  rw [stockClose, h.exhausted hlive (hp.fits p hlive)]
  by_cases hex : s.Exhausted g.count p
  · have hmove := family_move (j := .full) h.lists (stock_mem_nodesOf_free.mpr hp.mem)
    rw [if_pos (by simpa using hex)]
    refine h.relist (hmove.of_eq fun k => ?_) (fun q => hp.live_close) (by simp) (by simp)
    cases k with
    | full => simp [Slab.close, hex, nodesOf, erase_map_stock,
        List.erase_of_not_mem hp.not_mem_full]
    | free => simp [Slab.close, hex, nodesOf, erase_map_stock]
  · rw [if_neg (by simpa using hex), Slab.close, if_neg hex]
    exact h

/-- **The first half of `chunk_free`.** -/
lemma Represents.reopen (h : Represents g a s) (hw : s.Wf g.count) (hp : s.Live p) :
    Represents g (stockReopen p a) (s.reopen g.count p) := by
  rw [stockReopen, h.exhausted hp (hw.fits p hp)]
  by_cases hex : s.Exhausted g.count p
  · have hfull : p ∈ s.full := by
      rcases hp with hp | hp
      · exact hp
      · exact absurd hex (hw.free p hp)
    have hfree : p ∉ s.free := fun hmem => hw.free p hmem hex
    have hmove := family_move (j := .free) h.lists (stock_mem_nodesOf_full.mpr hfull)
    rw [if_pos (by simpa using hex)]
    simp only [(h.stock p hp).slot]
    refine h.relist (hmove.of_eq fun k => ?_) (fun q => Slab.live_reopen hp) (by simp) (by simp)
    cases k with
    | full => simp [Slab.reopen, hex, nodesOf, erase_map_stock]
    | free => simp [Slab.reopen, hex, nodesOf, erase_map_stock, List.erase_of_not_mem hfree]
  · rw [if_neg (by simpa using hex), Slab.reopen, if_neg hex]
    exact h

end Lists

/-! ## The header and the chunks of a stock -/

section Stock

variable {g : Geometry} {a : Arena} {s : Slab ℕ} {p : ℕ}

/-- Another header for the stock `p`, and other bytes outside the recycle lists of the other
stocks. -/
lemma Represents.restock (h : Represents g a s) {f : MemStock} {m : Mem} {s' : Slab ℕ}
    (hfull : s'.full = s.full) (hfree : s'.free = s.free)
    (hother : ∀ q, q ≠ p → s'.index q = s.index q ∧ s'.recycle q = s.recycle q)
    (hmem : ∀ q, s.Live q → q ≠ p → ∀ j ∈ s.recycle q,
      m.read (g.chunk q j) 8 = a.mem.read (g.chunk q j) 8)
    (hself : HoldsStock g m f s' p) :
    Represents g { a with stock := Function.update a.stock p f, mem := m } s' := by
  have hlive : ∀ q, s'.Live q ↔ s.Live q := fun q => by rw [Slab.Live, Slab.Live, hfull, hfree]
  refine ⟨h.slot, ?_, ?_, fun b => ?_, fun q hq => ?_, fun q r hq hr => ?_, fun q hq => ?_⟩
  · apply h.lists.of_eq
    intro k
    cases k with
    | full => simp [nodesOf, hfull]
    | free => simp [nodesOf, hfree]
  · obtain ⟨xs, hset, hxs⟩ := h.tree
    exact ⟨xs, hset, fun q => (hxs q).trans (hlive q).symm⟩
  · rw [hlive]
    exact h.heap b
  · exact h.place q ((hlive q).mp hq)
  · exact h.apart q r ((hlive q).mp hq) ((hlive r).mp hr)
  · change HoldsStock g m (Function.update a.stock p f q) s' q
    by_cases hqp : q = p
    · subst hqp
      rwa [Function.update_self]
    · obtain ⟨hindex, hrecycle⟩ := hother q hqp
      obtain ⟨h1, h2, h3, h4⟩ := h.stock q ((hlive q).mp hq)
      rw [Function.update_of_ne hqp]
      refine ⟨h1, h2.trans (by rw [hindex]), h3.trans (by rw [hrecycle]), ?_⟩
      rw [hrecycle]
      apply h4.congr
      intro c hc
      obtain ⟨j, hj, rfl⟩ := List.mem_map.mp hc
      exact hmem q ((hlive q).mp hq) hqp j hj

lemma chunkTake_recycle {slot : ℕ} (h : (a.stock p).recycle ≠ 0) :
    chunkTake slot p a = .ok ((a.stock p).recycle, { a with
      stock := Function.update a.stock p { a.stock p with
        recycle := a.next (a.stock p).recycle, recycnt := intAdd (a.stock p).recycnt (-1) },
      mem := a.mem }) := by
  rw [chunkTake, if_pos h, setStock]

lemma chunkTake_next {slot : ℕ} (h : (a.stock p).recycle = 0)
    (hindex : sizeT (a.stock p).index < (a.slot slot).chunkCount) :
    chunkTake slot p a =
      .ok ((start p + sizeT (a.stock p).index * (a.slot slot).chunkSize) % word, { a with
        stock := Function.update a.stock p { a.stock p with
          index := intAdd (a.stock p).index 1 },
        mem := a.mem }) := by
  rw [chunkTake, if_neg (not_not_intro h), if_pos hindex, setStock]

lemma Represents.pop_recycle (h : Represents g a s) (hw : s.Wf g.count) (hp : s.Live p) {j : ℕ}
    {js : List ℕ} (hrec : s.recycle p = j :: js) :
    ∃ a', chunkTake 0 p a = .ok (g.chunk p j, a') ∧
      Represents g a' { s with recycle := Function.update s.recycle p js } := by
  have hst := h.stock p hp
  have hfits := hw.fits p hp
  have hcount := g.count_lt
  have hle := hfits.index_le
  have hlen := hfits.length_le
  have hth := hst.recycle
  rw [hrec, List.map_cons] at hth
  obtain ⟨hhead, hne, htail⟩ := hth
  rw [hrec, List.length_cons] at hlen
  have hcnt : (a.stock p).recycnt = (js.length + 1 : ℕ) := by
    rw [hst.recycnt, hrec, List.length_cons]
  refine ⟨_, by rw [chunkTake_recycle (by rwa [hhead]), hhead], h.restock rfl rfl ?_ ?_ ?_⟩
  · exact fun q hq => ⟨rfl, Function.update_of_ne hq _ _⟩
  · exact fun q _ _ i _ => rfl
  · refine ⟨hst.slot, hst.index, ?_, ?_⟩
    · simp only [hcnt, Function.update_self]
      exact intAdd_neg_one (by omega)
    · simp only [Function.update_self]
      exact htail

/-- The chunk is the next one of the stock. -/
lemma Represents.pop_next (h : Represents g a s) (hw : s.Wf g.count) (hp : s.Live p)
    (hrec : s.recycle p = []) (hroom : s.index p ≠ g.count) :
    ∃ a', chunkTake 0 p a = .ok (g.chunk p (s.index p), a') ∧
      Represents g a' { s with index := Function.update s.index p (s.index p + 1) } := by
  have hst := h.stock p hp
  have hcount := g.count_lt
  have hle := (hw.fits p hp).index_le
  have hplace := h.place p hp
  have hzero : (a.stock p).recycle = 0 := by
    rw [← hst.recycle.eq_nil_iff, hrec, List.map_nil]
  have hlt : s.index p < g.count := by omega
  have hindex : sizeT (a.stock p).index = s.index p := by
    rw [hst.index]
    exact sizeT_natCast (by unfold word; omega)
  have hless : sizeT (a.stock p).index < (a.slot 0).chunkCount := by
    rw [hindex, h.slot]
    exact hlt
  have hchunk : (start p + sizeT (a.stock p).index * (a.slot 0).chunkSize) % word =
      g.chunk p (s.index p) := by
    rw [hplace.start_eq, hindex, h.slot]
    exact Nat.mod_eq_of_lt (hplace.chunk_lt hlt)
  refine ⟨_, by rw [chunkTake_next hzero hless, hchunk], h.restock rfl rfl ?_ ?_ ?_⟩
  · exact fun q hq => ⟨Function.update_of_ne hq _ _, rfl⟩
  · exact fun q _ _ i _ => rfl
  · refine ⟨hst.slot, ?_, hst.recycnt, hst.recycle⟩
    simp only [hst.index, Function.update_self]
    exact intAdd_one (by omega)

/-- **The middle of `chunk_alloc`** returns the chunk that the slab hands out. -/
lemma Represents.pop (h : Represents g a s) (hw : s.Wf g.count) (hp : p ∈ s.free) :
    ∃ a', chunkTake 0 p a = .ok (g.chunk p (s.pop p).1, a') ∧ Represents g a' (s.pop p).2 := by
  unfold Slab.pop
  split
  · next j js hrec => exact h.pop_recycle hw (.inr hp) hrec
  · next hrec => exact h.pop_next hw (.inr hp) hrec fun e => hw.free p hp ⟨e, hrec⟩

/-- **The chunk is put into the recycle list.** -/
lemma Represents.push (h : Represents g a s) (hn : s.Nearly g.count p) {j : ℕ}
    (hj : s.Held p j) : Represents g (chunkPut p (g.chunk p j) a) (s.push p j) := by
  obtain ⟨hlive, hlt, hnot⟩ := hj
  have hst := h.stock p hlive
  have hfits := hn.fits p hlive
  have hle := hfits.index_le
  have hcount := g.count_lt
  have hsize : 8 ≤ g.size := g.size_ge
  have hplace := h.place p hlive
  -- the link is written clear of all recycle lists
  have hclear : ∀ q, s.Live q → ∀ i ∈ s.recycle q,
      g.chunk q i + 8 ≤ g.chunk p j ∨ g.chunk p j + 8 ≤ g.chunk q i := by
    intro q hq i hi
    have hqfits := hn.fits q hq
    have hiq := hqfits.recycle_lt i hi
    have hqle := hqfits.index_le
    have hne : ¬ (q = p ∧ i = j) := by
      rintro ⟨rfl, rfl⟩
      exact hnot hi
    have := g.chunk_apart (h.apart q p hq hlive) (by omega) (by omega) hne
    omega
  have hrecycle : (a.stock p).recycle < 256 ^ 8 := by
    cases hrec : s.recycle p with
    | nil =>
        have hzero : (a.stock p).recycle = 0 := by
          rw [← hst.recycle.eq_nil_iff, hrec, List.map_nil]
        rw [hzero]
        norm_num
    | cons i is =>
        have hth := hst.recycle
        rw [hrec, List.map_cons] at hth
        have hi := hfits.recycle_lt i (by simp [hrec])
        have := hplace.chunk_lt (j := i) (by omega)
        rw [hth.1]
        unfold word at this
        omega
  have hlen : (s.recycle p).length + 1 ≤ s.index p := by
    have hsub : (j :: s.recycle p) ⊆ List.range (s.index p) := by
      intro i hi
      rcases List.mem_cons.mp hi with rfl | hi
      · simpa using hlt
      · simpa using hfits.recycle_lt i hi
    simpa using (List.subperm_of_subset (List.nodup_cons.mpr ⟨hnot, hfits.nodup⟩) hsub).length_le
  have heq : chunkPut p (g.chunk p j) a = { a with
      stock := Function.update a.stock p { a.stock p with
        recycle := g.chunk p j, recycnt := intAdd (a.stock p).recycnt 1 },
      mem := a.mem.write (g.chunk p j) (toLE 8 (a.stock p).recycle) } := by
    simp [chunkPut, setStock, setNext]
  rw [heq]
  refine h.restock rfl rfl (fun q hq => ⟨rfl, Function.update_of_ne hq _ _⟩)
    (fun q hq hqp i hi => ?_) ⟨?_, ?_, ?_, ?_⟩
  · rcases hclear q hq i hi with hc | hc
    · exact Mem.read_write_below _ _ hc
    · exact Mem.read_write_above _ _ (by simpa using hc)
  · exact hst.slot
  · exact hst.index
  · simp only [hst.recycnt, Slab.push, Function.update_self, List.length_cons]
    exact intAdd_one (by omega)
  · simp only [Slab.push, Function.update_self, List.map_cons]
    apply hst.recycle.push hplace.chunk_ne_zero hrecycle
    intro c hc
    obtain ⟨i, hi, rfl⟩ := List.mem_map.mp hc
    exact hclear p hlive i hi

end Stock

/-! ## Stocks come and go -/

section Blocks

variable {g : Geometry} {a : Arena} {s : Slab ℕ} {p : ℕ}

lemma Represents.not_live (h : Represents g a s) (hgrant : Grant g.stockSize a.heap p) :
    ¬ s.Live p := by
  intro hp
  have hpos : 0 < g.stockSize := lt_of_lt_of_le (by decide) (Nat.le_add_left sizeofMemStock _)
  have := hgrant.2.2.2 (p, g.stockSize) ((h.heap _).mpr ⟨hp, rfl⟩)
  omega

lemma Represents.listEmpty (h : Represents g a s) :
    listEmpty (.freeHead 0) a.links = decide (s.free = []) := by
  have hring := (h.lists.ring .free).listEmpty
  simpa [nodesOf, head] using hring

lemma Represents.apart_grow (h : Represents g a s) (hgrant : Grant g.stockSize a.heap p) {q r : ℕ}
    (hq : (s.grow p).Live q) (hr : (s.grow p).Live r) (hqr : q ≠ r) :
    q + g.stockSize ≤ r ∨ r + g.stockSize ≤ q := by
  have hnew : ∀ b, s.Live b → p + g.stockSize ≤ b ∨ b + g.stockSize ≤ p := fun b hb =>
    hgrant.2.2.2 (b, g.stockSize) ((h.heap _).mpr ⟨hb, rfl⟩)
  rw [Slab.live_grow] at hq hr
  rcases hq with rfl | hq <;> rcases hr with rfl | hr
  · exact absurd rfl hqr
  · exact hnew r hr
  · exact (hnew q hq).symm
  · exact h.apart q r hq hr hqr

/-- **`stock_alloc`** makes the block a stock of the slab. -/
lemma Represents.grow (h : Represents g a s) (hfree : s.free = [])
    (hgrant : Grant g.stockSize a.heap p) :
    ∃ a', stockAlloc 0 (some p) a = .ok (some p, a') ∧ Represents g a' (s.grow p) := by
  have hnew := h.not_live hgrant
  have hout : ∀ k, ListNode.stock p ∉ head k :: nodesOf s k := by
    intro k hk
    rcases List.mem_cons.mp hk with hk | hk
    · exact stock_not_head hk
    · cases k with
      | full => exact hnew (.inl (stock_mem_nodesOf_full.mp hk))
      | free => exact hnew (.inr (stock_mem_nodesOf_free.mp hk))
  have hempty := h.listEmpty
  rw [decide_eq_true hfree] at hempty
  have hinit : (initListHead (.stock p) a.links).Family head (nodesOf s) := by
    refine h.lists.congr (fun k x hx => ?_) fun k x hx => ?_
    · exact if_neg fun e : x = .stock p => hout k (e ▸ hx)
    · exact if_neg fun e : x = .stock p => hout k (e ▸ hx)
  have hadd := family_listAdd hinit .free hout
  obtain ⟨xs, hset, hxs⟩ := h.tree
  have hne : ∀ q ∈ xs, stockCompare p q ≠ 0 := by
    intro q hq heq
    rw [stockCompare_eq] at heq
    exact hnew ((hxs p).mp (heq ▸ hq))
  obtain ⟨t, r, heval, hset'⟩ := hset.inserted comparator_stockCompare p (Nat.lt_succ_self _)
  have hslot : (a.slot 0).stockSize = g.stockSize := by rw [h.slot]; rfl
  refine ⟨{ a with
      onrbt := t
      stock := Function.update a.stock p ⟨0, 0, 0, 0⟩
      links := listAdd (.stock p) (.freeHead 0) (initListHead (.stock p) a.links)
      heap := (p, g.stockSize) :: a.heap }, ?_, ?_⟩
  · simp only [stockAlloc, hempty, if_true, setStock, heval, followed, hslot]
    rfl
  · refine ⟨h.slot, hadd.of_eq fun k => ?_, ⟨_, hset', fun q => ?_⟩, fun b => ?_, fun q hq => ?_,
      fun q r hq hr hqr => h.apart_grow hgrant hq hr hqr, fun q hq => ?_⟩
    · cases k with
      | full => simp [Slab.grow, nodesOf]
      | free => simp [Slab.grow, nodesOf]
    · rw [mem_insertOrd hne, Slab.live_grow, hxs]
    · rw [List.mem_cons, Slab.live_grow, h.heap, Prod.ext_iff]
      have := hnew
      tauto
    · rcases Slab.live_grow.mp hq with rfl | hq
      · exact ⟨hgrant.1, hgrant.2.1, hgrant.2.2.1⟩
      · exact h.place q hq
    · change HoldsStock g a.mem (Function.update a.stock p ⟨0, 0, 0, 0⟩ q) (s.grow p) q
      rcases Slab.live_grow.mp hq with rfl | hq
      · rw [Function.update_self]
        exact ⟨rfl, by simp [Slab.grow], by simp [Slab.grow], by simp [Slab.grow, Threaded]⟩
      · have hqp : q ≠ p := fun e => hnew (e ▸ hq)
        obtain ⟨h1, h2, h3, h4⟩ := h.stock q hq
        rw [Function.update_of_ne hqp]
        refine ⟨h1, h2.trans ?_, h3.trans ?_, ?_⟩
        · simp [Slab.grow, hqp]
        · simp [Slab.grow, hqp]
        · simpa [Slab.grow, hqp] using h4

/-- The test for more than one stock in the list. -/
lemma Represents.next_next (h : Represents g a s) (hp : p ∈ s.free) :
    a.links.next (a.links.next (.freeHead 0)) ≠ .freeHead 0 ↔ 2 ≤ s.free.length := by
  have hseg := (h.lists.ring .free).seg
  simp only [nodesOf, head] at hseg
  match hs : s.free, hp with
  | [q], _ =>
      rw [hs] at hseg
      obtain ⟨h1, -, h2, -⟩ := hseg
      simp [h1, h2]
  | q :: r :: rs, _ =>
      rw [hs] at hseg
      obtain ⟨h1, -, h2, -⟩ := hseg
      simp [h1, h2]

/-- **The second half of `chunk_free`** gives a stock back when the slab does. -/
lemma Represents.shrink (h : Represents g a s) (hw : s.Wf g.count) (hp : p ∈ s.free) :
    ∃ a', stockRelease p a = .ok a' ∧ Represents g a' (s.shrink p) := by
  have hlive : s.Live p := .inr hp
  have hst := h.stock p hlive
  have hcond : ((a.stock p).recycnt = (a.stock p).index ∧
      a.links.next (a.links.next (.freeHead (a.stock p).slot)) ≠ .freeHead (a.stock p).slot) ↔
      (s.recycle p).length = s.index p ∧ 2 ≤ s.free.length := by
    rw [hst.slot, h.next_next hp, hst.recycnt, hst.index, Nat.cast_inj]
  by_cases hgive : (s.recycle p).length = s.index p ∧ 2 ≤ s.free.length
  · have hfull : p ∉ s.full := (hw.nearly hp).not_mem_full
    have hnodup := (List.nodup_append.mp hw.nodup).2.1
    have hlive' : ∀ q, (s.shrink p).Live q ↔ s.Live q ∧ q ≠ p := by
      intro q
      rw [Slab.shrink, if_pos hgive, Slab.Live, Slab.Live, hnodup.mem_erase_iff]
      constructor
      · rintro (hq | ⟨hqp, hq⟩)
        · exact ⟨.inl hq, fun e => hfull (e ▸ hq)⟩
        · exact ⟨.inr hq, hqp⟩
      · rintro ⟨hq | hq, hqp⟩
        · exact .inl hq
        · exact .inr ⟨hqp, hq⟩
    have hdel := family_listDel h.lists .null (stock_mem_nodesOf_free.mpr hp)
      fun _ => stock_not_head
    obtain ⟨xs, hset, hxs⟩ := h.tree
    obtain ⟨t, heval, hset'⟩ := hset.removed ((hxs p).mpr hlive) (Nat.lt_succ_self _)
    have hheap : ∃ b ∈ a.heap, b.1 = p := ⟨(p, g.stockSize), (h.heap _).mpr ⟨hlive, rfl⟩, rfl⟩
    refine ⟨{ a with
        onrbt := t
        links := listDel .null (.stock p) a.links
        heap := a.heap.filter fun b => b.1 ≠ p }, ?_, ?_⟩
    · rw [stockRelease, if_pos (hcond.mpr hgive)]
      simp only [heval, followed]
      exact if_pos hheap
    · refine ⟨h.slot, hdel.of_eq fun k => ?_, ⟨_, hset', fun q => ?_⟩, fun b => ?_, fun q hq => ?_,
        fun q r hq hr => ?_, fun q hq => ?_⟩
      · rw [Slab.shrink, if_pos hgive]
        cases k with
        | full => simp [nodesOf, erase_map_stock, List.erase_of_not_mem hfull]
        | free => simp [nodesOf, erase_map_stock]
      · rw [hset.nodup.mem_erase_iff, hxs, hlive', and_comm]
      · rw [List.mem_filter, h.heap, hlive']
        simp only [decide_eq_true_eq]
        tauto
      · exact h.place q ((hlive' q).mp hq).1
      · exact h.apart q r ((hlive' q).mp hq).1 ((hlive' r).mp hr).1
      · obtain ⟨h1, h2, h3, h4⟩ := h.stock q ((hlive' q).mp hq).1
        rw [Slab.shrink, if_pos hgive]
        exact ⟨h1, h2, h3, h4⟩
  · refine ⟨a, ?_, ?_⟩
    · rw [stockRelease, if_neg fun hc => hgive (hcond.mp hc)]
    · rw [Slab.shrink, if_neg hgive]
      exact h

end Blocks

/-! ## The two functions -/

section Functions

variable {g : Geometry} {a : Arena} {s : Slab ℕ} {p : ℕ}

/-- The first stock of the list of those with free chunks. -/
lemma Represents.first (h : Represents g a s) {ps : List ℕ} (hfree : s.free = p :: ps) :
    entry (a.links.next (.freeHead 0)) = .ok p := by
  have hseg := (h.lists.ring .free).seg
  simp only [nodesOf, head, hfree, List.map_cons] at hseg
  rw [hseg.1]
  rfl

/-- **`chunk_alloc`** when the list has a stock with free chunks. -/
lemma Represents.take (h : Represents g a s) (hw : s.Wf g.count) {ps : List ℕ}
    (hfree : s.free = p :: ps) {block : Option ℕ} :
    ∃ a', chunkAlloc 0 block a = .ok (some (g.chunk p (s.take g.count p).1), a') ∧
      Represents g a' (s.take g.count p).2 := by
  have hp : p ∈ s.free := by simp [hfree]
  have hempty := h.listEmpty
  rw [decide_eq_false (by simp [hfree])] at hempty
  obtain ⟨a', htake, hrep⟩ := h.pop hw hp
  refine ⟨stockClose 0 p a', ?_, hrep.close (hw.pop hp)⟩
  rw [chunkAlloc, hempty]
  simp only [Bool.false_eq_true, if_false, pure_bind, if_true, h.first hfree]
  change (chunkTake 0 p a >>= _) = _
  rw [htake]
  rfl

/-- **`chunk_alloc`** when it needs a new stock. -/
lemma Represents.take_grow (h : Represents g a s) (hw : s.Wf g.count) (hfree : s.free = [])
    (hgrant : Grant g.stockSize a.heap p) :
    ∃ a', chunkAlloc 0 (some p) a =
        .ok (some (g.chunk p ((s.grow p).take g.count p).1), a') ∧
      Represents g a' ((s.grow p).take g.count p).2 := by
  have hempty := h.listEmpty
  rw [decide_eq_true hfree] at hempty
  have hw' := hw.grow g.count_pos (h.not_live hgrant)
  have hfree' : (s.grow p).free = p :: s.free := rfl
  obtain ⟨a₁, halloc, hrep₁⟩ := h.grow hfree hgrant
  have hmem : p ∈ (s.grow p).free := by simp [hfree']
  obtain ⟨a₂, htake, hrep₂⟩ := hrep₁.pop hw' hmem
  refine ⟨stockClose 0 p a₂, ?_, hrep₂.close (hw'.pop hmem)⟩
  rw [chunkAlloc, hempty]
  simp only [if_true, halloc]
  change (entry (a₁.links.next (.freeHead 0)) >>= _) = _
  rw [hrep₁.first hfree']
  change (chunkTake 0 p a₁ >>= _) = _
  rw [htake]
  rfl

/-- `chunk_alloc` returns null when it needs a new stock and gets none. -/
lemma Represents.take_none (h : Represents g a s) (hfree : s.free = []) :
    chunkAlloc 0 none a = .ok (none, a) := by
  have hempty := h.listEmpty
  rw [decide_eq_true hfree] at hempty
  rw [chunkAlloc, stockAlloc, hempty]
  rfl

/-- **`chunk_free`** of a chunk in use. -/
lemma Represents.put (h : Represents g a s) (hw : s.Wf g.count) {j : ℕ} (hj : s.Held p j) :
    ∃ a', chunkFree (g.chunk p j) a = .ok a' ∧ Represents g a' (s.put g.count p j) := by
  have hlt : j < g.count := lt_of_lt_of_le hj.2.1 (hw.fits p hj.1).index_le
  have hopen := hw.reopen hj.1
  have hheld : (s.reopen g.count p).Held p j :=
    (Slab.held_congr (Slab.live_reopen hj.1) (by simp) (by simp)).mpr hj
  have hpush := (h.reopen hw hj.1).push hopen hheld
  obtain ⟨a', hrelease, hrep⟩ := hpush.shrink (hopen.push hheld).1 hopen.mem
  refine ⟨a', ?_, hrep⟩
  rw [chunkFree, h.findStock hj.1 hlt]
  exact hrelease

end Functions

end LinuxC.MemPool
