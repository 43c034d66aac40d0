import LinuxC.MemPool.Cleanup

/-!
# The unused stock of a cache

`chunk_free` gives a stock back to the system when all its chunks have come back and the list of the
stocks with free chunks has another one (`head->next->next`).  So a slot keeps at most one stock
that is unused, and what it gives back has no chunk in use and is in no list and not in the tree
(`spare_stock`).

This needs a stock that has room for its chunks: `stock_slot_init` does not check the size that it
computes, and when that wraps, a chunk may lie in another stock, which then counts it as its own
(`released_in_use`).  A slot with more chunks than an `int` can count never exhausts its first
stock, and has no second one (`Lone`).
-/

namespace LinuxC.MemPool

open Arena

/-! ## The property -/

/-- All chunks that the stock handed out have come back. -/
def Unused (a : Arena) (p : ℕ) : Prop := (a.stock p).recycnt = (a.stock p).index

/-- **At most one stock of the slot is unused.** -/
def OneUnused (a : Arena) : Prop :=
  ∀ b ∈ a.heap, ∀ c ∈ a.heap, Unused a b.1 → Unused a c.1 → b.1 = c.1

/-- The stock `p` of `w` is gone in `w'`. -/
structure Dropped (w w' : World) (p : ℕ) : Prop where
  /-- No chunk that it handed out is in use. -/
  chunks : ∀ j : ℕ, (j : ℤ) < (w.arena.stock p).index →
    (start p + j * (w.arena.slot 0).chunkSize) % word ∉ w'.held
  lists : ∃ full free : List ℕ, w'.arena.links.Ring (.fullHead 0) (full.map .stock) ∧
    w'.arena.links.Ring (.freeHead 0) (free.map .stock) ∧ p ∉ full ++ free
  tree : ∃ xs, Rb.IsSet stockCompare w'.arena.onrbt xs ∧ p ∉ xs

/-- **What is given back** is gone. -/
def GivesBack (w w' : World) : Prop :=
  ∀ b ∈ w.arena.heap, (∀ c ∈ w'.arena.heap, c.1 ≠ b.1) → Dropped w w' b.1

/-- The stocks have room for their chunks, or more chunks than an `int` counts and none of its
negative values as a `size_t` is their number. -/
def Countable (chunkCount chunkSize : ℕ) : Prop :=
  chunkCount < 2 ^ 31 ∧ chunkCount * roundChunk chunkSize + sizeofMemStock < word ∨
    2 ^ 31 ≤ chunkCount ∧ chunkCount < 2 ^ 64 - 2 ^ 31

/-! ## Stocks with room -/

section Room

variable {g : Geometry} {w w' : World} {s s' : Slab ℕ} {p : ℕ}

lemma Invariant.unused (h : Invariant g w s) (hp : s.Live p) :
    Unused w.arena p ↔ s.Unused p := by
  have hst := h.rep.stock p hp
  rw [Unused, hst.recycnt, hst.index, Nat.cast_inj]
  rfl

lemma Invariant.oneUnused (h : Invariant g w s) (hs : s.Thrifty) : OneUnused w.arena := by
  intro b hb c hc hallb hallc
  have hb := ((h.rep.heap b).mp hb).1
  have hc := ((h.rep.heap c).mp hc).1
  exact hs b.1 c.1 hb hc ((h.unused hb).mp hallb) ((h.unused hc).mp hallc)

/-- **A stock that is given back.** -/
lemma Invariant.givesBack (h : Invariant g w s) (h' : Invariant g w' s')
    (hslab : s.Step g.count s') : GivesBack w w' := by
  rintro ⟨p, n⟩ hb hgone
  have hp := ((h.rep.heap (p, n)).mp hb).1
  have hout : ¬ s'.Live p := fun hlive =>
    hgone (p, g.stockSize) ((h'.rep.heap _).mpr ⟨hlive, rfl⟩) rfl
  refine ⟨fun j hj hmem => ?_, ⟨s'.full, s'.free, h'.rep.lists.ring .full, h'.rep.lists.ring .free,
    fun hlist => hout (List.mem_append.mp hlist)⟩, ?_⟩
  · rw [(h.rep.stock p hp).index, Nat.cast_lt] at hj
    have hcount : j < g.count := lt_of_lt_of_le hj (h.wf.fits p hp).index_le
    have hchunk : (start p + j * (w.arena.slot 0).chunkSize) % word = g.chunk p j := by
      rw [(h.rep.place p hp).start_eq, h.slot_size]
      exact Nat.mod_eq_of_lt ((h.rep.place p hp).chunk_lt hcount)
    rw [hchunk] at hmem
    obtain ⟨q, i, hq, heq⟩ := (h'.held _).mp hmem
    -- the stock of the chunk that is in use was there before
    have hlive := hslab.live_of_gone h.wf g.count_pos hp hout hq.1
    have hi : i < g.count := lt_of_lt_of_le hq.2.1 (h'.wf.fits q hq.1).index_le
    obtain ⟨rfl, -⟩ := g.chunk_inj (h.rep.apart p q hp hlive) hcount hi heq
    exact hout hq.1
  · obtain ⟨xs, hset, hxs⟩ := h'.rep.tree
    exact ⟨xs, hset, fun hmem => hout ((hxs p).mp hmem)⟩

lemma thrifty_noStocks (p : ℕ) : (noStocks.grow p).Thrifty := by
  have honly : ∀ q, (noStocks.grow p).Live q → q = p := fun q hq =>
    (Slab.live_grow.mp hq).resolve_right (not_live_noStocks q)
  intro q r hq hr _ _
  exact (honly q hq).trans (honly r hr).symm

end Room

/-! ## The size of the chunks -/

section Round

variable {chunkCount chunkSize : ℕ}

lemma roundChunk_dvd (chunkSize : ℕ) : align ∣ roundChunk chunkSize := by
  unfold roundChunk align sizeofMemChunk word
  dsimp only
  split_ifs <;> omega

lemma le_roundChunk (chunkSize : ℕ) : sizeofMemChunk ≤ roundChunk chunkSize := by
  unfold roundChunk
  dsimp only
  split_ifs <;> omega

lemma roundUp_roundChunk (chunkSize : ℕ) :
    roundUp (roundChunk chunkSize) = roundChunk chunkSize := by
  have hdvd := roundChunk_dvd chunkSize
  have hle := le_roundChunk chunkSize
  unfold roundUp
  unfold align sizeofMemChunk at *
  omega

lemma roundChunk_idem (chunkSize : ℕ) :
    roundChunk (roundChunk chunkSize) = roundChunk chunkSize := by
  have hdvd := roundChunk_dvd chunkSize
  have hle := le_roundChunk chunkSize
  rw [roundChunk, if_neg (not_not_intro (Nat.mod_eq_zero_of_dvd hdvd)), if_neg (by omega)]

lemma create_roundChunk (threadsafe : Bool) (env : CreateEnv) (a : Arena) :
    create chunkCount (roundChunk chunkSize) threadsafe env a =
      create chunkCount chunkSize threadsafe env a := by
  simp only [create, memCacheCreate, stockSlotInit, roundChunk_idem]

end Round

/-! ## A slot with one stock -/

/-- The numbers of the only stock: it has no chunks, or it cannot be exhausted. -/
def NeverFull (w : World) (p : ℕ) : Prop :=
  (w.arena.slot 0).chunkCount = 0 ∧ (w.arena.stock p).index = 0 ∧
      (w.arena.stock p).recycle = 0 ∧ w.held = [] ∨
    2 ^ 31 ≤ (w.arena.slot 0).chunkCount ∧ (w.arena.slot 0).chunkCount < 2 ^ 64 - 2 ^ 31 ∧
      -2 ^ 31 ≤ (w.arena.stock p).index ∧ (w.arena.stock p).index < 2 ^ 31

/-- **The slot has one stock**, and no step brings a second one. -/
structure Lone (b : ℕ × ℕ) (w : World) : Prop where
  heap : w.arena.heap = [b]
  full : w.arena.links.Ring (.fullHead 0) []
  free : w.arena.links.Ring (.freeHead 0) [.stock b.1]
  tree : Rb.IsSet stockCompare w.arena.onrbt [b.1]
  slot : (w.arena.stock b.1).slot = 0
  numbers : NeverFull w b.1

section Lone

variable {w w' : World} {b : ℕ × ℕ} {a : Arena} {p : ℕ}

lemma Lone.next (h : Lone b w) : w.arena.links.next (.freeHead 0) = .stock b.1 ∧
    w.arena.links.next (.stock b.1) = .freeHead 0 :=
  ⟨h.free.seg.1, h.free.seg.2.2.1⟩

lemma sizeT_ne {i : ℤ} {n : ℕ} (hlow : -2 ^ 31 ≤ i) (hhigh : i < 2 ^ 31) (hn : 2 ^ 31 ≤ n)
    (hn' : n < 2 ^ 64 - 2 ^ 31) : sizeT i ≠ n := by
  unfold sizeT
  omega

lemma intAdd_range (i j : ℤ) : -2 ^ 31 ≤ intAdd i j ∧ intAdd i j < 2 ^ 31 := by
  unfold intAdd
  have hlow := Int.le_bmod (x := i + j) (m := 2 ^ 32) (by decide)
  have hhigh := Int.bmod_lt (x := i + j) (m := 2 ^ 32) (by decide)
  omega

/-- Other numbers in the header of the stock, and other bytes. -/
lemma Lone.restock (h : Lone b w) (m : Mem) (held given : List ℕ) {f : MemStock}
    (hslot : f.slot = 0) (hlarge : 2 ^ 31 ≤ (w.arena.slot 0).chunkCount ∧
      (w.arena.slot 0).chunkCount < 2 ^ 64 - 2 ^ 31)
    (hindex : -2 ^ 31 ≤ f.index ∧ f.index < 2 ^ 31) :
    Lone b ⟨{ w.arena with stock := Function.update w.arena.stock b.1 f, mem := m },
      held, given⟩ where
  heap := h.heap
  full := h.full
  free := h.free
  tree := h.tree
  slot := by simpa only [Function.update_self] using hslot
  numbers := .inr ⟨hlarge.1, hlarge.2, by simpa only [Function.update_self] using hindex⟩

lemma Lone.not_exhausted (h : Lone b w) (hlarge : 2 ^ 31 ≤ (w.arena.slot 0).chunkCount ∧
      (w.arena.slot 0).chunkCount < 2 ^ 64 - 2 ^ 31)
    (hindex : -2 ^ 31 ≤ (w.arena.stock b.1).index ∧ (w.arena.stock b.1).index < 2 ^ 31) :
    stockExhausted w.arena b.1 = false := by
  rw [stockExhausted, h.slot]
  exact decide_eq_false fun hex => sizeT_ne hindex.1 hindex.2 hlarge.1 hlarge.2 hex.1

/-- A chunk of the stock leaves it in its list. -/
lemma Lone.take (h : Lone b w) (hlarge : 2 ^ 31 ≤ (w.arena.slot 0).chunkCount ∧
      (w.arena.slot 0).chunkCount < 2 ^ 64 - 2 ^ 31) {f : MemStock} {c : ℕ}
    (htake : chunkTake 0 b.1 w.arena = .ok (c, { w.arena with
      stock := Function.update w.arena.stock b.1 f, mem := w.arena.mem }))
    (hslot : f.slot = 0) (hindex : -2 ^ 31 ≤ f.index ∧ f.index < 2 ^ 31) :
    ∃ c' a, (chunkTake 0 b.1 w.arena >>= fun r => .ok (some r.1, stockClose 0 b.1 r.2)) =
      .ok (some c', a) ∧ Lone b ⟨a, c' :: w.held, c' :: w.given⟩ := by
  have hlone := h.restock w.arena.mem (c :: w.held) (c :: w.given) hslot hlarge hindex
  have hex := hlone.not_exhausted hlarge (by simpa only [Function.update_self] using hindex)
  refine ⟨c, _, ?_, hlone⟩
  rw [htake]
  refine congrArg (fun a => Except.ok (some c, a)) ?_
  dsimp only at hex ⊢
  rw [stockClose, hex]
  rfl

/-- **`mem_cache_alloc`** takes a chunk of the stock, or ends the program. -/
lemma Lone.alloc (h : Lone b w) (block : Option ℕ) :
    (∃ cause, memCacheAlloc block w.arena = .error cause) ∨
      ∃ c a, memCacheAlloc block w.arena = .ok (some c, a) ∧
        Lone b ⟨a, c :: w.held, c :: w.given⟩ := by
  obtain ⟨hnext, -⟩ := h.next
  have hempty : listEmpty (.freeHead 0) w.arena.links = false :=
    decide_eq_false (by rw [hnext]; simp)
  have hserve : memCacheAlloc block w.arena = chunkTake 0 b.1 w.arena >>= fun r =>
      .ok (some r.1, stockClose 0 b.1 r.2) := by
    rw [memCacheAlloc, chunkAlloc_of_stock hempty, chunkServe, hnext]
    rfl
  rw [hserve]
  rcases h.numbers with ⟨hnone, hindex, hrec, hheld⟩ | ⟨hlow, hhigh, hindex⟩
  · refine .inl ⟨.outOfChunks, ?_⟩
    have hsize : sizeT (w.arena.stock b.1).index = 0 := by rw [hindex]; rfl
    rw [chunkTake, if_neg (not_not_intro hrec), if_neg (by rw [hsize, hnone]; exact lt_irrefl 0)]
    rfl
  · by_cases hrec : (w.arena.stock b.1).recycle ≠ 0
    · exact .inr (h.take ⟨hlow, hhigh⟩ (chunkTake_recycle hrec) h.slot hindex)
    · by_cases hless : sizeT (w.arena.stock b.1).index < (w.arena.slot 0).chunkCount
      · exact .inr (h.take ⟨hlow, hhigh⟩ (chunkTake_next (not_not.mp hrec) hless) h.slot
          (intAdd_range _ _))
      · refine .inl ⟨.outOfChunks, ?_⟩
        rw [chunkTake, if_neg hrec, if_neg hless]
        rfl

/-- **`mem_cache_free`** finds the stock, or ends the program. -/
lemma Lone.free_chunk (h : Lone b w) (hheld : w.held ≠ []) (c : ℕ) (held : List ℕ) :
    (∃ cause, memCacheFree c w.arena = .error cause) ∨
      ∃ a, memCacheFree c w.arena = .ok a ∧ Lone b { w with arena := a, held := held } := by
  obtain ⟨hnext, hback⟩ := h.next
  rcases h.numbers with ⟨-, -, -, hnil⟩ | ⟨hlow, hhigh, hindex⟩
  · exact absurd hnil hheld
  · have hcons : Rb.ConsistentOn stockCompare (stockSearch w.arena) c [b.1] := by
      refine ⟨fun p hp q hq hlt => ?_, fun p hp q hq hlt => ?_⟩
      all_goals
        rw [List.mem_singleton] at hp hq
        rw [hp, hq, stockCompare_lt] at hlt
        exact absurd hlt (lt_irrefl _)
    obtain ⟨r, heval, hr⟩ := h.tree.search_on hcons (Nat.lt_succ_self _)
    have hfind : findStock c w.arena = .ok r := by
      rw [findStock, heval]
      rfl
    cases r with
    | none =>
        refine .inl ⟨.noStock, ?_⟩
        rw [memCacheFree, chunkFree, hfind]
        rfl
    | some p =>
        obtain rfl : p = b.1 := List.mem_singleton.mp ((hr p).mp rfl).1
        right
        have hopen : stockReopen b.1 w.arena = w.arena := by
          rw [stockReopen, h.not_exhausted ⟨hlow, hhigh⟩ hindex]
          rfl
        have hput : chunkPut b.1 c w.arena = { w.arena with
            stock := Function.update w.arena.stock b.1 { w.arena.stock b.1 with
              recycle := c, recycnt := intAdd (w.arena.stock b.1).recycnt 1 },
            mem := w.arena.mem.write c (toLE 8 (w.arena.stock b.1).recycle) } := by
          simp [chunkPut, setStock, setNext]
        have hlone := h.restock (w.arena.mem.write c (toLE 8 (w.arena.stock b.1).recycle)) held
          w.given (f := { w.arena.stock b.1 with
            recycle := c, recycnt := intAdd (w.arena.stock b.1).recycnt 1 })
          h.slot ⟨hlow, hhigh⟩ hindex
        refine ⟨_, ?_, hlone⟩
        rw [memCacheFree, chunkFree, hfind]
        change stockRelease b.1 (chunkPut b.1 c (stockReopen b.1 w.arena)) = _
        rw [hopen, hput, stockRelease]
        refine if_neg fun hgive => hgive.2 ?_
        dsimp only
        rw [Function.update_self, h.slot, hnext, hback]

/-- **One step** keeps the stock and brings no other. -/
lemma Lone.step (h : Lone b w) {l : Label} {es : List Event}
    (hstep : step w l = some (w', es)) : Lone b w' := by
  cases l with
  | alloc block =>
      rw [MemPool.step] at hstep
      split_ifs at hstep
      rcases h.alloc block with ⟨cause, heval⟩ | ⟨c, a, heval, hlone⟩
      all_goals
        rw [heval] at hstep
        obtain ⟨rfl, rfl⟩ := Prod.mk.inj (Option.some.inj hstep)
        assumption
  | free c =>
      rw [MemPool.step] at hstep
      split_ifs at hstep with hc
      have hheld : w.held ≠ [] := List.ne_nil_of_mem hc
      rcases h.free_chunk hheld c (w.held.erase c) with ⟨cause, heval⟩ | ⟨a, heval, hlone⟩
      all_goals
        rw [heval] at hstep
        obtain ⟨rfl, rfl⟩ := Prod.mk.inj (Option.some.inj hstep)
        assumption
  | write c offset bytes =>
      rw [MemPool.step] at hstep
      split_ifs at hstep with hc
      obtain ⟨rfl, rfl⟩ := Prod.mk.inj (Option.some.inj hstep)
      exact ⟨h.heap, h.full, h.free, h.tree, h.slot, h.numbers⟩

lemma Lone.oneUnused (h : Lone b w) : OneUnused w.arena := by
  intro c hc d hd _ _
  rw [h.heap, List.mem_singleton] at hc hd
  rw [hc, hd]

lemma Lone.givesBack (h : Lone b w) (h' : Lone b w') : GivesBack w w' := by
  intro c hc hgone
  rw [h.heap, List.mem_singleton] at hc
  have hb : b ∈ w'.arena.heap := by
    rw [h'.heap]
    exact List.mem_singleton_self b
  exact absurd (congrArg Prod.fst hc.symm) (hgone b hb)

/-- The two lists of a slot with its first stock. -/
lemma ring_slotLinks (n p : ℕ) (l : Links ListNode) :
    (slotLinks n p l).Ring (.fullHead n) [] ∧ (slotLinks n p l).Ring (.freeHead n) [.stock p] := by
  refine ⟨Links.ring_nil ?_ ?_, ⟨?_, by simp⟩⟩
  all_goals
    simp [slotLinks, listAdd, listAddBetween, initListHead, Links.setNext, Links.setPrev, Links.Seg]

/-- **A new cache** with such a number of chunks. -/
lemma create_lone {chunkCount chunkSize : ℕ} {threadsafe : Bool} {env : CreateEnv}
    (hcount : chunkCount = 0 ∨ 2 ^ 31 ≤ chunkCount ∧ chunkCount < 2 ^ 64 - 2 ^ 31)
    (h : create chunkCount chunkSize threadsafe env a = some w) : ∃ b, Lone b w := by
  obtain ⟨p, a₁, -, -, hinit, rfl⟩ := create_some h
  obtain ⟨t, htree, hsome⟩ := stockSlotInit_some (a := { a with
    onrbt := { a.onrbt with root := none, rbCount := 0 }, heap := [] })
    (Rb.isSet_init stockCompare a.onrbt.node) 0 p chunkCount chunkSize
  obtain ⟨-, rfl⟩ := Prod.mk.inj (Except.ok.inj (hinit.symm.trans hsome))
  obtain ⟨hfull, hfree⟩ := ring_slotLinks 0 p a.links
  refine ⟨(p, stockSizeOf chunkCount chunkSize), rfl, hfull, hfree, htree, ?_, ?_⟩
  · simp only [Function.update_self]
  · unfold NeverFull
    simp only [Function.update_self]
    exact hcount.imp (fun hnone => ⟨hnone, trivial, trivial, trivial⟩)
      fun hlarge => ⟨hlarge.1, hlarge.2, by decide, by decide⟩

end Lone

/-! ## Every run -/

/-- **The invariant of a run.** -/
def Kept (w : World) : Prop :=
  (∃ g s, Invariant g w s ∧ s.Thrifty) ∨ ∃ b, Lone b w

lemma create_kept {chunkCount chunkSize : ℕ} (hcount : Countable chunkCount chunkSize)
    {threadsafe : Bool} {env : CreateEnv} {a : Arena} {w : World}
    (h : create chunkCount chunkSize threadsafe env a = some w) : Kept w := by
  by_cases hone : 1 ≤ chunkCount
  · rcases hcount with ⟨hint, hroom⟩ | hlarge
    · have hroom' : Room chunkCount (roundChunk chunkSize) := by
        refine ⟨hint, ?_⟩
        rwa [roundUp_roundChunk]
      rw [← create_roundChunk] at h
      obtain ⟨p, hinv⟩ := create_invariant hone hroom' h
      exact .inl ⟨_, _, hinv, thrifty_noStocks p⟩
    · exact .inr (create_lone (.inr hlarge) h)
  · exact .inr (create_lone (.inl (by omega)) h)

/-- **One step** keeps the invariant, and what it gives back is gone. -/
lemma Kept.step {w w' : World} (h : Kept w) {l : Label} {es : List Event}
    (hstep : step w l = some (w', es)) : Kept w' ∧ GivesBack w w' := by
  rcases h with ⟨g, s, hinv, hs⟩ | ⟨b, hlone⟩
  · obtain ⟨⟨s', hslab, hinv'⟩, -⟩ := hinv.step hstep
    exact ⟨.inl ⟨g, s', hinv', hslab.thrifty hinv.wf g.count_pos hs⟩, hinv.givesBack hinv' hslab⟩
  · have hlone' := hlone.step hstep
    exact ⟨.inr ⟨b, hlone'⟩, hlone.givesBack hlone'⟩

/-- **The unused stock.**  When the numbers suffice, in every state that the user of a new cache
reaches at most one stock is unused, and a stock that the next step gives back has no chunk in use
and is in no list and not in the tree. -/
theorem spare_stock {chunkCount chunkSize : ℕ} (hcount : Countable chunkCount chunkSize)
    {threadsafe : Bool} {env : CreateEnv} {a : Arena} {w₀ w : World} {ls : List Label}
    {es : List Event} (hcreate : create chunkCount chunkSize threadsafe env a = some w₀)
    (hrun : run step ls w₀ = some (w, es)) :
    OneUnused w.arena ∧ ∀ l w' es', step w l = some (w', es') → GivesBack w w' := by
  have halong : Along step (fun _ _ => True) ls w₀ := along_of_forall (fun _ _ => trivial) w₀
  have hkept : Kept w :=
    run_invariant (fun h _ hstep => (h.step hstep).1) (create_kept hcount hcreate) halong hrun
  refine ⟨?_, fun l w' es' hstep => (hkept.step hstep).2⟩
  rcases hkept with ⟨g, s, hinv, hs⟩ | ⟨b, hlone⟩
  · exact hinv.oneUnused hs
  · exact hlone.oneUnused

/-- The stock that was unused second is given back, and with it the chunk `8264`. -/
theorem spare_stock_sample : ∃ w₀ w w', create 1 5 true ⟨true, some 4096, true⟩ blank = some w₀ ∧
    run step [.alloc none, .alloc (some 8192), .free 4168] w₀ =
      some (w, [.allocated (some 4168), .allocated (some 8264), .freed 4168]) ∧
    step w (.free 8264) = some (w', [.freed 8264]) ∧
    w.arena.heap = [(8192, 80), (4096, 80)] ∧ w'.arena.heap = [(4096, 80)] ∧
    OneUnused w.arena ∧ Dropped w w' 8192 := by
  have heval : ((create 1 5 true ⟨true, some 4096, true⟩ blank).bind fun w₀ =>
      (run step [.alloc none, .alloc (some 8192), .free 4168] w₀).bind fun r =>
        (step r.1 (.free 8264)).map fun r' => (r.2, r'.2, r.1.arena.heap, r'.1.arena.heap)) =
      some ([.allocated (some 4168), .allocated (some 8264), .freed 4168], [.freed 8264],
        [(8192, 80), (4096, 80)], [(4096, 80)]) := by
    decide +kernel
  obtain ⟨w₀, hcreate, hbind⟩ := Option.bind_eq_some_iff.mp heval
  obtain ⟨⟨w, es⟩, hrun, hmap⟩ := Option.bind_eq_some_iff.mp hbind
  obtain ⟨⟨w', es'⟩, hstep, he⟩ := Option.map_eq_some_iff.mp hmap
  obtain ⟨rfl, he⟩ := Prod.mk.inj he
  obtain ⟨rfl, he⟩ := Prod.mk.inj he
  obtain ⟨hheap, hheap'⟩ := Prod.mk.inj he
  have hcount : Countable 1 5 := .inl (by decide)
  obtain ⟨hone, hback⟩ := spare_stock hcount hcreate hrun
  have hheap : w.arena.heap = [(8192, 80), (4096, 80)] := hheap
  have hheap' : w'.arena.heap = [(4096, 80)] := hheap'
  refine ⟨w₀, w, w', hcreate, hrun, hstep, hheap, hheap', hone,
    hback _ w' _ hstep (8192, 80) ?_ ?_⟩
  · rw [hheap]
    decide
  · rw [hheap']
    decide

/-! ## A stock that takes over a chunk of another one -/

section Overrun

/-- A cache for `2 ^ 18` chunks of `2 ^ 46 + 8` bytes.  The size of a stock wraps to `2 ^ 21 + 72`,
so that every chunk but the first lies behind its stock. -/
def overrun : Option World := create (2 ^ 18) (2 ^ 46 + 8) false ⟨true, some (2 ^ 24), true⟩ blank

/-- The chunk `j` of the first stock. -/
def overrunChunk (j : ℕ) : ℕ := (start (2 ^ 24) + j * (2 ^ 46 + 8)) % word

/-- The arena when the first stock has handed out `k` chunks. -/
def overrunArena (k : ℕ) : Arena :=
  let a := overrun.elim blank World.arena
  { a with stock := Function.update a.stock (2 ^ 24) ⟨0, 0, 0, k⟩ }

/-- These chunks. -/
def overrunHeld : ℕ → List ℕ
  | 0 => []
  | k + 1 => overrunChunk k :: overrunHeld k

/-- The user allocates nearly all chunks of the first stock. -/
def overrunWorld (k : ℕ) : World := ⟨overrunArena k, overrunHeld k, overrunHeld k⟩

lemma mem_overrunHeld {j k : ℕ} (h : j < k) : overrunChunk j ∈ overrunHeld k := by
  induction k with
  | zero => omega
  | succ k ih =>
      rcases Nat.lt_succ_iff_lt_or_eq.mp h with hlt | rfl
      · exact List.mem_cons_of_mem _ (ih hlt)
      · exact List.mem_cons_self ..

lemma overrun_eq : overrun = some (overrunWorld 0) := by
  have hsome : overrun.isSome = true := by decide +kernel
  obtain ⟨w, hw⟩ := Option.isSome_iff_exists.mp hsome
  obtain ⟨p, a₁, hblock, -, hinit, rfl⟩ := create_some hw
  obtain rfl : 2 ^ 24 = p := Option.some.inj hblock
  obtain ⟨t, -, heval⟩ := stockSlotInit_some (a := { blank with
    onrbt := { blank.onrbt with root := none, rbCount := 0 }, heap := [] })
    (Rb.isSet_init stockCompare blank.onrbt.node) 0 (2 ^ 24) (2 ^ 18) (2 ^ 46 + 8)
  obtain ⟨-, rfl⟩ := Prod.mk.inj (Except.ok.inj (hinit.symm.trans heval))
  rw [hw]
  unfold overrunWorld overrunArena
  rw [hw]
  simp only [Option.elim, Function.update_idem]
  rfl

lemma overrunArena_stock (k : ℕ) : (overrunArena k).stock (2 ^ 24) = ⟨0, 0, 0, k⟩ := by
  change Function.update (overrun.elim blank World.arena).stock (2 ^ 24)
    (⟨0, 0, 0, k⟩ : MemStock) (2 ^ 24) = _
  exact Function.update_self ..

lemma overrunArena_slot (k : ℕ) :
    ((overrunArena k).slot 0).chunkCount = 2 ^ 18 ∧
      ((overrunArena k).slot 0).chunkSize = 2 ^ 46 + 8 := by
  have heval : ((overrunArena 0).slot 0).chunkCount = 2 ^ 18 ∧
      ((overrunArena 0).slot 0).chunkSize = 2 ^ 46 + 8 := by
    decide +kernel
  exact heval

/-- **A chunk of the first stock**, while it has more. -/
lemma overrunArena_alloc {k : ℕ} (hk : k + 1 < 2 ^ 18) :
    memCacheAlloc none (overrunArena k) = .ok (some (overrunChunk k), overrunArena (k + 1)) := by
  obtain ⟨hcount, hsize⟩ := overrunArena_slot k
  have hstock := overrunArena_stock k
  have hnext : (overrunArena k).links.next (.freeHead 0) = .stock (2 ^ 24) := by
    have heval : (overrunArena 0).links.next (.freeHead 0) = .stock (2 ^ 24) := by decide +kernel
    exact heval
  have hempty : listEmpty (.freeHead 0) (overrunArena k).links = false :=
    decide_eq_false (by rw [hnext]; simp)
  have hindex : sizeT k = k := sizeT_natCast (by unfold word; omega)
  have htake : chunkTake 0 (2 ^ 24) (overrunArena k) =
      .ok (overrunChunk k, overrunArena (k + 1)) := by
    have hless : sizeT ((overrunArena k).stock (2 ^ 24)).index <
        ((overrunArena k).slot 0).chunkCount := by
      rw [hstock, hcount, hindex]
      omega
    rw [chunkTake_next (by rw [hstock]) hless, hstock, hsize, hindex, intAdd_one (by omega)]
    unfold overrunArena
    simp only [Function.update_idem]
    rfl
  have hmore : stockExhausted (overrunArena (k + 1)) (2 ^ 24) = false := by
    have hindex' : sizeT ((k + 1 : ℕ) : ℤ) = k + 1 := sizeT_natCast (by unfold word; omega)
    apply decide_eq_false
    intro hex
    rw [overrunArena_stock, (overrunArena_slot (k + 1)).1, hindex'] at hex
    omega
  rw [memCacheAlloc, chunkAlloc_of_stock hempty, chunkServe, hnext]
  change (chunkTake 0 (2 ^ 24) (overrunArena k) >>= fun r =>
    Except.ok (some r.1, stockClose 0 (2 ^ 24) r.2)) = _
  rw [htake]
  change Except.ok (some (overrunChunk k), stockClose 0 (2 ^ 24) (overrunArena (k + 1))) = _
  rw [stockClose, hmore]
  rfl

/-- **Nearly all chunks** of the first stock. -/
lemma run_overrunWorld {n k : ℕ} (hk : k + n < 2 ^ 18) :
    ∃ es, run step (List.replicate n (.alloc none)) (overrunWorld k) =
      some (overrunWorld (k + n), es) := by
  induction n generalizing k with
  | zero => exact ⟨[], rfl⟩
  | succ n ih =>
      have hstep : step (overrunWorld k) (.alloc none) =
          some (overrunWorld (k + 1), [.allocated (some (overrunChunk k))]) := by
        have halloc : memCacheAlloc none (overrunWorld k).arena = _ :=
          overrunArena_alloc (by omega)
        rw [step, if_pos (by simp), halloc]
        rfl
      obtain ⟨es, hrun⟩ := ih (k := k + 1) (by omega)
      rw [show k + 1 + n = k + (n + 1) by omega] at hrun
      exact ⟨_, run_cons.mpr ⟨_, _, es, hstep, hrun, rfl⟩⟩

/-- The block of the second stock. -/
def overrunBlock : ℕ := 2 ^ 46 + 2 ^ 24

/-- The last chunk of the first stock, the first one of the second stock, and the two chunks that
come back. -/
lemma overrun_eval : ∃ a₁ a₂ a₃ a₄,
    memCacheAlloc none (overrunArena (2 ^ 18 - 1)) =
      .ok (some (overrunChunk (2 ^ 18 - 1)), a₁) ∧
    memCacheAlloc (some overrunBlock) a₁ = .ok (some (overrunBlock + 72), a₂) ∧
    memCacheFree (overrunChunk 0) a₂ = .ok a₃ ∧ memCacheFree (overrunChunk 1) a₃ = .ok a₄ ∧
    Grant (a₁.slot 0).stockSize a₁.heap overrunBlock ∧
    a₃.heap = [(overrunBlock, 2 ^ 21 + 72), (2 ^ 24, 2 ^ 21 + 72)] ∧
    (a₃.stock overrunBlock).index = 1 ∧ a₄.heap = [(2 ^ 24, 2 ^ 21 + 72)] := by
  have heval : ((memCacheAlloc none (overrunArena (2 ^ 18 - 1))).toOption.bind fun r₁ =>
      (memCacheAlloc (some overrunBlock) r₁.2).toOption.bind fun r₂ =>
        (memCacheFree (overrunChunk 0) r₂.2).toOption.bind fun a₃ =>
          (memCacheFree (overrunChunk 1) a₃).toOption.map fun a₄ =>
            (([r₁.1, r₂.1], (r₁.2.slot 0).stockSize, (a₃.stock overrunBlock).index),
              [r₁.2.heap, a₃.heap, a₄.heap])) =
      some (([some (overrunChunk (2 ^ 18 - 1)), some (overrunBlock + 72)], 2 ^ 21 + 72, 1),
        [[(2 ^ 24, 2 ^ 21 + 72)], [(overrunBlock, 2 ^ 21 + 72), (2 ^ 24, 2 ^ 21 + 72)],
          [(2 ^ 24, 2 ^ 21 + 72)]]) := by
    decide +kernel
  obtain ⟨⟨c₁, a₁⟩, h₁, heval⟩ := Option.bind_eq_some_iff.mp heval
  obtain ⟨⟨c₂, a₂⟩, h₂, heval⟩ := Option.bind_eq_some_iff.mp heval
  obtain ⟨a₃, h₃, heval⟩ := Option.bind_eq_some_iff.mp heval
  obtain ⟨a₄, h₄, heval⟩ := Option.map_eq_some_iff.mp heval
  simp only [Prod.mk.injEq, List.cons.injEq, and_true] at heval
  obtain ⟨⟨⟨rfl, rfl⟩, hsize, hindex⟩, hheap₁, hheap₃, hheap₄⟩ := heval
  refine ⟨a₁, a₂, a₃, a₄, ok_of_toOption h₁, ok_of_toOption h₂, ok_of_toOption h₃,
    ok_of_toOption h₄, ?_, hheap₃, hindex, hheap₄⟩
  rw [hsize, hheap₁]
  decide

/-- **A stock is given back while its chunk is in use.**  The first stock is exhausted; its chunk `1`
lies in the second stock, and when it comes back, the second stock counts it, is unused by its
numbers, and goes. -/
theorem released_in_use : ∃ w₀ w w' es, overrun = some w₀ ∧
    run step (List.replicate (2 ^ 18) (.alloc none) ++
      [.alloc (some overrunBlock), .free (overrunChunk 0)]) w₀ = some (w, es) ∧
    step w (.free (overrunChunk 1)) = some (w', [.freed (overrunChunk 1)]) ∧
    w.arena.heap = [(overrunBlock, 2 ^ 21 + 72), (2 ^ 24, 2 ^ 21 + 72)] ∧
    w'.arena.heap = [(2 ^ 24, 2 ^ 21 + 72)] ∧ overrunBlock + 72 ∈ w'.held ∧ ¬ GivesBack w w' := by
  obtain ⟨a₁, a₂, a₃, a₄, hlast, hsecond, hfree₀, hfree₁, hgrant, hheap₃, hindex, hheap₄⟩ :=
    overrun_eval
  obtain ⟨es, hmany⟩ := run_overrunWorld (n := 2 ^ 18 - 1) (k := 0) (by decide)
  rw [Nat.zero_add] at hmany
  let held := overrunHeld (2 ^ 18 - 1)
  let c := overrunChunk (2 ^ 18 - 1)
  let d := overrunBlock + 72
  let w₁ : World := ⟨a₁, c :: held, c :: held⟩
  let w₂ : World := ⟨a₂, d :: c :: held, d :: c :: held⟩
  let w₃ : World := ⟨a₃, (d :: c :: held).erase (overrunChunk 0), d :: c :: held⟩
  let w₄ : World := ⟨a₄, w₃.held.erase (overrunChunk 1), d :: c :: held⟩
  have hstep₁ : step (overrunWorld (2 ^ 18 - 1)) (.alloc none) =
      some (w₁, [.allocated (some c)]) := by
    have halloc : memCacheAlloc none (overrunWorld (2 ^ 18 - 1)).arena = _ := hlast
    rw [step, if_pos (by simp), halloc]
    rfl
  have hstep₂ : step w₁ (.alloc (some overrunBlock)) = some (w₂, [.allocated (some d)]) := by
    have halloc : memCacheAlloc (some overrunBlock) w₁.arena = _ := hsecond
    rw [step, if_pos (by simpa using hgrant), halloc]
  have hne : overrunChunk 1 ≠ overrunChunk 0 := by decide
  have hmem₀ : overrunChunk 0 ∈ w₂.held :=
    List.mem_cons_of_mem _ (List.mem_cons_of_mem _ (mem_overrunHeld (by decide)))
  have hstep₃ : step w₂ (.free (overrunChunk 0)) = some (w₃, [.freed (overrunChunk 0)]) := by
    have hfree : memCacheFree (overrunChunk 0) w₂.arena = _ := hfree₀
    rw [step, if_pos hmem₀, hfree]
  have hmem₁ : overrunChunk 1 ∈ w₃.held :=
    (List.mem_erase_of_ne hne).mpr
      (List.mem_cons_of_mem _ (List.mem_cons_of_mem _ (mem_overrunHeld (by decide))))
  have hstep₄ : step w₃ (.free (overrunChunk 1)) = some (w₄, [.freed (overrunChunk 1)]) := by
    have hfree : memCacheFree (overrunChunk 1) w₃.arena = _ := hfree₁
    rw [step, if_pos hmem₁, hfree]
  have hd : d ∈ w₄.held := by
    refine (List.mem_erase_of_ne (by decide)).mpr ((List.mem_erase_of_ne (by decide)).mpr ?_)
    exact List.mem_cons_self ..
  have hrun : run step (List.replicate (2 ^ 18) (.alloc none) ++
      [.alloc (some overrunBlock), .free (overrunChunk 0)]) (overrunWorld 0) =
        some (w₃, es ++ [.allocated (some c), .allocated (some d), .freed (overrunChunk 0)]) := by
    have htail : run step [.alloc none, .alloc (some overrunBlock), .free (overrunChunk 0)]
        (overrunWorld (2 ^ 18 - 1)) =
          some (w₃, [.allocated (some c), .allocated (some d), .freed (overrunChunk 0)]) :=
      run_cons.mpr ⟨w₁, _, _, hstep₁, run_cons.mpr ⟨w₂, _, _, hstep₂,
        run_cons.mpr ⟨w₃, _, _, hstep₃, rfl, rfl⟩, rfl⟩, rfl⟩
    have hsplit : List.replicate (2 ^ 18) (Label.alloc none) =
        List.replicate (2 ^ 18 - 1) (.alloc none) ++ [.alloc none] :=
      List.replicate_succ' (n := 2 ^ 18 - 1)
    rw [hsplit, List.append_assoc]
    exact run_append.mpr ⟨_, es, _, hmany, htail, rfl⟩
  refine ⟨overrunWorld 0, w₃, w₄, _, overrun_eq, hrun, hstep₄, hheap₃, hheap₄, hd, fun hback => ?_⟩
  have hdropped := hback (overrunBlock, 2 ^ 21 + 72) (by rw [hheap₃]; exact List.mem_cons_self ..)
    (by rw [hheap₄]; decide)
  have hchunk := hdropped.chunks 0 (by rw [hindex]; decide)
  rw [Nat.zero_mul, Nat.add_zero] at hchunk
  exact hchunk hd

end Overrun

end LinuxC.MemPool
