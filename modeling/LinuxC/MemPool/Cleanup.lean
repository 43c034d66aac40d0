import LinuxC.MemPool.Pool
import LinuxC.RbTree.OrderedSet

/-!
# A pool that cannot be completed

When `stock_slot_init` fails for a slot, `mem_pool_create` hands the pool to `mem_pool_destroy` as
it is.  The slots up to this one have their list heads (`Failed`); the memory of the later ones is
still zero.  `mem_pool_destroy` goes through all slots of the pool: up to the one that failed it
frees their stocks (`Failed.destroy`), and in the next one it follows a null pointer
(`Failed.destroy_next`).
-/

namespace LinuxC.MemPool

open Arena

/-! ## Frees -/

/-- `free` of one block after the other. -/
def freeAll (ps : List ℕ) (a : Arena) : Except Abort Arena := ps.foldlM (fun a p => free p a) a

section Frees

variable {a : Arena} {ps : List ℕ} {p : ℕ}

lemma freeAll_append (ps qs : List ℕ) (a : Arena) :
    freeAll (ps ++ qs) a = freeAll ps a >>= freeAll qs := by
  unfold freeAll
  rw [List.foldlM_append]

lemma freeAll_singleton : freeAll [p] a = free p a := by
  unfold freeAll
  rw [List.foldlM_cons]
  exact bind_pure (free p a)

lemma free_ok (hp : ∃ b ∈ a.heap, b.1 = p) :
    free p a = .ok { a with heap := a.heap.filter fun b => b.1 ≠ p } := if_pos hp

/-- **Blocks that are allocated**, each of them once, can be freed. -/
lemma freeAll_ok (hnodup : ps.Nodup) (hps : ∀ p ∈ ps, ∃ b ∈ a.heap, b.1 = p) :
    freeAll ps a = .ok { a with heap := a.heap.filter fun b => b.1 ∉ ps } := by
  induction ps generalizing a with
  | nil =>
      have hall : a.heap.filter (fun b => b.1 ∉ ([] : List ℕ)) = a.heap := by simp
      rw [hall]
      rfl
  | cons p ps ih =>
      obtain ⟨hp, hnodup⟩ := List.nodup_cons.mp hnodup
      have hfirst := free_ok (hps p (List.mem_cons_self ..))
      have hrest : ∀ q ∈ ps, ∃ b ∈ a.heap.filter (fun b => b.1 ≠ p), b.1 = q := by
        intro q hq
        obtain ⟨b, hb, rfl⟩ := hps q (List.mem_cons_of_mem _ hq)
        have hne : b.1 ≠ p := fun h => hp (h ▸ hq)
        exact ⟨b, List.mem_filter.mpr ⟨hb, by simpa using hne⟩, rfl⟩
      have hcons : freeAll (p :: ps) a = free p a >>= freeAll ps := List.foldlM_cons ..
      rw [hcons, hfirst]
      refine (ih hnodup hrest).trans ?_
      simp [List.filter_filter, Bool.and_comm]

end Frees

/-! ## The call that fails -/

/-- The first stocks of the first `n` slots. -/
def firstStocks (block : ℕ → Option ℕ) (n : ℕ) : List ℕ := (List.range n).filterMap block

/-- The blocks that belong to the pool when `stock_slot_init` fails for the slot `i`: the stocks,
the lock, the array of the slots and the pool. -/
def poolBlocks (threadsafe : Bool) (env : PoolEnv) (i : ℕ) : List ℕ :=
  firstStocks env.block i ++ (if threadsafe then env.lock.toList else []) ++ env.slots.toList ++
    env.pool.toList

/-- **`stock_slot_init` fails for the slot `i`**, to which the `int` of the loop can count.  What
`malloc`, `calloc` and `posix_memalign` return are new blocks. -/
structure FailsAt (count : ℕ) (threadsafe : Bool) (env : PoolEnv) (a : Arena) (i : ℕ) : Prop where
  pool : env.pool.isSome = true
  slots : env.slots.isSome = true
  room : count * sizeofMemCache < word
  lock : threadsafe = true → env.lock.isSome = true
  lt : i < count
  int : i < 2 ^ 31
  before : ∀ j < i, (env.block j).isSome = true
  fails : env.block i = none
  nodup : (poolBlocks threadsafe env i).Nodup
  fresh : ∀ p ∈ poolBlocks threadsafe env i, p ≠ 0 ∧ ∀ b ∈ a.heap, b.1 ≠ p

/-- **The call cleans up**: it returns a null pointer, and its last memory comes from one with all
blocks of the pool by freeing each of them once.  A list head that is no head, or a block that is
freed a second time, would have ended the program. -/
def CleansUp (start diff count chunkCount : ℕ) (threadsafe : Bool) (env : PoolEnv) (a : Arena)
    (i : ℕ) : Prop :=
  ∃ a₁ a', memPoolCreate start diff count chunkCount threadsafe env a = .ok (none, a') ∧
    (a₁.heap.map Prod.fst).Perm (poolBlocks threadsafe env i ++ a.heap.map Prod.fst) ∧
    freeAll (poolBlocks threadsafe env i) a₁ = .ok a' ∧ a'.heap = a.heap

/-! ## The slots that are set up -/

/-- The links after `stock_slot_init` of the slot `n`, which gets the stock `p`. -/
def slotLinks (n p : ℕ) (l : Links ListNode) : Links ListNode :=
  listAdd (.stock p) (.freeHead n) (initListHead (.stock p)
    (initListHead (.freeHead n) (initListHead (.fullHead n) l)))

lemma next_slotLinks (n p : ℕ) (l : Links ListNode) :
    (slotLinks n p l).next (.fullHead n) = .fullHead n ∧
      (slotLinks n p l).next (.freeHead n) = .stock p ∧
      (slotLinks n p l).next (.stock p) = .freeHead n ∧
      ∀ x, x ≠ .fullHead n → x ≠ .freeHead n → x ≠ .stock p →
        (slotLinks n p l).next x = l.next x := by
  unfold slotLinks listAdd listAddBetween initListHead Links.setNext Links.setPrev
  refine ⟨by simp, by simp, by simp, fun x hfull hfree hstock => ?_⟩
  simp [hfull, hfree, hstock]

/-- The first `n` slots have their heads and their stocks; the heads of the others are zero.  The
blocks `h₀` were allocated before. -/
structure Begun (count : ℕ) (block : ℕ → Option ℕ) (h₀ : List (ℕ × ℕ)) (n : ℕ) (a : Arena) :
    Prop where
  full : ∀ j < n, a.links.next (.fullHead j) = .fullHead j
  free : ∀ j < n, ∀ p, block j = some p →
    a.links.next (.freeHead j) = .stock p ∧ a.links.next (.stock p) = .freeHead j
  zero : ∀ j, n ≤ j → j < count → a.links.next (.fullHead j) = .null
  tree : ∃ xs, Rb.IsSet stockCompare a.onrbt xs ∧ ∀ p ∈ xs, p ∈ firstStocks block n
  heap : ∃ hs, a.heap = hs ++ h₀ ∧ hs.map Prod.fst = (firstStocks block n).reverse

/-- The lists when `stock_slot_init` has failed for the slot `i`: its own are empty, and the heads
behind it are zero. -/
structure Failed (count : ℕ) (block : ℕ → Option ℕ) (i : ℕ) (l : Links ListNode) : Prop where
  full : ∀ j ≤ i, l.next (.fullHead j) = .fullHead j
  free : ∀ j < i, ∀ p, block j = some p →
    l.next (.freeHead j) = .stock p ∧ l.next (.stock p) = .freeHead j
  last : l.next (.freeHead i) = .freeHead i
  zero : ∀ j, i < j → j < count → l.next (.fullHead j) = .null

section Loop

variable {count i n p : ℕ} {block : ℕ → Option ℕ} {h₀ : List (ℕ × ℕ)} {a : Arena}

lemma firstStocks_succ (hn : block n = some p) :
    firstStocks block (n + 1) = firstStocks block n ++ [p] := by
  simp [firstStocks, List.range_succ, hn]

lemma mem_firstStocks {j q : ℕ} (hj : j < n) (hq : block j = some q) : q ∈ firstStocks block n :=
  List.mem_filterMap.mpr ⟨j, List.mem_range.mpr hj, hq⟩

/-- The size of the stocks of a slot, as `stock_slot_init` computes it. -/
def stockSizeOf (chunkCount chunkSize : ℕ) : ℕ :=
  (chunkCount * roundChunk chunkSize + sizeofMemStock) % word

/-- **`stock_slot_init`** with memory for the first stock. -/
lemma stockSlotInit_some {xs : List ℕ} (hset : Rb.IsSet stockCompare a.onrbt xs)
    (n p chunkCount chunkSize : ℕ) :
    ∃ t, Rb.IsSet stockCompare t (insertOrd stockCompare p xs) ∧
      stockSlotInit n chunkCount chunkSize (some p) a = .ok (true, { a with
        slot := Function.update a.slot n
          ⟨roundChunk chunkSize, chunkCount, stockSizeOf chunkCount chunkSize⟩
        onrbt := t
        stock := Function.update a.stock p ⟨n, 0, 0, 0⟩
        links := slotLinks n p a.links
        heap := (p, stockSizeOf chunkCount chunkSize) :: a.heap }) := by
  have hempty : listEmpty (.freeHead n)
      (initListHead (.freeHead n) (initListHead (.fullHead n) a.links)) = true := by
    simp [listEmpty, initListHead, Links.setNext, Links.setPrev]
  let a₁ : Arena := { a with
    slot := Function.update a.slot n
      ⟨roundChunk chunkSize, chunkCount, stockSizeOf chunkCount chunkSize⟩
    links := initListHead (.freeHead n) (initListHead (.fullHead n) a.links) }
  have hset₁ : Rb.IsSet stockCompare a₁.onrbt _ := hset
  obtain ⟨t, hset', hstock⟩ := stockAlloc_some hset₁ hempty p
  refine ⟨t, hset', ?_⟩
  simp only [a₁, Function.update_self] at hstock
  exact bind_eq_ok.mpr ⟨_, hstock, rfl⟩

/-- **A slot is set up.** -/
lemma Begun.init (h : Begun count block h₀ n a) (hn : block n = some p)
    (hp : p ∉ firstStocks block n) (chunkCount chunkSize : ℕ) :
    ∃ a', stockSlotInit n chunkCount chunkSize (some p) a = .ok (true, a') ∧
      Begun count block h₀ (n + 1) a' := by
  obtain ⟨xs, hset, hxs⟩ := h.tree
  obtain ⟨hs, hheap, hmap⟩ := h.heap
  have hnew : ∀ q ∈ xs, stockCompare p q ≠ 0 := by
    intro q hq heq
    rw [stockCompare_eq] at heq
    exact hp (heq ▸ hxs q hq)
  obtain ⟨t, hset', heval⟩ :=
    stockSlotInit_some hset n p chunkCount chunkSize
  obtain ⟨hfull, hfree, hstock, hother⟩ := next_slotLinks n p a.links
  refine ⟨_, heval, fun j hj => ?_, fun j hj q hq => ?_, fun j hj hlt => ?_,
    ⟨_, hset', fun q hq => ?_⟩, (p, stockSizeOf chunkCount chunkSize) :: hs, ?_, ?_⟩
  · rcases Nat.lt_succ_iff_lt_or_eq.mp hj with hj | rfl
    · exact (hother _ (by simp; omega) (by simp) (by simp)).trans (h.full j hj)
    · exact hfull
  · rcases Nat.lt_succ_iff_lt_or_eq.mp hj with hj | rfl
    · have hqp : q ≠ p := fun e => hp (e ▸ mem_firstStocks hj hq)
      obtain ⟨hnext, hback⟩ := h.free j hj q hq
      exact ⟨(hother _ (by simp) (by simp; omega) (by simp)).trans hnext,
        (hother _ (by simp) (by simp) (by simpa using hqp)).trans hback⟩
    · obtain rfl := Option.some.inj (hn.symm.trans hq)
      exact ⟨hfree, hstock⟩
  · exact (hother _ (by simp; omega) (by simp) (by simp)).trans (h.zero j (by omega) hlt)
  · rw [firstStocks_succ hn, List.mem_append, List.mem_singleton]
    rcases (mem_insertOrd hnew).mp hq with rfl | hq
    · exact .inr rfl
    · exact .inl (hxs q hq)
  · exact congrArg _ hheap
  · rw [List.map_cons, hmap, firstStocks_succ hn, List.reverse_append]
    rfl

/-- **The slot that fails.** -/
lemma Begun.fail (h : Begun count block h₀ i a) (chunkCount chunkSize : ℕ) :
    ∃ a', stockSlotInit i chunkCount chunkSize none a = .ok (false, a') ∧
      Failed count block i a'.links ∧ a'.heap = a.heap := by
  refine ⟨{ a with
      slot := Function.update a.slot i
        ⟨roundChunk chunkSize, chunkCount, stockSizeOf chunkCount chunkSize⟩
      links := initListHead (.freeHead i) (initListHead (.fullHead i) a.links) }, ?_, ?_⟩
  · have hempty : listEmpty (.freeHead i)
        (initListHead (.freeHead i) (initListHead (.fullHead i) a.links)) = true := by
      simp [listEmpty, initListHead, Links.setNext, Links.setPrev]
    simp only [stockSlotInit, stockAlloc, hempty, if_true]
    rfl
  · have hother : ∀ x, x ≠ .fullHead i → x ≠ .freeHead i →
        (initListHead (.freeHead i) (initListHead (.fullHead i) a.links)).next x =
          a.links.next x := by
      intro x hfull hfree
      simp [initListHead, Links.setNext, Links.setPrev, hfull, hfree]
    refine ⟨⟨fun j hj => ?_, fun j hj q hq => ?_, ?_, fun j hj hlt => ?_⟩, rfl⟩
    · rcases Nat.lt_or_eq_of_le hj with hj | rfl
      · exact (hother _ (by simp; omega) (by simp)).trans (h.full j hj)
      · simp [initListHead, Links.setNext, Links.setPrev]
    · obtain ⟨hnext, hback⟩ := h.free j hj q hq
      exact ⟨(hother _ (by simp) (by simp; omega)).trans hnext,
        (hother _ (by simp) (by simp)).trans hback⟩
    · simp [initListHead, Links.setNext, Links.setPrev]
    · exact (hother _ (by simp; omega) (by simp)).trans (h.zero j hj.le hlt)

/-- **The loop of `mem_pool_create`** comes to the slot that fails. -/
lemma Begun.loop {pool : Pool} {turns : ℕ} (h : Begun pool.slotCount block h₀ n a)
    (chunkCount : ℕ) (hn : n ≤ i) (hturns : n + turns = pool.slotCount) (hi : i < pool.slotCount)
    (hint : i < 2 ^ 31)
    (hbefore : ∀ j < i, (block j).isSome = true) (hfails : block i = none)
    (hnodup : (firstStocks block i).Nodup) :
    ∃ a' hs, initSlots pool chunkCount block turns (n : ℤ) a = .ok (false, a') ∧
      Failed pool.slotCount block i a'.links ∧ a'.heap = hs ++ h₀ ∧
      hs.map Prod.fst = (firstStocks block i).reverse := by
  induction turns generalizing n a with
  | zero => omega
  | succ turns ih =>
      have hsize : sizeT (n : ℤ) = n := sizeT_natCast (by unfold word; omega)
      rw [initSlots, hsize, if_pos (by omega)]
      rcases Nat.lt_or_eq_of_le hn with hlt | rfl
      · obtain ⟨p, hp⟩ := Option.isSome_iff_exists.mp (hbefore n hlt)
        have hnew : p ∉ firstStocks block n := by
          -- the stocks of the slots up to this one are among the first `i`
          have hsub : (firstStocks block (n + 1)).Sublist (firstStocks block i) :=
            (List.range_sublist.mpr hlt).filterMap block
          have hsmall := hsub.nodup hnodup
          rw [firstStocks_succ hp, List.nodup_append] at hsmall
          exact fun hmem => hsmall.2.2 p hmem p (by simp) rfl
        obtain ⟨a₁, hinit, hbegun⟩ := h.init hp hnew chunkCount (pool.chunkSize n)
        obtain ⟨a', hs, hloop, hfailed⟩ := ih hbegun hlt (by omega)
        refine ⟨a', hs, ?_, hfailed⟩
        rw [hp, hinit]
        rw [← intAdd_one (by omega)] at hloop
        exact hloop
      · obtain ⟨hs, hheap, hmap⟩ := h.heap
        obtain ⟨a', hinit, hfailed, hsame⟩ := h.fail chunkCount (pool.chunkSize n)
        refine ⟨a', hs, ?_, hfailed, hsame.trans hheap, hmap⟩
        rw [hfails, hinit]
        rfl

end Loop

/-! ## The cleanup -/

section Destroy

variable {count i n p : ℕ} {block : ℕ → Option ℕ} {h₀ : List (ℕ × ℕ)} {a a' : Arena}

lemma free_links (h : free p a = .ok a') : a'.links = a.links := by
  unfold free at h
  split_ifs at h
  obtain rfl := Except.ok.inj h
  rfl

lemma freeAll_links {ps : List ℕ} (h : freeAll ps a = .ok a') : a'.links = a.links := by
  induction ps generalizing a with
  | nil =>
      obtain rfl := Except.ok.inj h
      rfl
  | cons p ps ih =>
      obtain ⟨a₁, hfree, hrest⟩ := bind_eq_ok.mp ((List.foldlM_cons ..).symm.trans h)
      exact (ih hrest).trans (free_links hfree)

/-- An empty list, or the end of a list. -/
lemma freeStocks_end {head : ListNode} {turns : ℕ} : freeStocks head turns head a = .ok a := by
  cases turns with
  | zero => rfl
  | succ turns => exact if_pos rfl

/-- **A slot with one stock.** -/
lemma slotDestroy_one (hfull : a.links.next (.fullHead n) = .fullHead n)
    (hfree : a.links.next (.freeHead n) = .stock p)
    (hback : a.links.next (.stock p) = .freeHead n) : slotDestroy n a = free p a := by
  rw [slotDestroy, hfull, freeStocks_end]
  change freeStocks (.freeHead n) (a.heap.length + 1) (a.links.next (.freeHead n)) a = _
  rw [hfree, freeStocks, if_neg (by simp)]
  change (free p a >>= freeStocks (.freeHead n) a.heap.length (a.links.next (.stock p))) = _
  rw [hback]
  cases hret : free p a with
  | error cause => rfl
  | ok a' => exact freeStocks_end

lemma slotDestroy_none (hfull : a.links.next (.fullHead n) = .fullHead n)
    (hfree : a.links.next (.freeHead n) = .freeHead n) : slotDestroy n a = .ok a := by
  rw [slotDestroy, hfull, freeStocks_end]
  change freeStocks (.freeHead n) (a.heap.length + 1) (a.links.next (.freeHead n)) a = _
  rw [hfree, freeStocks_end]

/-- **A slot whose memory is zero.** -/
lemma slotDestroy_zero (hfull : a.links.next (.fullHead n) = .null) :
    slotDestroy n a = .error .wild := by
  rw [slotDestroy, hfull, freeStocks, if_neg (by simp)]
  rfl

/-- **`mem_pool_destroy` frees the stocks** of the slots before the one that failed, and goes on
behind it. -/
lemma Failed.destroy (h : Failed count block i a.links) (hi : i < count) (hint : i < 2 ^ 31)
    (hbefore : ∀ j < i, (block j).isSome = true) {k : ℕ} (hk : n + k = i) :
    destroySlots count (count - n) (n : ℤ) a =
      freeAll ((List.range' n k).filterMap block) a >>=
        destroySlots count (count - (i + 1)) (intAdd i 1) := by
  induction k generalizing n a with
  | zero =>
      obtain rfl : n = i := hk
      have hsize : sizeT (n : ℤ) = n := sizeT_natCast (by unfold word; omega)
      have hturns : count - n = count - (n + 1) + 1 := by omega
      rw [hturns, destroySlots, hsize, if_pos hi, slotDestroy_none (h.full n le_rfl) h.last]
      rfl
  | succ k ih =>
      have hsize : sizeT (n : ℤ) = n := sizeT_natCast (by unfold word; omega)
      have hturns : count - n = count - (n + 1) + 1 := by omega
      obtain ⟨p, hp⟩ := Option.isSome_iff_exists.mp (hbefore n (by omega))
      obtain ⟨hfree, hback⟩ := h.free n (by omega) p hp
      rw [hturns, destroySlots, hsize, if_pos (by omega), intAdd_one (by omega),
        slotDestroy_one (h.full n (by omega)) hfree hback, List.range'_succ,
        List.filterMap_cons_some hp]
      change _ = (Arena.free p a >>= freeAll _) >>= _
      cases hret : Arena.free p a with
      | error cause => rfl
      | ok a' => exact ih ((free_links hret).symm ▸ h) (by omega)

/-- **The slot behind the one that failed** has zero for a head. -/
lemma Failed.destroy_next (h : Failed count block i a.links) (hi : i + 1 < count)
    (hint : i + 1 < 2 ^ 31) :
    destroySlots count (count - (i + 1)) (intAdd i 1) a = .error .wild := by
  have hsize : sizeT ((i + 1 : ℕ) : ℤ) = i + 1 := sizeT_natCast (by unfold word; omega)
  have hturns : count - (i + 1) = count - (i + 2) + 1 := by omega
  rw [intAdd_one hint, hturns, destroySlots, hsize, if_pos hi,
    slotDestroy_zero (h.zero (i + 1) (Nat.lt_succ_self i) hi)]
  rfl

/-- There is no slot behind it, or the `int` has wrapped: the loop ends. -/
lemma destroySlots_end (hi : i + 1 = count ∨ i + 1 = 2 ^ 31) (hcount : count ≤ 2 ^ 64 - 2 ^ 31) :
    destroySlots count (count - (i + 1)) (intAdd i 1) a = .ok a := by
  rcases hi with rfl | hi
  · rw [Nat.sub_self]
    rfl
  · cases hturns : count - (i + 1) with
    | zero => rfl
    | succ turns =>
        have hwrap : intAdd i 1 = ((2 ^ 31 : ℕ) : ℤ).bmod (2 ^ 32) := by
          unfold intAdd
          rw [← hi]
          rfl
        have hlarge := le_sizeT_bmod (n := 2 ^ 31) (by decide)
        rw [destroySlots, hwrap, if_neg (by omega)]

end Destroy

/-! ## The result -/

section Result

variable {start diff count chunkCount i : ℕ} {threadsafe : Bool} {env : PoolEnv} {a a₀ : Arena}
variable {pool : Pool}

/-- The lock of a pool, if it has one. -/
def Pool.locks (pool : Pool) : List ℕ := if pool.lock ≠ 0 then [pool.lock] else []

/-- What `mem_pool_create` has when it comes to its loop. -/
structure Prepared (i : ℕ) (threadsafe : Bool) (env : PoolEnv) (a : Arena) (count : ℕ) (pool : Pool)
    (a₀ : Arena) : Prop where
  begun : Begun count env.block a₀.heap 0 a₀
  slotCount : pool.slotCount = count
  blocks : poolBlocks threadsafe env i =
    firstStocks env.block i ++ (pool.locks ++ [pool.slots, pool.addr])
  heap : ∃ hs, a₀.heap = hs ++ a.heap ∧ hs.map Prod.fst = pool.locks ++ [pool.slots, pool.addr]

/-- The memory when `mem_pool_create` has called `rb_tree_init`. -/
def treeInit (addr slots count : ℕ) (a : Arena) : Arena :=
  let a := ((a.allocate addr sizeofMemPool).allocate slots (count * sizeofMemCache)).clearSlots count
  { a with onrbt := { a.onrbt with root := none, rbCount := 0 } }

lemma begun_treeInit {addr slots : ℕ} (block : ℕ → Option ℕ)
    (hlinks : a₀.links = (treeInit addr slots count a).links)
    (htree : a₀.onrbt = (treeInit addr slots count a).onrbt) :
    Begun count block a₀.heap 0 a₀ where
  full := fun j hj => absurd hj (Nat.not_lt_zero j)
  free := fun j hj => absurd hj (Nat.not_lt_zero j)
  zero := fun j _ hj => by
    have hinside : (j + 1) * sizeofMemSlot ≤ count * sizeofMemCache := by
      unfold sizeofMemSlot sizeofMemCache
      omega
    rw [hlinks]
    exact if_pos hinside
  tree := ⟨[], by rw [htree]; exact Rb.isSet_init stockCompare _, by simp⟩
  heap := ⟨[], rfl, rfl⟩

/-- **`mem_pool_create` comes to its loop.** -/
lemma FailsAt.prepared (h : FailsAt count threadsafe env a i) (start diff chunkCount : ℕ) :
    ∃ pool a₀, memPoolCreate start diff count chunkCount threadsafe env a =
      fillPool pool chunkCount env.block a₀ ∧ Prepared i threadsafe env a count pool a₀ := by
  obtain ⟨addr, haddr⟩ := Option.isSome_iff_exists.mp h.pool
  obtain ⟨slots, hslots⟩ := Option.isSome_iff_exists.mp h.slots
  cases threadsafe with
  | false =>
      refine ⟨⟨addr, start, diff, count, slots, 0⟩, treeInit addr slots count a, ?_,
        begun_treeInit env.block rfl rfl, rfl, ?_, ?_⟩
      · simp only [memPoolCreate, haddr, if_pos h.room, hslots]
        rfl
      · simp [poolBlocks, Pool.locks, haddr, hslots]
      · exact ⟨[(slots, count * sizeofMemCache), (addr, sizeofMemPool)], rfl, rfl⟩
  | true =>
      obtain ⟨lock, hlock⟩ := Option.isSome_iff_exists.mp (h.lock rfl)
      have hnull : lock ≠ 0 := (h.fresh lock (by simp [poolBlocks, hlock])).1
      have hlocks : Pool.locks ⟨addr, start, diff, count, slots, lock⟩ = [lock] := if_pos hnull
      refine ⟨⟨addr, start, diff, count, slots, lock⟩,
        (treeInit addr slots count a).allocate lock sizeofPthreadMutex, ?_,
        begun_treeInit env.block rfl rfl, rfl, ?_, ?_⟩
      · simp only [memPoolCreate, haddr, if_pos h.room, hslots, hlock]
        rfl
      · simp [poolBlocks, hlocks, haddr, hslots, hlock]
      · rw [hlocks]
        exact ⟨[(lock, sizeofPthreadMutex), (slots, count * sizeofMemCache),
          (addr, sizeofMemPool)], rfl, rfl⟩

lemma memPoolDestroy_eq (pool : Pool) (a : Arena) :
    memPoolDestroy pool a = destroySlots pool.slotCount pool.slotCount 0 a >>=
      freeAll (pool.locks ++ [pool.slots, pool.addr]) := by
  unfold memPoolDestroy
  refine congrArg (destroySlots pool.slotCount pool.slotCount 0 a >>= ·) (funext fun a' => ?_)
  have htwo : freeAll [pool.slots, pool.addr] = fun a => free pool.slots a >>= free pool.addr := by
    funext b
    have hsplit := freeAll_append [pool.slots] [pool.addr] b
    rw [List.singleton_append, freeAll_singleton] at hsplit
    exact hsplit.trans (congrArg (free pool.slots b >>= ·) (funext fun _ => freeAll_singleton))
  unfold Pool.locks
  split_ifs with hlock
  · rw [freeAll_append, freeAll_singleton, htwo]
  · rw [List.nil_append, htwo]
    rfl

/-- The state of the memory when `mem_pool_create` calls `mem_pool_destroy`. -/
structure Incomplete (i : ℕ) (threadsafe : Bool) (env : PoolEnv) (a : Arena) (count : ℕ)
    (pool : Pool) (a₁ : Arena) : Prop where
  failed : Failed count env.block i a₁.links
  slotCount : pool.slotCount = count
  blocks : poolBlocks threadsafe env i =
    firstStocks env.block i ++ (pool.locks ++ [pool.slots, pool.addr])
  heap : ∃ hs, a₁.heap = hs ++ a.heap ∧ (hs.map Prod.fst).Perm (poolBlocks threadsafe env i)

/-- **`mem_pool_create` calls `mem_pool_destroy`.** -/
lemma FailsAt.incomplete (h : FailsAt count threadsafe env a i) (start diff chunkCount : ℕ) :
    ∃ pool a₁, memPoolCreate start diff count chunkCount threadsafe env a =
      (memPoolDestroy pool a₁ >>= fun a' => .ok (none, a')) ∧
        Incomplete i threadsafe env a count pool a₁ := by
  obtain ⟨pool, a₀, hcreate, hprep⟩ := h.prepared start diff chunkCount
  obtain ⟨hs, hheap, hmap⟩ := hprep.heap
  have hnodup : (firstStocks env.block i).Nodup := by
    have hall := h.nodup
    rw [hprep.blocks] at hall
    exact hall.of_append_left
  have hbegun := hprep.begun
  rw [← hprep.slotCount] at hbegun
  obtain ⟨a₁, hs', hloop, hfailed, hheap', hmap'⟩ := hbegun.loop chunkCount (Nat.zero_le i)
    (Nat.zero_add _) (hprep.slotCount.symm ▸ h.lt) h.int h.before h.fails hnodup
  refine ⟨pool, a₁, ?_, hprep.slotCount ▸ hfailed, hprep.slotCount, hprep.blocks, hs' ++ hs, ?_, ?_⟩
  · rw [hcreate]
    unfold fillPool
    rw [show ((0 : ℕ) : ℤ) = 0 from rfl] at hloop
    rw [hloop]
    rfl
  · rw [hheap', hheap, List.append_assoc]
  · rw [List.map_append, hmap', hmap, hprep.blocks]
    exact (List.reverse_perm _).append_right _

/-- **The blocks of the pool** can be freed, and only they. -/
lemma Incomplete.freeAll {a₁ : Arena} (h : Incomplete i threadsafe env a count pool a₁)
    (hfails : FailsAt count threadsafe env a i) :
    freeAll (poolBlocks threadsafe env i) a₁ = .ok { a₁ with heap := a.heap } := by
  obtain ⟨hs, hheap, hperm⟩ := h.heap
  have hold : a₁.heap.filter (fun b => b.1 ∉ poolBlocks threadsafe env i) = a.heap := by
    rw [hheap, List.filter_append]
    have hnew : hs.filter (fun b => b.1 ∉ poolBlocks threadsafe env i) = [] := by
      apply List.filter_eq_nil_iff.mpr
      intro b hb
      simpa using hperm.mem_iff.mp (List.mem_map_of_mem hb)
    have hkeep : a.heap.filter (fun b => b.1 ∉ poolBlocks threadsafe env i) = a.heap := by
      apply List.filter_eq_self.mpr
      intro b hb
      simpa using fun hmem => (hfails.fresh b.1 hmem).2 b hb rfl
    rw [hnew, hkeep, List.nil_append]
  rw [freeAll_ok hfails.nodup, hold]
  intro p hp
  obtain ⟨b, hb, rfl⟩ := List.mem_map.mp (hperm.mem_iff.mpr hp)
  exact ⟨b, hheap ▸ List.mem_append_left _ hb, rfl⟩

/-- **`mem_pool_destroy`** of the pool: the stocks, what it does behind the slot that failed, and
the other blocks. -/
lemma Incomplete.destroy {a₁ : Arena} (h : Incomplete i threadsafe env a count pool a₁)
    (hfails : FailsAt count threadsafe env a i) :
    memPoolDestroy pool a₁ = MemPool.freeAll (firstStocks env.block i) a₁ >>= fun a₂ =>
      destroySlots count (count - (i + 1)) (intAdd i 1) a₂ >>=
        MemPool.freeAll (pool.locks ++ [pool.slots, pool.addr]) := by
  have hslots := h.failed.destroy (n := 0) hfails.lt hfails.int hfails.before (Nat.zero_add i)
  rw [memPoolDestroy_eq, h.slotCount]
  rw [Nat.sub_zero, show ((0 : ℕ) : ℤ) = 0 from rfl, ← List.range_eq_range'] at hslots
  rw [hslots, bind_assoc]
  rfl

/-- **Nothing is behind the slot that failed**: the call cleans up. -/
lemma FailsAt.cleansUp (h : FailsAt count threadsafe env a i)
    (hend : i + 1 = count ∨ i + 1 = 2 ^ 31) (start diff chunkCount : ℕ) :
    CleansUp start diff count chunkCount threadsafe env a i := by
  obtain ⟨pool, a₁, hcreate, hinc⟩ := h.incomplete start diff chunkCount
  obtain ⟨hs, hheap, hperm⟩ := hinc.heap
  have hcount : count ≤ 2 ^ 64 - 2 ^ 31 := by
    have hroom := h.room
    unfold sizeofMemCache word at hroom
    omega
  have hfree := hinc.freeAll h
  have hdestroy : memPoolDestroy pool a₁ = .ok { a₁ with heap := a.heap } := by
    rw [hinc.destroy h, ← hfree, hinc.blocks, freeAll_append]
    refine congrArg (MemPool.freeAll (firstStocks env.block i) a₁ >>= ·) (funext fun a₂ => ?_)
    rw [destroySlots_end hend hcount]
    rfl
  refine ⟨a₁, _, ?_, ?_, hfree, rfl⟩
  · rw [hcreate, hdestroy]
    rfl
  · rw [hheap, List.map_append]
    exact hperm.append_right _

/-- **A slot is behind the one that failed**: the call ends the program. -/
lemma FailsAt.wild (h : FailsAt count threadsafe env a i) (hlt : i + 1 < count)
    (hint : i + 1 < 2 ^ 31) (start diff chunkCount : ℕ) :
    memPoolCreate start diff count chunkCount threadsafe env a = .error .wild := by
  obtain ⟨pool, a₁, hcreate, hinc⟩ := h.incomplete start diff chunkCount
  have hfree := hinc.freeAll h
  rw [hinc.blocks, freeAll_append] at hfree
  obtain ⟨a₂, hstocks, -⟩ := bind_eq_ok.mp hfree
  have hfailed : Failed count env.block i a₂.links := by
    rw [freeAll_links hstocks]
    exact hinc.failed
  rw [hcreate, hinc.destroy h, hstocks]
  change (destroySlots count (count - (i + 1)) (intAdd i 1) a₂ >>= _) >>= _ = _
  rw [hfailed.destroy_next hlt hint]
  rfl

end Result

/-- **When a failed creation cleans up.**  Exactly if the slot that failed is the last one, or the
last one to which an `int` can count. -/
theorem failed_create_cleans_up_iff {count i : ℕ} {threadsafe : Bool} {env : PoolEnv} {a : Arena}
    (h : FailsAt count threadsafe env a i) (start diff chunkCount : ℕ) :
    CleansUp start diff count chunkCount threadsafe env a i ↔ i + 1 = count ∨ i + 1 = 2 ^ 31 := by
  constructor
  · rintro ⟨a₁, a', hcreate, -⟩
    by_contra hend
    have hlt := h.lt
    have hint := h.int
    rw [h.wild (by omega) (by omega)] at hcreate
    cases hcreate
  · intro hend
    exact h.cleansUp hend start diff chunkCount

/-- Memory for a pool with a lock and for the stocks of the slots before `i`. -/
def failingEnv (i : ℕ) : PoolEnv :=
  ⟨some 64, some 1024, some 512, fun j => if j < i then some (4096 * (j + 1)) else none⟩

lemma firstStocks_failingEnv (i : ℕ) :
    firstStocks (failingEnv i).block i = (List.range i).map fun j => 4096 * (j + 1) := by
  have hblock : ∀ j ∈ List.range i, (failingEnv i).block j = some (4096 * (j + 1)) :=
    fun j hj => if_pos (List.mem_range.mp hj)
  exact (List.filterMap_congr hblock).trans (congrFun List.filterMap_eq_map _)

lemma poolBlocks_failingEnv (i : ℕ) : poolBlocks true (failingEnv i) i =
    ((List.range i).map fun j => 4096 * (j + 1)) ++ [512, 1024, 64] := by
  unfold poolBlocks
  rw [firstStocks_failingEnv]
  simp [failingEnv]

lemma failsAt_failingEnv {count i : ℕ} (hi : i < count) (hint : i < 2 ^ 31)
    (hroom : count * sizeofMemCache < word) : FailsAt count true (failingEnv i) blank i := by
  refine ⟨rfl, rfl, hroom, fun _ => rfl, hi, hint, fun j hj => ?_, if_neg (lt_irrefl i), ?_,
    fun p hp => ⟨?_, fun b hb => absurd hb (List.not_mem_nil)⟩⟩
  · exact congrArg Option.isSome (if_pos hj)
  · rw [poolBlocks_failingEnv]
    refine List.Nodup.append (List.Nodup.map (fun j k h => ?_) List.nodup_range) (by decide) ?_
    · have heq : 4096 * (j + 1) = 4096 * (k + 1) := h
      omega
    · intro p hp hlast
      obtain ⟨j, -, rfl⟩ := List.mem_map.mp hp
      simp only [List.mem_cons, List.not_mem_nil, or_false] at hlast
      omega
  · rw [poolBlocks_failingEnv] at hp
    rcases List.mem_append.mp hp with hp | hp
    · obtain ⟨j, -, rfl⟩ := List.mem_map.mp hp
      omega
    · rintro rfl
      revert hp
      decide

/-- A pool of two slots, and no memory for the stock of the second one. -/
theorem failed_create_cleans_up_iff_sample :
    CleansUp 8 8 2 1 true (failingEnv 1) blank 1 := by
  have hfails : FailsAt 2 true (failingEnv 1) blank 1 :=
    failsAt_failingEnv (by decide) (by decide) (by decide)
  exact (failed_create_cleans_up_iff hfails 8 8 1).mpr (.inl (by decide))

/-- **A null pointer for a list head.**  In a pool of two slots, there is no memory for the stock of
the first one. -/
theorem failed_create_follows_null :
    FailsAt 2 true (failingEnv 0) blank 0 ∧
      memPoolCreate 8 8 2 1 true (failingEnv 0) blank = .error .wild ∧
        ¬ CleansUp 8 8 2 1 true (failingEnv 0) blank 0 := by
  have hfails : FailsAt 2 true (failingEnv 0) blank 0 :=
    failsAt_failingEnv (by decide) (by decide) (by decide)
  have hwild := hfails.wild (by decide) (by decide) 8 8 1
  refine ⟨hfails, hwild, ?_⟩
  rintro ⟨a₁, a', hcreate, -⟩
  rw [hwild] at hcreate
  cases hcreate

end LinuxC.MemPool
