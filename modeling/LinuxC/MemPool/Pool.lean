import LinuxC.MemPool.Safety
import LinuxC.RbTree.OrderedSet

/-!
# The pool of slots of `memory-pool/mem_pool.c`

A pool has slots for chunks of different sizes: the slot `i` is for `start_size + i * diff_size`
bytes.  `mem_pool_alloc` takes the slot `size / diff_size`.  That number leaves `start_size` out,
goes through an `int`, and is refused only above `slot_count`, so it may name a slot whose chunks
are too small, and the one behind the last slot.

The model adds to the arena the blocks of `malloc` and `calloc`, whose addresses come from outside
as those of `posix_memalign` do.  The memory of `calloc` is zero: the list heads in it are null
pointers until `stock_slot_init` has run.  `calloc` fails when the size overflows.
-/

namespace LinuxC.MemPool

open Arena

/-! ## The pool -/

/-- `sizeof(struct mem_slot)`: three `size_t` and two `struct list_head`. -/
def sizeofMemSlot : ℕ := 56

/-- `sizeof(struct mem_cache)`: a slot, a `struct rb_tree` and a pointer. -/
def sizeofMemCache : ℕ := 104

/-- `sizeof(struct mem_pool)`: three `size_t`, a `struct rb_tree` and two pointers. -/
def sizeofMemPool : ℕ := 80

/-- `sizeof(pthread_mutex_t)`. -/
def sizeofPthreadMutex : ℕ := 40

/-- `struct mem_pool` at the address `addr`, without its tree.  The slots are those of the arena. -/
structure Pool where
  addr : ℕ
  startSize : ℕ
  diffSize : ℕ
  slotCount : ℕ
  slots : ℕ
  lock : ℕ

/-- What `mem_pool_create` gets from outside: the blocks of `malloc` and `calloc`, and the first
stock of every slot. -/
structure PoolEnv where
  pool : Option ℕ
  slots : Option ℕ
  lock : Option ℕ
  block : ℕ → Option ℕ

namespace Arena

/-- `malloc` has returned the block `p`. -/
def allocate (p size : ℕ) (a : Arena) : Arena := { a with heap := (p, size) :: a.heap }

/-- The slots that lie in the memory of `calloc(slot_count, sizeof(struct mem_cache))` are zero. -/
def clearSlots (slotCount : ℕ) (a : Arena) : Arena :=
  let inside (i : ℕ) : Prop := (i + 1) * sizeofMemSlot ≤ slotCount * sizeofMemCache
  { a with
    slot := fun i => if inside i then ⟨0, 0, 0⟩ else a.slot i
    links := {
      next := fun x =>
        match x with
        | .fullHead i => if inside i then .null else a.links.next x
        | .freeHead i => if inside i then .null else a.links.next x
        | x => a.links.next x
      prev := fun x =>
        match x with
        | .fullHead i => if inside i then .null else a.links.prev x
        | .freeHead i => if inside i then .null else a.links.prev x
        | x => a.links.prev x } }

end Arena

/-! ## Destruction -/

/-- The loops of `mem_pool_destroy` over a list of a slot; every turn frees a block. -/
def freeStocks (head : ListNode) : ℕ → ListNode → Arena → Except Abort Arena
  | 0, _, a => .ok a
  | turns + 1, node, a =>
      if node = head then .ok a
      else do
        let stock ← entry node
        let n := a.links.next node
        let a ← free stock a
        freeStocks head turns n a

/-- The body of the loop of `mem_pool_destroy` over the slots. -/
def slotDestroy (slot : ℕ) (a : Arena) : Except Abort Arena := do
  let full := ListNode.fullHead slot
  let a ← freeStocks full (a.heap.length + 1) (a.links.next full) a
  let empty := ListNode.freeHead slot
  freeStocks empty (a.heap.length + 1) (a.links.next empty) a

/-- The loop of `mem_pool_destroy` over the slots: `i` is an `int`. -/
def destroySlots (slotCount : ℕ) : ℕ → ℤ → Arena → Except Abort Arena
  | 0, _, a => .ok a
  | turns + 1, i, a =>
      if sizeT i < slotCount then do
        let a ← slotDestroy (sizeT i) a
        destroySlots slotCount turns (intAdd i 1) a
      else .ok a

def memPoolDestroy (pool : Pool) (a : Arena) : Except Abort Arena := do
  let a ← destroySlots pool.slotCount pool.slotCount 0 a
  let a ← if pool.lock ≠ 0 then free pool.lock a else .ok a
  let a ← free pool.slots a
  free pool.addr a

/-! ## Creation -/

/-- The size for which `mem_pool_create` sets up the slot `i`. -/
def Pool.chunkSize (pool : Pool) (i : ℕ) : ℕ :=
  (pool.startSize + i * pool.diffSize) % word

/-- The loop of `mem_pool_create`: whether every slot got its first stock.  `i` is an `int`. -/
def initSlots (pool : Pool) (chunkCount : ℕ) (block : ℕ → Option ℕ) :
    ℕ → ℤ → Arena → Except Abort (Bool × Arena)
  | 0, _, a => .ok (true, a)
  | turns + 1, i, a =>
      if sizeT i < pool.slotCount then do
        let (ready, a) ←
          stockSlotInit (sizeT i) chunkCount (pool.chunkSize (sizeT i)) (block (sizeT i)) a
        if ready then initSlots pool chunkCount block turns (intAdd i 1) a else .ok (false, a)
      else .ok (true, a)

/-- The end of `mem_pool_create`, from the loop on. -/
def fillPool (pool : Pool) (chunkCount : ℕ) (block : ℕ → Option ℕ) (a : Arena) :
    Except Abort (Option Pool × Arena) := do
  let (ready, a) ← initSlots pool chunkCount block pool.slotCount 0 a
  if ready then .ok (some pool, a)
  else do
    let a ← memPoolDestroy pool a
    .ok (none, a)

def memPoolCreate (startSize diffSize slotCount chunkCount : ℕ) (threadsafe : Bool) (env : PoolEnv)
    (a : Arena) : Except Abort (Option Pool × Arena) :=
  match env.pool with
  | none => .ok (none, a)
  | some addr => do
      let a := a.allocate addr sizeofMemPool
      match if slotCount * sizeofMemCache < word then env.slots else none with
      | none => do
          let a ← free addr a
          .ok (none, a)
      | some slots => do
          let a := (a.allocate slots (slotCount * sizeofMemCache)).clearSlots slotCount
          -- `rb_tree_init`
          let a := { a with onrbt := { a.onrbt with root := none, rbCount := 0 } }
          if threadsafe then
            match env.lock with
            | none => do
                let a ← free addr a
                .ok (none, a)
            | some lock =>
                fillPool ⟨addr, startSize, diffSize, slotCount, slots, lock⟩ chunkCount env.block
                  (a.allocate lock sizeofPthreadMutex)
          else fillPool ⟨addr, startSize, diffSize, slotCount, slots, 0⟩ chunkCount env.block a

/-! ## Allocation -/

/-- The ways a function of the pool can end the program. -/
inductive PoolAbort
  /-- `size / pool->diff_size` with `diff_size` zero. -/
  | divideByZero
  | arena (cause : Abort)
  deriving DecidableEq

/-- `int index = size / pool->diff_size`. -/
def Pool.index (pool : Pool) (size : ℕ) : ℤ :=
  ((size / pool.diffSize : ℕ) : ℤ).bmod (2 ^ 32)

/-- The slot of which `mem_pool_alloc` takes a chunk, unless it finds the size too large. -/
def Pool.slotFor (pool : Pool) (size : ℕ) : Option ℕ :=
  if sizeT (pool.index size) > pool.slotCount then none else some (sizeT (pool.index size))

def memPoolAlloc (pool : Pool) (size : ℕ) (block : Option ℕ) (a : Arena) :
    Except PoolAbort (Option ℕ × Arena) :=
  if pool.diffSize = 0 then .error .divideByZero
  else
    match pool.slotFor size with
    | none => .ok (none, a)
    | some slot => (chunkAlloc slot block a).mapError .arena

def memPoolFree (p : ℕ) (a : Arena) : Except Abort Arena := chunkFree p a

/-! ## A pool and its user -/

/-- What the user does: call the two functions, and write. -/
inductive PoolLabel
  | alloc (size : ℕ) (block : Option ℕ)
  | free (p : ℕ)
  | write (p : ℕ) (bytes : List UInt8)

/-- One step, with what `mem_pool_alloc` returns.  There is no next state where the program ends. -/
def poolStep (pool : Pool) (a : Arena) : PoolLabel → Option (Arena × List (Option ℕ))
  | .alloc size block => (memPoolAlloc pool size block a).toOption.map fun r => (r.2, [r.1])
  | .free p => (memPoolFree p a).toOption.map fun a => (a, [])
  | .write p bytes => some ({ a with mem := a.mem.write p bytes }, [])

/-! ## Slots and tree between two calls -/

/-- The tree of the stocks is a red-black tree in order, so `rb_insert` and `rb_remove` return. -/
def Planted (a : Arena) : Prop := ∃ xs, Rb.IsSet stockCompare a.onrbt xs

section Slots

variable {slot p : ℕ} {block r : Option ℕ} {a a' : Arena}

lemma chunkTake_frame {c : ℕ} (h : chunkTake slot p a = .ok (c, a')) :
    a'.slot = a.slot ∧ a'.onrbt = a.onrbt := by
  unfold chunkTake at h
  dsimp only at h
  split_ifs at h
  · obtain ⟨-, rfl⟩ := Prod.mk.inj (Except.ok.inj h)
    exact ⟨rfl, rfl⟩
  · obtain ⟨-, rfl⟩ := Prod.mk.inj (Except.ok.inj h)
    exact ⟨rfl, rfl⟩

lemma stockClose_frame :
    (stockClose slot p a).slot = a.slot ∧ (stockClose slot p a).onrbt = a.onrbt := by
  unfold stockClose
  split_ifs <;> exact ⟨rfl, rfl⟩

/-- **`stock_alloc`** with an empty free list and memory for the stock. -/
lemma stockAlloc_some {xs : List ℕ} (hset : Rb.IsSet stockCompare a.onrbt xs)
    (hempty : listEmpty (.freeHead slot) a.links = true) (p : ℕ) :
    ∃ t, Rb.IsSet stockCompare t (insertOrd stockCompare p xs) ∧
      stockAlloc slot (some p) a = .ok (some p, { a with
        onrbt := t
        stock := Function.update a.stock p ⟨slot, 0, 0, 0⟩
        links := listAdd (.stock p) (.freeHead slot) (initListHead (.stock p) a.links)
        heap := (p, (a.slot slot).stockSize) :: a.heap }) := by
  obtain ⟨t, r, heval, hset'⟩ := hset.inserted comparator_stockCompare p (Nat.lt_succ_self _)
  refine ⟨t, hset', ?_⟩
  simp only [stockAlloc, hempty, if_true, setStock, heval, followed]
  rfl

lemma stockAlloc_planted (hplanted : Planted a) (h : stockAlloc slot block a = .ok (r, a')) :
    Planted a' := by
  cases hempty : listEmpty (.freeHead slot) a.links with
  | false => simp [stockAlloc, hempty] at h
  | true =>
      cases block with
      | none =>
          simp only [stockAlloc, hempty, if_true] at h
          obtain ⟨-, rfl⟩ := Prod.mk.inj (Except.ok.inj h)
          exact hplanted
      | some p =>
          obtain ⟨xs, hset⟩ := hplanted
          obtain ⟨t, hset', heval⟩ := stockAlloc_some hset hempty p
          obtain ⟨-, rfl⟩ := Prod.mk.inj (Except.ok.inj (heval.symm.trans h))
          exact ⟨_, hset'⟩

/-- The rest of `chunk_alloc`, when there is a stock with a free chunk. -/
def chunkServe (slot : ℕ) (a : Arena) : Except Abort (Option ℕ × Arena) := do
  let stock ← entry (a.links.next (.freeHead slot))
  let (chunk, a) ← chunkTake slot stock a
  .ok (some chunk, stockClose slot stock a)

lemma chunkAlloc_of_stock (h : listEmpty (.freeHead slot) a.links = false) :
    chunkAlloc slot block a = chunkServe slot a := by
  simp only [chunkAlloc, h]
  rfl

lemma chunkAlloc_of_block {p : ℕ} {a₁ : Arena}
    (hempty : listEmpty (.freeHead slot) a.links = true)
    (hstock : stockAlloc slot (some p) a = .ok (some p, a₁)) :
    chunkAlloc slot (some p) a = chunkServe slot a₁ := by
  simp only [chunkAlloc, hempty, if_true, hstock]
  rfl

lemma chunkAlloc_of_none (h : listEmpty (.freeHead slot) a.links = true) :
    chunkAlloc slot none a = .ok (none, a) := by
  simp only [chunkAlloc, stockAlloc, h]
  rfl

lemma chunkServe_ok (h : chunkServe slot a = .ok (r, a')) :
    r ≠ none ∧ a'.slot = a.slot ∧ a'.onrbt = a.onrbt := by
  unfold chunkServe at h
  obtain ⟨stock, -, h⟩ := bind_eq_ok.mp h
  obtain ⟨⟨chunk, a₁⟩, htake, h⟩ := bind_eq_ok.mp h
  obtain ⟨rfl, rfl⟩ := Prod.mk.inj (Except.ok.inj h)
  obtain ⟨hslot, htree⟩ := chunkTake_frame htake
  exact ⟨Option.some_ne_none _, stockClose_frame.1.trans hslot, stockClose_frame.2.trans htree⟩

/-- The first stock of the free list has a chunk: a recycled one, or one that was never used. -/
lemma chunkServe_some_iff : (∃ c a', chunkServe slot a = .ok (some c, a')) ↔
    ∃ p, a.links.next (.freeHead slot) = .stock p ∧
      ((a.stock p).recycle ≠ 0 ∨ sizeT (a.stock p).index < (a.slot slot).chunkCount) := by
  constructor
  · rintro ⟨c, a', h⟩
    obtain ⟨stock, hentry, h⟩ := bind_eq_ok.mp h
    obtain ⟨⟨chunk, a₁⟩, htake, -⟩ := bind_eq_ok.mp h
    cases hfirst : a.links.next (.freeHead slot) with
    | stock p =>
        rw [hfirst] at hentry
        obtain rfl := Except.ok.inj hentry
        refine ⟨p, rfl, ?_⟩
        by_contra hnot
        obtain ⟨hrecycle, hindex⟩ := not_or.mp hnot
        simp only [chunkTake, if_neg hrecycle, if_neg hindex] at htake
        cases htake
    | _ => simp [hfirst, entry] at hentry
  · rintro ⟨p, hfirst, hchunk⟩
    obtain ⟨c, a₁, htake⟩ : ∃ c a₁, chunkTake slot p a = .ok (c, a₁) := by
      unfold chunkTake
      dsimp only
      split_ifs with hrecycle hindex
      · exact ⟨_, _, rfl⟩
      · exact ⟨_, _, rfl⟩
      · exact absurd hchunk (not_or.mpr ⟨hrecycle, hindex⟩)
    refine ⟨c, stockClose slot p a₁, ?_⟩
    simp only [chunkServe, hfirst, entry]
    exact bind_eq_ok.mpr ⟨p, rfl, bind_eq_ok.mpr ⟨(c, a₁), htake, rfl⟩⟩

/-- `chunk_alloc` of the slot gets no memory: there is no stock with a free chunk, and
`posix_memalign` fails. -/
def Starved (slot : ℕ) (block : Option ℕ) (a : Arena) : Prop :=
  listEmpty (.freeHead slot) a.links = true ∧ block = none

/-- The stock that `chunk_alloc` turns to has a chunk: the first one of the free list, or the new
one if there is none.  A new stock has `chunk_count` of them, which may be none. -/
def HasChunk (chunkCount slot : ℕ) (block : Option ℕ) (a : Arena) : Prop :=
  if listEmpty (.freeHead slot) a.links = true then block ≠ none ∧ 0 < chunkCount
  else ∃ p, a.links.next (.freeHead slot) = .stock p ∧
    ((a.stock p).recycle ≠ 0 ∨ sizeT (a.stock p).index < chunkCount)

/-- **What `chunk_alloc` leaves of the pool.**  It returns a null pointer exactly if it gets no
memory. -/
lemma chunkAlloc_ok (hplanted : Planted a) (h : chunkAlloc slot block a = .ok (r, a')) :
    (r = none ↔ Starved slot block a) ∧ a'.slot = a.slot ∧ Planted a' := by
  unfold Starved
  cases hempty : listEmpty (.freeHead slot) a.links with
  | false =>
      rw [chunkAlloc_of_stock hempty] at h
      obtain ⟨hsome, hslot, htree⟩ := chunkServe_ok h
      exact ⟨by simp [hsome], hslot, by rwa [Planted, htree]⟩
  | true =>
      cases block with
      | none =>
          rw [chunkAlloc_of_none hempty] at h
          obtain ⟨rfl, rfl⟩ := Prod.mk.inj (Except.ok.inj h)
          exact ⟨by simp, rfl, hplanted⟩
      | some p =>
          obtain ⟨xs, hset⟩ := hplanted
          obtain ⟨t, hset', hstock⟩ := stockAlloc_some hset hempty p
          rw [chunkAlloc_of_block hempty hstock] at h
          obtain ⟨hsome, hslot, htree⟩ := chunkServe_ok h
          exact ⟨by simp [hsome], hslot, by rw [Planted, htree]; exact ⟨_, hset'⟩⟩

/-- **When `chunk_alloc` returns a chunk.** -/
lemma chunkAlloc_some_iff (hplanted : Planted a) :
    (∃ c a', chunkAlloc slot block a = .ok (some c, a')) ↔
      HasChunk (a.slot slot).chunkCount slot block a := by
  unfold HasChunk
  cases hempty : listEmpty (.freeHead slot) a.links with
  | false =>
      rw [chunkAlloc_of_stock hempty, if_neg Bool.false_ne_true]
      exact chunkServe_some_iff
  | true =>
      rw [if_pos rfl]
      cases block with
      | none => simp [chunkAlloc_of_none hempty]
      | some p =>
          obtain ⟨xs, hset⟩ := hplanted
          obtain ⟨t, -, hstock⟩ := stockAlloc_some hset hempty p
          have hfirst : (listAdd (.stock p) (.freeHead slot)
              (initListHead (.stock p) a.links)).next (.freeHead slot) = .stock p := by
            simp [listAdd, listAddBetween, Links.setNext, Links.setPrev]
          rw [chunkAlloc_of_block hempty hstock, chunkServe_some_iff]
          simp [hfirst, sizeT]

lemma stockRelease_frame {xs : List ℕ} (hset : Rb.IsSet stockCompare a.onrbt xs) (hp : p ∈ xs)
    (h : stockRelease p a = .ok a') : a'.slot = a.slot ∧ Planted a' := by
  unfold stockRelease at h
  dsimp only at h
  split_ifs at h
  · obtain ⟨t, heval, hset'⟩ := hset.removed hp (Nat.lt_succ_self _)
    obtain ⟨onrbt, hfollowed, h⟩ := bind_eq_ok.mp h
    rw [heval] at hfollowed
    obtain rfl := Except.ok.inj hfollowed
    unfold free at h
    split_ifs at h
    obtain rfl := Except.ok.inj h
    exact ⟨rfl, _, hset'⟩
  · obtain rfl := Except.ok.inj h
    exact ⟨rfl, xs, hset⟩

lemma stockReopen_frame :
    (stockReopen p a).slot = a.slot ∧ (stockReopen p a).onrbt = a.onrbt := by
  unfold stockReopen
  split_ifs <;> exact ⟨rfl, rfl⟩

lemma chunkFree_frame (hplanted : Planted a) (h : chunkFree p a = .ok a') :
    a'.slot = a.slot ∧ Planted a' := by
  unfold chunkFree at h
  obtain ⟨found, hfound, h⟩ := bind_eq_ok.mp h
  cases found with
  | none => cases h
  | some stock =>
      obtain ⟨xs, hset⟩ := hplanted
      have hmem : stock ∈ xs := by
        unfold findStock followed at hfound
        split at hfound
        · rename_i heval
          obtain rfl := Except.ok.inj hfound
          exact hset.search_mem heval
        · cases hfound
      obtain ⟨hslot, htree⟩ := stockReopen_frame (p := stock) (a := a)
      have hput : Rb.IsSet stockCompare (chunkPut stock p (stockReopen stock a)).onrbt xs := by
        rw [← htree] at hset
        exact hset
      obtain ⟨hslot', hplanted'⟩ := stockRelease_frame hput hmem h
      exact ⟨hslot'.trans hslot, hplanted'⟩

lemma memPoolAlloc_frame {pool : Pool} {size : ℕ} (hplanted : Planted a)
    (h : memPoolAlloc pool size block a = .ok (r, a')) : a'.slot = a.slot ∧ Planted a' := by
  unfold memPoolAlloc at h
  split_ifs at h
  cases hslot : pool.slotFor size with
  | none =>
      rw [hslot] at h
      obtain ⟨-, rfl⟩ := Prod.mk.inj (Except.ok.inj h)
      exact ⟨rfl, hplanted⟩
  | some slot =>
      rw [hslot] at h
      cases halloc : chunkAlloc slot block a with
      | error cause => simp [halloc, Except.mapError] at h
      | ok x =>
          simp only [halloc, Except.mapError, Except.ok.injEq] at h
          subst h
          exact (chunkAlloc_ok hplanted halloc).2

/-- **One step** leaves the slots as they are, and the tree in order. -/
lemma poolStep_frame {pool : Pool} {l : PoolLabel} {es : List (Option ℕ)} (hplanted : Planted a)
    (h : poolStep pool a l = some (a', es)) : a'.slot = a.slot ∧ Planted a' := by
  cases l with
  | alloc size block =>
      obtain ⟨⟨r, a₁⟩, hret, heq⟩ := Option.map_eq_some_iff.mp h
      obtain ⟨rfl, -⟩ := Prod.mk.inj heq
      exact memPoolAlloc_frame hplanted (ok_of_toOption hret)
  | free p =>
      obtain ⟨a₁, hret, heq⟩ := Option.map_eq_some_iff.mp h
      obtain ⟨rfl, -⟩ := Prod.mk.inj heq
      exact chunkFree_frame hplanted (ok_of_toOption hret)
  | write p bytes =>
      obtain ⟨rfl, -⟩ := Prod.mk.inj (Option.some.inj h)
      exact ⟨rfl, hplanted⟩

lemma run_poolStep_frame {pool : Pool} {ls : List PoolLabel} {es : List (Option ℕ)}
    (hplanted : Planted a) (h : run (poolStep pool) ls a = some (a', es)) :
    a'.slot = a.slot ∧ Planted a' := by
  have hok : Along (poolStep pool) (fun _ _ => True) ls a := along_of_forall (fun _ _ => trivial) a
  refine run_invariant (I := fun b => b.slot = a.slot ∧ Planted b) ?_ ⟨rfl, hplanted⟩ hok h
  rintro b _ _ _ ⟨hsame, hb⟩ _ hstep
  obtain ⟨hslot, hplanted'⟩ := poolStep_frame hb hstep
  exact ⟨hslot.trans hsame, hplanted'⟩

end Slots

/-! ## The slots of a new pool -/

/-- A `size_t` that was narrowed to an `int` and converted back. -/
lemma sizeT_bmod_of_lt {n : ℕ} (h : n % 2 ^ 32 < 2 ^ 31) :
    sizeT ((n : ℤ).bmod (2 ^ 32)) = n % 2 ^ 32 := by
  unfold sizeT
  rw [Int.bmod_def]
  split_ifs <;> omega

/-- If the `int` is negative, the result is a very large number. -/
lemma le_sizeT_bmod {n : ℕ} (h : 2 ^ 31 ≤ n % 2 ^ 32) :
    2 ^ 64 - 2 ^ 31 ≤ sizeT ((n : ℤ).bmod (2 ^ 32)) := by
  unfold sizeT
  rw [Int.bmod_def]
  split_ifs <;> omega

lemma intAdd_bmod (n : ℕ) :
    intAdd ((n : ℤ).bmod (2 ^ 32)) 1 = ((n + 1 : ℕ) : ℤ).bmod (2 ^ 32) := by
  unfold intAdd
  push_cast
  rw [Int.bmod_add_bmod]

section Create

variable {pool : Pool} {chunkCount : ℕ} {block : ℕ → Option ℕ} {a a' : Arena}

lemma stockSlotInit_slot {slot chunkSize : ℕ} {first : Option ℕ} {ready : Bool}
    (h : stockSlotInit slot chunkCount chunkSize first a = .ok (ready, a')) :
    ((a'.slot slot).chunkSize = roundChunk chunkSize ∧ (a'.slot slot).chunkCount = chunkCount) ∧
      ∀ j, j ≠ slot → a'.slot j = a.slot j := by
  obtain ⟨⟨stock, a₁⟩, hstock, h⟩ := bind_eq_ok.mp h
  obtain ⟨-, rfl⟩ := Prod.mk.inj (Except.ok.inj h)
  rw [(stockAlloc_spec hstock).2]
  exact ⟨by simp, fun j hj => Function.update_of_ne hj ..⟩

lemma stockSlotInit_planted {slot chunkSize : ℕ} {first : Option ℕ} {ready : Bool}
    (hplanted : Planted a) (h : stockSlotInit slot chunkCount chunkSize first a = .ok (ready, a')) :
    Planted a' := by
  obtain ⟨⟨stock, a₁⟩, hstock, h⟩ := bind_eq_ok.mp h
  obtain ⟨-, rfl⟩ := Prod.mk.inj (Except.ok.inj h)
  refine stockAlloc_planted ?_ hstock
  exact hplanted

/-- **The loop of `mem_pool_create`.**  At its end the slots from `n` on are set up: all of them,
or those that an `int` can count. -/
lemma initSlots_slot {turns n : ℕ} (hturns : n + turns = pool.slotCount) (hn : n ≤ 2 ^ 31)
    (hcount : pool.slotCount ≤ 2 ^ 64 - 2 ^ 31)
    (h : initSlots pool chunkCount block turns ((n : ℤ).bmod (2 ^ 32)) a = .ok (true, a')) :
    (∀ j < n, a'.slot j = a.slot j) ∧
      ∀ j, n ≤ j → j < pool.slotCount → j < 2 ^ 31 →
        (a'.slot j).chunkSize = roundChunk (pool.chunkSize j) ∧
          (a'.slot j).chunkCount = chunkCount := by
  induction turns generalizing n a with
  | zero =>
      obtain ⟨-, rfl⟩ := Prod.mk.inj (Except.ok.inj h)
      exact ⟨fun _ _ => rfl, fun j hj hlt => by omega⟩
  | succ turns ih =>
      unfold initSlots at h
      rcases Nat.lt_or_eq_of_le hn with hlt | rfl
      · -- the turn for the slot `n`
        have hsmall : n % 2 ^ 32 = n := Nat.mod_eq_of_lt (by omega)
        have hmod : sizeT ((n : ℤ).bmod (2 ^ 32)) = n := by
          rw [sizeT_bmod_of_lt (hsmall.symm ▸ hlt), hsmall]
        rw [hmod, if_pos (by omega), intAdd_bmod] at h
        obtain ⟨⟨ready, a₁⟩, hinit, h⟩ := bind_eq_ok.mp h
        dsimp only at h
        split_ifs at h with hready
        · obtain ⟨hself, hother⟩ := stockSlotInit_slot hinit
          obtain ⟨hbefore, hafter⟩ := ih (n := n + 1) (by omega) (by omega) h
          refine ⟨fun j hj => ?_, fun j hj hlt' hint => ?_⟩
          · exact (hbefore j (by omega)).trans (hother j (by omega))
          · rcases Nat.eq_or_lt_of_le hj with rfl | hj
            · rw [hbefore n (Nat.lt_succ_self n)]
              exact hself
            · exact hafter j hj hlt' hint
        · cases h
      · -- the `int` has wrapped, and the loop ends
        have hlarge := le_sizeT_bmod (n := 2 ^ 31) (by decide)
        rw [if_neg (by omega)] at h
        obtain ⟨-, rfl⟩ := Prod.mk.inj (Except.ok.inj h)
        exact ⟨fun _ _ => rfl, fun j hj _ hint => by omega⟩

lemma initSlots_planted {turns : ℕ} {i : ℤ} {ready : Bool} (hplanted : Planted a)
    (h : initSlots pool chunkCount block turns i a = .ok (ready, a')) : Planted a' := by
  induction turns generalizing i a with
  | zero =>
      obtain ⟨-, rfl⟩ := Prod.mk.inj (Except.ok.inj h)
      exact hplanted
  | succ turns ih =>
      unfold initSlots at h
      split_ifs at h
      · obtain ⟨⟨set, a₁⟩, hinit, h⟩ := bind_eq_ok.mp h
        have hplanted₁ := stockSlotInit_planted hplanted hinit
        dsimp only at h
        split_ifs at h
        · exact ih hplanted₁ h
        · obtain ⟨-, rfl⟩ := Prod.mk.inj (Except.ok.inj h)
          exact hplanted₁
      · obtain ⟨-, rfl⟩ := Prod.mk.inj (Except.ok.inj h)
        exact hplanted

lemma fillPool_slot {pool' : Pool} (hcount : pool.slotCount ≤ 2 ^ 64 - 2 ^ 31)
    (hplanted : Planted a) (h : fillPool pool chunkCount block a = .ok (some pool', a')) :
    pool' = pool ∧ Planted a' ∧ ∀ j, j < pool.slotCount → j < 2 ^ 31 →
      (a'.slot j).chunkSize = roundChunk (pool.chunkSize j) ∧
        (a'.slot j).chunkCount = chunkCount := by
  obtain ⟨⟨ready, a₁⟩, hinit, h⟩ := bind_eq_ok.mp h
  dsimp only at h
  split_ifs at h with hready
  · obtain ⟨hpool, rfl⟩ := Prod.mk.inj (Except.ok.inj h)
    rw [hready] at hinit
    have hslots := initSlots_slot (n := 0) (Nat.zero_add _) (by omega) hcount hinit
    exact ⟨(Option.some.inj hpool).symm, initSlots_planted hplanted hinit,
      fun j => hslots.2 j (Nat.zero_le j)⟩
  · obtain ⟨a₂, -, h⟩ := bind_eq_ok.mp h
    cases (Prod.mk.inj (Except.ok.inj h)).1

/-- What is known of a new pool. -/
structure Created (start diff count chunkCount : ℕ) (pool : Pool) (a : Arena) : Prop where
  startSize : pool.startSize = start
  diffSize : pool.diffSize = diff
  slotCount : pool.slotCount = count
  room : count * sizeofMemCache < word
  slot : ∀ j, j < count → j < 2 ^ 31 →
    (a.slot j).chunkSize = roundChunk ((start + j * diff) % word) ∧
      (a.slot j).chunkCount = chunkCount
  planted : Planted a

lemma not_created_out {p : ℕ} :
    (free p a >>= fun a => .ok (none, a)) ≠ (.ok (some pool, a') : Except Abort _) := by
  intro h
  obtain ⟨_, -, h⟩ := bind_eq_ok.mp h
  cases (Prod.mk.inj (Except.ok.inj h)).1

lemma created_of_fillPool {start diff count addr slots lock : ℕ}
    (hroom : count * sizeofMemCache < word) (hplanted : Planted a)
    (h : fillPool ⟨addr, start, diff, count, slots, lock⟩ chunkCount block a =
      .ok (some pool, a')) : Created start diff count chunkCount pool a' := by
  have hcount : count ≤ 2 ^ 64 - 2 ^ 31 := by
    unfold sizeofMemCache word at hroom
    omega
  obtain ⟨rfl, hplanted', hslot⟩ := fillPool_slot hcount hplanted h
  exact ⟨rfl, rfl, rfl, hroom, hslot, hplanted'⟩

/-- **`mem_pool_create`** sets up every slot for its own size. -/
lemma memPoolCreate_created {start diff count : ℕ} {threadsafe : Bool} {env : PoolEnv}
    (h : memPoolCreate start diff count chunkCount threadsafe env a = .ok (some pool, a')) :
    Created start diff count chunkCount pool a' := by
  unfold memPoolCreate at h
  cases hpool : env.pool with
  | none => simp [hpool] at h
  | some addr =>
      simp only [hpool] at h
      by_cases hroom : count * sizeofMemCache < word
      · rw [if_pos hroom] at h
        cases hslots : env.slots with
        | none =>
            rw [hslots] at h
            exact absurd h not_created_out
        | some slots =>
            simp only [hslots] at h
            -- `rb_tree_init` leaves the empty tree
            have hinit := Rb.isSet_init stockCompare a.onrbt.node
            split_ifs at h
            · cases hlock : env.lock with
              | none =>
                  rw [hlock] at h
                  exact absurd h not_created_out
              | some lock =>
                  rw [hlock] at h
                  exact created_of_fillPool hroom ⟨[], hinit⟩ h
            · exact created_of_fillPool hroom ⟨[], hinit⟩ h
      · rw [if_neg hroom] at h
        exact absurd h not_created_out

end Create

/-! ## The slot for a size -/

/-- **The call serves the size**: `mem_pool_alloc` returns a null pointer, or a chunk that it takes
from a slot of the pool whose chunks have at least the size. -/
def Serves (pool : Pool) (size : ℕ) (block : Option ℕ) (a : Arena) : Prop :=
  (∃ a', memPoolAlloc pool size block a = .ok (none, a')) ∨
    ∃ slot, pool.slotFor size = some slot ∧ slot < pool.slotCount ∧
      size ≤ (a.slot slot).chunkSize ∧
      ∃ p a', memPoolAlloc pool size block a = .ok (some p, a')

/-- The lower half of `size / diff_size`, which is what the `int` keeps of it. -/
def narrowed (diff size : ℕ) : ℕ := size / diff % 2 ^ 32

/-- `mem_pool_alloc` finds the size too large: the `int` is negative or above `slot_count`. -/
def Refused (diff count size : ℕ) : Prop :=
  2 ^ 31 ≤ narrowed diff size ∨ count < narrowed diff size

/-- The slot is one of the pool, and its chunks have the size. -/
def Fits (start diff count size : ℕ) : Prop :=
  narrowed diff size < count ∧
    size ≤ roundChunk ((start + narrowed diff size * diff) % word)

section Serve

variable {start diff count chunkCount size : ℕ} {pool : Pool} {block : Option ℕ} {a a₁ : Arena}

lemma Created.index_eq (h : Created start diff count chunkCount pool a) (size : ℕ) :
    pool.index size = ((size / diff : ℕ) : ℤ).bmod (2 ^ 32) :=
  congrArg (fun d => ((size / d : ℕ) : ℤ).bmod (2 ^ 32)) h.diffSize

lemma Created.slotFor_refused (h : Created start diff count chunkCount pool a)
    (hrefused : Refused diff count size) : pool.slotFor size = none := by
  have hroom : count * 104 < 2 ^ 64 := h.room
  apply if_pos
  rw [h.index_eq, h.slotCount]
  by_cases hneg : narrowed diff size < 2 ^ 31
  · have hindex := sizeT_bmod_of_lt hneg
    exact hindex ▸ hrefused.resolve_left (not_le.mpr hneg)
  · have hlarge := le_sizeT_bmod (n := size / diff) (not_lt.mp hneg)
    omega

lemma Created.slotFor_accepted (h : Created start diff count chunkCount pool a)
    (haccepted : ¬ Refused diff count size) :
    pool.slotFor size = some (narrowed diff size) := by
  obtain ⟨hnonneg, hle⟩ := not_or.mp haccepted
  have hindex : sizeT (pool.index size) = narrowed diff size :=
    (congrArg sizeT (h.index_eq size)).trans (sizeT_bmod_of_lt (not_le.mp hnonneg))
  unfold Pool.slotFor
  rw [hindex, h.slotCount]
  exact if_neg hle

lemma Created.alloc_refused (h : Created start diff count chunkCount pool a₁) (hdiff : 1 ≤ diff)
    (hrefused : Refused diff count size) : memPoolAlloc pool size block a = .ok (none, a) := by
  have hne : pool.diffSize ≠ 0 := by rw [h.diffSize]; omega
  rw [memPoolAlloc, if_neg hne, h.slotFor_refused hrefused]

/-- A size that is not refused gets what `chunk_alloc` of its slot returns. -/
lemma Created.alloc_accepted (h : Created start diff count chunkCount pool a₁) (hdiff : 1 ≤ diff)
    (haccepted : ¬ Refused diff count size) {r : Option ℕ} :
    (∃ a', memPoolAlloc pool size block a = .ok (r, a')) ↔
      ∃ a', chunkAlloc (narrowed diff size) block a = .ok (r, a') := by
  have hne : pool.diffSize ≠ 0 := by rw [h.diffSize]; omega
  rw [memPoolAlloc, if_neg hne, h.slotFor_accepted haccepted]
  dsimp only
  cases halloc : chunkAlloc (narrowed diff size) block a <;> simp [Except.mapError]

/-- A null pointer is returned for a size that is too large, and when there is no memory. -/
lemma Created.alloc_none_iff (h : Created start diff count chunkCount pool a₁) (hdiff : 1 ≤ diff)
    (hplanted : Planted a) :
    (∃ a', memPoolAlloc pool size block a = .ok (none, a')) ↔
      Refused diff count size ∨ Starved (narrowed diff size) block a := by
  by_cases hrefused : Refused diff count size
  · exact iff_of_true ⟨a, h.alloc_refused hdiff hrefused⟩ (.inl hrefused)
  · rw [h.alloc_accepted hdiff hrefused, or_iff_right hrefused]
    constructor
    · rintro ⟨a', hnull⟩
      exact (chunkAlloc_ok hplanted hnull).1.mp rfl
    · rintro ⟨hempty, rfl⟩
      exact ⟨a, chunkAlloc_of_none hempty⟩

/-- A slot that was taken is large enough exactly if the size fits, and then a chunk is returned
exactly if the slot has one. -/
lemma Created.taken_iff (h : Created start diff count chunkCount pool a₁) (hdiff : 1 ≤ diff)
    (hsame : a.slot = a₁.slot) (hplanted : Planted a) (haccepted : ¬ Refused diff count size) :
    (∃ slot, pool.slotFor size = some slot ∧ slot < pool.slotCount ∧
      size ≤ (a.slot slot).chunkSize ∧
      ∃ p a', memPoolAlloc pool size block a = .ok (some p, a')) ↔
      Fits start diff count size ∧ HasChunk chunkCount (narrowed diff size) block a := by
  have hint : narrowed diff size < 2 ^ 31 := not_le.mp (not_or.mp haccepted).1
  have hchunk : narrowed diff size < count →
      ((∃ p a', memPoolAlloc pool size block a = .ok (some p, a')) ↔
        HasChunk chunkCount (narrowed diff size) block a) := by
    intro hlt
    rw [← (h.slot _ hlt hint).2, ← hsame, ← chunkAlloc_some_iff hplanted]
    exact exists_congr fun p => h.alloc_accepted hdiff haccepted
  rw [h.slotFor_accepted haccepted, h.slotCount]
  constructor
  · rintro ⟨slot, hslot, hlt, hle, hsome⟩
    obtain rfl := Option.some.inj hslot
    rw [hsame, (h.slot _ hlt hint).1] at hle
    exact ⟨⟨hlt, hle⟩, (hchunk hlt).mp hsome⟩
  · rintro ⟨⟨hlt, hle⟩, hhas⟩
    refine ⟨_, rfl, hlt, ?_, (hchunk hlt).mpr hhas⟩
    rwa [hsame, (h.slot _ hlt hint).1]

end Serve

/-- **When `mem_pool_alloc` serves a size.**  In every state that the user of a new pool reaches:
exactly if the size is refused, if there is no memory, or if the chunks of the slot
`size / diff_size` have the size, this slot is one of the pool and it has a chunk. -/
theorem pool_alloc_serves_iff {start diff count chunkCount : ℕ} {threadsafe : Bool} {env : PoolEnv}
    {a₀ a₁ a : Arena} {pool : Pool} {ls : List PoolLabel} {es : List (Option ℕ)}
    (hdiff : 1 ≤ diff)
    (hcreate : memPoolCreate start diff count chunkCount threadsafe env a₀ = .ok (some pool, a₁))
    (hrun : run (poolStep pool) ls a₁ = some (a, es)) (size : ℕ) (block : Option ℕ) :
    Serves pool size block a ↔
      Refused diff count size ∨ Starved (narrowed diff size) block a ∨
        (Fits start diff count size ∧ HasChunk chunkCount (narrowed diff size) block a) := by
  have hcreated := memPoolCreate_created hcreate
  obtain ⟨hsame, hplanted⟩ := run_poolStep_frame hcreated.planted hrun
  unfold Serves
  rw [hcreated.alloc_none_iff hdiff hplanted]
  by_cases hrefused : Refused diff count size
  · exact iff_of_true (.inl (.inl hrefused)) (.inl hrefused)
  · rw [hcreated.taken_iff hdiff hsame hplanted hrefused, or_iff_right hrefused,
      or_iff_right hrefused]

/-- Memory for a pool without a lock. -/
def poolEnv : PoolEnv := ⟨some 64, some 1024, none, fun i => some (4096 * (i + 1))⟩

/-- A pool for 8 and 16 bytes with one chunk in each stock serves 7 bytes when the only chunk of its
first slot is in use: from a new stock, if there is memory for one. -/
theorem pool_alloc_serves_iff_sample : ∃ pool a₁ a,
    memPoolCreate 8 8 2 1 false poolEnv blank = .ok (some pool, a₁) ∧
      run (poolStep pool) [.alloc 7 none, .alloc 8 none] a₁ = some (a, [some 4168, some 8264]) ∧
      Serves pool 7 (some 12288) a ∧ Serves pool 7 none a := by
  have heval : ((memPoolCreate 8 8 2 1 false poolEnv blank).toOption.bind fun r =>
      r.1.bind fun pool => (run (poolStep pool) [.alloc 7 none, .alloc 8 none] r.2).map
        fun s => (s.2, listEmpty (.freeHead 0) s.1.links)) =
        some ([some 4168, some 8264], true) := by
    decide +kernel
  obtain ⟨⟨_, a₁⟩, hret, hpool⟩ := Option.bind_eq_some_iff.mp heval
  obtain ⟨pool, rfl, hmap⟩ := Option.bind_eq_some_iff.mp hpool
  obtain ⟨⟨a, es⟩, hrun, hdata⟩ := Option.map_eq_some_iff.mp hmap
  obtain ⟨rfl, hdry⟩ := Prod.mk.inj hdata
  have hempty : listEmpty (.freeHead (narrowed 8 7)) a.links = true := hdry
  have hcreate : memPoolCreate 8 8 2 1 false poolEnv blank = .ok (some pool, a₁) :=
    ok_of_toOption hret
  have hfits : Fits 8 8 2 7 := ⟨by decide, by decide⟩
  have hchunk : HasChunk 1 (narrowed 8 7) (some 12288) a := by
    rw [HasChunk, if_pos hempty]
    exact ⟨Option.some_ne_none _, Nat.one_pos⟩
  refine ⟨pool, a₁, a, hcreate, hrun, ?_, ?_⟩
  · exact (pool_alloc_serves_iff (by decide) hcreate hrun 7 _).mpr (.inr (.inr ⟨hfits, hchunk⟩))
  · exact (pool_alloc_serves_iff (by decide) hcreate hrun 7 _).mpr (.inr (.inl ⟨hempty, rfl⟩))

/-- A call that ends the program does not serve the size. -/
lemma not_serves_of_abort {pool : Pool} {size : ℕ} {block : Option ℕ} {a : Arena}
    (h : (memPoolAlloc pool size block a).toOption.map Prod.fst = none) :
    ¬ Serves pool size block a := by
  rintro (⟨a', heval⟩ | ⟨-, -, -, -, p, a', heval⟩)
  · rw [heval] at h
    cases h
  · rw [heval] at h
    cases h

/-- **A chunk that is too small.**  A pool with the slots for 8 and 24 bytes: a request for 15 bytes
gets a chunk of 8 bytes, and one for 32 bytes goes to the slot behind the last one and ends the
program.  A pool whose stocks have no chunks ends it at the first request. -/
theorem pool_alloc_too_small :
    (∃ pool a, memPoolCreate 8 16 2 1 false poolEnv blank = .ok (some pool, a) ∧
      ((memPoolAlloc pool 15 none a).toOption.map Prod.fst = some (some 4168) ∧
        pool.slotFor 15 = some 0 ∧ (a.slot 0).chunkSize = 8 ∧ ¬ Serves pool 15 none a) ∧
      (memPoolAlloc pool 32 none a).toOption.map Prod.fst = none ∧
        pool.slotFor 32 = some 2 ∧ ¬ Serves pool 32 none a) ∧
    ∃ pool a, memPoolCreate 8 8 2 0 false poolEnv blank = .ok (some pool, a) ∧
      (memPoolAlloc pool 7 none a).toOption.map Prod.fst = none ∧ ¬ Serves pool 7 none a := by
  have heval : ((memPoolCreate 8 16 2 1 false poolEnv blank).toOption.bind fun r =>
      r.1.map fun pool => ((memPoolAlloc pool 15 none r.2).toOption.map Prod.fst,
        (memPoolAlloc pool 32 none r.2).toOption.map Prod.fst)) =
        some (some (some 4168), none) := by
    decide +kernel
  have hbare : ((memPoolCreate 8 8 2 0 false poolEnv blank).toOption.bind fun r =>
      r.1.map fun pool => (memPoolAlloc pool 7 none r.2).toOption.map Prod.fst) = some none := by
    decide +kernel
  constructor
  · obtain ⟨⟨_, a⟩, hret, hpool⟩ := Option.bind_eq_some_iff.mp heval
    obtain ⟨pool, rfl, hdata⟩ := Option.map_eq_some_iff.mp hpool
    obtain ⟨h15, h32⟩ := Prod.mk.inj hdata
    have hcreate := ok_of_toOption hret
    have hcreated := memPoolCreate_created hcreate
    have hslot15 : pool.slotFor 15 = some 0 :=
      hcreated.slotFor_accepted (by unfold Refused narrowed; decide)
    have hslot32 : pool.slotFor 32 = some 2 :=
      hcreated.slotFor_accepted (by unfold Refused narrowed; decide)
    have hsize : (a.slot 0).chunkSize = 8 := (hcreated.slot 0 (by decide) (by decide)).1
    refine ⟨pool, a, hcreate, ⟨h15, hslot15, hsize, ?_⟩, h32, hslot32, not_serves_of_abort h32⟩
    rintro (⟨a', hnull⟩ | ⟨slot, hslot, -, hle, -⟩)
    · rw [hnull] at h15
      cases h15
    · obtain rfl : 0 = slot := Option.some.inj (hslot15.symm.trans hslot)
      omega
  · obtain ⟨⟨_, a⟩, hret, hpool⟩ := Option.bind_eq_some_iff.mp hbare
    obtain ⟨pool, rfl, hdata⟩ := Option.map_eq_some_iff.mp hpool
    exact ⟨pool, a, ok_of_toOption hret, hdata, not_serves_of_abort hdata⟩

end LinuxC.MemPool
