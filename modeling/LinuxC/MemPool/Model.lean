import LinuxC.Common.ListHead
import LinuxC.Framework.ByteMemory
import LinuxC.Framework.Transition
import LinuxC.RbTree.Model

/-!
# The memory pool (`memory-pool/mem_pool.c`)

A slot hands out chunks of one size.  It gets them from stocks: a stock is one block of
`posix_memalign` with a `struct mem_stock` in front and `chunk_count` chunks behind it.  The stocks
of a slot are in two lists, and all stocks are in a red-black tree ordered by address, in which
`chunk_free` looks up the stock of a chunk.  A chunk that is not in use holds the link of the
recycle list of its stock.

`Arena` is the memory these functions work on.  The headers of the stocks are records; the chunks
are bytes, since the user writes there too.  The numbers are those of `__x86_64__`: `size_t` and
pointers have 64 bits, `int` has 32 and wraps.  Addresses are numbers, and the null pointer is `0`.

What the functions get from outside comes with the call: the block that `posix_memalign` returns,
and whether `malloc` returns memory.  A failing assertion ends the program, and so does a `free` of
something that is no block; both are an `Abort`.  The tree functions get as many turns as they ever
need; should one of them follow a null pointer, that is an `Abort` too.  The mutex of a cache has no
effect on one thread and is only allocated.
-/

namespace LinuxC.MemPool

/-- The number of values of `size_t`, and of pointers. -/
def word : ℕ := 2 ^ 64

def align : ℕ := 8

/-- `sizeof(struct mem_chunk)`. -/
def sizeofMemChunk : ℕ := 8

/-- `sizeof(struct mem_stock)`, which is also the offset of `start`: a `struct rb_node` (32), a
`struct list_head` (16), two pointers and two `int`s. -/
def sizeofMemStock : ℕ := 72

/-- `getpagesize()`. -/
def getpagesize : ℕ := 4096

/-- The conversion of an `int` to `size_t`. -/
def sizeT (x : ℤ) : ℕ := (x % 2 ^ 64).toNat

/-- The value of an `int` after an addition. -/
def intAdd (x y : ℤ) : ℤ := (x + y).bmod (2 ^ 32)

/-- `struct mem_slot`, without the heads of its lists. -/
structure MemSlot where
  chunkSize : ℕ
  chunkCount : ℕ
  stockSize : ℕ

/-- `struct mem_stock`, without its links in the list and in the tree.  The slot is given by its
number; a cache has only the slot `0`. -/
structure MemStock where
  slot : ℕ
  recycle : ℕ
  recycnt : ℤ
  index : ℤ

/-- The objects of type `struct list_head`. -/
inductive ListNode
  | null
  | fullHead (slot : ℕ)
  | freeHead (slot : ℕ)
  | stock (p : ℕ)
  deriving DecidableEq

/-- The ways the program can end. -/
inductive Abort
  /-- `assert(list_empty(&slot->free_head))` of `stock_alloc`. -/
  | listNotEmpty
  /-- `assert(0)` of `chunk_alloc`. -/
  | outOfChunks
  /-- `assert(node != NULL)` of `chunk_free`. -/
  | noStock
  /-- A pointer that points to no stock, or no node of the tree, is followed. -/
  | wild
  /-- `free` of something that is not an allocated block. -/
  | badFree
  deriving DecidableEq

/-- The memory. -/
structure Arena where
  slot : ℕ → MemSlot
  onrbt : Rb.RbTree ℕ
  stock : ℕ → MemStock
  links : Links ListNode
  mem : Mem
  /-- The blocks that `posix_memalign` returned and that were not freed, with their sizes. -/
  heap : List (ℕ × ℕ)

namespace Arena

/-- `stock->start`. -/
def start (p : ℕ) : ℕ := (p + sizeofMemStock) % word

/-- The header of a stock is changed. -/
def setStock (a : Arena) (p : ℕ) (f : MemStock → MemStock) : Arena :=
  { a with stock := Function.update a.stock p (f (a.stock p)) }

/-- `chunk->next`. -/
def next (a : Arena) (chunk : ℕ) : ℕ := leNat (a.mem.read chunk 8)

/-- `chunk->next = x`. -/
def setNext (a : Arena) (chunk x : ℕ) : Arena :=
  { a with mem := a.mem.write chunk (toLE 8 x) }

/-- The pointer returned by `list_first_entry` or `rb_entry`. -/
def entry : ListNode → Except Abort ℕ
  | .stock p => .ok p
  | _ => .error .wild

/-- The result of a function of the tree. -/
def followed {α : Type} : Option α → Except Abort α
  | some x => .ok x
  | none => .error .wild

/-- `free(p)`. -/
def free (p : ℕ) (a : Arena) : Except Abort Arena :=
  if ∃ b ∈ a.heap, b.1 = p then .ok { a with heap := a.heap.filter fun b => b.1 ≠ p }
  else .error .badFree

end Arena

open Arena

/-! ## Stocks -/

def stockCompare (n₁ n₂ : ℕ) : ℤ := if n₁ > n₂ then 1 else if n₁ < n₂ then -1 else 0

def stockSearch (a : Arena) (addr n : ℕ) : ℤ :=
  if (n + (a.slot (a.stock n).slot).stockSize) % word ≤ addr then 1
  else if addr < start n then -1
  else 0

def stockExhausted (a : Arena) (p : ℕ) : Bool :=
  sizeT (a.stock p).index = (a.slot (a.stock p).slot).chunkCount ∧ (a.stock p).recycle = 0

/-- `stock_alloc`; `block` is what `posix_memalign` returns, or that it fails. -/
def stockAlloc (slot : ℕ) (block : Option ℕ) (a : Arena) :
    Except Abort (Option ℕ × Arena) :=
  if listEmpty (.freeHead slot) a.links then
    match block with
    | none => .ok (none, a)
    | some stock => do
        let a := { a with heap := (stock, (a.slot slot).stockSize) :: a.heap }
        let a := { a with links := initListHead (.stock stock) a.links }
        let a := a.setStock stock fun _ => { slot := slot, recycle := 0, recycnt := 0, index := 0 }
        let a := { a with links := listAdd (.stock stock) (.freeHead slot) a.links }
        let (onrbt, _) ← followed (Rb.rbInsert stockCompare (a.onrbt.rbCount + 1) stock a.onrbt)
        .ok (some stock, { a with onrbt := onrbt })
  else .error .listNotEmpty

/-- The size of a chunk that `stock_slot_init` computes from the size asked for. -/
def roundChunk (chunkSize : ℕ) : ℕ :=
  let rest := chunkSize % align
  let chunkSize := if rest ≠ 0 then (chunkSize + (align - rest)) % word else chunkSize
  if chunkSize < sizeofMemChunk then sizeofMemChunk else chunkSize

/-- `stock_slot_init`; whether the slot got its first stock. -/
def stockSlotInit (slot chunkCount chunkSize : ℕ) (block : Option ℕ) (a : Arena) :
    Except Abort (Bool × Arena) := do
  let a := { a with links := initListHead (.fullHead slot) a.links }
  let a := { a with links := initListHead (.freeHead slot) a.links }
  let chunkSize := roundChunk chunkSize
  let stockSize := (chunkCount * chunkSize + sizeofMemStock) % word
  let a := { a with slot := Function.update a.slot slot ⟨chunkSize, chunkCount, stockSize⟩ }
  let (stock, a) ← stockAlloc slot block a
  .ok (stock.isSome, a)

/-! ## Chunks -/

/-- The middle of `chunk_alloc`: a chunk of the stock, from the recycle list or the next one. -/
def chunkTake (slot : ℕ) (stock : ℕ) (a : Arena) : Except Abort (ℕ × Arena) :=
  let s := a.stock stock
  if s.recycle ≠ 0 then
    .ok (s.recycle, a.setStock stock fun s =>
      { s with recycle := a.next s.recycle, recycnt := intAdd s.recycnt (-1) })
  else if sizeT s.index < (a.slot slot).chunkCount then
    .ok ((start stock + sizeT s.index * (a.slot slot).chunkSize) % word,
      a.setStock stock fun s => { s with index := intAdd s.index 1 })
  else .error .outOfChunks

/-- The end of `chunk_alloc`: an exhausted stock goes to the list of the full ones. -/
def stockClose (slot : ℕ) (stock : ℕ) (a : Arena) : Arena :=
  if stockExhausted a stock then
    let a := { a with links := listDel .null (.stock stock) a.links }
    { a with links := listAdd (.stock stock) (.fullHead slot) a.links }
  else a

def chunkAlloc (slot : ℕ) (block : Option ℕ) (a : Arena) :
    Except Abort (Option ℕ × Arena) := do
  let (ready, a) ←
    if listEmpty (.freeHead slot) a.links then do
      let (stock, a) ← stockAlloc slot block a
      pure (stock.isSome, a)
    else pure (true, a)
  if ready then do
    let stock ← entry (a.links.next (.freeHead slot))
    let (chunk, a) ← chunkTake slot stock a
    .ok (some chunk, stockClose slot stock a)
  else .ok (none, a)

/-- The first half of `chunk_free`: an exhausted stock comes back from the list of the full
ones. -/
def stockReopen (stock : ℕ) (a : Arena) : Arena :=
  if stockExhausted a stock then
    let a := { a with links := listDel .null (.stock stock) a.links }
    { a with links := listAdd (.stock stock) (.freeHead (a.stock stock).slot) a.links }
  else a

/-- The chunk is put in front of the recycle list of its stock. -/
def chunkPut (stock p : ℕ) (a : Arena) : Arena :=
  let a := a.setStock stock fun s => { s with recycnt := intAdd s.recycnt 1 }
  let a := a.setNext p (a.stock stock).recycle
  a.setStock stock fun s => { s with recycle := p }

/-- The second half of `chunk_free`: an unused stock is given back when it is not the only one in
the list. -/
def stockRelease (stock : ℕ) (a : Arena) : Except Abort Arena :=
  let s := a.stock stock
  let head := ListNode.freeHead s.slot
  if s.recycnt = s.index ∧ a.links.next (a.links.next head) ≠ head then do
    let a := { a with links := listDel .null (.stock stock) a.links }
    let onrbt ← followed (Rb.rbRemove (a.onrbt.rbCount + 1) stock a.onrbt)
    free stock { a with onrbt := onrbt }
  else .ok a

/-- `rb_search(p, onrbt)`. -/
def findStock (p : ℕ) (a : Arena) : Except Abort (Option ℕ) :=
  followed (Rb.rbSearch (stockSearch a) p a.onrbt (a.onrbt.rbCount + 1) a.onrbt.root)

def chunkFree (p : ℕ) (a : Arena) : Except Abort Arena := do
  match ← findStock p a with
  | none => .error .noStock
  | some stock => stockRelease stock (chunkPut stock p (stockReopen stock a))

/-! ## Caches -/

/-- What `mem_cache_create` gets from outside. -/
structure CreateEnv where
  /-- Whether there is memory for the `struct mem_cache`. -/
  cacheMem : Bool
  /-- The block for the first stock. -/
  block : Option ℕ
  /-- Whether there is memory for the mutex. -/
  lockMem : Bool

/-- `mem_cache_create`: whether a cache is returned, and whether it has a lock. -/
def memCacheCreate (chunkCount chunkSize : ℕ) (threadsafe : Bool) (env : CreateEnv) (a : Arena) :
    Except Abort (Option Bool × Arena) :=
  if env.cacheMem then do
    -- `rb_tree_init`
    let a := { a with onrbt := { a.onrbt with root := none, rbCount := 0 } }
    let (ready, a) ← stockSlotInit 0 chunkCount chunkSize env.block a
    if ready then
      if threadsafe then .ok (if env.lockMem then some true else none, a)
      else .ok (some false, a)
    else .ok (none, a)
  else .ok (none, a)

def memCacheAlloc (block : Option ℕ) (a : Arena) : Except Abort (Option ℕ × Arena) :=
  chunkAlloc 0 block a

def memCacheFree (p : ℕ) (a : Arena) : Except Abort Arena := chunkFree p a

/-! ## A cache and its user -/

/-- `posix_memalign` may return the block `p` of `size` bytes: it is aligned to a page, lies in the
address space and is clear of the blocks that are allocated. -/
def Grant (size : ℕ) (heap : List (ℕ × ℕ)) (p : ℕ) : Prop :=
  p ≠ 0 ∧ getpagesize ∣ p ∧ p + size < word ∧ ∀ b ∈ heap, p + size ≤ b.1 ∨ b.1 + b.2 ≤ p

instance (size : ℕ) (heap : List (ℕ × ℕ)) (p : ℕ) : Decidable (Grant size heap p) :=
  inferInstanceAs (Decidable (_ ∧ _ ∧ _ ∧ _))

/-- A cache and what its user has. -/
structure World where
  arena : Arena
  /-- The chunks that are allocated at the moment. -/
  held : List ℕ
  /-- The chunks that were ever returned by `mem_cache_alloc`. -/
  given : List ℕ

/-- What the user does: call the two functions, and write into the chunks it holds. -/
inductive Label
  | alloc (block : Option ℕ)
  | free (p : ℕ)
  | write (p offset : ℕ) (bytes : List UInt8)

/-- What the user sees. -/
inductive Event
  | allocated (p : Option ℕ)
  | freed (p : ℕ)
  | aborted (cause : Abort)
  deriving DecidableEq

/-- A new cache, when `mem_cache_create` returns one.  There are no stocks before. -/
def create (chunkCount chunkSize : ℕ) (threadsafe : Bool) (env : CreateEnv) (a : Arena) :
    Option World :=
  let stockSize := (chunkCount * roundChunk chunkSize + sizeofMemStock) % word
  if ∀ p ∈ env.block, Grant stockSize [] p then
    match memCacheCreate chunkCount chunkSize threadsafe env { a with heap := [] } with
    | .ok (some _, a) => some ⟨a, [], []⟩
    | _ => none
  else none

/-- One step.  Only allocated chunks are freed and written to, and `posix_memalign` returns only
blocks it may return. -/
def step (w : World) : Label → Option (World × List Event)
  | .alloc block =>
      if ∀ p ∈ block, Grant (w.arena.slot 0).stockSize w.arena.heap p then
        match memCacheAlloc block w.arena with
        | .ok (some p, a) => some (⟨a, p :: w.held, p :: w.given⟩, [.allocated (some p)])
        | .ok (none, a) => some ({ w with arena := a }, [.allocated none])
        | .error cause => some (w, [.aborted cause])
      else none
  | .free p =>
      if p ∈ w.held then
        match memCacheFree p w.arena with
        | .ok a => some ({ w with arena := a, held := w.held.erase p }, [.freed p])
        | .error cause => some (w, [.aborted cause])
      else none
  | .write p offset bytes =>
      if p ∈ w.held ∧ offset + bytes.length ≤ (w.arena.slot 0).chunkSize then
        some ({ w with arena := { w.arena with
          mem := w.arena.mem.write (p + offset) bytes } }, [])
      else none

end LinuxC.MemPool
