import LinuxC.MemPool.Cleanup

/-!
# Stocks that are to fill some pages

`mem_chunk_count` tells its caller how many chunks of a size go into some pages with the header of
a stock, and `stock_slot_init` lays the stock out.  The first divides by the size as it is asked
for, the second multiplies by the size rounded up to a multiple of `ALIGN`.  The stock fits the
pages if and only if the bytes that the division leaves over pay for the padding of all the chunks.
-/

namespace LinuxC.MemPool

open Arena

/-- `mem_chunk_count`; `getpagesize()` is an argument.  The product is one of two `int`s, which is
undefined outside their range, as is a division by zero. -/
def memChunkCount (pagesize pages : ℤ) (chunkSize : ℕ) : Option ℕ :=
  let bytes := pagesize * pages
  if -(2 ^ 31) ≤ bytes ∧ bytes < 2 ^ 31 ∧ chunkSize ≠ 0 then
    some ((sizeT bytes + (word - sizeofMemStock)) % word / chunkSize)
  else none

/-- A slot that is set up with the number of chunks for some pages has stocks that fit these. -/
def FitsPages (pagesize pages : ℤ) (chunkSize : ℕ) : Prop :=
  ∃ chunkCount, memChunkCount pagesize pages chunkSize = some chunkCount ∧
    ∀ slot block a ready a',
      stockSlotInit slot chunkCount chunkSize block a = .ok (ready, a') →
        ((a'.slot slot).stockSize : ℤ) ≤ pages * pagesize

/-- The bytes that `stock_slot_init` adds to a chunk. -/
def padding (chunkSize : ℕ) : ℕ := (align - chunkSize % align) % align

/-! ## The size of a stock -/

/-- `stock_slot_init` sets the slot, with memory for a stock or without. -/
lemma stockSlotInit_stockSize {slot chunkCount chunkSize : ℕ} {block : Option ℕ} {ready : Bool}
    {a a' : Arena} (h : stockSlotInit slot chunkCount chunkSize block a = .ok (ready, a')) :
    (a'.slot slot).stockSize = stockSizeOf chunkCount chunkSize := by
  obtain ⟨⟨stock, a₁⟩, hstock, h⟩ := bind_eq_ok.mp h
  obtain ⟨-, rfl⟩ := Prod.mk.inj (Except.ok.inj h)
  rw [(stockAlloc_spec hstock).2]
  simp [stockSizeOf]

/-- `stock_slot_init` returns when there is no memory for the stock. -/
lemma stockSlotInit_none (slot chunkCount chunkSize : ℕ) (a : Arena) :
    ∃ a', stockSlotInit slot chunkCount chunkSize none a = .ok (false, a') := by
  have hempty : listEmpty (.freeHead slot)
      (initListHead (.freeHead slot) (initListHead (.fullHead slot) a.links)) = true := by
    simp [listEmpty, initListHead, Links.setNext, Links.setPrev]
  simp only [stockSlotInit, stockAlloc, hempty, if_true]
  exact ⟨_, rfl⟩

lemma fitsPages_iff {pagesize pages : ℤ} {chunkSize : ℕ} :
    FitsPages pagesize pages chunkSize ↔
      ∃ chunkCount, memChunkCount pagesize pages chunkSize = some chunkCount ∧
        (stockSizeOf chunkCount chunkSize : ℤ) ≤ pages * pagesize := by
  refine exists_congr fun chunkCount => and_congr_right fun _ => ⟨fun h => ?_, fun h => ?_⟩
  · obtain ⟨a', hinit⟩ := stockSlotInit_none 0 chunkCount chunkSize blank
    rw [← stockSlotInit_stockSize hinit]
    exact h 0 none blank false a' hinit
  · intro slot block a ready a' hinit
    rwa [stockSlotInit_stockSize hinit]

/-! ## When it fits -/

lemma padding_lt (chunkSize : ℕ) : padding chunkSize < align := Nat.mod_lt _ (by decide)

lemma roundChunk_eq_add_padding {chunkSize : ℕ} (hsize : 1 ≤ chunkSize)
    (hlt : chunkSize < 2 ^ 31) : roundChunk chunkSize = chunkSize + padding chunkSize := by
  have hround : roundUp chunkSize = chunkSize + padding chunkSize := by
    simp only [roundUp, padding, align, sizeofMemChunk]
    omega
  have hpad := padding_lt chunkSize
  rw [roundChunk_eq (by simp only [hround, word, align] at *; omega), hround]

/-- Blocks of a padded size, as many as there are of the plain size, fit if the rest of the
division pays for the padding. -/
lemma div_mul_padded_le_iff (n size pad : ℕ) :
    n / size * (size + pad) ≤ n ↔ n / size * pad ≤ n % size := by
  have hdiv : n / size * size + n % size = n := Nat.div_add_mod' n size
  calc n / size * (size + pad) ≤ n
      ↔ n / size * size + n / size * pad ≤ n / size * size + n % size := by rw [Nat.mul_add, hdiv]
    _ ↔ n / size * pad ≤ n % size := Nat.add_le_add_iff_left

/-- The number of chunks, when the pages have more bytes than the header and these fit `int`. -/
lemma memChunkCount_eq {pagesize pages : ℤ} {chunkSize : ℕ} (hsize : 1 ≤ chunkSize)
    (hheader : sizeofMemStock < pages * pagesize) (hint : pages * pagesize < 2 ^ 31) :
    memChunkCount pagesize pages chunkSize =
      some ((pages * pagesize - sizeofMemStock).toNat / chunkSize) := by
  rw [memChunkCount, mul_comm pagesize pages]
  generalize pages * pagesize = bytes at *
  have hlow : -(2 ^ 31) ≤ bytes := by
    simp only [sizeofMemStock] at hheader
    omega
  have hbytes : (sizeT bytes + (word - sizeofMemStock)) % word =
      (bytes - sizeofMemStock).toNat := by
    simp only [sizeT, word, sizeofMemStock] at *
    omega
  rw [if_pos ⟨hlow, hint, by omega⟩, hbytes]

/-- The stock of a number of chunks whose bytes are few is not too large for `size_t`. -/
lemma stockSizeOf_le_iff (bytes : ℕ) {chunkSize : ℕ} (hsize : 1 ≤ chunkSize)
    (hint : bytes < 2 ^ 31) :
    stockSizeOf (bytes / chunkSize) chunkSize ≤ bytes + sizeofMemStock ↔
      bytes / chunkSize * padding chunkSize ≤ bytes % chunkSize := by
  rcases lt_or_ge bytes chunkSize with hlt | hge
  · -- no chunk at all
    rw [Nat.div_eq_of_lt hlt, stockSizeOf, Nat.zero_mul, Nat.zero_mul, Nat.zero_add]
    simp only [sizeofMemStock, word]
    omega
  · have hpad := padding_lt chunkSize
    have hpadded : chunkSize + padding chunkSize ≤ chunkSize * 8 := by
      simp only [align] at hpad
      omega
    have hbytes : bytes / chunkSize * (chunkSize + padding chunkSize) ≤ bytes * 8 :=
      calc bytes / chunkSize * (chunkSize + padding chunkSize)
          ≤ bytes / chunkSize * (chunkSize * 8) := Nat.mul_le_mul_left _ hpadded
        _ = bytes / chunkSize * chunkSize * 8 := (Nat.mul_assoc ..).symm
        _ ≤ bytes * 8 := Nat.mul_le_mul_right _ (Nat.div_mul_le_self _ _)
    rw [← div_mul_padded_le_iff, stockSizeOf,
      roundChunk_eq_add_padding hsize (lt_of_le_of_lt hge hint)]
    rw [Nat.mod_eq_of_lt (by simp only [word, sizeofMemStock]; omega), Nat.add_le_add_iff_right]

/-- **The chunks fit the pages** exactly if the bytes of the pages are an `int` and the rest of the
division by the chunk size pays for the padding of every chunk. -/
theorem fitsPages_iff_padding {pagesize pages : ℤ} {chunkSize : ℕ} (hsize : 1 ≤ chunkSize)
    (hheader : sizeofMemStock < pages * pagesize) :
    FitsPages pagesize pages chunkSize ↔ pages * pagesize < 2 ^ 31 ∧
      (pages * pagesize - sizeofMemStock).toNat / chunkSize * padding chunkSize ≤
        (pages * pagesize - sizeofMemStock).toNat % chunkSize := by
  rw [fitsPages_iff]
  by_cases hint : pages * pagesize < 2 ^ 31
  · rw [and_iff_right hint, memChunkCount_eq hsize hheader hint,
      ← stockSizeOf_le_iff _ hsize (by simp only [sizeofMemStock] at *; omega)]
    simp only [Option.some.injEq, exists_eq_left']
    omega
  · have hnone : memChunkCount pagesize pages chunkSize = none :=
      if_neg fun h => hint (mul_comm pagesize pages ▸ h.2.1)
    refine iff_of_false ?_ fun h => hint h.1
    rintro ⟨chunkCount, hcount, -⟩
    rw [hnone] at hcount
    cases hcount

/-- A chunk of one byte takes eight, which the number of chunks does not know. -/
theorem not_fitsPages_one : ¬ FitsPages getpagesize 1 1 := by
  rw [fitsPages_iff]
  rintro ⟨chunkCount, hcount, hle⟩
  obtain rfl : chunkCount = 4024 := by
    rw [memChunkCount_eq le_rfl (by decide) (by decide)] at hcount
    exact (Option.some.inj hcount).symm
  exact absurd hle (by decide)

/-- Chunks of 1000 bytes need no padding; those of 100 bytes do, and the rest is too small. -/
theorem fitsPages_sample : FitsPages 4096 2 1000 ∧ ¬ FitsPages 4096 1 100 :=
  ⟨(fitsPages_iff_padding (by decide) (by decide)).mpr (by decide),
    fun h => absurd ((fitsPages_iff_padding (by decide) (by decide)).mp h) (by decide)⟩

end LinuxC.MemPool
