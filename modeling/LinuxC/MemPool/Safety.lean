import LinuxC.MemPool.Refinement

/-!
# Safety of the slab allocator

What holds in every state that a user of a cache can reach: the chunks in use do not overlap and lie
in the stocks, the two lists and the recycle lists are what their names say, and no assertion fails
(`slab_safe`).

`stock_slot_init` computes the size of a stock in `size_t`, and a stock counts its chunks in an
`int`; neither is checked.  `Room` is the condition under which both suffice.  Without it the size
of a stock can wrap to less than its chunks need, and the first `mem_cache_free` does not find the
stock of its chunk (`chunk_without_stock`).
-/

namespace LinuxC.MemPool

open Arena

/-! ## The property -/

/-- What a user of the cache relies on; `chunkSize` is the size it asked for. -/
structure SlabSafe (chunkSize : ℕ) (w : World) : Prop where
  /-- A chunk is as large as asked for. -/
  room : chunkSize ≤ (w.arena.slot 0).chunkSize
  disjoint : w.held.Pairwise fun c d =>
    c + (w.arena.slot 0).chunkSize ≤ d ∨ d + (w.arena.slot 0).chunkSize ≤ c
  aligned : ∀ c ∈ w.held, align ∣ c
  /-- A chunk in use lies in the data area of a stock, which `rb_search` finds. -/
  owned : ∀ c ∈ w.held, ∃ p n, (p, n) ∈ w.arena.heap ∧ p + sizeofMemStock ≤ c ∧
    c + (w.arena.slot 0).chunkSize ≤ p + n ∧ findStock c w.arena = .ok (some p)
  /-- Every stock is in one of the two lists, in that of the full ones when it is exhausted. -/
  lists : ∃ full free : List ℕ, w.arena.links.Ring (.fullHead 0) (full.map .stock) ∧
    w.arena.links.Ring (.freeHead 0) (free.map .stock) ∧ (full ++ free).Nodup ∧
    (∀ p, p ∈ full ++ free ↔ ∃ n, (p, n) ∈ w.arena.heap) ∧
    ∀ p ∈ full ++ free, p ∈ full ↔ stockExhausted w.arena p = true
  /-- The recycle list of a stock. -/
  recycle : ∀ p n, (p, n) ∈ w.arena.heap → ∃ cs,
    Threaded w.arena.mem 8 (w.arena.stock p).recycle cs ∧
    (w.arena.stock p).recycnt = cs.length ∧ cs.Nodup ∧ ∀ c ∈ cs, c ∈ w.given ∧ c ∉ w.held ∧
      ∃ j : ℕ, (j : ℤ) < (w.arena.stock p).index ∧
        c = p + sizeofMemStock + j * (w.arena.slot 0).chunkSize

/-! ## The invariant -/

/-- The memory holds the slab `s`, and the user has the cells of `s` that are in use. -/
structure Invariant (g : Geometry) (w : World) (s : Slab ℕ) : Prop where
  rep : Represents g w.arena s
  wf : s.Wf g.count
  held : ∀ c, c ∈ w.held ↔ ∃ p j, s.Held p j ∧ c = g.chunk p j
  nodup : w.held.Nodup
  given : ∀ p j, s.Live p → j < s.index p → g.chunk p j ∈ w.given

section Safe

variable {g : Geometry} {w : World} {s : Slab ℕ} {p q i j : ℕ}

lemma Invariant.cell_inj (h : Invariant g w s) (hp : s.Held p i) (hq : s.Live q)
    (hj : j < s.index q) (he : g.chunk p i = g.chunk q j) : p = q ∧ i = j := by
  have hi := (h.wf.fits p hp.1).index_le
  have hj' := (h.wf.fits q hq).index_le
  have hlt := hp.2.1
  exact g.chunk_inj (h.rep.apart p q hp.1 hq) (by omega) (by omega) he

lemma Invariant.slot_size (h : Invariant g w s) : (w.arena.slot 0).chunkSize = g.size := by
  rw [h.rep.slot]
  rfl

lemma Invariant.disjoint (h : Invariant g w s) :
    w.held.Pairwise fun c d => c + g.size ≤ d ∨ d + g.size ≤ c := by
  refine h.nodup.imp_of_mem fun {c d} hc hd hne => ?_
  obtain ⟨p, i, hp, rfl⟩ := (h.held c).mp hc
  obtain ⟨q, j, hq, rfl⟩ := (h.held d).mp hd
  have hi := (h.wf.fits p hp.1).index_le
  have hj := (h.wf.fits q hq.1).index_le
  have hip := hp.2.1
  have hjq := hq.2.1
  apply g.chunk_apart (h.rep.apart p q hp.1 hq.1) (by omega) (by omega)
  rintro ⟨rfl, rfl⟩
  exact hne rfl

/-- The recycle list in memory is that of the slab. -/
lemma Invariant.recycle (h : Invariant g w s) (hp : s.Live p) : ∃ cs,
    Threaded w.arena.mem 8 (w.arena.stock p).recycle cs ∧
    (w.arena.stock p).recycnt = cs.length ∧ cs.Nodup ∧ ∀ c ∈ cs, c ∈ w.given ∧ c ∉ w.held ∧
      ∃ j : ℕ, (j : ℤ) < (w.arena.stock p).index ∧ c = p + sizeofMemStock + j * g.size := by
  have hst := h.rep.stock p hp
  have hfits := h.wf.fits p hp
  refine ⟨_, hst.recycle, by simpa using hst.recycnt, ?_, fun c hc => ?_⟩
  · exact hfits.nodup.map_on fun i _ j _ he => LinuxC.cell_inj g.size_pos he
  · obtain ⟨j, hj, rfl⟩ := List.mem_map.mp hc
    have hlt := hfits.recycle_lt j hj
    refine ⟨h.given p j hp hlt, fun hmem => ?_, j, by rw [hst.index]; omega, rfl⟩
    obtain ⟨q, i, hq, he⟩ := (h.held _).mp hmem
    obtain ⟨rfl, rfl⟩ := h.cell_inj hq hp hlt he.symm
    exact hq.2.2 hj

/-- **The invariant gives what the user relies on.** -/
lemma Invariant.safe (h : Invariant g w s) {chunkSize : ℕ} (hsize : chunkSize ≤ g.size) :
    SlabSafe chunkSize w := by
  have hlive : ∀ p, s.Live p ↔ ∃ n, (p, n) ∈ w.arena.heap := by
    intro p
    constructor
    · exact fun hp => ⟨g.stockSize, (h.rep.heap _).mpr ⟨hp, rfl⟩⟩
    · rintro ⟨n, hn⟩
      exact ((h.rep.heap _).mp hn).1
  refine ⟨?_, ?_, fun c hc => ?_, fun c hc => ?_, ⟨s.full, s.free, h.rep.lists.ring .full,
    h.rep.lists.ring .free, h.wf.nodup, fun p => ?_, fun p hp => ?_⟩, fun p n hn => ?_⟩
  · rwa [h.slot_size]
  · rw [h.slot_size]
    exact h.disjoint
  · obtain ⟨p, j, hp, rfl⟩ := (h.held c).mp hc
    exact (h.rep.place p hp.1).chunk_dvd
  · obtain ⟨p, j, hp, rfl⟩ := (h.held c).mp hc
    have hj : j < g.count := lt_of_lt_of_le hp.2.1 (h.wf.fits p hp.1).index_le
    have hin := g.chunk_inside (p := p) hj
    refine ⟨p, g.stockSize, (h.rep.heap _).mpr ⟨hp.1, rfl⟩, hin.1, ?_, h.rep.findStock hp.1 hj⟩
    rw [h.slot_size]
    exact hin.2
  · rw [List.mem_append, ← hlive]
    rfl
  · have hp : s.Live p := List.mem_append.mp hp
    rw [h.rep.exhausted hp (h.wf.fits p hp), decide_eq_true_iff]
    constructor
    · exact h.wf.full p
    · intro hex
      rcases hp with hp | hp
      · exact hp
      · exact absurd hex (h.wf.free p hp)
  · rw [h.slot_size]
    exact h.recycle ((hlive p).mpr ⟨n, hn⟩)

/-! ## Steps -/

lemma Invariant.took (h : Invariant g w s) {a : Arena} {s' : Slab ℕ} (hrep : Represents g a s')
    (hwf : s'.Wf g.count) (hnew : ¬ s.Held p j) (hp : s'.Live p) (hj : j < s'.index p)
    (hheld : ∀ q i, s'.Held q i ↔ s.Held q i ∨ q = p ∧ i = j)
    (hindex : ∀ q i, s'.Live q → i < s'.index q → (s.Live q ∧ i < s.index q) ∨ q = p ∧ i = j) :
    Invariant g ⟨a, g.chunk p j :: w.held, g.chunk p j :: w.given⟩ s' := by
  have hle := (hwf.fits p hp).index_le
  refine ⟨hrep, hwf, fun c => ?_, List.nodup_cons.mpr ⟨fun hmem => ?_, h.nodup⟩, fun q i hq hi => ?_⟩
  · constructor
    · intro hc
      rcases List.mem_cons.mp hc with rfl | hc
      · exact ⟨p, j, (hheld p j).mpr (.inr ⟨rfl, rfl⟩), rfl⟩
      · obtain ⟨q, i, hq, rfl⟩ := (h.held c).mp hc
        exact ⟨q, i, (hheld q i).mpr (.inl hq), rfl⟩
    · rintro ⟨q, i, hq, rfl⟩
      rcases (hheld q i).mp hq with hq | ⟨rfl, rfl⟩
      · exact List.mem_cons_of_mem _ ((h.held _).mpr ⟨q, i, hq, rfl⟩)
      · exact List.mem_cons_self ..
  · obtain ⟨q, i, hq, he⟩ := (h.held _).mp hmem
    have hq' := (hheld q i).mpr (.inl hq)
    have hi := (hwf.fits q hq'.1).index_le
    have hlt := hq'.2.1
    obtain ⟨rfl, rfl⟩ := g.chunk_inj (hrep.apart p q hp hq'.1) (by omega) (by omega) he
    exact hnew hq
  · rcases hindex q i hq hi with ⟨hq, hi⟩ | ⟨rfl, rfl⟩
    · exact List.mem_cons_of_mem _ (h.given q i hq hi)
    · exact List.mem_cons_self ..

/-- **`mem_cache_alloc`.** -/
lemma Invariant.alloc (h : Invariant g w s) {block : Option ℕ}
    (hgrant : ∀ p ∈ block, Grant (w.arena.slot 0).stockSize w.arena.heap p) :
    memCacheAlloc block w.arena = .ok (none, w.arena) ∨
      ∃ c a s', memCacheAlloc block w.arena = .ok (some c, a) ∧ s.Step g.count s' ∧
        Invariant g ⟨a, c :: w.held, c :: w.given⟩ s' := by
  have hslot : (w.arena.slot 0).stockSize = g.stockSize := by rw [h.rep.slot]; rfl
  rw [hslot] at hgrant
  cases hfree : s.free with
  | cons p ps =>
      have hp : p ∈ s.free := by simp [hfree]
      obtain ⟨a, heval, hrep⟩ := h.rep.take h.wf hfree
      obtain ⟨hwf, hlive, hnew, hheld⟩ := h.wf.take hp
      have hmine := (hheld p _).mpr (.inr ⟨rfl, rfl⟩)
      refine .inr ⟨_, a, _, heval, .take hp, h.took hrep hwf hnew hmine.1 hmine.2.1 hheld ?_⟩
      intro q i hq hi
      exact (Slab.lt_index_take hi).imp (fun hi => ⟨(hlive q).mp hq, hi⟩) id
  | nil =>
      cases block with
      | none => exact .inl (h.rep.take_none hfree)
      | some p =>
          have hg := hgrant p rfl
          have hout := h.rep.not_live hg
          obtain ⟨a, heval, hrep⟩ := h.rep.take_grow h.wf hfree hg
          have hp : p ∈ (s.grow p).free := List.mem_cons_self ..
          obtain ⟨hwf, hlive, hnew, hheld⟩ := (h.wf.grow g.count_pos hout).take hp
          have hheld' : ∀ q i, ((s.grow p).take g.count p).2.Held q i ↔
              s.Held q i ∨ q = p ∧ i = ((s.grow p).take g.count p).1 := fun q i => by
            rw [hheld, Slab.held_grow hout]
          have hmine := (hheld p _).mpr (.inr ⟨rfl, rfl⟩)
          refine .inr ⟨_, a, _, heval, .grow hfree hout, h.took hrep hwf (fun hh => hout hh.1)
            hmine.1 hmine.2.1 hheld' fun q i hq hi => ?_⟩
          rcases Slab.lt_index_take hi with hi | hi
          · have hqp : q ≠ p := by
              rintro rfl
              simp [Slab.grow] at hi
            refine .inl ⟨(Slab.live_grow.mp ((hlive q).mp hq)).resolve_left hqp, ?_⟩
            simpa [Slab.grow, hqp] using hi
          · exact .inr hi

/-- **`mem_cache_free`** of a chunk in use. -/
lemma Invariant.free (h : Invariant g w s) {c : ℕ} (hc : c ∈ w.held) :
    ∃ a s', memCacheFree c w.arena = .ok a ∧ s.Step g.count s' ∧
      Invariant g { w with arena := a, held := w.held.erase c } s' := by
  obtain ⟨p, j, hp, rfl⟩ := (h.held c).mp hc
  obtain ⟨a, heval, hrep⟩ := h.rep.put h.wf hp
  obtain ⟨hwf, hheld⟩ := h.wf.put hp
  refine ⟨a, _, heval, .put hp, hrep, hwf, fun d => ?_, h.nodup.erase _, fun q i hq hi => ?_⟩
  · rw [h.nodup.mem_erase_iff, h.held]
    constructor
    · rintro ⟨hne, q, i, hq, rfl⟩
      refine ⟨q, i, (hheld q i).mpr ⟨hq, ?_⟩, rfl⟩
      rintro ⟨rfl, rfl⟩
      exact hne rfl
    · rintro ⟨q, i, hq, rfl⟩
      obtain ⟨hq, hne⟩ := (hheld q i).mp hq
      exact ⟨fun he => hne (h.cell_inj hq hp.1 hp.2.1 he), q, i, hq, rfl⟩
  · rw [Slab.index_put] at hi
    exact h.given q i (Slab.live_of_live_put hp.1 hq) hi

/-- **The user writes** into a chunk it holds, which touches no recycle list. -/
lemma Invariant.write (h : Invariant g w s) {c offset : ℕ} {bytes : List UInt8} (hc : c ∈ w.held)
    (hlen : offset + bytes.length ≤ g.size) :
    Invariant g { w with arena := { w.arena with
      mem := w.arena.mem.write (c + offset) bytes } } s := by
  refine ⟨⟨h.rep.slot, h.rep.lists, h.rep.tree, h.rep.heap, h.rep.place, h.rep.apart,
    fun q hq => ?_⟩, h.wf, h.held, h.nodup, h.given⟩
  obtain ⟨p, j, hp, rfl⟩ := (h.held c).mp hc
  obtain ⟨h1, h2, h3, h4⟩ := h.rep.stock q hq
  refine ⟨h1, h2, h3, h4.write fun d hd => ?_⟩
  obtain ⟨i, hi, rfl⟩ := List.mem_map.mp hd
  have hfits := h.wf.fits q hq
  have hle := hfits.index_le
  have hle' := (h.wf.fits p hp.1).index_le
  have hiq := hfits.recycle_lt i hi
  have hjp := hp.2.1
  have hsize : 8 ≤ g.size := g.size_ge
  have hne : ¬ (q = p ∧ i = j) := by
    rintro ⟨rfl, rfl⟩
    exact hp.2.2 hi
  have := g.chunk_apart (h.rep.apart q p hq hp.1) (by omega) (by omega) hne
  omega

/-- **One step** keeps the invariant, and the program does not end. -/
lemma Invariant.step (h : Invariant g w s) {l : Label} {w' : World} {es : List Event}
    (hstep : step w l = some (w', es)) :
    (∃ s', s.Step g.count s' ∧ Invariant g w' s') ∧ ∀ e ∈ es, ∀ cause, e ≠ .aborted cause := by
  cases l with
  | alloc block =>
      rw [MemPool.step] at hstep
      split_ifs at hstep with hgrant
      rcases h.alloc hgrant with heval | ⟨c, a, s', heval, hslab, hinv⟩
      · rw [heval] at hstep
        obtain ⟨rfl, rfl⟩ := Prod.mk.inj (Option.some.inj hstep)
        exact ⟨⟨s, .idle, h⟩, by simp⟩
      · rw [heval] at hstep
        obtain ⟨rfl, rfl⟩ := Prod.mk.inj (Option.some.inj hstep)
        exact ⟨⟨s', hslab, hinv⟩, by simp⟩
  | free c =>
      rw [MemPool.step] at hstep
      split_ifs at hstep with hc
      obtain ⟨a, s', heval, hslab, hinv⟩ := h.free hc
      rw [heval] at hstep
      obtain ⟨rfl, rfl⟩ := Prod.mk.inj (Option.some.inj hstep)
      exact ⟨⟨s', hslab, hinv⟩, by simp⟩
  | write c offset bytes =>
      rw [MemPool.step] at hstep
      split_ifs at hstep with hc
      obtain ⟨rfl, rfl⟩ := Prod.mk.inj (Option.some.inj hstep)
      rw [h.slot_size] at hc
      exact ⟨⟨s, .idle, h.write hc.1 hc.2⟩, by simp⟩

end Safe

/-! ## A new cache -/

/-- A step of a computation that returns was made. -/
lemma bind_eq_ok {ε α β : Type} {x : Except ε α} {f : α → Except ε β} {b : β} :
    x >>= f = .ok b ↔ ∃ y, x = .ok y ∧ f y = .ok b := by
  cases x with
  | error e => simp [bind, Except.bind]
  | ok y => simp [bind, Except.bind]

lemma ok_of_toOption {ε α : Type} {x : Except ε α} {y : α} (h : x.toOption = some y) :
    x = .ok y := by
  cases x with
  | error e => cases h
  | ok z => exact congrArg Except.ok (Option.some.inj h)

/-- The size of a chunk, computed without overflow. -/
def roundUp (chunkSize : ℕ) : ℕ := max sizeofMemChunk ((chunkSize + (align - 1)) / align * align)

/-- **The numbers suffice**: the size of a stock fits `size_t`, and the number of its chunks fits
`int`. -/
def Room (chunkCount chunkSize : ℕ) : Prop :=
  chunkCount < 2 ^ 31 ∧ chunkCount * roundUp chunkSize + sizeofMemStock < word

lemma roundChunk_eq {chunkSize : ℕ} (h : roundUp chunkSize < word) :
    roundChunk chunkSize = roundUp chunkSize := by
  have hlt : (chunkSize + (align - 1)) / align * align < word :=
    lt_of_le_of_lt (le_max_right _ _) h
  have hpad : (if chunkSize % align ≠ 0 then (chunkSize + (align - chunkSize % align)) % word
      else chunkSize) = (chunkSize + (align - 1)) / align * align := by
    split_ifs
    all_goals
      simp only [align, word] at *
      omega
  rw [roundChunk, hpad, roundUp, max_def]
  split_ifs <;> omega

section Create

variable {chunkCount chunkSize : ℕ}

/-- The geometry of the stocks. -/
def geometry (hcount : 1 ≤ chunkCount) (h : Room chunkCount chunkSize) : Geometry where
  count := chunkCount
  size := roundUp chunkSize
  count_pos := hcount
  count_lt := h.1
  size_ge := le_max_left _ _
  size_dvd := by
    rcases max_choice sizeofMemChunk ((chunkSize + (align - 1)) / align * align) with he | he
    · rw [roundUp, he]
      decide
    · rw [roundUp, he]
      exact dvd_mul_left _ _
  fits := h.2

lemma le_roundUp (chunkSize : ℕ) : chunkSize ≤ roundUp chunkSize := by
  refine le_trans ?_ (le_max_right _ _)
  simp only [align]
  omega

lemma Room.roundChunk (hcount : 1 ≤ chunkCount) (h : Room chunkCount chunkSize) :
    roundChunk chunkSize = roundUp chunkSize := by
  refine roundChunk_eq (lt_of_le_of_lt ?_ h.2)
  calc roundUp chunkSize = 1 * roundUp chunkSize := (Nat.one_mul _).symm
    _ ≤ chunkCount * roundUp chunkSize := Nat.mul_le_mul_right _ hcount
    _ ≤ chunkCount * roundUp chunkSize + sizeofMemStock := Nat.le_add_right _ _

/-- No blocks. -/
def noStocks : Slab ℕ := ⟨[], [], fun _ => 0, fun _ => []⟩

lemma not_live_noStocks (p : ℕ) : ¬ noStocks.Live p := by simp [Slab.Live, noStocks]

lemma wf_noStocks (n : ℕ) : noStocks.Wf n := by
  refine ⟨by simp [noStocks], by simp [noStocks], by simp [noStocks], fun p hp => ?_⟩
  exact absurd hp (not_live_noStocks p)

/-- A slot whose lists and tree were just initialised. -/
lemma represents_noStocks (g : Geometry) {a : Arena} {l : Links ListNode} (hslot : a.slot 0 = g.slot)
    (hlinks : a.links = initListHead (.freeHead 0) (initListHead (.fullHead 0) l))
    (hroot : a.onrbt.root = none) (hcount : a.onrbt.rbCount = 0) (hheap : a.heap = []) :
    Represents g a noStocks := by
  have hdead := not_live_noStocks
  refine ⟨hslot, ⟨fun k => ?_, fun i j hij x hx => ?_⟩, ⟨[], ?_, fun p => ?_⟩, fun b => ?_,
    fun p hp => absurd hp (hdead p), fun p q hp => absurd hp (hdead p),
    fun p hp => absurd hp (hdead p)⟩
  · rw [hlinks]
    cases k with
    | full => exact Links.ring_nil rfl rfl
    | free => exact Links.ring_nil rfl rfl
  · cases i <;> cases j <;> simp_all [head, nodesOf, noStocks]
  · refine ⟨⟨.nil, 0, ⟨hroot, trivial, List.nodup_nil⟩, rfl, rfl, rfl⟩, List.Pairwise.nil, hcount⟩
  · exact iff_of_false (by simp) (hdead p)
  · rw [hheap]
    exact iff_of_false (by simp) fun hb => hdead _ hb.1

/-- `stock_alloc` returns the memory that it got, and leaves the slots alone. -/
lemma stockAlloc_spec {slot : ℕ} {block r : Option ℕ} {a a' : Arena}
    (h : stockAlloc slot block a = .ok (r, a')) : r = block ∧ a'.slot = a.slot := by
  unfold stockAlloc at h
  split_ifs at h
  cases block with
  | none =>
      obtain ⟨rfl, rfl⟩ := Prod.mk.inj (Except.ok.inj h)
      exact ⟨rfl, rfl⟩
  | some p =>
      obtain ⟨_, -, h⟩ := bind_eq_ok.mp h
      obtain ⟨rfl, rfl⟩ := Prod.mk.inj (Except.ok.inj h)
      exact ⟨rfl, rfl⟩

/-- **A new cache**: `stock_slot_init` got its first stock. -/
lemma create_some {threadsafe : Bool} {env : CreateEnv} {a : Arena} {w : World}
    (h : create chunkCount chunkSize threadsafe env a = some w) :
    ∃ p a₁, env.block = some p ∧
      Grant ((chunkCount * roundChunk chunkSize + sizeofMemStock) % word) [] p ∧
      stockSlotInit 0 chunkCount chunkSize (some p) { a with
        onrbt := { a.onrbt with root := none, rbCount := 0 }, heap := [] } = .ok (true, a₁) ∧
      w = ⟨a₁, [], []⟩ := by
  unfold create at h
  dsimp only at h
  split_ifs at h with hgrant
  cases hmem : env.cacheMem with
  | false => simp [memCacheCreate, hmem] at h
  | true =>
      simp only [memCacheCreate, hmem, if_true] at h
      cases hinit : stockSlotInit 0 chunkCount chunkSize env.block { a with
          onrbt := { a.onrbt with root := none, rbCount := 0 }, heap := [] } with
      | error cause =>
          rw [hinit] at h
          cases h
      | ok r =>
          obtain ⟨ready, a₁⟩ := r
          rw [hinit] at h
          obtain ⟨⟨stock, a₂⟩, hstock, hret⟩ := bind_eq_ok.mp hinit
          obtain ⟨rfl, rfl⟩ := Prod.mk.inj (Except.ok.inj hret)
          obtain ⟨rfl, -⟩ := stockAlloc_spec hstock
          cases hblock : env.block with
          | none =>
              -- `stock_alloc` returns null
              rw [hblock] at h
              cases h
          | some p =>
              rw [hblock] at hinit h
              refine ⟨p, a₂, rfl, hgrant p hblock, hinit, ?_⟩
              cases ht : threadsafe <;> cases hl : env.lockMem <;>
                simp [ht, hl, bind, Except.bind] at h <;> exact h.symm

/-- **A new cache** has the invariant. -/
lemma create_invariant (hcount : 1 ≤ chunkCount) (hroom : Room chunkCount chunkSize)
    {threadsafe : Bool} {env : CreateEnv} {a : Arena} {w : World}
    (h : create chunkCount chunkSize threadsafe env a = some w) :
    ∃ p, Invariant (geometry hcount hroom) w (noStocks.grow p) := by
  let g := geometry hcount hroom
  let a₀ : Arena := { a with
    slot := Function.update a.slot 0 g.slot
    onrbt := { a.onrbt with root := none, rbCount := 0 }
    links := initListHead (.freeHead 0) (initListHead (.fullHead 0) a.links)
    heap := [] }
  have hrep : Represents g a₀ noStocks :=
    represents_noStocks g (Function.update_self 0 g.slot a.slot) rfl rfl rfl rfl
  have hround := hroom.roundChunk hcount
  have hsize : (chunkCount * roundChunk chunkSize + sizeofMemStock) % word = g.stockSize := by
    rw [hround]
    exact Nat.mod_eq_of_lt hroom.2
  obtain ⟨p, a₁, -, hg, hinit, rfl⟩ := create_some h
  rw [hsize] at hg
  -- `stock_slot_init` leaves the first stock to `stock_alloc`
  have hstock : stockSlotInit 0 chunkCount chunkSize (some p) { a with
      onrbt := { a.onrbt with root := none, rbCount := 0 }, heap := [] } =
        stockAlloc 0 (some p) a₀ >>= fun r => .ok (r.1.isSome, r.2) := by
    simp only [stockSlotInit, hround]
    rw [← hround, hsize, hround]
    rfl
  obtain ⟨a₂, halloc, hrep₁⟩ := hrep.grow rfl hg
  rw [hstock, halloc] at hinit
  obtain ⟨-, rfl⟩ := Prod.mk.inj (Except.ok.inj hinit)
  have hwf := (wf_noStocks g.count).grow g.count_pos (not_live_noStocks p)
  refine ⟨p, hrep₁, hwf, fun c => ?_, List.nodup_nil, fun q j hq hj => ?_⟩
  · apply iff_of_false (by simp)
    rintro ⟨q, j, hq, -⟩
    exact not_live_noStocks q ((Slab.held_grow (not_live_noStocks p)).mp hq).1
  · exfalso
    have hindex : (noStocks.grow p).index q = 0 := by
      simp [Slab.grow, noStocks]
    omega

end Create

/-! ## Every run -/

/-- **Safety of the slab allocator.**  When the numbers suffice, every state that the user of a new
cache reaches is safe, and the program does not end on the way. -/
theorem slab_safe {chunkCount chunkSize : ℕ} (hcount : 1 ≤ chunkCount)
    (hroom : Room chunkCount chunkSize) {threadsafe : Bool} {env : CreateEnv} {a : Arena}
    {w₀ w : World} {ls : List Label} {es : List Event}
    (hcreate : create chunkCount chunkSize threadsafe env a = some w₀)
    (hrun : run step ls w₀ = some (w, es)) :
    SlabSafe chunkSize w ∧ ∀ e ∈ es, ∀ cause, e ≠ .aborted cause := by
  let g := geometry hcount hroom
  have halong : Along step (fun _ _ => True) ls w₀ := along_of_forall (fun _ _ => trivial) w₀
  obtain ⟨p, hp⟩ := create_invariant hcount hroom hcreate
  obtain ⟨⟨s, hs⟩, hes⟩ := run_safe (I := fun w => ∃ s, Invariant g w s)
    (P := fun e => ∀ cause, e ≠ .aborted cause)
    (fun ⟨_, hinv⟩ _ hstep => (hinv.step hstep).imp (fun ⟨s', _, hinv'⟩ => ⟨s', hinv'⟩) id)
    ⟨_, hp⟩ halong hrun
  exact ⟨hs.safe (le_roundUp chunkSize), hes⟩

/-- Memory before anything is allocated. -/
def blank : Arena where
  slot := fun _ => ⟨0, 0, 0⟩
  onrbt := ⟨none, fun _ => ⟨none, none, none, .red⟩, 0⟩
  stock := fun _ => ⟨0, 0, 0, 0⟩
  links := ⟨id, id⟩
  mem := fun _ => 0
  heap := []

/-- The user allocates two chunks, writes into the first one and frees both; a stock has one
chunk. -/
def sampleRun : List Label :=
  [.alloc none, .alloc (some 8192), .write 4168 0 [1, 2, 3, 4, 5], .free 4168, .free 8264]

/-- The second stock is given back in this run. -/
theorem slab_safe_sample : ∃ w₀ w es, create 1 5 true ⟨true, some 4096, true⟩ blank = some w₀ ∧
    run step sampleRun w₀ = some (w, es) ∧
    es = [.allocated (some 4168), .allocated (some 8264), .freed 4168, .freed 8264] ∧
    w.arena.heap = [(4096, 80)] ∧ SlabSafe 5 w := by
  have heval : ((create 1 5 true ⟨true, some 4096, true⟩ blank).bind fun w₀ =>
      (run step sampleRun w₀).map fun r => (r.2, r.1.arena.heap)) =
      some ([.allocated (some 4168), .allocated (some 8264), .freed 4168, .freed 8264],
        [(4096, 80)]) := by
    decide +kernel
  obtain ⟨w₀, hcreate, hmap⟩ := Option.bind_eq_some_iff.mp heval
  obtain ⟨⟨w, es⟩, hrun, he⟩ := Option.map_eq_some_iff.mp hmap
  obtain ⟨rfl, hheap⟩ := Prod.mk.inj he
  exact ⟨w₀, w, _, hcreate, hrun, rfl, hheap,
    (slab_safe (by decide) (by unfold Room; decide) hcreate hrun).1⟩

/-- **A chunk without a stock.**  A cache for `2 ^ 61` chunks of `8` bytes: the size of a stock wraps
to that of its header, so the first chunk lies behind the block, and `mem_cache_free` of it ends the
program. -/
theorem chunk_without_stock : ∃ w₀ w,
    create (2 ^ 61) 8 false ⟨true, some 4096, true⟩ blank = some w₀ ∧
    run step [.alloc none, .free 4168] w₀ =
      some (w, [.allocated (some 4168), .aborted .noStock]) ∧
    w₀.arena.heap = [(4096, 72)] := by
  have heval : ((create (2 ^ 61) 8 false ⟨true, some 4096, true⟩ blank).bind fun w₀ =>
      (run step [.alloc none, .free 4168] w₀).map fun r => (r.2, w₀.arena.heap)) =
      some ([.allocated (some 4168), .aborted .noStock], [(4096, 72)]) := by
    decide +kernel
  obtain ⟨w₀, hcreate, hmap⟩ := Option.bind_eq_some_iff.mp heval
  obtain ⟨⟨w, es⟩, hrun, he⟩ := Option.map_eq_some_iff.mp hmap
  obtain ⟨rfl, hheap⟩ := Prod.mk.inj he
  exact ⟨w₀, w, hcreate, hrun, hheap⟩

end LinuxC.MemPool
