import LinuxC.Framework.Transition
import LinuxC.Ipc.Handles
import Mathlib.Data.List.Nodup
import Mathlib.Data.List.Perm.Subperm

/-!
# The topic buckets are exact

What the buckets are for: the bucket of a topic holds one node of every live peer that has sent
its `IPC_SDK_MSG_SYNC` and subscribes to the topic, in the order of these messages.  The order is
the abstract state (`syncOrder`), and `bucketNodes` says what the buckets have to be; `BucketsOk`
is the relation between the two, with the rings of the memory on the side of the code.

The peers are registered, synchronised at most once each, unregistered and released in any order.
-/

namespace LinuxC.Ipc

/-! ## What the buckets hold -/

/-- The mask of a live handle. -/
def maskOf (core : IpcCore) (p : Ptr) : ℕ := (core.handle p).elim 0 fun s => s.mask.toNat

/-- The nodes of the bucket `i`: those of the peers of `order` whose mask has the bit, each at the
rank of the bit. -/
def bucketNodes (mask : Ptr → ℕ) (order : List Ptr) (i : ℕ) : List Addr :=
  (order.filter fun p => (mask p).testBit i).map fun p => .node p (rank (mask p) i)

/-- The handles of the calls with `IPC_CLIENT_SYNC`. -/
def syncs (log : List ManagerCall) : List Ptr :=
  log.filterMap fun c => if c.cmd = .sync then some c.sevr else none

/-- The live peers that have synchronised, in this order. -/
def syncOrder (core : IpcCore) : List Ptr :=
  (syncs core.log).filter fun p => (core.handle p).isSome

/-- The head of a bucket. -/
def bucketHead (i : Fin 64) : Addr := .bucket i

@[simp] lemma mem_bucketNodes {mask : Ptr → ℕ} {order : List Ptr} {i : ℕ} {a : Addr} :
    a ∈ bucketNodes mask order i ↔
      ∃ p ∈ order, (mask p).testBit i = true ∧ a = .node p (rank (mask p) i) := by
  simp only [bucketNodes, List.mem_map, List.mem_filter]
  grind

lemma bucketNodes_congr {mask mask' : Ptr → ℕ} {order : List Ptr} (i : ℕ)
    (h : ∀ p ∈ order, mask' p = mask p) : bucketNodes mask' order i = bucketNodes mask order i := by
  unfold bucketNodes
  rw [List.filter_congr fun p hp => by rw [h p hp]]
  exact List.map_congr_left fun p hp => by rw [h p (List.mem_of_mem_filter hp)]

lemma nodup_bucketNodes {mask : Ptr → ℕ} {order : List Ptr} (i : ℕ) (h : order.Nodup) :
    (bucketNodes mask order i).Nodup := by
  refine (h.filter _).map_on fun p _ q _ heq => ?_
  exact (Addr.node.inj heq).1

lemma bucketNodes_append (mask : Ptr → ℕ) (order : List Ptr) (p : Ptr) (i : ℕ) :
    bucketNodes mask (order ++ [p]) i = bucketNodes mask order i ++
      if (mask p).testBit i then [.node p (rank (mask p) i)] else [] := by
  simp only [bucketNodes, List.filter_append, List.map_append]
  split_ifs with h <;> simp [h]

/-- Without the nodes of a peer the bucket is that of the other peers. -/
lemma bucketNodes_diff {mask : Ptr → ℕ} {order : List Ptr} (h : order.Nodup) (p : Ptr) {i : ℕ}
    (hi : i < 64) :
    (bucketNodes mask order i).diff ((List.range (rank (mask p) 64)).map (.node p)) =
      bucketNodes mask (order.erase p) i := by
  rw [(nodup_bucketNodes i h).sdiff_eq_filter, bucketNodes, bucketNodes, h.erase_eq_filter,
    List.filter_map, List.filter_filter, List.filter_filter]
  congr 1
  apply List.filter_congr
  intro q _
  cases hbit : (mask q).testBit i with
  | false => simp
  | true =>
      rcases eq_or_ne q p with rfl | hqp
      · simpa using rank_lt hbit hi
      · simp [hqp, hqp.symm]

/-! ## The loops over the nodes -/

section Loops

variable {xs : Fin 64 → List Addr} {l : Links Addr}

/-- **The loop of `ipc_release`** takes the nodes of the peer out of the buckets. -/
lemma family_foldl_listDelete (p : Ptr) (js : List ℕ) (hf : l.Family bucketHead xs)
    (hjs : js.Nodup) (hmem : ∀ j ∈ js, ∃ i, .node p j ∈ xs i) :
    (js.foldl (fun l j => listDelete (.node p j) l) l).Family bucketHead
      fun i => (xs i).diff (js.map (.node p)) := by
  induction js generalizing xs l with
  | nil => simpa using hf
  | cons j js ih =>
      obtain ⟨i, hi⟩ := hmem j (by simp)
      rw [List.nodup_cons] at hjs
      have h1 := ih (family_listDelete hf hi) hjs.2 fun j' hj' => by
        obtain ⟨i', hi'⟩ := hmem j' (by simp [hj'])
        refine ⟨i', (List.mem_erase_of_ne ?_).mpr hi'⟩
        rintro heq
        exact hjs.1 ((Addr.node.inj heq).2 ▸ hj')
      simpa [List.diff_cons] using h1

/-- What the loop of `ipc_peer_node_init` leaves: the nodes of the bits from `i` on are linked and
marked. -/
structure NodesLinked (p : Ptr) (s : IpcServer) (core core' : IpcCore) : Prop where
  self : core'.handle p = some { s with node := List.replicate (bitCount s.mask) true }
  other : ∀ q, q ≠ p → core'.handle q = core.handle q
  rest : core' = { core with handle := core'.handle, links := core'.links }

lemma nodeInit_done {p : Ptr} {s : IpcServer} {i j : ℕ} {core : IpcCore} (hi : i ≤ 64)
    (hnone : ∀ m, i ≤ m → s.mask.toNat.testBit m = false) (hj : j = rank s.mask.toNat i)
    (hhandle : core.handle p = some { s with
      node := List.replicate j true ++ List.replicate (bitCount s.mask - j) false })
    (hf : core.links.Family bucketHead xs) :
    NodesLinked p s core core ∧ core.links.Family bucketHead fun k =>
      xs k ++ if i ≤ k.val ∧ s.mask.toNat.testBit k then
        [.node p (rank s.mask.toNat k)] else [] := by
  have hrank : bitCount s.mask = j := by
    rw [bitCount_eq, hj]
    refine le_antisymm (Nat.le_of_not_lt fun hlt => ?_) (rank_mono _ hi)
    obtain ⟨m, hm, hbit, hr⟩ := exists_rank hlt
    rcases lt_or_ge m i with hmi | hmi
    · have := rank_lt hbit hmi
      omega
    · simp [hnone m hmi] at hbit
  refine ⟨⟨?_, fun _ _ => rfl, rfl⟩, ?_⟩
  · rw [hhandle, hrank]
    simp
  · apply hf.of_eq
    intro k
    rw [if_neg, List.append_nil]
    rintro ⟨hik, hbit⟩
    simp [hnone k hik] at hbit

lemma testBit_shifted {s : IpcServer} {mask : UInt64} {i : ℕ}
    (hmask : mask.toNat = s.mask.toNat / 2 ^ i) (m : ℕ) :
    mask.toNat.testBit m = s.mask.toNat.testBit (i + m) := by
  rw [hmask, Nat.testBit_div_two_pow, Nat.add_comm]

lemma and_one_ne_zero (mask : UInt64) : mask &&& 1 ≠ 0 ↔ mask.toNat.testBit 0 = true := by
  rw [Ne, ← UInt64.toNat_inj, UInt64.toNat_and, Nat.testBit_zero]
  have hone : (1 : UInt64).toNat = 1 := rfl
  rw [hone, Nat.and_one_is_mod, UInt64.toNat_zero]
  simp

lemma set_replicate {j n : ℕ} (h : j < n) :
    (List.replicate j true ++ List.replicate (n - j) false).set j true =
      List.replicate (j + 1) true ++ List.replicate (n - (j + 1)) false := by
  obtain ⟨k, rfl⟩ : ∃ k, n = j + 1 + k := ⟨n - (j + 1), by omega⟩
  have h1 : j + 1 + k - j = k + 1 := by omega
  have h2 : j + 1 + k - (j + 1) = k := by omega
  rw [h1, h2, List.set_append_right _ _ (by simp), List.replicate_succ, List.replicate_succ']
  simp

/-- **The loop of `ipc_peer_node_init`**, from the bit `i` on. -/
lemma nodeInitLoop_spec {p : Ptr} {s : IpcServer} (fuel : ℕ) {mask : UInt64} {i j : ℕ}
    {core : IpcCore} (hfuel : fuel + i = 64) (hmask : mask.toNat = s.mask.toNat / 2 ^ i)
    (hj : j = rank s.mask.toNat i)
    (hhandle : core.handle p = some { s with
      node := List.replicate j true ++ List.replicate (bitCount s.mask - j) false })
    (hf : core.links.Family bucketHead xs)
    (hnew : ∀ k m, i ≤ m → s.mask.toNat.testBit m = true →
      .node p (rank s.mask.toNat m) ∉ bucketHead k :: xs k) :
    NodesLinked p s core (nodeInitLoop p fuel mask i j core) ∧
      (nodeInitLoop p fuel mask i j core).links.Family bucketHead fun k =>
        xs k ++ if i ≤ k.val ∧ s.mask.toNat.testBit k then
          [.node p (rank s.mask.toNat k)] else [] := by
  induction fuel generalizing mask i j core xs with
  | zero =>
      refine nodeInit_done (by omega) (fun m hm => ?_) hj hhandle hf
      refine Nat.testBit_lt_two_pow (lt_of_lt_of_le s.mask.toNat_lt ?_)
      exact Nat.pow_le_pow_right (by decide) (by omega)
  | succ fuel ih =>
      have hhalf : (mask >>> 1).toNat = s.mask.toNat / 2 ^ (i + 1) := by
        rw [toNat_half, hmask, Nat.div_div_eq_div_mul, pow_succ]
      have hlow := testBit_shifted hmask 0
      have hi : i < 64 := by omega
      rw [nodeInitLoop]
      split_ifs with h0 hbit
      · refine nodeInit_done (by omega) (fun m hm => ?_) hj hhandle hf
        have hm' := testBit_shifted hmask (m - i)
        rw [h0, show i + (m - i) = m by omega] at hm'
        rw [← hm']
        simp
      · rw [and_one_ne_zero, hlow, Nat.add_zero] at hbit
        have hjn : j < bitCount s.mask := by
          rw [bitCount_eq, hj]
          exact rank_lt hbit (by omega)
        have hfam := family_listAddTail hf ⟨i, hi⟩ (n := .node p j) fun k => by
          rw [hj]
          exact hnew k i le_rfl hbit
        have hj' : j + 1 = rank s.mask.toNat (i + 1) := by rw [rank_succ, if_pos hbit, hj]
        have hhandle' : (linkNode p i j core).handle p = some { s with
            node := List.replicate (j + 1) true ++
              List.replicate (bitCount s.mask - (j + 1)) false } := by
          simp only [linkNode, hhandle, if_true, Option.map_some]
          rw [set_replicate hjn]
        have hnew' : ∀ k m, i + 1 ≤ m → s.mask.toNat.testBit m = true →
            .node p (rank s.mask.toNat m) ∉ bucketHead k ::
              Function.update xs ⟨i, hi⟩ (xs ⟨i, hi⟩ ++ [.node p j]) k := by
          intro k m hm hbm
          have hold := hnew k m (by omega) hbm
          have hne : rank s.mask.toNat m ≠ j := fun h => by
            have := rank_inj hbm hbit (h.trans hj)
            omega
          rw [List.mem_cons, not_or] at hold ⊢
          refine ⟨hold.1, ?_⟩
          rw [Function.update_apply]
          split_ifs with hk
          · subst hk
            simpa [hne] using hold.2
          · exact hold.2
        obtain ⟨⟨hself, hother, hrest⟩, h3⟩ := ih (by omega) hhalf hj' hhandle' hfam hnew'
        refine ⟨⟨hself, fun q hq => ?_, ?_⟩, ?_⟩
        · rw [hother q hq]
          simp [linkNode, hq]
        · rw [hrest]
          rfl
        · apply h3.of_eq
          intro k
          rcases eq_or_ne k ⟨i, hi⟩ with rfl | hk
          · simp [hbit, hj]
          · have hki : k.val ≠ i := fun h => hk (Fin.ext h)
            rw [Function.update_of_ne hk]
            congr 1
            refine if_congr (and_congr_left fun _ => ?_) rfl rfl
            omega
      · rw [and_one_ne_zero, hlow, Nat.add_zero, Bool.not_eq_true] at hbit
        obtain ⟨h1, h3⟩ := ih (by omega) hhalf (by rw [rank_succ, hbit, hj]; rfl) hhandle hf
          fun k m hm => hnew k m (by omega)
        refine ⟨h1, ?_⟩
        apply h3.of_eq
        intro k
        congr 1
        refine if_congr (and_congr_left fun hk => ?_) rfl rfl
        have hki : k.val ≠ i := by
          intro h
          rw [h, hbit] at hk
          cases hk
        omega

end Loops

/-! ## The invariant -/

/-- The buckets in the memory are what they have to be.  No peer has synchronised twice. -/
structure BucketsOk (core : IpcCore) : Prop where
  below : ∀ p s, core.handle p = some s → p < core.brk
  logged : ∀ c ∈ core.log, c.sevr < core.brk
  once : (syncs core.log).Nodup
  synced : ∀ p ∈ syncs core.log, ∀ s, core.handle p = some s → s.clazz = .subscriber
  peer : ∀ p s, core.handle p = some s → s.clazz = .subscriber → core.nodeHb = true ∧
    s.node = List.replicate (bitCount s.mask) (decide (p ∈ syncs core.log))
  rings : core.nodeHb = true →
    core.links.Family bucketHead fun i => bucketNodes (maskOf core) (syncOrder core) i

lemma mem_syncs {log : List ManagerCall} {p : Ptr} : p ∈ syncs log ↔ ⟨p, .sync⟩ ∈ log := by
  simp only [syncs, List.mem_filterMap]
  constructor
  · rintro ⟨⟨q, cmd⟩, hc, hp⟩
    split_ifs at hp with hcmd
    obtain rfl : q = p := Option.some.inj hp
    obtain rfl : cmd = .sync := hcmd
    exact hc
  · exact fun h => ⟨_, h, rfl⟩

lemma mem_syncOrder {core : IpcCore} {p : Ptr} :
    p ∈ syncOrder core ↔ p ∈ syncs core.log ∧ ∃ s, core.handle p = some s := by
  simp [syncOrder, Option.isSome_iff_exists]

lemma maskOf_eq {core : IpcCore} {p : Ptr} {s : IpcServer} (h : core.handle p = some s) :
    maskOf core p = s.mask.toNat := by
  simp [maskOf, h]

namespace BucketsOk

variable {core : IpcCore}

lemma nodup_syncOrder (h : BucketsOk core) : (syncOrder core).Nodup := h.once.filter _

/-- A call of the hook that is not for a synchronisation. -/
lemma manager (h : BucketsOk core) {p : Ptr} (cmd : ManagerCmd) (hp : p < core.brk)
    (hcmd : cmd ≠ .sync) : BucketsOk (ipcServerManager p cmd core) := by
  have hsyncs : syncs (ipcServerManager p cmd core).log = syncs core.log := by
    simp [ipcServerManager, syncs, List.filterMap_append, hcmd]
  have horder : syncOrder (ipcServerManager p cmd core) = syncOrder core := by
    rw [syncOrder, hsyncs]
    rfl
  refine ⟨h.below, fun c hc => ?_, by rw [hsyncs]; exact h.once, fun q hq => ?_,
    fun q s hs hc => ?_, fun hb => ?_⟩
  · rcases List.mem_append.mp hc with hc | hc
    · exact h.logged c hc
    · rw [List.mem_singleton.mp hc]
      exact hp
  · rw [hsyncs] at hq
    exact h.synced q hq
  · rw [hsyncs]
    exact h.peer q s hs hc
  · rw [horder]
    exact h.rings hb

lemma close (h : BucketsOk core) (sock : ℕ) : BucketsOk (closeSock sock core) :=
  ⟨h.below, h.logged, h.once, h.synced, h.peer, h.rings⟩

lemma syncOrder_eq_nil (h : BucketsOk core) (hb : core.nodeHb = false) : syncOrder core = [] := by
  rw [List.eq_nil_iff_forall_not_mem]
  intro p hp
  obtain ⟨hsync, s, hs⟩ := mem_syncOrder.mp hp
  have := (h.peer p s hs (h.synced p hsync s hs)).1
  simp [hb] at this

end BucketsOk

lemma initListHead_foldl (is : List ℕ) (l : Links Addr) {i : ℕ}
    (h : i ∈ is ∨ (l.next (.bucket i) = .bucket i ∧ l.prev (.bucket i) = .bucket i)) :
    (is.foldl (fun l i => initListHead (.bucket i) l) l).next (.bucket i) = .bucket i ∧
      (is.foldl (fun l i => initListHead (.bucket i) l) l).prev (.bucket i) = .bucket i := by
  induction is generalizing l with
  | nil => simpa using h
  | cons k is ih =>
      apply ih _
      rcases eq_or_ne i k with rfl | hik
      · exact .inr ⟨by simp [initListHead, Links.setNext, Links.setPrev],
          by simp [initListHead, Links.setNext, Links.setPrev]⟩
      · simpa [hik, initListHead, Links.setNext, Links.setPrev] using h

lemma family_nodeHashBucketInit (core : IpcCore) :
    (nodeHashBucketInit core).links.Family bucketHead fun _ => [] := by
  refine ⟨fun i => ?_, fun i j hij a ha => ?_⟩
  · obtain ⟨hnext, hprev⟩ := initListHead_foldl (List.range 64) core.links (i := i.val)
      (.inl (List.mem_range.mpr i.isLt))
    exact Links.ring_nil hnext hprev
  · simp only [bucketHead, List.mem_singleton] at ha ⊢
    rw [ha]
    intro heq
    exact hij (Fin.ext (Addr.bucket.inj heq))

lemma BucketsOk.buckets {core : IpcCore} (h : BucketsOk core) :
    BucketsOk (needBuckets core) ∧ (needBuckets core).nodeHb = true := by
  unfold needBuckets
  split_ifs with hb
  · exact ⟨h, hb⟩
  · have hnil := h.syncOrder_eq_nil (by simpa using hb)
    refine ⟨⟨h.below, h.logged, h.once, h.synced, fun p s hs hc => ?_, fun _ => ?_⟩, rfl⟩
    · exact ⟨rfl, (h.peer p s hs hc).2⟩
    · have horder : syncOrder (nodeHashBucketInit core) = [] := hnil
      rw [horder]
      exact family_nodeHashBucketInit core

lemma BucketsOk.newPeer {core : IpcCore} (h : BucketsOk core) {s : IpcServer}
    (hnode : s.node = List.replicate (bitCount s.mask) false)
    (hb : core.nodeHb = true) : BucketsOk (sevrInit s core) := by
  have hnew : ∀ p ∈ syncs core.log, p ≠ core.brk := by
    rintro p hp rfl
    exact lt_irrefl _ (h.logged _ (mem_syncs.mp hp))
  have hhandle : ∀ p, p ≠ core.brk → (sevrInit s core).handle p = core.handle p := by
    intro p hp
    simp [sevrInit, IpcCore.setHandle, hp]
  have hself : (sevrInit s core).handle core.brk = some s := by
    simp [sevrInit, IpcCore.setHandle]
  have horder : syncOrder (sevrInit s core) = syncOrder core := by
    apply List.filter_congr
    intro p hp
    rw [hhandle p (hnew p hp)]
  refine ⟨fun p t ht => ?_, fun c hc => Nat.lt_succ_of_lt (h.logged c hc), h.once,
    fun p hp t ht => ?_, fun p t ht hc => ?_, fun _ => ?_⟩
  · rcases eq_or_ne p core.brk with rfl | hp
    · exact Nat.lt_succ_self _
    · exact Nat.lt_succ_of_lt (h.below p t (hhandle p hp ▸ ht))
  · exact h.synced p hp t (hhandle p (hnew p hp) ▸ ht)
  · rcases eq_or_ne p core.brk with rfl | hp
    · obtain rfl : s = t := Option.some.inj (hself.symm.trans ht)
      have hnot : core.brk ∉ syncs (sevrInit s core).log := fun hmem => hnew _ hmem rfl
      refine ⟨hb, ?_⟩
      rw [hnode, decide_eq_false hnot]
    · exact h.peer p t (hhandle p hp ▸ ht) hc
  · rw [horder]
    refine (h.rings hb).of_eq fun i => bucketNodes_congr i fun p hp => ?_
    rw [maskOf, hhandle p (hnew p (mem_syncOrder.mp hp).1), maskOf]

lemma BucketsOk.linked {core core' : IpcCore} (h : BucketsOk core) {p : Ptr} {s : IpcServer}
    (hs : core.handle p = some s) (hclazz : s.clazz = .subscriber) (hp : p ∉ syncs core.log)
    (hl : NodesLinked p s core core')
    (hf : core'.links.Family bucketHead fun i =>
      bucketNodes (maskOf core) (syncOrder core ++ [p]) i) :
    BucketsOk { core' with log := core.log ++ [⟨p, .sync⟩] } := by
  obtain ⟨hself, hother, hrest⟩ := hl
  have hbrk : core'.brk = core.brk := by rw [hrest]
  have hnodeHb : core'.nodeHb = core.nodeHb := by rw [hrest]
  have hsyncs : syncs (core.log ++ [⟨p, .sync⟩]) = syncs core.log ++ [p] := by
    simp [syncs, List.filterMap_append]
  have horder : syncOrder { core' with log := core.log ++ [⟨p, .sync⟩] } =
      syncOrder core ++ [p] := by
    simp only [syncOrder, hsyncs, List.filter_append]
    congr 1
    · apply List.filter_congr
      intro q hq
      rw [hother q fun hqp => hp (hqp ▸ hq)]
    · simp [hself]
  have hmasks : ∀ q, maskOf { core' with log := core.log ++ [⟨p, .sync⟩] } q = maskOf core q := by
    intro q
    rcases eq_or_ne q p with rfl | hq
    · simp [maskOf, hself, hs]
    · simp [maskOf, hother q hq]
  refine ⟨fun q t ht => ?_, fun c hc => ?_, ?_, fun q hq t ht => ?_, fun q t ht hc => ?_,
    fun _ => ?_⟩
  · rcases eq_or_ne q p with rfl | hq
    · exact hbrk ▸ h.below q s hs
    · exact hbrk ▸ h.below q t (hother q hq ▸ ht)
  · rcases List.mem_append.mp hc with hc | hc
    · exact hbrk ▸ h.logged c hc
    · rw [List.mem_singleton.mp hc]
      exact hbrk ▸ h.below p s hs
  · rw [hsyncs]
    refine List.nodup_append.mpr ⟨h.once, by simp, fun q hq r hr => ?_⟩
    rintro rfl
    exact hp (List.mem_singleton.mp hr ▸ hq)
  · rcases eq_or_ne q p with rfl | hqp
    · obtain rfl := Option.some.inj (hself.symm.trans ht)
      exact hclazz
    · rw [hsyncs, List.mem_append, List.mem_singleton] at hq
      exact h.synced q (hq.resolve_right hqp) t (hother q hqp ▸ ht)
  · rw [hsyncs]
    rcases eq_or_ne q p with rfl | hqp
    · obtain rfl := Option.some.inj (hself.symm.trans ht)
      exact ⟨hnodeHb.trans (h.peer q s hs hclazz).1, by simp⟩
    · obtain ⟨hb, hnode⟩ := h.peer q t (hother q hqp ▸ ht) hc
      exact ⟨hnodeHb.trans hb, by simpa [hqp] using hnode⟩
  · rw [horder]
    exact hf.of_eq fun i => bucketNodes_congr i fun q _ => hmasks q

/-- **A synchronisation** puts the nodes of the peer into its buckets. -/
lemma BucketsOk.sync {core : IpcCore} (h : BucketsOk core) (hform : Formed core) {p : Ptr}
    {s : IpcServer} (hs : core.handle p = some s) (hclazz : s.clazz = .subscriber)
    (hp : p ∉ syncs core.log) :
    BucketsOk (ipcServerSync p core) := by
  obtain ⟨hb, hnode⟩ := h.peer p s hs hclazz
  rw [decide_eq_false hp] at hnode
  have hnew : ∀ (k : Fin 64) m, 0 ≤ m → s.mask.toNat.testBit m = true →
      .node p (rank s.mask.toNat m) ∉
        bucketHead k :: bucketNodes (maskOf core) (syncOrder core) k.val := by
    intro k m _ _ hmem
    rcases List.mem_cons.mp hmem with heq | hmem
    · simp [bucketHead] at heq
    · obtain ⟨q, hq, -, heq⟩ := mem_bucketNodes.mp hmem
      exact hp ((Addr.node.inj heq).1 ▸ (mem_syncOrder.mp hq).1)
  have hhandle : core.handle p = some { s with
      node := List.replicate 0 true ++ List.replicate (bitCount s.mask - 0) false } := by
    simp [hs, ← hnode]
  obtain ⟨hl, hf⟩ := nodeInitLoop_spec (p := p) (s := s) 64 (i := 0) (by omega)
    (show s.mask.toNat = s.mask.toNat / 2 ^ 0 by simp) (show 0 = rank s.mask.toNat 0 by rfl)
    hhandle (h.rings hb) hnew
  have hsync : ipcServerSync p core =
      { ipcPeerNodeInit p s.mask core with log := core.log ++ [⟨p, .sync⟩] } := by
    rw [hform.sync_peer hs hclazz, ipcServerManager]
    rw [show (ipcPeerNodeInit p s.mask core).log = core.log by rw [ipcPeerNodeInit, hl.rest]]
  rw [hsync]
  apply h.linked hs hclazz hp hl
  apply hf.of_eq
  intro i
  rw [bucketNodes_append, maskOf_eq hs]
  simp

lemma releaseNodes_synced {s : IpcServer} (p : Ptr) (l : Links Addr)
    (hnode : s.node = List.replicate (bitCount s.mask) true) :
    releaseNodes p s l =
      (List.range (bitCount s.mask)).foldl (fun l j => listDelete (.node p j) l) l := by
  apply List.foldl_ext _ _ _
  intro l j hj
  rw [if_pos]
  rw [hnode, List.getElem?_replicate, if_pos (List.mem_range.mp hj)]

lemma releaseNodes_fresh {s : IpcServer} (p : Ptr) (l : Links Addr)
    (hnode : s.node = List.replicate (bitCount s.mask) false) : releaseNodes p s l = l := by
  have hskip : releaseNodes p s l = (List.range (bitCount s.mask)).foldl (fun l _ => l) l := by
    apply List.foldl_ext _ _ _
    intro l j _
    rw [if_neg]
    rw [hnode, List.getElem?_replicate]
    split_ifs <;> simp
  rw [hskip]
  exact List.foldl_fixed _

lemma BucketsOk.family_release {core : IpcCore} (h : BucketsOk core) {p : Ptr} {s : IpcServer}
    (hs : core.handle p = some s) (hclazz : s.clazz = .subscriber) :
    (releaseNodes p s core.links).Family bucketHead fun i =>
      bucketNodes (maskOf core) ((syncOrder core).erase p) i := by
  obtain ⟨hb, hnode⟩ := h.peer p s hs hclazz
  by_cases hp : p ∈ syncs core.log
  · rw [decide_eq_true hp] at hnode
    rw [releaseNodes_synced p core.links hnode, bitCount_eq, ← maskOf_eq hs]
    refine (family_foldl_listDelete p _ (h.rings hb) List.nodup_range fun j hj => ?_).of_eq
      fun i => (bucketNodes_diff h.nodup_syncOrder p i.isLt).symm
    obtain ⟨i, hi, hbit, hr⟩ := exists_rank (List.mem_range.mp hj)
    exact ⟨⟨i, hi⟩, mem_bucketNodes.mpr ⟨p, mem_syncOrder.mpr ⟨hp, s, hs⟩, hbit, by rw [hr]⟩⟩
  · rw [decide_eq_false hp] at hnode
    rw [releaseNodes_fresh p core.links hnode,
      List.erase_of_not_mem fun hmem => hp (mem_syncOrder.mp hmem).1]
    exact h.rings hb

/-- **A release** takes the nodes of the peer out of its buckets. -/
lemma BucketsOk.release {core : IpcCore} (h : BucketsOk core) {p : Ptr} {s : IpcServer}
    (hs : core.handle p = some s) (hclazz : s.clazz = .subscriber) :
    BucketsOk (ipcRelease p core) := by
  have h1 := h.manager .release (h.below p s hs) (by decide)
  have hf := h1.family_release hs hclazz
  rw [ipcRelease, hs]
  simp only [hclazz]
  set core₁ := ipcServerManager p .release core
  set core' := ipcFree p s { core₁ with links := releaseNodes p s core.links } with hcore'
  have hother : ∀ q, q ≠ p → core'.handle q = core₁.handle q := by
    intro q hq
    simp [hcore', ipcFree, closeSock, IpcCore.setHandle, hq]
  have hself : core'.handle p = none := by
    simp [hcore', ipcFree, closeSock, IpcCore.setHandle]
  have hne : ∀ {q t}, core'.handle q = some t → q ≠ p := by
    rintro q t ht rfl
    simp [hself] at ht
  have horder : syncOrder core' = (syncOrder core₁).erase p := by
    rw [h1.nodup_syncOrder.erase_eq_filter, syncOrder, syncOrder, List.filter_filter]
    apply List.filter_congr
    intro q _
    rcases eq_or_ne q p with rfl | hq
    · simp [hself]
    · simp [hother q hq, hq]
  refine ⟨fun q t ht => h1.below q t (hother q (hne ht) ▸ ht), h1.logged, h1.once,
    fun q hq t ht => h1.synced q hq t (hother q (hne ht) ▸ ht),
    fun q t ht hc => h1.peer q t (hother q (hne ht) ▸ ht) hc, fun _ => ?_⟩
  rw [horder]
  refine hf.of_eq fun i => bucketNodes_congr i fun q hq => ?_
  have hqp : q ≠ p := ((h1.nodup_syncOrder).mem_erase_iff.mp hq).1
  rw [maskOf, hother q hqp, maskOf]

lemma BucketsOk.unregister {core : IpcCore} (h : BucketsOk core) (hform : Formed core) {p : Ptr}
    {s : IpcServer} (hs : core.handle p = some s) (hclazz : s.clazz = .subscriber) :
    BucketsOk (ipcServerUnregister p core).1 := by
  rw [hform.unregister_peer hs hclazz]
  exact (h.manager .unregister (h.below p s hs) (by decide)).release hs hclazz

lemma BucketsOk.register {core : IpcCore} (h : BucketsOk core) (sock : ℕ) (msg : IpcMsg)
    (env : RegisterEnv) : BucketsOk (ipcServerRegister sock msg env core) := by
  obtain ⟨h1, hb⟩ := h.buckets
  have h2 := h1.newPeer (s := newSubscriber sock msg) rfl hb
  obtain hreg | ⟨-, core', rfl, ⟨-, hreg⟩ | hreg⟩ := ipcServerRegister_cases sock msg env core
  · rw [hreg]
    exact h.close sock
  · rw [hreg]
    exact h2
  · rw [hreg]
    have hlt : core.brk < (sevrInit (newSubscriber sock msg) (needBuckets core)).brk := by
      rw [← needBuckets_brk core]
      exact Nat.lt_succ_self _
    have hhandle : (sevrInit (newSubscriber sock msg) (needBuckets core)).handle core.brk =
        some (newSubscriber sock msg) := if_pos (needBuckets_brk core).symm
    have h3 := h2.manager (.register env.verdict) hlt (by simp)
    obtain ⟨-, hpeer⟩ | ⟨-, hpeer | hpeer⟩ := registerPeer_cases core.brk env
      (sevrInit (newSubscriber sock msg) (needBuckets core))
    · rw [hpeer]
      exact h3.release hhandle rfl
    · rw [hpeer]
      exact h3
    · rw [hpeer]
      exact (h3.manager .shutdown hlt (by decide)).release hhandle rfl

/-! ## Runs -/

inductive PeerLabel
  | register (sock : ℕ) (msg : IpcMsg) (env : RegisterEnv)
  | sync (p : Ptr)
  | unregister (p : Ptr)
  | release (p : Ptr)
  deriving DecidableEq

/-- A step: messages and releases are for live peers. -/
def peerStep (core : IpcCore) : PeerLabel → Option (IpcCore × List Empty)
  | .register sock msg env => some (ipcServerRegister sock msg env core, [])
  | .sync p => if core.isPeer p then some (ipcServerSync p core, []) else none
  | .unregister p => if core.isPeer p then some ((ipcServerUnregister p core).1, []) else none
  | .release p => if core.isPeer p then some (ipcRelease p core, []) else none

/-- The peer that a step synchronises. -/
def PeerLabel.synced : PeerLabel → Option Ptr
  | .sync p => some p
  | _ => none

/-- The peer has not synchronised before. -/
def SyncOnce (core : IpcCore) (l : PeerLabel) : Prop := ∀ p ∈ l.synced, p ∉ syncs core.log

lemma bucketsOk_boot (masterSock : ℕ) : BucketsOk (IpcCore.boot masterSock) := by
  have hhandle : ∀ p s, (IpcCore.boot masterSock).handle p = some s →
      p = 0 ∧ s.clazz = .master := by
    intro p s h
    simp only [IpcCore.boot] at h
    split_ifs at h with hp
    obtain rfl := Option.some.inj h
    exact ⟨hp, rfl⟩
  refine ⟨fun p s h => ?_, fun c hc => ?_, ?_, fun p hp => ?_, fun p s h hc => ?_, fun hb => ?_⟩
  · rw [(hhandle p s h).1]
    exact Nat.one_pos
  · simp [IpcCore.boot] at hc
  · exact List.nodup_nil
  · simp [IpcCore.boot, syncs] at hp
  · rw [(hhandle p s h).2] at hc
    cases hc
  · simp [IpcCore.boot] at hb

lemma Formed.peerStep {core core' : IpcCore} {l : PeerLabel} {es : List Empty} (h : Formed core)
    (hstep : peerStep core l = some (core', es)) : Formed core' := by
  cases l with
  | register sock msg env =>
      obtain ⟨rfl, -⟩ := Prod.mk.inj (Option.some.inj hstep)
      exact h.register sock msg env
  | sync p =>
      simp only [Ipc.peerStep] at hstep
      split_ifs at hstep
      obtain ⟨rfl, -⟩ := Prod.mk.inj (Option.some.inj hstep)
      exact h.sync p
  | unregister p =>
      simp only [Ipc.peerStep] at hstep
      split_ifs at hstep
      obtain ⟨rfl, -⟩ := Prod.mk.inj (Option.some.inj hstep)
      exact h.unregister p
  | release p =>
      simp only [Ipc.peerStep] at hstep
      split_ifs at hstep
      obtain ⟨rfl, -⟩ := Prod.mk.inj (Option.some.inj hstep)
      exact h.release p

lemma BucketsOk.step {core core' : IpcCore} {l : PeerLabel} {es : List Empty} (h : BucketsOk core)
    (hform : Formed core) (hok : SyncOnce core l) (hstep : peerStep core l = some (core', es)) :
    BucketsOk core' := by
  cases l with
  | register sock msg env =>
      obtain ⟨rfl, -⟩ := Prod.mk.inj (Option.some.inj hstep)
      exact h.register sock msg env
  | sync p =>
      simp only [peerStep] at hstep
      split_ifs at hstep with hp
      obtain ⟨s, hs, hclazz⟩ := IpcCore.isPeer_iff.mp hp
      obtain ⟨rfl, -⟩ := Prod.mk.inj (Option.some.inj hstep)
      exact h.sync hform hs hclazz (hok p rfl)
  | unregister p =>
      simp only [peerStep] at hstep
      split_ifs at hstep with hp
      obtain ⟨s, hs, hclazz⟩ := IpcCore.isPeer_iff.mp hp
      obtain ⟨rfl, -⟩ := Prod.mk.inj (Option.some.inj hstep)
      exact h.unregister hform hs hclazz
  | release p =>
      simp only [peerStep] at hstep
      split_ifs at hstep with hp
      obtain ⟨s, hs, hclazz⟩ := IpcCore.isPeer_iff.mp hp
      obtain ⟨rfl, -⟩ := Prod.mk.inj (Option.some.inj hstep)
      exact h.release hs hclazz

/-! ## The log of a run -/

/-- The same synchronisations in the log, and the server runs on. -/
structure SameSyncs (core core' : IpcCore) : Prop where
  syncs : syncs core'.log = syncs core.log
  running : core'.running = core.running

lemma SameSyncs.trans {core core' core'' : IpcCore} (h : SameSyncs core core')
    (h' : SameSyncs core' core'') : SameSyncs core core'' :=
  ⟨h'.syncs.trans h.syncs, h'.running.trans h.running⟩

lemma sameSyncs_manager (p : Ptr) (cmd : ManagerCmd) (hcmd : cmd ≠ .sync) (core : IpcCore) :
    SameSyncs core (ipcServerManager p cmd core) := by
  refine ⟨?_, rfl⟩
  simp [ipcServerManager, syncs, List.filterMap_append, hcmd]

lemma sameSyncs_release (p : Ptr) (core : IpcCore) : SameSyncs core (ipcRelease p core) := by
  unfold ipcRelease
  split
  · exact ⟨rfl, rfl⟩
  · split
    · exact ⟨rfl, rfl⟩
    · exact (sameSyncs_manager p .release (by decide) core).trans ⟨rfl, rfl⟩
    · exact (sameSyncs_manager p .release (by decide) core).trans ⟨rfl, rfl⟩
    · exact ⟨rfl, rfl⟩
    · exact ⟨rfl, rfl⟩

lemma sameSyncs_register (sock : ℕ) (msg : IpcMsg) (env : RegisterEnv) (core : IpcCore) :
    SameSyncs core (ipcServerRegister sock msg env core) := by
  have hinit : SameSyncs core (sevrInit (newSubscriber sock msg) (needBuckets core)) := by
    unfold needBuckets
    split_ifs <;> exact ⟨rfl, rfl⟩
  have hcall := hinit.trans (sameSyncs_manager core.brk (.register env.verdict) (by simp) _)
  obtain hreg | ⟨-, core', rfl, ⟨-, hreg⟩ | hreg⟩ := ipcServerRegister_cases sock msg env core
  · rw [hreg]
    exact ⟨rfl, rfl⟩
  · rw [hreg]
    exact hinit
  · rw [hreg]
    obtain ⟨-, hpeer⟩ | ⟨-, hpeer | hpeer⟩ := registerPeer_cases core.brk env
      (sevrInit (newSubscriber sock msg) (needBuckets core))
    · rw [hpeer]
      exact hcall.trans (sameSyncs_release _ _)
    · rw [hpeer]
      exact hcall
    · rw [hpeer]
      exact (hcall.trans (sameSyncs_manager core.brk .shutdown (by decide) _)).trans
        (sameSyncs_release _ _)

lemma sameSyncs_nodeInitLoop (p : Ptr) (fuel : ℕ) (mask : UInt64) (i j : ℕ) (core : IpcCore) :
    SameSyncs core (nodeInitLoop p fuel mask i j core) := by
  induction fuel generalizing mask i j core with
  | zero => exact ⟨rfl, rfl⟩
  | succ fuel ih =>
      rw [nodeInitLoop]
      split_ifs
      · exact ⟨rfl, rfl⟩
      · have hlink : SameSyncs core (linkNode p i j core) := ⟨rfl, rfl⟩
        exact hlink.trans (ih _ _ _ _)
      · exact ih _ _ _ _

lemma syncs_step {core core' : IpcCore} {l : PeerLabel} {es : List Empty} (hform : Formed core)
    (hstep : peerStep core l = some (core', es)) :
    syncs core'.log = syncs core.log ++ l.synced.toList ∧ core'.running = core.running := by
  cases l with
  | register sock msg env =>
      obtain ⟨rfl, -⟩ := Prod.mk.inj (Option.some.inj hstep)
      have h := sameSyncs_register sock msg env core
      exact ⟨by simpa [PeerLabel.synced] using h.syncs, h.running⟩
  | sync p =>
      simp only [peerStep] at hstep
      split_ifs at hstep with hp
      obtain ⟨s, hs, hclazz⟩ := IpcCore.isPeer_iff.mp hp
      obtain ⟨rfl, -⟩ := Prod.mk.inj (Option.some.inj hstep)
      have h := sameSyncs_nodeInitLoop p 64 s.mask 0 0 core
      rw [hform.sync_peer hs hclazz]
      refine ⟨?_, h.running⟩
      rw [← h.syncs]
      simp [ipcServerManager, ipcPeerNodeInit, syncs, List.filterMap_append, PeerLabel.synced]
  | unregister p =>
      simp only [peerStep] at hstep
      split_ifs at hstep with hp
      obtain ⟨s, hs, hclazz⟩ := IpcCore.isPeer_iff.mp hp
      obtain ⟨rfl, -⟩ := Prod.mk.inj (Option.some.inj hstep)
      have h := (sameSyncs_manager p .unregister (by decide) core).trans
        (sameSyncs_release p _)
      rw [hform.unregister_peer hs hclazz]
      exact ⟨by simpa [PeerLabel.synced] using h.syncs, h.running⟩
  | release p =>
      simp only [peerStep] at hstep
      split_ifs at hstep with hp
      obtain ⟨rfl, -⟩ := Prod.mk.inj (Option.some.inj hstep)
      have h := sameSyncs_release p core
      exact ⟨by simpa [PeerLabel.synced] using h.syncs, h.running⟩

lemma syncs_run {ls : List PeerLabel} {core core' : IpcCore} {es : List Empty}
    (hform : Formed core) (hrun : run peerStep ls core = some (core', es)) :
    syncs core'.log = syncs core.log ++ ls.filterMap PeerLabel.synced ∧
      core'.running = core.running := by
  induction ls generalizing core es with
  | nil =>
      obtain ⟨rfl, rfl⟩ := Prod.mk.inj (Option.some.inj hrun)
      simp
  | cons l ls ih =>
      obtain ⟨core₁, es₁, es₂, h₁, h₂, rfl⟩ := run_cons.mp hrun
      obtain ⟨hlog, hrunning⟩ := ih (hform.peerStep h₁) h₂
      obtain ⟨hlog₁, hrunning₁⟩ := syncs_step hform h₁
      refine ⟨?_, hrunning.trans hrunning₁⟩
      rw [hlog, hlog₁, List.append_assoc]
      cases hl : l.synced <;> simp [hl]

/-- No peer synchronises twice in a run with at most one synchronisation for each. -/
lemma along_syncOnce {ls : List PeerLabel} {core : IpcCore} (hform : Formed core)
    (honce : ∀ p, ls.count (.sync p) ≤ 1) (hnew : ∀ p ∈ syncs core.log, .sync p ∉ ls) :
    Along peerStep SyncOnce ls core := by
  induction ls generalizing core with
  | nil => trivial
  | cons l ls ih =>
      have hcount : ∀ p, ls.count (.sync p) ≤ 1 := fun p =>
        (List.count_le_count_cons).trans (honce p)
      refine ⟨fun p hp hmem => hnew p hmem ?_, fun core' es hstep =>
        ih (hform.peerStep hstep) hcount fun p hp => ?_⟩
      · cases l <;> simp_all [PeerLabel.synced]
      · rw [(syncs_step hform hstep).1, List.mem_append] at hp
        rcases hp with hp | hp
        · exact fun hmem => hnew p hp (List.mem_cons_of_mem l hmem)
        · -- this step is the only synchronisation of the peer
          obtain rfl : l = .sync p := by cases l <;> simp_all [PeerLabel.synced]
          have := honce p
          rw [List.count_cons_self] at this
          exact List.count_eq_zero.mp (by omega)

/-! ## Publications -/

/-- The live peers that have synchronised in the run and whose mask has the bit `i`, in the order
of their synchronisations. -/
def subscribers (ls : List PeerLabel) (core : IpcCore) (i : ℕ) : List Ptr :=
  (ls.filterMap PeerLabel.synced).filter fun p =>
    (core.handle p).any fun s => decide (s.clazz = .subscriber) && s.mask.toNat.testBit i

/-- To whom a publication is sent: to all of the peers, or to the first one with the identity. -/
def recipients (core : IpcCore) (dest : ℤ) (peers : List Ptr) : List Ptr :=
  if dest = ipcToBroadcast then peers
  else (peers.find? fun p => (core.handle p).any fun s => decide (s.identity = dest)).toList

lemma filter_syncOrder {core : IpcCore} (h : BucketsOk core) {ls : List PeerLabel}
    (hls : syncs core.log = ls.filterMap PeerLabel.synced) (i : ℕ) :
    (syncOrder core).filter (fun p => (maskOf core p).testBit i) = subscribers ls core i := by
  rw [subscribers, ← hls, syncOrder, List.filter_filter]
  apply List.filter_congr
  intro p hp
  cases hs : core.handle p with
  | none => simp
  | some s => simp [maskOf_eq hs, h.synced p hp s hs]

lemma BucketsOk.length_le {core : IpcCore} (h : BucketsOk core) (i : ℕ) :
    (bucketNodes (maskOf core) (syncOrder core) i).length ≤ core.brk := by
  have hsub : syncOrder core ⊆ List.range core.brk := by
    intro p hp
    obtain ⟨-, s, hs⟩ := mem_syncOrder.mp hp
    exact List.mem_range.mpr (h.below p s hs)
  calc (bucketNodes (maskOf core) (syncOrder core) i).length
      = ((syncOrder core).filter fun p => (maskOf core p).testBit i).length := by
        simp [bucketNodes]
    _ ≤ (syncOrder core).length := List.length_filter_le _ _
    _ ≤ (List.range core.brk).length := (List.subperm_of_subset h.nodup_syncOrder hsub).length_le
    _ = core.brk := List.length_range

lemma BucketsOk.deliver {core : IpcCore} (h : BucketsOk core) (hb : core.nodeHb = true) {i : ℕ}
    (hi : i < 64) (dest : ℤ) : msgDeliver i dest core = some (recipients core dest
      ((syncOrder core).filter fun p => (maskOf core p).testBit i)) := by
  have hring : core.links.Ring (.bucket i) (bucketNodes (maskOf core) (syncOrder core) i) :=
    (h.rings hb).ring ⟨i, hi⟩
  unfold msgDeliver recipients
  split_ifs
  · rw [msgBroadcast, listForEach, hring.walk (h.length_le i), bucketNodes, Option.map_some,
      List.filterMap_map]
    congr 1
    exact List.filterMap_some
  · rw [msgUnicast, listFind, hring.search _ (h.length_le i), bucketNodes, List.find?_map,
      Option.map_some]
    congr 1
    have hid : (hasIdentity core dest ∘ fun p => Addr.node p (rank (maskOf core p) i)) =
        fun p => (core.handle p).any fun s => decide (s.identity = dest) := by
      funext p
      simp only [Function.comp, hasIdentity, Addr.sevr, Option.bind_some]
      cases core.handle p <;> rfl
    rw [hid]
    cases List.find? _ _ <;> rfl

lemma topicCheck_single {topic : UInt64} {i : ℕ} (h : topic.toNat = 2 ^ i) :
    topicCheck topic = true := by
  have hne : topic ≠ 0 := by
    rintro rfl
    have hpos := Nat.two_pow_pos i
    rw [← h] at hpos
    exact absurd hpos (by decide)
  rw [topicCheck, decide_eq_true_iff, ← UInt64.toNat_inj, toNat_clear hne, h,
    Nat.and_two_pow_sub_one_eq_mod, Nat.mod_self]
  rfl

/-- **The topic buckets are exact.**  After every run of registrations, synchronisations, at most
one for each peer, unregistrations and releases: the bucket `i` is a ring with exactly one node
for each live peer that has synchronised and whose mask has the bit `i`, and no other node.  A
publication with a topic of one bit, by the server or by a client, is sent once to each of these
peers and to no other; one with a destination is sent once to the first of them with that
identity, or not at all. -/
theorem buckets_exact {masterSock : ℕ} {ls : List PeerLabel} {core : IpcCore} {es : List Empty}
    (hrun : run peerStep ls (IpcCore.boot masterSock) = some (core, es))
    (honce : ∀ p, ls.count (.sync p) ≤ 1) {i : ℕ} (hi : i < 64) :
    (subscribers ls core i).Nodup ∧
      (core.nodeHb = true → core.links.Ring (.bucket i)
        ((subscribers ls core i).map fun p => .node p (rank (maskOf core p) i))) ∧
      ∀ topic : UInt64, topic.toNat = 2 ^ i →
        (∀ dest, ipcServerPublish dest topic true core =
          some (0, recipients core dest (subscribers ls core i))) ∧
        ∀ (filter : Option (IpcNotify → ℤ)) (notify : IpcNotify), notify.topic = topic →
          (∀ f ∈ filter, 0 ≤ f notify) → ipcBrokerPublish filter notify core =
            some (0, recipients core notify.dest (subscribers ls core i)) := by
  have hok : Along peerStep SyncOnce ls (IpcCore.boot masterSock) :=
    along_syncOnce (formed_boot masterSock) honce (by simp [IpcCore.boot, syncs])
  obtain ⟨-, h⟩ : Formed core ∧ BucketsOk core :=
    run_invariant (I := fun core => Formed core ∧ BucketsOk core)
      (fun h hok hstep => ⟨h.1.peerStep hstep, h.2.step h.1 hok hstep⟩)
      ⟨formed_boot masterSock, bucketsOk_boot masterSock⟩ hok hrun
  obtain ⟨hlog, hrunning⟩ := syncs_run (formed_boot masterSock) hrun
  have hsubs := filter_syncOrder h (hlog.trans (List.nil_append _)) i
  refine ⟨hsubs ▸ h.nodup_syncOrder.filter _, fun hb => ?_, fun topic htopic => ?_⟩
  · rw [← hsubs]
    exact (h.rings hb).ring ⟨i, hi⟩
  · have hcheck := topicCheck_single htopic
    -- without buckets there is nobody to send to
    have hsends : ∀ dest, publishSends dest topic core =
        some (recipients core dest (subscribers ls core i)) := by
      intro dest
      rw [publishSends, bitIndex_eq htopic hi]
      split_ifs with hb
      · rw [h.deliver hb hi dest, hsubs]
      · rw [← hsubs, h.syncOrder_eq_nil (by simpa using hb)]
        simp [recipients]
    refine ⟨fun dest => ?_, fun filter notify hnotify hfilter => ?_⟩
    · rw [ipcServerPublish_eq (by simpa [IpcCore.boot] using hrunning) hcheck, hsends,
        Option.map_some]
    · rw [ipcBrokerPublish_eq (by rw [hnotify, hcheck]) hfilter, hnotify, hsends, Option.map_some]

/-- A `IPC_SDK_MSG_REGISTER` message with the mask as its payload. -/
def registerMsg (identity : UInt32) (mask : List UInt8) (h : mask.length < 64) : IpcMsg :=
  ⟨identity, ipcSdkMsgRegister, 0, mask, by omega⟩

/-- Two peers with the topics 0 and 2 and a third with the topic 2; the first one leaves. -/
def peerRun : List PeerLabel :=
  [.register 5 (registerMsg 41 [5, 0, 0, 0, 0, 0, 0, 0] (by decide)) ⟨⟨true, true, true⟩, 0, true⟩,
    .register 6 (registerMsg 42 [5, 0, 0, 0, 0, 0, 0, 0] (by decide)) ⟨⟨true, true, true⟩, 0, true⟩,
    .sync 1, .register 7 (registerMsg 43 [4, 0, 0, 0, 0, 0, 0, 0] (by decide))
      ⟨⟨true, true, true⟩, 0, true⟩, .sync 3, .sync 2, .unregister 1]

/-- A broadcast of the topic 2 is sent to the other two. -/
theorem buckets_exact_sample :
    ∃ core es, run peerStep peerRun (IpcCore.boot 3) = some (core, es) ∧
      ipcServerPublish ipcToBroadcast 4 true core = some (0, [3, 2]) ∧
      ipcServerPublish 42 4 true core = some (0, [2]) := by
  obtain ⟨core, es, hrun, hsubs, h42⟩ : ∃ core es,
      run peerStep peerRun (IpcCore.boot 3) = some (core, es) ∧
        recipients core ipcToBroadcast (subscribers peerRun core 2) = [3, 2] ∧
        recipients core 42 (subscribers peerRun core 2) = [2] :=
    ⟨_, _, rfl, by decide, by decide⟩
  have hcount : ∀ p, peerRun.count (.sync p) ≤ 1 := by
    intro p
    simp only [peerRun, List.count_cons, List.count_nil, beq_iff_eq, PeerLabel.sync.injEq,
      reduceCtorEq, if_false]
    grind
  have h := ((buckets_exact hrun hcount (i := 2) (by decide)).2.2 4 rfl).1
  exact ⟨core, es, hrun, (h _).trans (by rw [hsubs]), (h _).trans (by rw [h42])⟩

end LinuxC.Ipc
