import LinuxC.Ipc.Buckets
import Mathlib.Logic.Function.Iterate

/-!
# A peer that synchronises again

`ipc_peer_node_init` appends the nodes of a peer whether or not they are linked already.  After an
`IPC_SDK_MSG_SYNC` a node of the peer is the last one of each of its buckets, and the next
`IPC_SDK_MSG_SYNC` of the peer appends that node behind itself: it becomes its own successor, and a
loop over the bucket that comes to it stays there.

The nodes of a peer are appended to different buckets, so that each bucket sees one `list_add_tail`
(`foldl_listAddTail`).  `Tail` is what it leaves: all nodes of the bucket lead to the appended one.
-/

namespace LinuxC.Ipc

/-- The node of the peer for the bit `i` of its mask. -/
def peerNode (p : Ptr) (mask : UInt64) (i : ℕ) : Addr := .node p (rank mask.toNat i)

/-- **What a synchronisation is for.**  Every bucket is a ring with one node of the peer for the bit
of its mask and no other node of the peer, and a broadcast ends and is sent to the peer once. -/
structure SyncedOnce (p : Ptr) (mask : UInt64) (core : IpcCore) : Prop where
  rings : ∃ xs : Fin 64 → List Addr, core.links.Family bucketHead xs ∧
    ∀ i, (xs i).filter (fun a => a.sevr = some p) =
      if mask.toNat.testBit i then [peerNode p mask i] else []
  sends : ∀ i < 64, ∃ ps, msgBroadcast i core = some ps ∧
    ps.count p = if mask.toNat.testBit i then 1 else 0

/-! ## The nodes are appended -/

/-- The bits of a mask. -/
def maskBits (mask : UInt64) : List ℕ := (List.range 64).filter mask.toNat.testBit

lemma mem_maskBits {mask : UInt64} {i : ℕ} :
    i ∈ maskBits mask ↔ i < 64 ∧ mask.toNat.testBit i = true := by
  simp [maskBits]

lemma nodup_maskBits (mask : UInt64) : (maskBits mask).Nodup := List.nodup_range.filter _

/-- The loop of `ipc_peer_node_init` is one `list_add_tail` for each bit, and keeps the class and
the mask of the handle. -/
lemma nodeInitLoop_appends (p : Ptr) (full : UInt64) (fuel : ℕ) {mask : UInt64} {i j : ℕ}
    (core : IpcCore) (hmask : mask.toNat = full.toNat / 2 ^ i) (hj : j = rank full.toNat i) :
    (nodeInitLoop p fuel mask i j core).links =
        ((List.range' i fuel).filter full.toNat.testBit).foldl
          (fun l k => listAddTail (peerNode p full k) (.bucket k) l) core.links ∧
      ((nodeInitLoop p fuel mask i j core).handle p).map (fun s => (s.clazz, s.mask)) =
        (core.handle p).map fun s => (s.clazz, s.mask) := by
  induction fuel generalizing mask i j core with
  | zero => exact ⟨rfl, rfl⟩
  | succ fuel ih =>
      have hbit : ∀ m, mask.toNat.testBit m = full.toNat.testBit (i + m) := by
        intro m
        rw [hmask, Nat.testBit_div_two_pow, Nat.add_comm]
      have hhalf : (mask >>> 1).toNat = full.toNat / 2 ^ (i + 1) := by
        rw [toNat_half, hmask, Nat.div_div_eq_div_mul, pow_succ]
      have hlow := hbit 0
      rw [nodeInitLoop]
      split_ifs with h0 h1
      · refine ⟨?_, rfl⟩
        have hnone : (List.range' i (fuel + 1)).filter full.toNat.testBit = [] := by
          apply List.filter_eq_nil_iff.mpr
          intro m hm
          have hm' := hbit (m - i)
          rw [h0, Nat.add_sub_cancel' (List.mem_range'_1.mp hm).1] at hm'
          simp [← hm']
        rw [hnone, List.foldl_nil]
      · rw [and_one_ne_zero, hlow, Nat.add_zero] at h1
        obtain ⟨hlinks, hhandle⟩ := ih (linkNode p i j core) hhalf
          (show j + 1 = rank full.toNat (i + 1) by rw [rank_succ, if_pos h1, hj])
        refine ⟨?_, hhandle.trans ?_⟩
        · rw [hlinks, List.range'_succ, List.filter_cons_of_pos h1, List.foldl_cons, peerNode, ← hj]
          rfl
        · simp [linkNode, Option.map_map, Function.comp_def]
      · rw [and_one_ne_zero, hlow, Nat.add_zero, Bool.not_eq_true] at h1
        obtain ⟨hlinks, hhandle⟩ := ih core hhalf
          (show j = rank full.toNat (i + 1) by rw [rank_succ, h1, hj]; rfl)
        refine ⟨?_, hhandle⟩
        rw [hlinks, List.range'_succ, List.filter_cons_of_neg (by simp [h1])]

variable {core : IpcCore} {p : Ptr} {s : IpcServer}

lemma Formed.sync_appends (h : Formed core) (hs : core.handle p = some s)
    (hclazz : s.clazz = .subscriber) :
    (ipcServerSync p core).links = (maskBits s.mask).foldl
        (fun l k => listAddTail (peerNode p s.mask k) (.bucket k) l) core.links ∧
      ∃ t, (ipcServerSync p core).handle p = some t ∧ t.clazz = .subscriber ∧ t.mask = s.mask := by
  obtain ⟨hlinks, hhandle⟩ := nodeInitLoop_appends p s.mask 64 core
    (show s.mask.toNat = s.mask.toNat / 2 ^ 0 by simp) (show 0 = rank s.mask.toNat 0 by rfl)
  rw [h.sync_peer hs hclazz]
  refine ⟨by rw [maskBits, List.range_eq_range']; exact hlinks, ?_⟩
  rw [hs, Option.map_some, Option.map_eq_some_iff] at hhandle
  obtain ⟨t, ht, heq⟩ := hhandle
  obtain ⟨hc, hm⟩ := Prod.mk.inj heq
  exact ⟨t, ht, hc.trans hclazz, hm⟩

/-! ## One bucket -/

/-- The node is the last one in front of the head, and all nodes of the bucket lead to it, whatever
it leads to itself. -/
structure Tail (l : Links Addr) (hd n : Addr) (trap : List Addr) : Prop where
  head : hd ∉ trap
  node : n ∈ trap
  last : l.prev hd = n
  next : ∀ x ∈ hd :: trap, x ≠ n → l.next x ∈ trap

/-- What an append does to the places of a bucket. -/
def AppendedAt (l l' : Links Addr) (hd n : Addr) (trap : List Addr) : Prop :=
  ∀ x ∈ hd :: trap, l'.next x = (listAddTail n hd l).next x ∧
    l'.prev x = (listAddTail n hd l).prev x

lemma next_listAddTail (l : Links Addr) (n hd x : Addr) :
    (listAddTail n hd l).next x = if x = l.prev hd then n else if x = n then hd else l.next x :=
  rfl

lemma prev_listAddTail (l : Links Addr) (n hd x : Addr) :
    (listAddTail n hd l).prev x = if x = n then l.prev hd else if x = hd then n else l.prev x :=
  rfl

/-- A node appended to a ring is its tail, even if it was in the ring before. -/
lemma tail_of_ring {l l' : Links Addr} {hd n : Addr} {xs : List Addr} (hr : l.Ring hd xs)
    (hn : n ≠ hd) (happ : AppendedAt l l' hd n (xs ++ [n])) : Tail l' hd n (xs ++ [n]) := by
  have hhead : hd ∉ xs := (List.nodup_cons.mp hr.nodup).1
  refine ⟨by simp [hhead, hn.symm], by simp, ?_, fun x hx hxn => ?_⟩
  · rw [(happ hd (by simp)).2, prev_listAddTail, if_neg hn.symm, if_pos rfl]
  · rw [(happ x hx).1, next_listAddTail, if_neg hxn]
    split_ifs with hlast
    · simp
    · have hxs : x ∈ hd :: xs := by
        simp only [List.mem_cons, List.mem_append, List.not_mem_nil, or_false] at hx ⊢
        tauto
      -- the last node is the only one that leads to the head
      obtain hnext | hnext := List.mem_cons.mp (hr.neighbours hxs).1
      · exact absurd (hnext ▸ (hr.seg.prev_next hxs).symm) hlast
      · exact List.mem_append_left _ hnext

/-- **The tail appended again** is its own successor. -/
lemma Tail.again {l l' : Links Addr} {hd n : Addr} {trap : List Addr} (h : Tail l hd n trap)
    (happ : AppendedAt l l' hd n trap) : Tail l' hd n trap ∧ l'.next n = n := by
  have hn : n ≠ hd := fun heq => h.head (heq ▸ h.node)
  refine ⟨⟨h.head, h.node, ?_, fun x hx hxn => ?_⟩, ?_⟩
  · rw [(happ hd (by simp)).2, prev_listAddTail, if_neg hn.symm, if_pos rfl]
  · rw [(happ x hx).1, next_listAddTail, h.last, if_neg hxn, if_neg hxn]
    exact h.next x hx hxn
  · rw [(happ n (List.mem_cons_of_mem _ h.node)).1, next_listAddTail, h.last, if_pos rfl]

/-- From the head there is no way out of such a bucket. -/
lemma Tail.walk {l : Links Addr} {hd n : Addr} {trap : List Addr} (h : Tail l hd n trap)
    (hself : l.next n = n) (fuel : ℕ) : l.walk hd fuel (l.next hd) = none := by
  have hn : n ≠ hd := fun heq => h.head (heq ▸ h.node)
  refine Links.walk_trapped h.head (fun x hx => ?_) fuel (h.next hd (by simp) hn.symm)
  rcases eq_or_ne x n with rfl | hxn
  · rw [hself]
    exact hx
  · exact h.next x (List.mem_cons_of_mem _ hx) hxn

/-! ## All buckets -/

/-- The nodes of the bucket `i` with the one of the peer behind them. -/
def trapOf (p : Ptr) (mask : UInt64) (xs : ℕ → List Addr) (i : ℕ) : List Addr :=
  xs i ++ [peerNode p mask i]

/-- The places of different buckets, with the nodes of the peer, are different. -/
def PlacesApart (p : Ptr) (mask : UInt64) (xs : ℕ → List Addr) : Prop :=
  ∀ i ∈ maskBits mask, ∀ k ∈ maskBits mask, i ≠ k →
    ∀ a ∈ .bucket i :: trapOf p mask xs i, a ∉ .bucket k :: trapOf p mask xs k

lemma Formed.sync_appendedAt (h : Formed core) (hs : core.handle p = some s)
    (hclazz : s.clazz = .subscriber) {xs : ℕ → List Addr} (hapart : PlacesApart p s.mask xs)
    (hlast : ∀ i ∈ maskBits s.mask,
      core.links.prev (.bucket i) ∈ .bucket i :: trapOf p s.mask xs i)
    {i : ℕ} (hi : i ∈ maskBits s.mask) :
    AppendedAt core.links (ipcServerSync p core).links (.bucket i) (peerNode p s.mask i)
      (trapOf p s.mask xs i) := by
  rw [(h.sync_appends hs hclazz).1]
  let T : ℕ → Set Addr := fun k => {a | a ∈ Addr.bucket k :: trapOf p s.mask xs k}
  have hplace : ∀ k ∈ maskBits s.mask, peerNode p s.mask k ∈ T k ∧ Addr.bucket k ∈ T k ∧
      core.links.prev (.bucket k) ∈ T k := by
    intro k hk
    refine ⟨?_, ?_, hlast k hk⟩
    · simp [T, trapOf]
    · simp [T]
  exact (foldl_listAddTail (T := T) (nodup_maskBits s.mask) hapart hplace).1 i hi

/-- The nodes of the peer are the tails of its buckets. -/
structure Resynced (p : Ptr) (mask : UInt64) (xs : ℕ → List Addr) (core : IpcCore) : Prop where
  formed : Formed core
  handle : ∃ t, core.handle p = some t ∧ t.clazz = .subscriber ∧ t.mask = mask
  tails : ∀ i ∈ maskBits mask, Tail core.links (.bucket i) (peerNode p mask i) (trapOf p mask xs i)

lemma BucketsOk.placesApart (h : BucketsOk core) (hs : core.handle p = some s)
    (hclazz : s.clazz = .subscriber) :
    PlacesApart p s.mask (bucketNodes (maskOf core) (syncOrder core)) := by
  have hnode : ∀ k, k < 64 → ∀ i, s.mask.toNat.testBit i = true →
      peerNode p s.mask i ∈ bucketNodes (maskOf core) (syncOrder core) k → i = k := by
    intro k _ i hi hmem
    obtain ⟨q, -, hbit, heq⟩ := mem_bucketNodes.mp hmem
    obtain ⟨rfl, hrank⟩ := Addr.node.inj heq
    rw [maskOf_eq hs] at hbit hrank
    exact rank_inj hi hbit hrank
  have hb := (h.peer p s hs hclazz).1
  intro i hi k hk hik a ha hak
  obtain ⟨hi64, hibit⟩ := mem_maskBits.mp hi
  obtain ⟨hk64, hkbit⟩ := mem_maskBits.mp hk
  have hdisj := (h.rings hb).disjoint ⟨i, hi64⟩ ⟨k, hk64⟩ (fun heq => hik (Fin.mk.inj heq)) a
  simp only [trapOf, List.mem_cons, List.mem_append, List.not_mem_nil, or_false, bucketHead]
    at ha hak hdisj
  rcases ha with rfl | ha | rfl
  · rcases hak with hak | hak | hak
    · exact hik (Addr.bucket.inj hak)
    · exact hdisj (.inl rfl) (.inr hak)
    · cases hak
  · rcases hak with rfl | hak | rfl
    · exact hdisj (.inr ha) (.inl rfl)
    · exact hdisj (.inr ha) (.inr hak)
    · exact hik (hnode i hi64 k hkbit ha).symm
  · rcases hak with hak | hak | hak
    · cases hak
    · exact hik (hnode k hk64 i hibit hak)
    · exact hik (rank_inj hibit hkbit (Addr.node.inj hak).2)

lemma BucketsOk.resynced (h : BucketsOk core) (hform : Formed core) (hs : core.handle p = some s)
    (hclazz : s.clazz = .subscriber) :
    Resynced p s.mask (bucketNodes (maskOf core) (syncOrder core)) (ipcServerSync p core) := by
  have hb := (h.peer p s hs hclazz).1
  have hring : ∀ i ∈ maskBits s.mask,
      core.links.Ring (.bucket i) (bucketNodes (maskOf core) (syncOrder core) i) :=
    fun i hi => (h.rings hb).ring ⟨i, (mem_maskBits.mp hi).1⟩
  refine ⟨hform.sync p, (hform.sync_appends hs hclazz).2, fun i hi => ?_⟩
  apply tail_of_ring (hring i hi) (by simp [peerNode])
  refine hform.sync_appendedAt hs hclazz (h.placesApart hs hclazz) (fun k hk => ?_) hi
  have hmem := ((hring k hk).neighbours (List.mem_cons_self ..)).2
  rw [trapOf, ← List.cons_append]
  exact List.mem_append_left _ hmem

/-- **A further synchronisation** closes the nodes of the peer on themselves. -/
lemma Resynced.sync {mask : UInt64} {xs : ℕ → List Addr} (h : Resynced p mask xs core)
    (hapart : PlacesApart p mask xs) :
    Resynced p mask xs (ipcServerSync p core) ∧ ∀ i ∈ maskBits mask,
      (ipcServerSync p core).links.next (peerNode p mask i) = peerNode p mask i := by
  obtain ⟨hform, ⟨t, ht, hclazz, rfl⟩, htails⟩ := h
  have hagain : ∀ i ∈ maskBits t.mask,
      Tail (ipcServerSync p core).links (.bucket i) (peerNode p t.mask i) (trapOf p t.mask xs i) ∧
        (ipcServerSync p core).links.next (peerNode p t.mask i) = peerNode p t.mask i := by
    intro i hi
    refine (htails i hi).again (hform.sync_appendedAt ht hclazz hapart (fun k hk => ?_) hi)
    rw [(htails k hk).last]
    exact List.mem_cons_of_mem _ (htails k hk).node
  exact ⟨⟨hform.sync p, (hform.sync_appends ht hclazz).2, fun i hi => (hagain i hi).1⟩,
    fun i hi => (hagain i hi).2⟩

lemma Resynced.syncs {mask : UInt64} {xs : ℕ → List Addr} (h : Resynced p mask xs core)
    (hapart : PlacesApart p mask xs) (n : ℕ) :
    Resynced p mask xs ((ipcServerSync p)^[n + 1] core) ∧ ∀ i ∈ maskBits mask,
      ((ipcServerSync p)^[n + 1] core).links.next (peerNode p mask i) = peerNode p mask i := by
  induction n with
  | zero => exact h.sync hapart
  | succ n ih =>
      rw [Function.iterate_succ_apply']
      exact ih.1.sync hapart

lemma BucketsOk.exists_bit (h : BucketsOk core) (hform : Formed core) (hs : core.handle p = some s)
    (hclazz : s.clazz = .subscriber) : ∃ i, i ∈ maskBits s.mask := by
  have hnode := (h.peer p s hs hclazz).2
  have hpos : 0 < rank s.mask.toNat 64 := by
    rw [← bitCount_eq, Nat.pos_iff_ne_zero]
    intro hzero
    rw [hzero, List.replicate_zero] at hnode
    exact hform.node p s hs hclazz hnode
  obtain ⟨i, hi, hbit, -⟩ := exists_rank hpos
  exact ⟨i, mem_maskBits.mpr ⟨hi, hbit⟩⟩

lemma BucketsOk.syncedOnce (h : BucketsOk core) (hform : Formed core) (hs : core.handle p = some s)
    (hclazz : s.clazz = .subscriber) (hp : p ∉ LinuxC.Ipc.syncs core.log) :
    SyncedOnce p s.mask (ipcServerSync p core) := by
  obtain ⟨-, t, ht, htclazz, hmask⟩ := hform.sync_appends hs hclazz
  have h' := h.sync hform hs hclazz hp
  have hlog : p ∈ LinuxC.Ipc.syncs (ipcServerSync p core).log := by
    rw [hform.sync_peer hs hclazz]
    exact mem_syncs.mpr (List.mem_append_right _ (by simp))
  set core' := ipcServerSync p core
  have hb := (h'.peer p t ht htclazz).1
  have hmem : ∀ i, p ∈ (syncOrder core').filter (fun q => (maskOf core' q).testBit i) ↔
      s.mask.toNat.testBit i = true := by
    intro i
    rw [List.mem_filter, maskOf_eq ht, hmask, and_iff_right (mem_syncOrder.mpr ⟨hlog, t, ht⟩)]
  have hnodup : ∀ i, ((syncOrder core').filter fun q => (maskOf core' q).testBit i).Nodup :=
    fun i => h'.nodup_syncOrder.filter _
  refine ⟨⟨_, h'.rings hb, fun i => ?_⟩, fun i hi => ?_⟩
  · have hsevr : ((fun a : Addr => decide (a.sevr = some p)) ∘
        fun q => Addr.node q (rank (maskOf core' q) i)) = fun q => decide (q = p) := by
      funext q
      simp [Addr.sevr]
    rw [bucketNodes, List.filter_map, hsevr, List.filter_eq, (hnodup i).count]
    simp only [hmem]
    split_ifs
    · rw [List.replicate_one, List.map_singleton, maskOf_eq ht, hmask, peerNode]
    · rfl
  · have hsends := h'.deliver hb hi ipcToBroadcast
    rw [msgDeliver, if_pos rfl, recipients, if_pos rfl] at hsends
    refine ⟨_, hsends, ?_⟩
    rw [(hnodup i).count]
    simp only [hmem]

/-- **A second `IPC_SDK_MSG_SYNC` breaks the buckets.**  In every state with well formed buckets,
the first synchronisation of a registered peer leaves one node of it for each bit of its mask.
After two or more the peer has a topic and in the bucket of each of its topics its node is its own
successor: the bucket is no ring, and a broadcast to it does not end. -/
theorem resync_breaks (h : BucketsOk core) (hform : Formed core) (hs : core.handle p = some s)
    (hclazz : s.clazz = .subscriber) :
    (p ∉ LinuxC.Ipc.syncs core.log → SyncedOnce p s.mask (ipcServerSync p core)) ∧
      ∀ n, 2 ≤ n → ¬ SyncedOnce p s.mask ((ipcServerSync p)^[n] core) ∧
        (∃ i, i ∈ maskBits s.mask) ∧ ∀ i ∈ maskBits s.mask,
          (∀ xs, ¬ ((ipcServerSync p)^[n] core).links.Ring (.bucket i) xs) ∧
            msgBroadcast i ((ipcServerSync p)^[n] core) = none := by
  refine ⟨h.syncedOnce hform hs hclazz, fun n hn => ?_⟩
  obtain ⟨k, rfl⟩ : ∃ k, n = k + 1 + 1 := ⟨n - 2, by omega⟩
  rw [Function.iterate_succ_apply]
  obtain ⟨hsynced, hself⟩ :=
    (h.resynced hform hs hclazz).syncs (h.placesApart hs hclazz) k
  set core' := (ipcServerSync p)^[k + 1] (ipcServerSync p core)
  have hwalk : ∀ i ∈ maskBits s.mask, ∀ fuel,
      core'.links.walk (.bucket i) fuel (core'.links.next (.bucket i)) = none :=
    fun i hi => (hsynced.tails i hi).walk (hself i hi)
  have hsend : ∀ i ∈ maskBits s.mask, msgBroadcast i core' = none := by
    intro i hi
    rw [msgBroadcast, listForEach, hwalk i hi, Option.map_none]
  obtain ⟨i, hi⟩ := h.exists_bit hform hs hclazz
  refine ⟨fun honce => ?_, ⟨i, hi⟩, fun k hk => ⟨fun xs hring => ?_, hsend k hk⟩⟩
  · obtain ⟨ps, hps, -⟩ := honce.sends i (mem_maskBits.mp hi).1
    rw [hsend i hi] at hps
    cases hps
  · have hends := hring.walk (Nat.le_refl _)
    rw [hwalk k hk] at hends
    cases hends

/-- A peer with the topics 1 and 2 has registered. -/
def registeredPeer : IpcCore :=
  ipcServerRegister 5 (registerMsg 41 [6, 0, 0, 0, 0, 0, 0, 0] (by decide))
    ⟨⟨true, true, true⟩, 0, true⟩ (IpcCore.boot 3)

/-- After its second synchronisation a broadcast of the topic 4 does not end. -/
theorem resync_breaks_sample :
    msgBroadcast 2 ((ipcServerSync 1)^[2] registeredPeer) = none ∧
      msgBroadcast 2 (ipcServerSync 1 registeredPeer) = some [1] := by
  have hok : BucketsOk registeredPeer := (bucketsOk_boot 3).register _ _ _
  have hform : Formed registeredPeer := (formed_boot 3).register _ _ _
  obtain ⟨s, hs, hclazz, hbit⟩ : ∃ s, registeredPeer.handle 1 = some s ∧ s.clazz = .subscriber ∧
      2 ∈ maskBits s.mask := ⟨_, rfl, rfl, by decide⟩
  obtain ⟨-, -, hbroken⟩ := (resync_breaks hok hform hs hclazz).2 2 (Nat.le_refl _)
  exact ⟨(hbroken 2 hbit).2, rfl⟩

/-- **A peer that synchronises twice** has no longer one node in each of its buckets. -/
theorem resync_not_idempotent :
    ¬ SyncedOnce 1 6 ((ipcServerSync 1)^[2] registeredPeer) := by
  intro h
  obtain ⟨ps, hps, -⟩ := h.sends 2 (by decide)
  have hnone : msgBroadcast 2 ((ipcServerSync 1)^[2] registeredPeer) = none := rfl
  rw [hnone] at hps
  cases hps

end LinuxC.Ipc
