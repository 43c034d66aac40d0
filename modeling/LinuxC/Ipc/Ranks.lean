import LinuxC.Ipc.Lengths
import LinuxC.Ipc.Routing

/-!
# The node of a topic (`ipc/ipc_server.c`)

A peer has one node for each bit of its mask.  `ipc_peer_node_init` goes through the mask from the
lowest bit on and links the next node of the array into the bucket of each bit that is set;
`ipc_server_notify` and `ipc_server_notifyx` look at the node with the number
`bit_count(mask & (topic - 1))`.  `rank_finds_node` says that this is the node in the bucket of the
topic.

The pairs of bucket and node that the loop links are `nodeLinks`; both numbers come from the same
rank.  `linkedRings` are the rings of the buckets when the loop has ended.  In a run the two
functions therefore look at a node of the peer, and find it set exactly when the peer has
synchronised.
-/

namespace LinuxC.Ipc

/-- The number of the node that `ipc_server_notify` and `ipc_server_notifyx` look at. -/
def nodeIndex (mask topic : UInt64) : ℕ := bitCount (mask &&& (topic - 1))

/-- The bucket and the node of every turn in which the loop of `ipc_peer_node_init` links. -/
def nodeLinksLoop : ℕ → UInt64 → ℕ → ℕ → List (ℕ × ℕ)
  | 0, _, _, _ => []
  | fuel + 1, mask, i, j =>
      if mask = 0 then []
      else if mask &&& 1 ≠ 0 then (i, j) :: nodeLinksLoop fuel (mask >>> 1) (i + 1) (j + 1)
      else nodeLinksLoop fuel (mask >>> 1) (i + 1) j

/-- What `ipc_peer_node_init` links, in its order. -/
def nodeLinks (mask : UInt64) : List (ℕ × ℕ) := nodeLinksLoop 64 mask 0 0

/-- The loop of `ipc_peer_node_init` is these links, one after the other. -/
lemma nodeInitLoop_eq (p : Ptr) (fuel : ℕ) (mask : UInt64) (i j : ℕ) (core : IpcCore) :
    nodeInitLoop p fuel mask i j core =
      (nodeLinksLoop fuel mask i j).foldl (fun core x => linkNode p x.1 x.2 core) core := by
  induction fuel generalizing mask i j core with
  | zero => rfl
  | succ fuel ih =>
      rw [nodeInitLoop, nodeLinksLoop]
      split_ifs
      · rfl
      · rw [ih, List.foldl_cons]
      · exact ih ..

lemma ipcPeerNodeInit_eq (p : Ptr) (mask : UInt64) (core : IpcCore) :
    ipcPeerNodeInit p mask core =
      (nodeLinks mask).foldl (fun core x => linkNode p x.1 x.2 core) core :=
  nodeInitLoop_eq ..

/-! ## The two ways to the rank -/

/-- The loop links the node of the rank, from the bit `i` on. -/
lemma nodeLinksLoop_eq {full mask : UInt64} {fuel i j : ℕ} (hfuel : fuel + i = 64)
    (hmask : mask.toNat = full.toNat / 2 ^ i) (hj : j = rank full.toNat i) :
    nodeLinksLoop fuel mask i j = ((List.range' i fuel).filter full.toNat.testBit).map
      fun k => (k, rank full.toNat k) := by
  induction fuel generalizing mask i j with
  | zero => rfl
  | succ fuel ih =>
      have hhalf : (mask >>> 1).toNat = full.toNat / 2 ^ (i + 1) := by
        rw [toNat_half, hmask, Nat.div_div_eq_div_mul, pow_succ]
      have hlow : mask.toNat.testBit 0 = full.toNat.testBit i := by
        rw [hmask, Nat.testBit_div_two_pow, Nat.zero_add]
      rw [nodeLinksLoop, List.range'_succ]
      split_ifs with h0 hbit
      · -- no bit is left
        rw [eq_comm, List.map_eq_nil_iff, List.filter_eq_nil_iff]
        intro k hk
        have hki : i ≤ k := by
          rcases List.mem_cons.mp hk with rfl | hk
          · exact le_rfl
          · have := (List.mem_range'_1.mp hk).1
            omega
        have hbit : (full.toNat / 2 ^ i).testBit (k - i) = false := by
          rw [← hmask, h0]
          exact Nat.zero_testBit _
        rw [Nat.testBit_div_two_pow, Nat.sub_add_cancel hki] at hbit
        simp [hbit]
      · rw [and_one_ne_zero, hlow] at hbit
        have hrank : j + 1 = rank full.toNat (i + 1) := by rw [rank_succ, if_pos hbit, hj]
        rw [List.filter_cons_of_pos hbit, List.map_cons, ih (by omega) hhalf hrank, hj]
      · rw [and_one_ne_zero, hlow] at hbit
        have hrank : j = rank full.toNat (i + 1) := by rw [rank_succ, if_neg hbit, hj, Nat.add_zero]
        rw [List.filter_cons_of_neg hbit, ih (by omega) hhalf hrank]

/-- **`ipc_peer_node_init`** puts the node of the rank into the bucket of every bit. -/
lemma nodeLinks_eq (mask : UInt64) :
    nodeLinks mask = ((List.range 64).filter mask.toNat.testBit).map
      fun k => (k, rank mask.toNat k) := by
  have hloop : nodeLinksLoop 64 mask 0 0 = ((List.range' 0 64).filter mask.toNat.testBit).map
      fun k => (k, rank mask.toNat k) :=
    nodeLinksLoop_eq (by omega) (by simp) rfl
  rw [nodeLinks, hloop, List.range_eq_range']

lemma mem_nodeLinks {mask : UInt64} {i j : ℕ} :
    (i, j) ∈ nodeLinks mask ↔
      i < 64 ∧ mask.toNat.testBit i = true ∧ j = rank mask.toNat i := by
  rw [nodeLinks_eq, List.mem_map]
  constructor
  · rintro ⟨k, hk, heq⟩
    obtain ⟨rfl, rfl⟩ := Prod.mk.inj heq
    obtain ⟨hlt, hbit⟩ := List.mem_filter.mp hk
    exact ⟨List.mem_range.mp hlt, hbit, rfl⟩
  · rintro ⟨hlt, hbit, rfl⟩
    exact ⟨i, List.mem_filter.mpr ⟨List.mem_range.mpr hlt, hbit⟩, rfl⟩

lemma map_rank_filter (n k : ℕ) :
    ((List.range k).filter n.testBit).map (rank n) = List.range (rank n k) := by
  induction k with
  | zero => rfl
  | succ k ih =>
      rw [List.range_succ, List.filter_append, List.map_append, ih, rank_succ]
      split_ifs with hbit
      · rw [List.filter_cons_of_pos hbit, List.range_succ]
        rfl
      · rw [List.filter_cons_of_neg hbit]
        simp

lemma map_snd_nodeLinks (mask : UInt64) :
    (nodeLinks mask).map Prod.snd = List.range (bitCount mask) := by
  rw [nodeLinks_eq, List.map_map, bitCount_eq, ← map_rank_filter]
  rfl

lemma rank_mod (n i k : ℕ) : rank (n % 2 ^ i) k = rank n (min k i) := by
  induction k with
  | zero => simp [rank]
  | succ k ih =>
      rw [rank_succ, ih, Nat.testBit_mod_two_pow]
      rcases lt_or_ge k i with hki | hki
      · rw [Nat.min_eq_left hki.le, Nat.min_eq_left hki, rank_succ, decide_eq_true hki,
          Bool.true_and]
      · rw [Nat.min_eq_right hki, Nat.min_eq_right (by omega), decide_eq_false (by omega)]
        simp

/-- **The clear-lowest-bit trick** on the bits below the topic counts the rank. -/
lemma nodeIndex_eq {mask topic : UInt64} {i : ℕ} (hi : i < 64) (htopic : topic.toNat = 2 ^ i) :
    nodeIndex mask topic = rank mask.toNat i := by
  have hone : (1 : UInt64) ≤ topic := by
    rw [UInt64.le_iff_toNat_le, htopic]
    exact Nat.two_pow_pos i
  have hbelow : (mask &&& (topic - 1)).toNat = mask.toNat % 2 ^ i := by
    rw [UInt64.toNat_and, UInt64.toNat_sub_of_le _ _ hone, htopic]
    exact Nat.and_two_pow_sub_one_eq_mod ..
  rw [nodeIndex, bitCount_eq, hbelow, rank_mod, Nat.min_eq_right hi.le]

/-- The rings of the buckets when the nodes of the peer are linked. -/
def linkedRings (p : Ptr) (mask : UInt64) (rings : Fin 64 → List Addr) (k : Fin 64) : List Addr :=
  rings k ++ if mask.toNat.testBit k then [.node p (rank mask.toNat k)] else []

/-- **`ipc_peer_node_init`** appends a node to the ring of every bucket of the mask, when none of the
peer's nodes is linked. -/
lemma ipcPeerNodeInit_rings {p : Ptr} {s : IpcServer} {core : IpcCore}
    {rings : Fin 64 → List Addr} (hs : core.handle p = some s)
    (hnode : s.node = List.replicate (bitCount s.mask) false)
    (hrings : core.links.Family bucketHead rings) (hnew : ∀ k j, .node p j ∉ rings k) :
    (ipcPeerNodeInit p s.mask core).links.Family bucketHead (linkedRings p s.mask rings) := by
  have hhandle : core.handle p = some { s with
      node := List.replicate 0 true ++ List.replicate (bitCount s.mask - 0) false } := by
    simp [hs, ← hnode]
  have hfresh : ∀ (k : Fin 64) m, 0 ≤ m → s.mask.toNat.testBit m = true →
      .node p (rank s.mask.toNat m) ∉ bucketHead k :: rings k := by
    intro k m _ _ hmem
    rcases List.mem_cons.mp hmem with heq | hmem
    · simp [bucketHead] at heq
    · exact hnew k _ hmem
  obtain ⟨-, hfamily⟩ := nodeInitLoop_spec (p := p) (s := s) 64 (i := 0) (by omega)
    (show s.mask.toNat = s.mask.toNat / 2 ^ 0 by simp) (show 0 = rank s.mask.toNat 0 by rfl)
    hhandle hrings hfresh
  refine hfamily.of_eq fun k => ?_
  simp [linkedRings]

lemma mem_linkedRings {p : Ptr} {mask : UInt64} {rings : Fin 64 → List Addr} {k : Fin 64} {j : ℕ}
    (hnew : .node p j ∉ rings k) : .node p j ∈ linkedRings p mask rings k ↔
      mask.toNat.testBit k = true ∧ j = rank mask.toNat k := by
  rw [linkedRings, List.mem_append, or_iff_right hnew]
  split_ifs with hbit <;> simp [hbit]

/-- A topic that passes the two checks is a bit of the mask. -/
lemma exists_bit {mask topic : UInt64} (hcheck : topicCheck topic = true)
    (hset : topicIsset mask topic = true) :
    ∃ i < 64, topic.toNat = 2 ^ i ∧ mask.toNat.testBit i = true := by
  rcases (topicCheck_iff topic).mp hcheck with rfl | ⟨i, hi, htopic⟩
  · simp [topicIsset] at hset
  · refine ⟨i, hi, htopic, ?_⟩
    rw [← accepts_single htopic, accepts, hset, hcheck]
    rfl

/-! ## The nodes in a run -/

/-- The nodes of a peer are set once it has synchronised. -/
structure NodesMarked (core : IpcCore) : Prop where
  below : ∀ p ∈ syncs core.log, p < core.brk
  marked : ∀ p s, core.handle p = some s → s.clazz = .subscriber →
    s.node = List.replicate (bitCount s.mask) (decide (p ∈ syncs core.log))

variable {core core' : IpcCore} {p : Ptr} {s : IpcServer}

/-- Handles may go, and the log may grow by other calls. -/
lemma NodesMarked.of_sub (h : NodesMarked core) (hlog : SameSyncs core core')
    (hbrk : core.brk ≤ core'.brk)
    (hold : ∀ q t, core'.handle q = some t → core.handle q = some t) : NodesMarked core' where
  below q hq := by
    rw [hlog.syncs] at hq
    exact (h.below q hq).trans_le hbrk
  marked q t ht hclazz := by
    rw [hlog.syncs]
    exact h.marked q t (hold q t ht) hclazz

lemma NodesMarked.manager (h : NodesMarked core) (p : Ptr) {cmd : ManagerCmd} (hcmd : cmd ≠ .sync) :
    NodesMarked (ipcServerManager p cmd core) :=
  h.of_sub (sameSyncs_manager p cmd hcmd core) le_rfl fun _ _ ht => ht

lemma brk_ipcRelease (p : Ptr) (core : IpcCore) : (ipcRelease p core).brk = core.brk := by
  unfold ipcRelease
  split
  · rfl
  · split <;> rfl

lemma NodesMarked.release (h : NodesMarked core) (hform : Formed core) (p : Ptr) :
    NodesMarked (ipcRelease p core) := by
  apply h.of_sub (sameSyncs_release p core) (brk_ipcRelease p core).ge
  intro q t ht
  by_cases hq : q = p
  · subst hq
    cases hs : core.handle q with
    | none =>
        rw [ipcRelease, hs] at ht
        exact hs.symm.trans ht
    | some s =>
        rw [(hform.release_live hs).1] at ht
        cases ht
  · rwa [handle_ipcRelease_of_ne hq] at ht

/-- A new peer has not synchronised, and its nodes are clear. -/
lemma NodesMarked.newPeer (h : NodesMarked core)
    (hnode : s.node = List.replicate (bitCount s.mask) false) : NodesMarked (sevrInit s core) where
  below q hq := (h.below q hq).trans (Nat.lt_succ_self _)
  marked q t ht hclazz := by
    change (if q = core.brk then some s else core.handle q) = some t at ht
    split_ifs at ht with hq
    · obtain rfl := Option.some.inj ht
      have hnew : q ∉ syncs core.log := fun hmem => (h.below q hmem).ne hq
      have hlog : (sevrInit s core).log = core.log := rfl
      rw [hnode, hlog, decide_eq_false hnew]
    · exact h.marked q t ht hclazz

lemma NodesMarked.register (h : NodesMarked core) (hform : Formed core) (sock : ℕ) (msg : IpcMsg)
    (env : RegisterEnv) : NodesMarked (ipcServerRegister sock msg env core) := by
  have hneed : NodesMarked (needBuckets core) := by
    unfold needBuckets
    split_ifs
    · exact h
    · exact h.of_sub ⟨rfl, rfl⟩ le_rfl fun _ _ ht => ht
  have hnew := hneed.newPeer (s := newSubscriber sock msg) rfl
  have hother : ManagerCmd.register env.verdict ≠ .sync := by simp
  have hcall := hnew.manager core.brk hother
  obtain hreg | ⟨hmask, core', rfl, ⟨-, hreg⟩ | hreg⟩ := ipcServerRegister_cases sock msg env core
  · rw [hreg]
    exact h.of_sub ⟨rfl, rfl⟩ le_rfl fun _ _ ht => ht
  · rw [hreg]
    exact hnew
  · rw [hreg]
    have hform' := (hform.newPeer hmask sock).manager core.brk (.register env.verdict)
    obtain ⟨-, hpeer⟩ | ⟨-, hpeer | hpeer⟩ := registerPeer_cases core.brk env
      (sevrInit (newSubscriber sock msg) (needBuckets core))
    · rw [hpeer]
      exact hcall.release hform' _
    · rw [hpeer]
      exact hcall
    · rw [hpeer]
      exact (hcall.manager core.brk (by decide)).release (hform'.manager _ _) _

lemma handle_foldl_linkNode (links : List (ℕ × ℕ)) (hs : core.handle p = some s) :
    (links.foldl (fun core x => linkNode p x.1 x.2 core) core).handle p =
      some { s with node := (links.map Prod.snd).foldl (fun node j => node.set j true) s.node } := by
  induction links generalizing core s with
  | nil => exact hs
  | cons x links ih =>
      have hlink : (linkNode p x.1 x.2 core).handle p =
          some { s with node := s.node.set x.2 true } := by
        simp [linkNode, hs]
      rw [List.foldl_cons, ih hlink, List.map_cons, List.foldl_cons]

lemma foldl_set_range (n k : ℕ) (b : Bool) :
    (List.range n).foldl (fun node j => node.set j true) (List.replicate (n + k) b) =
      List.replicate n true ++ List.replicate k b := by
  induction n generalizing k with
  | zero => simp
  | succ n ih =>
      have hlen : n + 1 + k = n + (k + 1) := by omega
      rw [List.range_succ, List.foldl_append, hlen, ih, List.replicate_succ' (n := n)]
      simp [List.replicate_succ, List.set_append_right]

/-- **A synchronisation** sets every node of the peer, also when it is not the first one. -/
lemma NodesMarked.sync (h : NodesMarked core) (hform : Formed core) (hs : core.handle p = some s)
    (hclazz : s.clazz = .subscriber) (hp : p < core.brk) : NodesMarked (ipcServerSync p core) := by
  obtain ⟨hother, -, hrest⟩ := nodeInitLoop_frame p 64 s.mask 0 0 core
  have hlog : (nodeInitLoop p 64 s.mask 0 0 core).log = core.log := by rw [hrest]
  have hbrk : (nodeInitLoop p 64 s.mask 0 0 core).brk = core.brk := by rw [hrest]
  have hself : (nodeInitLoop p 64 s.mask 0 0 core).handle p =
      some { s with node := List.replicate (bitCount s.mask) true } := by
    have hlinks := handle_foldl_linkNode (nodeLinks s.mask) hs
    rw [← ipcPeerNodeInit_eq, map_snd_nodeLinks, h.marked p s hs hclazz] at hlinks
    have hset := foldl_set_range (bitCount s.mask) 0 (decide (p ∈ syncs core.log))
    rw [Nat.add_zero, List.replicate_zero, List.append_nil] at hset
    rw [hset] at hlinks
    exact hlinks
  have hsyncs : syncs (ipcServerSync p core).log = syncs core.log ++ [p] := by
    rw [hform.sync_peer hs hclazz]
    simp [ipcServerManager, ipcPeerNodeInit, hlog, syncs, List.filterMap_append]
  have hhandle : (ipcServerSync p core).handle = (nodeInitLoop p 64 s.mask 0 0 core).handle := by
    rw [hform.sync_peer hs hclazz]
    rfl
  have hbrk' : (ipcServerSync p core).brk = core.brk := by
    rw [hform.sync_peer hs hclazz]
    exact hbrk
  refine ⟨fun q hq => ?_, fun q t ht hc => ?_⟩
  · rw [hsyncs, List.mem_append, List.mem_singleton] at hq
    rw [hbrk']
    rcases hq with hq | rfl
    · exact h.below q hq
    · exact hp
  · rw [hsyncs]
    rw [hhandle] at ht
    by_cases hq : q = p
    · subst hq
      obtain rfl := Option.some.inj (hself.symm.trans ht)
      simp
    · rw [hother q hq] at ht
      simpa [hq] using h.marked q t ht hc

lemma NodesMarked.step {l : PeerLabel} {es : List Empty} (h : NodesMarked core)
    (hform : Formed core) (hstep : peerStep core l = some (core', es)) : NodesMarked core' := by
  cases l with
  | register sock msg env =>
      obtain ⟨rfl, -⟩ := Prod.mk.inj (Option.some.inj hstep)
      exact h.register hform sock msg env
  | sync p =>
      simp only [peerStep] at hstep
      split_ifs at hstep with hp
      obtain ⟨s, hs, hclazz⟩ := IpcCore.isPeer_iff.mp hp
      obtain ⟨rfl, -⟩ := Prod.mk.inj (Option.some.inj hstep)
      apply h.sync hform hs hclazz
      by_contra hge
      rw [hform.fresh p (not_lt.mp hge)] at hs
      cases hs
  | unregister p =>
      simp only [peerStep] at hstep
      split_ifs at hstep with hp
      obtain ⟨s, hs, hclazz⟩ := IpcCore.isPeer_iff.mp hp
      obtain ⟨rfl, -⟩ := Prod.mk.inj (Option.some.inj hstep)
      rw [hform.unregister_peer hs hclazz]
      exact (h.manager p (by decide)).release (hform.manager _ _) p
  | release p =>
      simp only [peerStep] at hstep
      split_ifs at hstep with hp
      obtain ⟨rfl, -⟩ := Prod.mk.inj (Option.some.inj hstep)
      exact h.release hform p

lemma nodesMarked_boot (masterSock : ℕ) : NodesMarked (IpcCore.boot masterSock) where
  below := by simp [IpcCore.boot, syncs]
  marked q t ht hclazz := by
    simp only [IpcCore.boot] at ht
    split_ifs at ht
    obtain rfl := Option.some.inj ht
    cases hclazz

/-! ## The two entry points -/

/-- `ipc_server_notifyx` for the handle `p`, on the caller's buffer: nothing if it is not the address
of a handle. -/
def ipcServerNotifyxMsg (p : Ptr) (topic : UInt64) (msgId : UInt32) (msg : Mem) (dataLen : ℕ)
    (core : IpcCore) : Publication :=
  if !core.running then some (-1, [])
  else
    (core.handle p).map fun sevr =>
      if sevr.clazz ≠ .subscriber ∨ !topicCheck topic ∨ !topicIsset sevr.mask topic then (-1, [])
      -- without `IPC_SDK_MSG_SYNC` the callback of the client may not be ready
      else if !sevr.node.getD (bitCount (sevr.mask &&& (topic - 1))) false then (-1, [])
      else msgReport (ipcNotifyFill ipcToNotify topic msgId dataLen msg) 0 (0, [p])

/-- The test that the two functions make after their other checks. -/
lemma NodesMarked.syncTest {topic : UInt64} (h : NodesMarked core) (hs : core.handle p = some s)
    (hclazz : s.clazz = .subscriber) (hcheck : topicCheck topic = true)
    (hset : topicIsset s.mask topic = true) :
    s.node[nodeIndex s.mask topic]? = some (decide (p ∈ syncs core.log)) := by
  obtain ⟨i, hi, htopic, hbit⟩ := exists_bit hcheck hset
  rw [h.marked p s hs hclazz, List.getElem?_replicate, if_pos]
  rw [nodeIndex_eq hi htopic, bitCount_eq]
  exact rank_lt hbit hi

/-- What the two functions do for a handle after such a test. -/
structure NotifiesAfterSync (core : IpcCore) (p : Ptr) (topic : UInt64) : Prop where
  refused : p ∉ syncs core.log → ∀ msgId stack heap alloc data size msg dataLen,
    ipcServerNotifyMsg p topic msgId stack heap alloc data size core = some (-1, []) ∧
      ipcServerNotifyxMsg p topic msgId msg dataLen core = some (-1, [])
  sent : p ∈ syncs core.log → ∀ msgId stack heap alloc data size msg dataLen,
    ipcServerNotifyMsg p topic msgId stack heap alloc data size core =
        (if ipcNotifySpaceCheck ipcNotifyMsgMaxSize size || alloc then
          some (msgReport (ipcNotifyPack ipcToNotify topic msgId data size
            (packBuffer stack heap size)) 0 (0, [p]))
        else some (-1, [])) ∧
      ipcServerNotifyxMsg p topic msgId msg dataLen core =
        some (msgReport (ipcNotifyFill ipcToNotify topic msgId dataLen msg) 0 (0, [p]))

lemma NodesMarked.notifies {topic : UInt64} (h : NodesMarked core) (hrunning : core.running = true)
    (hs : core.handle p = some s) (hclazz : s.clazz = .subscriber)
    (hcheck : topicCheck topic = true) (hset : topicIsset s.mask topic = true) :
    NotifiesAfterSync core p topic := by
  have htest := h.syncTest hs hclazz hcheck hset
  have hget : s.node.getD (bitCount (s.mask &&& (topic - 1))) false =
      decide (p ∈ syncs core.log) := by
    rw [List.getD_eq_getElem?_getD]
    exact congrArg (Option.getD · false) htest
  constructor
  · intro hsync msgId stack heap alloc data size msg dataLen
    rw [decide_eq_false hsync] at hget
    constructor
    · simp only [ipcServerNotifyMsg, hrunning, hs, hclazz, hcheck, hset, hget, Option.map_some]
      rfl
    · simp only [ipcServerNotifyxMsg, hrunning, hs, hclazz, hcheck, hset, hget, Option.map_some]
      rfl
  · intro hsync msgId stack heap alloc data size msg dataLen
    rw [decide_eq_true hsync] at hget
    constructor
    · simp only [ipcServerNotifyMsg, hrunning, hs, hclazz, hcheck, hset, hget, Option.map_some]
      cases ipcNotifySpaceCheck ipcNotifyMsgMaxSize size || alloc <;> rfl
    · simp only [ipcServerNotifyxMsg, hrunning, hs, hclazz, hcheck, hset, hget, Option.map_some]
      rfl

/-- **The rank of a topic finds its node.**  For every topic of one bit in a mask, the index of the
two functions is that of a node of the peer; `ipc_peer_node_init` links this node into the bucket of
the topic and no other node, and this node into no other bucket: in its loop, and in the rings of the
buckets afterwards.  In every run the node says whether the peer has synchronised, and the two
functions act on it. -/
theorem rank_finds_node {mask topic : UInt64} (hcheck : topicCheck topic = true)
    (hset : topicIsset mask topic = true) :
    nodeIndex mask topic < bitCount mask ∧
      (∀ (p : Ptr) (core : IpcCore), ipcPeerNodeInit p mask core =
        (nodeLinks mask).foldl (fun core x => linkNode p x.1 x.2 core) core) ∧
      (nodeLinks mask).Nodup ∧
      (∀ j, (bitIndex topic, j) ∈ nodeLinks mask ↔ j = nodeIndex mask topic) ∧
      (∀ i, (i, nodeIndex mask topic) ∈ nodeLinks mask ↔ i = bitIndex topic) ∧
      (∀ (p : Ptr) (s : IpcServer) (core : IpcCore) (rings : Fin 64 → List Addr),
        core.handle p = some s → s.mask = mask →
        s.node = List.replicate (bitCount mask) false →
        core.links.Family bucketHead rings → (∀ k j, .node p j ∉ rings k) →
        ∃ rings', (ipcPeerNodeInit p mask core).links.Family bucketHead rings' ∧
          (∀ k j, k.val = bitIndex topic →
            (.node p j ∈ rings' k ↔ j = nodeIndex mask topic)) ∧
          ∀ k, .node p (nodeIndex mask topic) ∈ rings' k ↔ k.val = bitIndex topic) ∧
      ∀ (masterSock : ℕ) (ls : List PeerLabel) (core : IpcCore) (es : List Empty),
        run peerStep ls (IpcCore.boot masterSock) = some (core, es) →
        ∀ p s, core.handle p = some s → s.clazz = .subscriber → s.mask = mask →
          s.node[nodeIndex mask topic]? = some (decide (p ∈ syncs core.log)) ∧
            NotifiesAfterSync core p topic := by
  obtain ⟨i, hi, htopic, hbit⟩ := exists_bit hcheck hset
  have hindex : nodeIndex mask topic = rank mask.toNat i := nodeIndex_eq hi htopic
  have hbucket := bitIndex_eq htopic hi
  refine ⟨?_, fun p core => ipcPeerNodeInit_eq p mask core, ?_, fun j => ?_, fun k => ?_, ?_, ?_⟩
  · rw [hindex, bitCount_eq]
    exact rank_lt hbit hi
  · apply List.Nodup.of_map Prod.snd
    rw [map_snd_nodeLinks]
    exact List.nodup_range
  · rw [hbucket, mem_nodeLinks, hindex]
    simp [hi, hbit]
  · rw [hbucket, mem_nodeLinks, hindex, rank_eq_iff hbit, and_iff_right_iff_imp]
    rintro rfl
    exact hi
  · intro p s core rings hs hmask hnode hrings hnew
    subst hmask
    refine ⟨_, ipcPeerNodeInit_rings hs hnode hrings hnew, fun k j hk => ?_, fun k => ?_⟩
    · rw [mem_linkedRings (hnew k j), hk, hbucket, hindex]
      simp [hbit]
    · rw [mem_linkedRings (hnew k _), hbucket, hindex, rank_eq_iff hbit]
  · intro masterSock ls core es hrun p s hs hclazz hmask
    have hall : Along peerStep (fun _ _ => True) ls (IpcCore.boot masterSock) :=
      along_of_forall (fun _ _ => trivial) _
    obtain ⟨-, hmarked⟩ : Formed core ∧ NodesMarked core :=
      run_invariant (I := fun core => Formed core ∧ NodesMarked core)
        (fun h _ hstep => ⟨h.1.peerStep hstep, h.2.step h.1 hstep⟩)
        ⟨formed_boot masterSock, nodesMarked_boot masterSock⟩ hall hrun
    have hrunning := (syncs_run (formed_boot masterSock) hrun).2
    subst hmask
    exact ⟨hmarked.syncTest hs hclazz hcheck hset,
      hmarked.notifies hrunning hs hclazz hcheck hset⟩

/-- A subscriber with the bits 0, 3, 5 and 63 in its mask. -/
def samplePeer : IpcServer :=
  ⟨.subscriber, 7, 9, 0x8000000000000029,
    List.replicate (bitCount 0x8000000000000029) false⟩

/-- A server with empty buckets and this subscriber. -/
def samplePeers : IpcCore := sevrInit samplePeer (nodeHashBucketInit (IpcCore.boot 3))

/-- The topic of the bit 5: the third of four nodes, and the only one in the bucket 5. -/
theorem rank_finds_node_sample :
    bitIndex 0x20 = 5 ∧ nodeIndex 0x8000000000000029 0x20 = 2 ∧
      (5, 2) ∈ nodeLinks 0x8000000000000029 ∧
      ∃ rings, (ipcPeerNodeInit 1 0x8000000000000029 samplePeers).links.Family bucketHead rings ∧
        ∀ j, .node 1 j ∈ rings 5 ↔ j = 2 := by
  have hset : topicIsset 0x8000000000000029 0x20 = true := by decide
  have h := rank_finds_node (by decide) hset
  have hbucket : bitIndex 0x20 = 5 := by decide
  have hindex : nodeIndex 0x8000000000000029 0x20 = 2 := by decide
  obtain ⟨-, -, -, hlinks, -, hrings, -⟩ := h
  rw [hbucket, hindex] at hlinks
  obtain ⟨rings, hfamily, honly, -⟩ := hrings 1 samplePeer samplePeers (fun _ => []) rfl rfl rfl
    (family_nodeHashBucketInit (IpcCore.boot 3)) (fun k j => List.not_mem_nil)
  refine ⟨hbucket, hindex, (hlinks 2).mpr rfl, rings, hfamily, fun j => ?_⟩
  rw [← hindex]
  exact honly 5 j hbucket.symm

end LinuxC.Ipc
