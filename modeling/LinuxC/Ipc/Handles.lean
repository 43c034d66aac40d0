import LinuxC.Ipc.Server

/-!
# The handles that the server builds

The assertions of the server rest on facts about its handles: the list of the core holds exactly
the live ones, none of them is a dummy, and a subscriber has its nodes, since `ipc_peer_create` is
called for a mask with some bit in it and fails without them.  `Formed` says so, and every
operation keeps it, whatever the clients do.
-/

namespace LinuxC.Ipc

/-- The list of the core holds the live handles, no handle is a dummy, and every subscriber has its
nodes. -/
structure Formed (core : IpcCore) : Prop where
  clazz : ∀ p s, core.handle p = some s → s.clazz ≠ .dummy
  node : ∀ p s, core.handle p = some s → s.clazz = .subscriber → s.node ≠ []
  fresh : ∀ p, core.brk ≤ p → core.handle p = none
  listed : ∀ p, p ∈ core.head ↔ core.handle p ≠ none
  nodup : core.head.Nodup

variable {core core' : IpcCore} {p : Ptr} {s : IpcServer}

/-- The handles are those there were, with their class and their number of nodes. -/
lemma Formed.mono (h : Formed core) (hold : ∀ q, (core'.handle q).map
      (fun s => (s.clazz, s.node.length)) = (core.handle q).map fun s => (s.clazz, s.node.length))
    (hbrk : core'.brk = core.brk) (hhead : core'.head = core.head) : Formed core' := by
  have hnone : ∀ q, core'.handle q = none ↔ core.handle q = none := by
    intro q
    rw [← Option.map_eq_none_iff (f := fun s : IpcServer => (s.clazz, s.node.length)), hold,
      Option.map_eq_none_iff]
  have hsome : ∀ q t, core'.handle q = some t →
      ∃ t', core.handle q = some t' ∧ t'.clazz = t.clazz ∧ t'.node.length = t.node.length := by
    intro q t ht
    have heq := hold q
    rw [ht, Option.map_some, eq_comm, Option.map_eq_some_iff] at heq
    obtain ⟨t', ht', heq⟩ := heq
    exact ⟨t', ht', (Prod.mk.inj heq).1, (Prod.mk.inj heq).2⟩
  refine ⟨fun q t ht => ?_, fun q t ht hclazz => ?_, fun q hq => ?_, fun q => ?_, ?_⟩
  · obtain ⟨t', ht', hc, -⟩ := hsome q t ht
    rw [← hc]
    exact h.clazz q t' ht'
  · obtain ⟨t', ht', hc, hn⟩ := hsome q t ht
    have hne := h.node q t' ht' (hc.trans hclazz)
    rw [← List.length_pos_iff] at hne ⊢
    rwa [← hn]
  · rw [hnone]
    exact h.fresh q (hbrk ▸ hq)
  · rw [hhead, Ne, hnone]
    exact h.listed q
  · rw [hhead]
    exact h.nodup

lemma Formed.congr (h : Formed core) (hhandle : core'.handle = core.handle)
    (hbrk : core'.brk = core.brk) (hhead : core'.head = core.head) : Formed core' :=
  h.mono (fun q => by rw [hhandle]) hbrk hhead

lemma formed_boot (masterSock : ℕ) : Formed (IpcCore.boot masterSock) := by
  have hmaster : ∀ p s, (IpcCore.boot masterSock).handle p = some s → s.clazz = .master := by
    intro p s hs
    simp only [IpcCore.boot] at hs
    split_ifs at hs
    obtain rfl := Option.some.inj hs
    rfl
  refine ⟨fun p s hs => ?_, fun p s hs hclazz => ?_, fun p hp => ?_, fun p => ?_, ?_⟩
  · rw [hmaster p s hs]
    decide
  · rw [hmaster p s hs] at hclazz
    cases hclazz
  · exact if_neg (Nat.one_le_iff_ne_zero.mp hp)
  · by_cases hp : p = 0
    · simp [IpcCore.boot, hp]
    · simp [IpcCore.boot, hp]
  · simp [IpcCore.boot]

lemma Formed.manager (h : Formed core) (p : Ptr) (cmd : ManagerCmd) :
    Formed (ipcServerManager p cmd core) := h.congr rfl rfl rfl

lemma Formed.close (h : Formed core) (sock : ℕ) : Formed (closeSock sock core) :=
  h.congr rfl rfl rfl

lemma Formed.useStale (h : Formed core) (p : Ptr) : Formed (core.useStale p) := h.congr rfl rfl rfl

lemma Formed.abort (h : Formed core) : Formed core.abort := h.congr rfl rfl rfl

/-! ## Release -/

lemma Formed.free (h : Formed core) (p : Ptr) (s : IpcServer) : Formed (ipcFree p s core) := by
  have hhandle : ∀ q, (ipcFree p s core).handle q = if q = p then none else core.handle q :=
    fun _ => rfl
  have hhead : (ipcFree p s core).head = core.head.erase p := rfl
  have hsome : ∀ q t, (ipcFree p s core).handle q = some t → core.handle q = some t := by
    intro q t ht
    rw [hhandle] at ht
    split_ifs at ht
    exact ht
  refine ⟨fun q t ht => h.clazz q t (hsome q t ht), fun q t ht => h.node q t (hsome q t ht),
    fun q hq => ?_, fun q => ?_, ?_⟩
  · rw [hhandle]
    split_ifs
    · rfl
    · exact h.fresh q hq
  · rw [hhandle, hhead, h.nodup.mem_erase_iff, h.listed]
    split_ifs with hq
    · simp [hq]
    · simp [hq]
  · rw [hhead]
    exact h.nodup.erase p

lemma Formed.release (h : Formed core) (p : Ptr) : Formed (ipcRelease p core) := by
  unfold ipcRelease
  split
  · exact h.useStale p
  · rename_i s hs
    split
    · exact h.abort
    · exact (h.manager p .release).free p _
    · have hlinks : Formed { ipcServerManager p .release core with
          links := releaseNodes p s core.links } := h.congr rfl rfl rfl
      exact hlinks.free p s
    · exact h.free p _
    · exact h.free p _

lemma handle_ipcRelease_of_ne {q : Ptr} (hq : q ≠ p) :
    (ipcRelease p core).handle q = core.handle q := by
  unfold ipcRelease
  split
  · rfl
  · split
    · rfl
    · exact if_neg hq
    · exact if_neg hq
    · exact if_neg hq
    · exact if_neg hq

lemma Formed.release_live (h : Formed core) (hs : core.handle p = some s) :
    (ipcRelease p core).handle p = none ∧ (ipcRelease p core).dead = core.dead ∧
      (ipcRelease p core).stale = core.stale ∧ (ipcRelease p core).aborted = core.aborted := by
  have hfree : ∀ c, (ipcFree p s c).handle p = none := fun _ => if_pos rfl
  unfold ipcRelease
  rw [hs]
  dsimp only
  split
  · rename_i hdummy
    exact absurd hdummy (h.clazz p s hs)
  · exact ⟨hfree _, rfl, rfl, rfl⟩
  · exact ⟨hfree _, rfl, rfl, rfl⟩
  · exact ⟨hfree _, rfl, rfl, rfl⟩
  · exact ⟨hfree _, rfl, rfl, rfl⟩

lemma Formed.head_release (h : Formed core) (hs : core.handle p = some s) :
    (ipcRelease p core).head = core.head.erase p := by
  unfold ipcRelease
  rw [hs]
  dsimp only
  split
  · rename_i hdummy
    exact absurd hdummy (h.clazz p s hs)
  · rfl
  · rfl
  · rfl
  · rfl

lemma Formed.unregister_peer (h : Formed core) (hs : core.handle p = some s)
    (hclazz : s.clazz = .subscriber) : ipcServerUnregister p core =
      (ipcRelease p (ipcServerManager p .unregister core), true) := by
  simp only [ipcServerUnregister, hs, hclazz, ne_eq, not_true, if_false, h.node p s hs hclazz]

lemma Formed.unregister (h : Formed core) (p : Ptr) : Formed (ipcServerUnregister p core).1 := by
  unfold ipcServerUnregister
  split
  · exact h.useStale p
  · split_ifs
    · exact h
    · exact h
    · exact (h.manager p .unregister).release p

/-! ## Creation -/

lemma Formed.sevrInit (h : Formed core) (hclazz : s.clazz ≠ .dummy)
    (hnode : s.clazz = .subscriber → s.node ≠ []) : Formed (sevrInit s core) := by
  have hhandle : ∀ q, (Ipc.sevrInit s core).handle q =
      if q = core.brk then some s else core.handle q := fun _ => rfl
  have hhead : (Ipc.sevrInit s core).head = core.head ++ [core.brk] := rfl
  have hnew : core.brk ∉ core.head := by
    rw [h.listed, not_not]
    exact h.fresh _ (Nat.le_refl _)
  refine ⟨fun q t ht => ?_, fun q t ht hc => ?_, fun q hq => ?_, fun q => ?_, ?_⟩
  · rw [hhandle] at ht
    split_ifs at ht
    · obtain rfl := Option.some.inj ht
      exact hclazz
    · exact h.clazz q t ht
  · rw [hhandle] at ht
    split_ifs at ht
    · obtain rfl := Option.some.inj ht
      exact hnode hc
    · exact h.node q t ht hc
  · change core.brk + 1 ≤ q at hq
    rw [hhandle, if_neg (by rintro rfl; exact absurd hq (Nat.not_succ_le_self _))]
    exact h.fresh q (Nat.le_of_succ_le hq)
  · rw [hhandle, hhead, List.mem_append, List.mem_singleton, h.listed]
    split_ifs with hq
    · simp [hq]
    · simp [hq]
  · rw [hhead]
    refine List.nodup_append.mpr ⟨h.nodup, by simp, fun x hx y hy => ?_⟩
    rintro rfl
    exact hnew (List.mem_singleton.mp hy ▸ hx)

lemma Formed.needBuckets (h : Formed core) : Formed (needBuckets core) := by
  unfold Ipc.needBuckets
  split_ifs
  · exact h
  · exact h.congr rfl rfl rfl

lemma bitCount_pos {mask : UInt64} (h : mask ≠ 0) : 0 < bitCount mask := by
  rw [bitCount_eq, ← rank_clear (fun hn => h (UInt64.toNat_inj.mp hn)) mask.toNat_lt]
  exact Nat.succ_pos _

lemma Formed.newPeer (h : Formed core) {msg : IpcMsg} (hmask : regMask msg ≠ 0) (sock : ℕ) :
    Formed (Ipc.sevrInit (newSubscriber sock msg) (Ipc.needBuckets core)) := by
  apply h.needBuckets.sevrInit (by simp [newSubscriber])
  intro _
  rw [← List.length_pos_iff, newSubscriber, List.length_replicate]
  exact bitCount_pos hmask

lemma Formed.register (h : Formed core) (sock : ℕ) (msg : IpcMsg) (env : RegisterEnv) :
    Formed (ipcServerRegister sock msg env core) := by
  obtain hreg | ⟨hmask, core', rfl, ⟨-, hreg⟩ | hreg⟩ := ipcServerRegister_cases sock msg env core
  · rw [hreg]
    exact h.close sock
  · rw [hreg]
    exact h.newPeer hmask sock
  · rw [hreg]
    have hcall := (h.newPeer hmask sock).manager core.brk (.register env.verdict)
    obtain ⟨-, hpeer⟩ | ⟨-, hpeer | hpeer⟩ := registerPeer_cases core.brk env
      (Ipc.sevrInit (newSubscriber sock msg) (Ipc.needBuckets core))
    · rw [hpeer]
      exact hcall.release _
    · rw [hpeer]
      exact hcall
    · rw [hpeer]
      exact (hcall.manager _ _).release _

lemma Formed.connect (h : Formed core) (sock : ℕ) (msg : IpcMsg) (env : ConnectEnv) :
    Formed (ipcServerConnect sock msg env core) := by
  unfold ipcServerConnect
  have hnew : Formed (Ipc.sevrInit ⟨.requester, int32 (leNat (msg.data.take 4)), sock, 0, []⟩
      core) := h.sevrInit (by simp) (by simp)
  dsimp only
  split_ifs
  · exact h.close sock
  · exact (hnew.manager _ _).release _
  · exact hnew.manager _ _
  · exact (hnew.manager _ _).release _

/-! ## Synchronisation -/

/-- The loop of `ipc_peer_node_init` changes the nodes of the peer and the links. -/
lemma nodeInitLoop_frame (p : Ptr) (fuel : ℕ) (mask : UInt64) (i j : ℕ) (core : IpcCore) :
    (∀ q, q ≠ p → (nodeInitLoop p fuel mask i j core).handle q = core.handle q) ∧
      ((nodeInitLoop p fuel mask i j core).handle p).map (fun s => (s.clazz, s.node.length)) =
        (core.handle p).map (fun s => (s.clazz, s.node.length)) ∧
      nodeInitLoop p fuel mask i j core = { core with
        handle := (nodeInitLoop p fuel mask i j core).handle
        links := (nodeInitLoop p fuel mask i j core).links } := by
  induction fuel generalizing mask i j core with
  | zero => exact ⟨fun _ _ => rfl, rfl, rfl⟩
  | succ fuel ih =>
      simp only [nodeInitLoop]
      split_ifs with h0 h1
      · exact ⟨fun _ _ => rfl, rfl, rfl⟩
      · obtain ⟨hother, hclazz, hrest⟩ := ih (mask >>> 1) (i + 1) (j + 1) (linkNode p i j core)
        refine ⟨fun q hq => (hother q hq).trans (if_neg hq), hclazz.trans ?_, hrest⟩
        simp [linkNode, Option.map_map, Function.comp_def]
      · exact ih _ _ _ core

lemma Formed.sync_peer (h : Formed core) (hs : core.handle p = some s)
    (hclazz : s.clazz = .subscriber) :
    ipcServerSync p core = ipcServerManager p .sync (ipcPeerNodeInit p s.mask core) := by
  simp only [ipcServerSync, hs, hclazz, ne_eq, not_true, if_false, h.node p s hs hclazz]

lemma Formed.sync (h : Formed core) (p : Ptr) : Formed (ipcServerSync p core) := by
  unfold ipcServerSync
  split
  · exact h.useStale p
  · rename_i s hs
    split_ifs
    · exact h.abort
    · exact h.abort
    · obtain ⟨hother, hself, hrest⟩ := nodeInitLoop_frame p 64 s.mask 0 0 core
      refine Formed.manager (h.mono (fun q => ?_) ?_ ?_) p .sync
      · by_cases hq : q = p
        · subst hq
          exact hself
        · exact congrArg _ (hother q hq)
      · rw [ipcPeerNodeInit, hrest]
      · rw [ipcPeerNodeInit, hrest]

end LinuxC.Ipc
