import LinuxC.Ipc.Handles
import LinuxC.Ipc.Reception
import LinuxC.Ipc.ServerLoop

/-!
# The life cycle that the manager hook sees

The users of the manager hook drop their references to a subscriber in `IPC_CLIENT_UNREGISTER` or
`IPC_CLIENT_SHUTDOWN`, so that each accepted subscriber should see exactly one of the two and then
`IPC_CLIENT_RELEASE`.  The server keeps to that where a client closes its connection, crashes,
unregisters or cannot be told of its success.  It does not where the receive loop leaves through
`__error` for another reason, nor in `ipc_server_exit`: these call `ipc_release` alone.

`manager_life_cycle` is about every run that stays clear of these: the calls for an accepted
subscriber are a registration, any number of synchronisations, one of the two commands, and the
release.  The invariant is `LifeOk`.  Every operation is for one handle and leaves the others as
they are (`Only`), so that each lemma is about the calls of that handle.
-/

namespace LinuxC.Ipc

/-! ## Life cycles -/

/-- The calls of the manager hook for one handle. -/
def callsOf (p : Ptr) (log : List ManagerCall) : List ManagerCmd :=
  log.filterMap fun c => if c.sevr = p then some c.cmd else none

/-- A subscriber was accepted, and has said good-bye in one of the two ways. -/
def LifeCycle (cmds : List ManagerCmd) : Prop :=
  ∃ (r : ℤ) (n : ℕ) (last : ManagerCmd), 0 ≤ r ∧ (last = .unregister ∨ last = .shutdown) ∧
    cmds = .register r :: (List.replicate n .sync ++ [last, .release])

/-- A subscriber was accepted and is alive. -/
def Accepted (cmds : List ManagerCmd) : Prop :=
  ∃ (r : ℤ) (n : ℕ), 0 ≤ r ∧ cmds = .register r :: List.replicate n .sync

/-- If a subscriber was accepted, its life cycle is over. -/
def Settled (cmds : List ManagerCmd) : Prop := ∀ r, 0 ≤ r → .register r ∈ cmds → LifeCycle cmds

/-- What the calls of the manager hook for a handle are: the whole life of an accepted subscriber if
it was released, the beginning of one while it is alive, and for a requester no registration. -/
def HandleOk : Option IpcServer → List ManagerCmd → Prop
  | none, cmds => Settled cmds
  | some s, cmds => s.clazz ≠ .dummy ∧
      if s.clazz = .subscriber then Accepted cmds else ∀ r, .register r ∉ cmds

/-- The calls of every handle are what they have to be, and no handle was used after its
release. -/
structure LifeOk (core : IpcCore) : Prop where
  handles : ∀ p, HandleOk (core.handle p) (callsOf p core.log)
  unborn : ∀ p, core.brk ≤ p → core.handle p = none ∧ callsOf p core.log = []
  listed : ∀ p, p ∈ core.head ↔ ∃ s, core.handle p = some s
  nodup : core.head.Nodup
  stale : core.stale = []
  formed : Formed core

@[simp] lemma callsOf_manager (q p : Ptr) (cmd : ManagerCmd) (core : IpcCore) :
    callsOf q (ipcServerManager p cmd core).log =
      callsOf q core.log ++ if p = q then [cmd] else [] := by
  simp only [callsOf, ipcServerManager, List.filterMap_append, List.filterMap_cons,
    List.filterMap_nil]
  split_ifs <;> rfl

lemma Accepted.lifeCycle {cmds : List ManagerCmd} (h : Accepted cmds) {last : ManagerCmd}
    (hlast : last = .unregister ∨ last = .shutdown) : LifeCycle (cmds ++ [last] ++ [.release]) := by
  obtain ⟨r, n, hr, rfl⟩ := h
  exact ⟨r, n, last, hr, hlast, by simp⟩

lemma Accepted.sync {cmds : List ManagerCmd} (h : Accepted cmds) : Accepted (cmds ++ [.sync]) := by
  obtain ⟨r, n, hr, rfl⟩ := h
  exact ⟨r, n + 1, hr, by rw [List.replicate_succ', List.cons_append]⟩

lemma settled_of_not_register {cmds : List ManagerCmd} (h : ∀ r, .register r ∉ cmds) :
    Settled cmds := fun r _ hmem => absurd hmem (h r)

/-! ## Operations on one handle -/

/-- Nothing but the handle `p` has changed. -/
structure Only (p : Ptr) (core core' : IpcCore) : Prop where
  handle : ∀ q, q ≠ p → core'.handle q = core.handle q
  calls : ∀ q, q ≠ p → callsOf q core'.log = callsOf q core.log
  head : ∀ q, q ≠ p → (q ∈ core'.head ↔ q ∈ core.head)
  nodup : core.head.Nodup → core'.head.Nodup
  brk : core.brk ≤ core'.brk
  stale : core'.stale = core.stale

lemma Only.refl (p : Ptr) (core : IpcCore) : Only p core core :=
  ⟨fun _ _ => rfl, fun _ _ => rfl, fun _ _ => Iff.rfl, id, le_refl _, rfl⟩

lemma Only.trans {p : Ptr} {core core' core'' : IpcCore} (h : Only p core core')
    (h' : Only p core' core'') : Only p core core'' where
  handle q hq := (h'.handle q hq).trans (h.handle q hq)
  calls q hq := (h'.calls q hq).trans (h.calls q hq)
  head q hq := (h'.head q hq).trans (h.head q hq)
  nodup hn := h'.nodup (h.nodup hn)
  brk := h.brk.trans h'.brk
  stale := h'.stale.trans h.stale

/-- **One handle at a time.**  An operation on the handle `p` keeps the invariant if it keeps it
for `p`. -/
lemma LifeOk.of_only {p : Ptr} {core core' : IpcCore} (h : LifeOk core) (ho : Only p core core')
    (hform : Formed core') (hp : p < core'.brk)
    (hself : HandleOk (core'.handle p) (callsOf p core'.log))
    (hlisted : p ∈ core'.head ↔ ∃ s, core'.handle p = some s) : LifeOk core' where
  handles q := by
    by_cases hq : q = p
    · rw [hq]
      exact hself
    · rw [ho.handle q hq, ho.calls q hq]
      exact h.handles q
  unborn q hq := by
    have hne : q ≠ p := (hp.trans_le hq).ne'
    rw [ho.handle q hne, ho.calls q hne]
    exact h.unborn q (ho.brk.trans hq)
  listed q := by
    by_cases hq : q = p
    · rw [hq]
      exact hlisted
    · rw [ho.handle q hq, ho.head q hq]
      exact h.listed q
  nodup := ho.nodup h.nodup
  stale := ho.stale.trans h.stale
  formed := hform

lemma LifeOk.lt_brk {core : IpcCore} (h : LifeOk core) {p : Ptr} {s : IpcServer}
    (hs : core.handle p = some s) : p < core.brk := by
  by_contra hge
  rw [(h.unborn p (not_lt.mp hge)).1] at hs
  exact absurd hs (by simp)

lemma only_manager (p : Ptr) (cmd : ManagerCmd) (core : IpcCore) :
    Only p core (ipcServerManager p cmd core) where
  handle _ _ := rfl
  calls q hq := by rw [callsOf_manager, if_neg (Ne.symm hq), List.append_nil]
  head _ _ := Iff.rfl
  nodup := id
  brk := le_refl _
  stale := rfl

lemma only_sevrInit (s : IpcServer) {core : IpcCore} (h : core.brk ∉ core.head) :
    Only core.brk core (sevrInit s core) where
  handle _ hq := if_neg hq
  calls _ _ := rfl
  head q hq := by simp [sevrInit, hq]
  nodup hn := by
    refine List.nodup_append.mpr ⟨hn, by simp, fun x hx y hy => ?_⟩
    rw [List.mem_singleton] at hy
    rintro rfl
    exact h (hy ▸ hx)
  brk := Nat.le_succ _
  stale := rfl

/-- A handle leaves the list of the core and its memory is freed. -/
lemma only_ipcFree (p : Ptr) (s : IpcServer) (core : IpcCore) : Only p core (ipcFree p s core) where
  handle _ hq := if_neg hq
  calls _ _ := rfl
  head _ hq := List.mem_erase_of_ne hq
  nodup hn := hn.erase p
  brk := le_refl _
  stale := rfl

/-! ### Release -/

/-- What `ipc_release` does to a live handle: it is gone, and the hook is told for a client. -/
structure Released (p : Ptr) (s : IpcServer) (core core' : IpcCore) : Prop extends
    Only p core core' where
  handle_self : core'.handle p = none
  calls_self : callsOf p core'.log = callsOf p core.log ++
    if s.clazz = .requester ∨ s.clazz = .subscriber then [.release] else []
  head_self : core.head.Nodup → p ∉ core'.head
  brk_eq : core'.brk = core.brk

/-- The end of `ipc_release`, after the call of the hook and the changes of the links. -/
lemma released_ipcFree (p : Ptr) (s : IpcServer) {core core' : IpcCore} (ho : Only p core core')
    (hhead : core'.head = core.head) (hbrk : core'.brk = core.brk)
    (hcalls : callsOf p core'.log = callsOf p core.log ++
      if s.clazz = .requester ∨ s.clazz = .subscriber then [.release] else []) :
    Released p s core (ipcFree p s core') where
  toOnly := ho.trans (only_ipcFree p s core')
  handle_self := if_pos rfl
  calls_self := hcalls
  head_self hn := by
    show p ∉ core'.head.erase p
    rw [hhead]
    exact hn.not_mem_erase
  brk_eq := hbrk

lemma released_ipcRelease {p : Ptr} {s : IpcServer} {core : IpcCore}
    (hs : core.handle p = some s) (hclazz : s.clazz ≠ .dummy) :
    Released p s core (ipcRelease p core) := by
  have hm := only_manager p .release core
  rw [ipcRelease, hs]
  simp only []
  cases hc : s.clazz with
  | dummy => exact absurd hc hclazz
  | requester => exact released_ipcFree p s hm rfl rfl (by simp [hc])
  | subscriber =>
      exact released_ipcFree p s ⟨hm.handle, hm.calls, hm.head, hm.nodup, hm.brk, hm.stale⟩ rfl rfl
        (by simp [hc])
  | master =>
      exact released_ipcFree p s (.refl p core) rfl rfl (by simp [hc])
  | proxy =>
      exact released_ipcFree p s (.refl p core) rfl rfl (by simp [hc])

/-- A release settles a handle whose calls are settled by it. -/
lemma LifeOk.released {p : Ptr} {s : IpcServer} {core core' core'' : IpcCore} (h : LifeOk core)
    (ho : Only p core core') (hform : Formed core'') (hp : p < core'.brk)
    (hr : Released p s core' core'') (hcalls : Settled (callsOf p core''.log)) :
    LifeOk core'' := by
  refine h.of_only (ho.trans hr.toOnly) hform (hr.brk_eq ▸ hp) ?_ ?_
  · rw [hr.handle_self]
    exact hcalls
  · rw [hr.handle_self]
    simp [hr.head_self (ho.nodup h.nodup)]

/-- **The two good-byes.**  A subscriber that is told to the hook with one of the two commands and
then released has finished its life cycle. -/
lemma LifeOk.goodbye {p : Ptr} {s : IpcServer} {core : IpcCore} (h : LifeOk core)
    (hs : core.handle p = some s) (hclazz : s.clazz = .subscriber) {last : ManagerCmd}
    (hlast : last = .unregister ∨ last = .shutdown) :
    LifeOk (ipcRelease p (ipcServerManager p last core)) := by
  have hs' : (ipcServerManager p last core).handle p = some s := hs
  have hr := released_ipcRelease hs' (by simp [hclazz])
  refine h.released (only_manager p last core) ((h.formed.manager p last).release p)
    (h.lt_brk hs) hr fun _ _ _ => ?_
  have hacc := h.handles p
  rw [hs] at hacc
  simp only [HandleOk, hclazz, if_true] at hacc
  rw [hr.calls_self, callsOf_manager, if_pos rfl, if_pos (.inr hclazz)]
  exact hacc.2.lifeCycle hlast

/-- A handle that is no subscriber may be released at any time. -/
lemma LifeOk.release_other {p : Ptr} {s : IpcServer} {core : IpcCore} (h : LifeOk core)
    (hs : core.handle p = some s) (hclazz : s.clazz ≠ .subscriber) :
    LifeOk (ipcRelease p core) := by
  have hok := h.handles p
  rw [hs] at hok
  simp only [HandleOk, hclazz, if_false] at hok
  have hr := released_ipcRelease hs hok.1
  refine h.released (.refl p core) (h.formed.release p) (h.lt_brk hs) hr
    (settled_of_not_register fun r hmem => ?_)
  rw [hr.calls_self, List.mem_append] at hmem
  rcases hmem with hmem | hmem
  · exact hok.2 r hmem
  · split_ifs at hmem <;> simp at hmem

/-! ### Creation -/

/-- A new handle, for which the hook has not been called. -/
structure Created (s : IpcServer) (core core' : IpcCore) : Prop extends
    Only core.brk core core' where
  formed : Formed core'
  handle_self : core'.handle core.brk = some s
  calls_self : callsOf core.brk core'.log = []
  head_self : core.brk ∈ core'.head
  lt_brk : core.brk < core'.brk

lemma LifeOk.created {core : IpcCore} (h : LifeOk core) (s : IpcServer)
    (hform : Formed (sevrInit s core)) : Created s core (sevrInit s core) where
  formed := hform
  toOnly := by
    apply only_sevrInit s
    intro hmem
    obtain ⟨t, ht⟩ := (h.listed _).mp hmem
    exact lt_irrefl _ (h.lt_brk ht)
  handle_self := if_pos rfl
  calls_self := (h.unborn _ (le_refl _)).2
  head_self := List.mem_append_right _ (by simp)
  lt_brk := Nat.lt_succ_self _

lemma LifeOk.needBuckets {core : IpcCore} (h : LifeOk core) : LifeOk (needBuckets core) := by
  unfold Ipc.needBuckets
  split_ifs
  · exact h
  · exact ⟨h.handles, h.unborn, h.listed, h.nodup, h.stale, h.formed.congr rfl rfl rfl⟩

lemma LifeOk.close {core : IpcCore} (h : LifeOk core) (sock : ℕ) : LifeOk (closeSock sock core) :=
  ⟨h.handles, h.unborn, h.listed, h.nodup, h.stale, h.formed.congr rfl rfl rfl⟩

lemma Created.manager {s : IpcServer} {core core' : IpcCore} (hc : Created s core core')
    (h : LifeOk core) (hclazz : s.clazz ≠ .dummy) {cmd : ManagerCmd}
    (hcmd : if s.clazz = .subscriber then Accepted [cmd] else ∀ r, cmd ≠ .register r) :
    LifeOk (ipcServerManager core.brk cmd core') := by
  refine h.of_only (hc.toOnly.trans (only_manager _ cmd core')) (hc.formed.manager _ cmd)
    hc.lt_brk ?_ ?_
  · rw [callsOf_manager, if_pos rfl, hc.calls_self, List.nil_append]
    show HandleOk (core'.handle core.brk) [cmd]
    rw [hc.handle_self]
    refine ⟨hclazz, ?_⟩
    split_ifs at hcmd ⊢
    · exact hcmd
    · exact fun r hmem => hcmd r (List.mem_singleton.mp hmem).symm
  · exact ⟨fun _ => ⟨s, hc.handle_self⟩, fun _ => hc.head_self⟩

lemma Created.refused {s : IpcServer} {core core' : IpcCore} (hc : Created s core core')
    (h : LifeOk core) (hclazz : s.clazz ≠ .dummy) {cmd : ManagerCmd}
    (hcmd : ∀ r, 0 ≤ r → cmd ≠ .register r) :
    LifeOk (ipcRelease core.brk (ipcServerManager core.brk cmd core')) := by
  have hself : (ipcServerManager core.brk cmd core').handle core.brk = some s := hc.handle_self
  have hr := released_ipcRelease hself hclazz
  refine h.released (hc.toOnly.trans (only_manager _ cmd core'))
    ((hc.formed.manager _ cmd).release _) hc.lt_brk hr fun r hpos hmem => ?_
  rw [hr.calls_self, callsOf_manager, if_pos rfl, hc.calls_self, List.nil_append,
    List.mem_append, List.mem_singleton] at hmem
  rcases hmem with hmem | hmem
  · exact absurd hmem.symm (hcmd r hpos)
  · split_ifs at hmem <;> simp at hmem

lemma LifeOk.register {core : IpcCore} (h : LifeOk core) (sock : ℕ) (msg : IpcMsg)
    (env : RegisterEnv) : (ipcServerRegister sock msg env core).dead = true ∨
      LifeOk (ipcServerRegister sock msg env core) := by
  obtain hreg | ⟨hmask, core', rfl, ⟨hdead, hreg⟩ | hreg⟩ :=
    ipcServerRegister_cases sock msg env core
  · rw [hreg]
    exact .inr (h.close sock)
  · rw [hreg]
    exact .inl hdead
  · rw [hreg, ← needBuckets_brk core]
    have hneed := h.needBuckets
    have hc := hneed.created (newSubscriber sock msg) (h.formed.newPeer hmask sock)
    have hclazz : (newSubscriber sock msg).clazz ≠ .dummy := by simp [newSubscriber]
    obtain ⟨hneg, hpeer⟩ | ⟨hpos, hpeer⟩ := registerPeer_cases (Ipc.needBuckets core).brk env
      (sevrInit (newSubscriber sock msg) (Ipc.needBuckets core))
    · rw [hpeer]
      exact .inr (hc.refused hneed hclazz fun r hr heq => by
        rw [ManagerCmd.register.inj heq] at hneg
        omega)
    · have hacc : LifeOk (ipcServerManager _ (.register env.verdict) _) :=
        hc.manager hneed hclazz (by simpa [newSubscriber] using ⟨_, 0, hpos, rfl⟩)
      rcases hpeer with hpeer | hpeer
      · rw [hpeer]
        exact .inr hacc
      · rw [hpeer]
        exact .inr (hacc.goodbye hc.handle_self rfl (.inr rfl))

lemma LifeOk.connect {core : IpcCore} (h : LifeOk core) (sock : ℕ) (msg : IpcMsg)
    (env : ConnectEnv) : LifeOk (ipcServerConnect sock msg env core) := by
  unfold ipcServerConnect
  have hform : ∀ identity : ℤ, Formed (sevrInit ⟨.requester, identity, sock, 0, []⟩ core) :=
    fun _ => h.formed.sevrInit (by simp) (by simp)
  split_ifs with halloc hneg hsent
  · exact h.close sock
  · exact (h.created _ (hform _)).refused h (by simp) (by simp)
  · exact (h.created _ (hform _)).manager h (by simp) (by simp)
  · exact (h.created _ (hform _)).refused h (by simp) (by simp)

lemma LifeOk.proxy {core : IpcCore} (h : LifeOk core) (fd : ℕ) (alloc : Bool) :
    LifeOk (ipcServerProxy fd alloc core) := by
  unfold ipcServerProxy
  split_ifs
  · have hc := h.created ⟨.proxy, 0, fd, 0, []⟩ (h.formed.sevrInit (by simp) (by simp))
    refine h.of_only hc.toOnly hc.formed hc.lt_brk ?_
      ⟨fun _ => ⟨_, hc.handle_self⟩, fun _ => hc.head_self⟩
    rw [hc.handle_self, hc.calls_self]
    simp [HandleOk]
  · exact h

/-! ### Synchronisation -/

lemma LifeOk.sync {p : Ptr} {core : IpcCore} (h : LifeOk core) (hp : core.isPeer p = true) :
    LifeOk (ipcServerSync p core) ∧ (ipcServerSync p core).isPeer p = true ∧
      (ipcServerSync p core).dead = core.dead := by
  obtain ⟨s, hs, hclazz⟩ := IpcCore.isPeer_iff.mp hp
  obtain ⟨hother, hsame, hrest⟩ := nodeInitLoop_frame p 64 s.mask 0 0 core
  have hform := h.formed.sync p
  rw [h.formed.sync_peer hs hclazz] at hform ⊢
  change (∀ q, q ≠ p → (ipcPeerNodeInit p s.mask core).handle q = core.handle q) at hother
  rw [← ipcPeerNodeInit] at hsame hrest
  set core' := ipcPeerNodeInit p s.mask core
  rw [hs, Option.map_some, Option.map_eq_some_iff] at hsame
  obtain ⟨s', hs', hsame⟩ := hsame
  have hclazz' : s'.clazz = s.clazz := (Prod.mk.inj hsame).1
  have ho : Only p core core' := by
    rw [hrest]
    exact ⟨hother, fun _ _ => rfl, fun _ _ => Iff.rfl, id, le_refl _, rfl⟩
  have hacc := h.handles p
  rw [hs] at hacc
  simp only [HandleOk, hclazz, if_true] at hacc
  refine ⟨h.of_only (ho.trans (only_manager p .sync core')) hform ?_ ?_ ?_, ?_, ?_⟩
  · show p < core'.brk
    rw [hrest]
    exact h.lt_brk hs
  · rw [callsOf_manager, if_pos rfl]
    show HandleOk (core'.handle p) _
    rw [hs', hrest]
    simp only [HandleOk, hclazz', hclazz, if_true]
    exact ⟨by simp, hacc.2.sync⟩
  · show p ∈ core'.head ↔ ∃ t, core'.handle p = some t
    rw [hs', hrest]
    simpa using (h.listed p).mpr ⟨s, hs⟩
  · exact IpcCore.isPeer_iff.mpr ⟨s', hs', hclazz'.trans hclazz⟩
  · show core'.dead = core.dead
    rw [hrest]

/-! ## Calls of the receive loop -/

section Calls

variable (filter : Option (IpcNotify → ℤ))

/-- The invariant for a core that a handler works on.  Nothing is said of a dead server. -/
def Lives (s : Served) : Prop := s.core.dead = true ∨ LifeOk s.core

/-- The invariant, with a live handle of the class. -/
def LivesWith (p : Ptr) (clazz : IpcClass) (s : Served) : Prop :=
  s.core.dead = true ∨ LifeOk s.core ∧ ∃ t, s.core.handle p = some t ∧ t.clazz = clazz

lemma LivesWith.lives {p : Ptr} {clazz : IpcClass} {s : Served} (h : LivesWith p clazz s) :
    Lives s := h.imp_right And.left

variable {filter}

@[simp] lemma dispatch_dead {p : Ptr} {s : Served} (h : s.core.dead = true) (m : Mem) (a : ℕ) :
    (serverHooks filter p).dispatch s m a = ⟨s, [], false⟩ := if_pos h

lemma dispatch_running {p : Ptr} {s : Served} (h : s.core.dead = false) (m : Mem) (a : ℕ) :
    (serverHooks filter p).dispatch s m a = socketSwitch filter p s m a := if_neg (by simp [h])

@[simp] lemma release_dead {p : Ptr} {s : Served} (h : s.core.dead = true) :
    (serverHooks filter p).release s = s := if_pos h

@[simp] lemma shutdown_dead {p : Ptr} {s : Served} (h : s.core.dead = true) :
    (serverHooks filter p).shutdown s = s := if_pos h

lemma core_release {p : Ptr} {s : Served} (h : s.core.dead = false) :
    ((serverHooks filter p).release s).core = ipcRelease p s.core := by
  simp [serverHooks, h]

variable (filter) in
lemma brokerBranch_cases (m : Mem) (a : ℕ) (s : Served) :
    ((brokerBranch filter m a s).ok = true ∧ (brokerBranch filter m a s).state = s) ∨
      ((brokerBranch filter m a s).ok = false ∧
        (brokerBranch filter m a s).state.core.dead = true) := by
  unfold brokerBranch
  split
  · exact .inr ⟨rfl, rfl⟩
  · exact .inl ⟨rfl, rfl⟩

/-- The handler of the user does not change the core, and does not fail for a subscriber. -/
lemma invokeBranch_cases {p : Ptr} {t : IpcServer} (msg : IpcMsg) {s : Served}
    (ht : s.core.handle p = some t) :
    ((invokeBranch p msg s).state.core = s.core ∧
        (t.clazz = .subscriber → (invokeBranch p msg s).ok = true)) ∨
      ((invokeBranch p msg s).ok = false ∧ (invokeBranch p msg s).state.core.dead = true) := by
  rw [invokeBranch, ht]
  simp only []
  split
  · exact .inr ⟨rfl, rfl⟩
  · rename_i msg' ok hinv
    refine .inl ⟨rfl, fun hclazz => ?_⟩
    rw [hclazz, ipcHandlerInvoke] at hinv
    simp only [handlerFlags] at hinv
    split_ifs at hinv <;> simp_all

/-- **What a message does.**  It kills the server, or leaves the core as it is and fails for a
subscriber only if it may not be sent there, or it synchronises or unregisters a subscriber. -/
lemma socketSwitch_cases {p : Ptr} {t : IpcServer} {s : Served} (hform : Formed s.core)
    (ht : s.core.handle p = some t) (m : Mem) (a : ℕ) :
    ((socketSwitch filter p s m a).ok = false ∧
        (socketSwitch filter p s m a).state.core.dead = true) ∨
      ((socketSwitch filter p s m a).state.core = s.core ∧
        (t.clazz = .subscriber → msgIdAt m a ≠ ipcSdkMsgConnect →
          msgIdAt m a ≠ ipcSdkMsgRegister → (socketSwitch filter p s m a).ok = true)) ∨
      (msgIdAt m a = ipcSdkMsgSync ∧ t.clazz = .subscriber ∧
        (socketSwitch filter p s m a).ok = !(ipcServerSync p s.core).dead ∧
        (socketSwitch filter p s m a).state.core = ipcServerSync p s.core) ∨
      (msgIdAt m a = ipcSdkMsgUnregister ∧ t.clazz = .subscriber ∧
        (socketSwitch filter p s m a).ok = true ∧
        (socketSwitch filter p s m a).state.core =
          ipcRelease p (ipcServerManager p .unregister s.core)) := by
  have hid : (readMsg m a).msgId = msgIdAt m a := rfl
  unfold socketSwitch
  simp only [hid]
  by_cases h1 : msgIdAt m a = ipcSdkMsgConnect
  · rw [if_pos h1]
    exact .inr (.inl ⟨rfl, fun _ hne _ => absurd h1 hne⟩)
  by_cases h2 : msgIdAt m a = ipcSdkMsgRegister
  · rw [if_neg h1, if_pos h2]
    exact .inr (.inl ⟨rfl, fun _ _ hne => absurd h2 hne⟩)
  by_cases h3 : msgIdAt m a = ipcSdkMsgSync
  · rw [if_neg h1, if_neg h2, if_pos h3]
    by_cases hclazz : t.clazz = .subscriber
    · exact .inr (.inr (.inl ⟨h3, hclazz, rfl, rfl⟩))
    · have hdead : (ipcServerSync p s.core).dead = true := by
        simp [ipcServerSync, ht, hclazz, IpcCore.abort]
      exact .inl ⟨by simp [hdead], hdead⟩
  by_cases h4 : msgIdAt m a = ipcSdkMsgUnregister
  · rw [if_neg h1, if_neg h2, if_neg h3, if_pos h4]
    by_cases hclazz : t.clazz = .subscriber
    · have hun := hform.unregister_peer ht hclazz
      exact .inr (.inr (.inr ⟨h4, hclazz, by rw [hun], by rw [hun]⟩))
    · have hun : ipcServerUnregister p s.core = (s.core, false) := by
        simp [ipcServerUnregister, ht, hclazz]
      exact .inr (.inl ⟨by rw [hun], fun hc => absurd hc hclazz⟩)
  by_cases h5 : msgIdAt m a = ipcSdkMsgNotify
  · rw [if_neg h1, if_neg h2, if_neg h3, if_neg h4, if_pos h5]
    rcases brokerBranch_cases filter m a s with ⟨hok, hs⟩ | hdead
    · exact .inr (.inl ⟨by rw [hs], fun _ _ _ => hok⟩)
    · exact .inl hdead
  · rw [if_neg h1, if_neg h2, if_neg h3, if_neg h4, if_neg h5]
    rcases invokeBranch_cases (readMsg m a) ht with ⟨hs, hok⟩ | hdead
    · exact .inr (.inl ⟨hs, fun hclazz _ _ => hok hclazz⟩)
    · exact .inl hdead

lemma lives_release {p : Ptr} {clazz : IpcClass} (hclazz : clazz ≠ .subscriber) {s : Served}
    (hs : LivesWith p clazz s) : Lives ((serverHooks filter p).release s) := by
  cases hdead : s.core.dead with
  | true =>
      rw [release_dead hdead]
      exact .inl hdead
  | false =>
      obtain ⟨hok, t, ht, rfl⟩ := hs.resolve_left (by simp [hdead])
      right
      rw [core_release hdead]
      exact hok.release_other ht hclazz

lemma keeps_requester (p : Ptr) :
    Keeps (serverHooks filter p) (LivesWith p .requester) Lives where
  weaken := LivesWith.lives
  leave := lives_release (by simp)
  hangup {s} hs := by
    -- the hook is called for subscribers only
    have hsame : (serverHooks filter p).shutdown s = s := by
      rcases hs with hdead | ⟨-, t, ht, hclazz⟩
      · exact shutdown_dead hdead
      · simp [serverHooks, shutdownPeer, ht, hclazz]
    rw [hsame]
    exact lives_release (by simp) hs
  dispatch {s} m a hs := by
    cases hdead : s.core.dead with
    | true =>
        rw [dispatch_dead hdead, if_neg (by simp), release_dead hdead]
        exact .inl hdead
    | false =>
        obtain ⟨hok, t, ht, hclazz⟩ := hs.resolve_left (by simp [hdead])
        rw [dispatch_running hdead]
        rcases socketSwitch_cases hok.formed ht m a with ⟨hfail, hd⟩ | ⟨hcore, -⟩ | ⟨-, hc, -⟩ |
          ⟨-, hc, -⟩
        · rw [hfail, if_neg (by simp), release_dead hd]
          exact .inl hd
        · have hlive : LivesWith p .requester (socketSwitch filter p s m a).state := by
            rw [LivesWith, hcore]
            exact .inr ⟨hok, t, ht, hclazz⟩
          split_ifs
          · exact hlive
          · exact lives_release (by simp) hlive
        · rw [hclazz] at hc
          exact absurd hc (by simp)
        · rw [hclazz] at hc
          exact absurd hc (by simp)

variable (filter) in
lemma lives_dispatch {p : Ptr} {s : Served} (m : Mem) (a : ℕ) (hs : LivesWith p .subscriber s)
    (hconn : msgIdAt m a ≠ ipcSdkMsgConnect) (hreg : msgIdAt m a ≠ ipcSdkMsgRegister) :
    if ((serverHooks filter p).dispatch s m a).ok then
      if msgIdAt m a = ipcSdkMsgUnregister then Lives ((serverHooks filter p).dispatch s m a).state
      else LivesWith p .subscriber ((serverHooks filter p).dispatch s m a).state
    else Lives ((serverHooks filter p).release ((serverHooks filter p).dispatch s m a).state) := by
  cases hdead : s.core.dead with
  | true =>
      rw [dispatch_dead hdead, if_neg (by simp), release_dead hdead]
      exact .inl hdead
  | false =>
      obtain ⟨hok, t, ht, hclazz⟩ := hs.resolve_left (by simp [hdead])
      rw [dispatch_running hdead]
      rcases socketSwitch_cases hok.formed ht m a with ⟨hfail, hd⟩ | ⟨hcore, htrue⟩ |
        ⟨hid, -, htrue, hcore⟩ | ⟨hid, -, htrue, hcore⟩
      · rw [hfail, if_neg (by simp), release_dead hd]
        exact .inl hd
      · have hlive : LivesWith p .subscriber (socketSwitch filter p s m a).state := by
          rw [LivesWith, hcore]
          exact .inr ⟨hok, t, ht, hclazz⟩
        rw [htrue hclazz hconn hreg, if_pos rfl]
        split_ifs
        · exact hlive.lives
        · exact hlive
      · obtain ⟨hok', hpeer, hd⟩ := hok.sync (IpcCore.isPeer_iff.mpr ⟨t, ht, hclazz⟩)
        have hlive : LivesWith p .subscriber (socketSwitch filter p s m a).state := by
          rw [LivesWith, hcore]
          exact .inr ⟨hok', IpcCore.isPeer_iff.mp hpeer⟩
        rw [htrue, hd, hdead, Bool.not_false, if_pos rfl, if_neg (by rw [hid]; decide)]
        exact hlive
      · rw [htrue, if_pos rfl, if_pos hid, Lives, hcore]
        exact .inr (hok.goodbye ht hclazz (.inl rfl))

lemma obeys_subscriber (p : Ptr) :
    Obeys (serverHooks filter p) (LivesWith p .subscriber) Lives where
  weaken := LivesWith.lives
  hangup {s} hs := by
    cases hdead : s.core.dead with
    | true =>
        rw [shutdown_dead hdead, release_dead hdead]
        exact .inl hdead
    | false =>
        obtain ⟨hok, t, ht, hclazz⟩ := hs.resolve_left (by simp [hdead])
        have hcore : ((serverHooks filter p).shutdown s).core =
            ipcServerManager p .shutdown s.core := by
          simp [serverHooks, hdead, shutdownPeer, ht, hclazz]
        right
        rw [core_release (by rw [hcore]; exact hdead), hcore]
        exact hok.goodbye ht hclazz (.inr rfl)
  dispatch m a hs hconn hreg hun := by
    have h := lives_dispatch filter m a hs hconn hreg
    rwa [if_neg hun] at h
  unregister m a hs hid := by
    have h := lives_dispatch filter m a hs (by rw [hid]; decide) (by rw [hid]; decide)
    rwa [if_pos hid] at h
  notify {s} m a hs hid := by
    cases hdead : s.core.dead with
    | true =>
        rw [dispatch_dead hdead, if_neg (by simp), release_dead hdead]
        exact .inl hdead
    | false =>
        have hswitch : (serverHooks filter p).dispatch s m a = brokerBranch filter m a s := by
          rw [dispatch_running hdead, socketSwitch]
          simp [show (readMsg m a).msgId = ipcSdkMsgNotify from hid, ipcSdkMsgNotify,
            ipcSdkMsgConnect, ipcSdkMsgRegister, ipcSdkMsgSync, ipcSdkMsgUnregister]
        rw [hswitch]
        rcases brokerBranch_cases filter m a s with ⟨htrue, hs'⟩ | ⟨hfail, hd⟩
        · rw [htrue, if_pos rfl, hs']
          exact hs
        · rw [hfail, if_neg (by simp), release_dead hd]
          exact .inl hd

end Calls

/-! ## Runs -/

section Runs

variable {filter : Option (IpcNotify → ℤ)}

/-- What a run has to avoid: a subscriber that is not orderly, and a subscriber at the time of
`ipc_server_exit`. -/
def LeavesInOrder (s : Server) : ServerLabel → Prop
  | .recv p events _ => s.core.isPeer p = true → orderly events s.buf.reset = true
  | .exit => ∀ p ∈ s.core.head, s.core.isPeer p = false
  | _ => True

instance (s : Server) : (l : ServerLabel) → Decidable (LeavesInOrder s l)
  | .accept _ => .isTrue trivial
  | .recv p events _ =>
      inferInstanceAs (Decidable (s.core.isPeer p = true → orderly events s.buf.reset = true))
  | .proxy _ _ => .isTrue trivial
  | .exit => inferInstanceAs (Decidable (∀ p ∈ s.core.head, s.core.isPeer p = false))

lemma LifeOk.masterSwitch {core : IpcCore} (h : LifeOk core) (sock : ℕ) (env : AcceptEnv)
    (m : Mem) : (masterSwitch filter sock env m core).dead = true ∨
      LifeOk (masterSwitch filter sock env m core) := by
  unfold Ipc.masterSwitch
  simp only []
  split_ifs
  · exact .inr (h.connect sock _ env.connect)
  · exact h.register sock _ env.register
  · exact .inr (h.close sock)
  · exact .inr (h.close sock)
  · split
    · exact .inl rfl
    · exact .inr (h.close sock)
  · split
    · exact .inl rfl
    · exact .inr (h.close sock)

/-- The handles of a server without subscribers are released one after the other. -/
lemma LifeOk.releaseAll (ps : List Ptr) (hn : ps.Nodup) {core : IpcCore} (h : LifeOk core)
    (hlive : ∀ p ∈ ps, ∃ t, core.handle p = some t) (hnone : ∀ p, core.isPeer p = false) :
    LifeOk (ps.foldl (fun c p => ipcRelease p c) core) ∧
      ∀ p, (ps.foldl (fun c p => ipcRelease p c) core).isPeer p = false := by
  induction ps generalizing core with
  | nil => exact ⟨h, hnone⟩
  | cons p ps ih =>
      obtain ⟨hp, hn⟩ := List.nodup_cons.mp hn
      obtain ⟨t, ht⟩ := hlive p (by simp)
      have hclazz : t.clazz ≠ .subscriber := by
        intro hc
        have hpeer := IpcCore.isPeer_iff.mpr ⟨t, ht, hc⟩
        rw [hnone p] at hpeer
        exact absurd hpeer (by simp)
      have hdummy : t.clazz ≠ .dummy := by
        have hok := h.handles p
        rw [ht] at hok
        exact hok.1
      have hr := released_ipcRelease ht hdummy
      refine ih hn (h.release_other ht hclazz) (fun q hq => ?_) fun q => ?_
      · rw [hr.handle q (by rintro rfl; exact hp hq)]
        exact hlive q (by simp [hq])
      · by_cases hq : q = p
        · simp [IpcCore.isPeer, hq, hr.handle_self]
        · rw [IpcCore.isPeer, hr.handle q hq]
          exact hnone q

lemma LifeOk.exit {core : IpcCore} (h : LifeOk core)
    (hnone : ∀ p ∈ core.head, core.isPeer p = false) :
    LifeOk (ipcServerExit core) ∧ ∀ p, (ipcServerExit core).isPeer p = false := by
  have hall : ∀ p, core.isPeer p = false := by
    intro p
    by_cases hp : p ∈ core.head
    · exact hnone p hp
    · have hgone : core.handle p = none := by
        by_contra hne
        exact hp ((h.listed p).mpr (Option.ne_none_iff_exists'.mp hne))
      simp [IpcCore.isPeer, hgone]
  unfold ipcServerExit
  split_ifs
  · have hstop : LifeOk { core with running := false } :=
      ⟨h.handles, h.unborn, h.listed, h.nodup, h.stale, h.formed.congr rfl rfl rfl⟩
    obtain ⟨hok, hpeers⟩ := hstop.releaseAll core.head h.nodup
      (fun p hp => (h.listed p).mp hp) hall
    exact ⟨⟨hok.handles, hok.unborn, hok.listed, hok.nodup, hok.stale,
      hok.formed.congr rfl rfl rfl⟩, hpeers⟩
  · exact ⟨h, hall⟩

lemma LifeOk.recv {core : IpcCore} (h : LifeOk core) {buf : IpcBuf} (clone : Mem) {p : Ptr}
    {events : List SockEvent} (answers : List Answer) (hp : core.isClient p = true)
    (hok : core.isPeer p = true → orderly events buf.reset = true) :
    Lives (ipcCommonSocketHandler (serverHooks filter p) events
      ⟨buf, clone, core, answers⟩).conn.state := by
  obtain ⟨t, ht, hclazz⟩ : ∃ t, core.handle p = some t ∧
      (t.clazz = .requester ∨ t.clazz = .subscriber) := by
    simpa [IpcCore.isClient, Option.any_eq_true] using hp
  rcases hclazz with hclazz | hclazz
  · exact (keeps_requester p).handlerRecv events _ (.inr ⟨h, t, ht, hclazz⟩)
  · exact (obeys_subscriber p).handlerRecv events _ (.inr ⟨h, t, ht, hclazz⟩)
      (hok (IpcCore.isPeer_iff.mpr ⟨t, ht, hclazz⟩))

lemma lifeOk_step {s s' : Server} {l : ServerLabel} {es : List Empty}
    (h : s.core.dead = true ∨ LifeOk s.core) (hok : LeavesInOrder s l)
    (hstep : serverStep filter s l = some (s', es)) : s'.core.dead = true ∨ LifeOk s'.core := by
  obtain ⟨hdead, hmoved⟩ := serverStep_moved hstep
  have h := h.resolve_left (by simp [hdead])
  cases hmoved with
  | refused heq =>
      rcases heq with heq | ⟨sock, heq⟩
      · rw [heq]
        exact .inr h
      · rw [heq]
        exact .inr (h.close sock)
  | accepted sock m heq =>
      rw [heq]
      exact h.masterSwitch sock _ m
  | recv hp heq =>
      rw [heq]
      exact h.recv s.clone _ hp hok
  | proxy heq =>
      rw [heq]
      exact .inr (h.proxy _ _)
  | exit heq =>
      rw [heq]
      exact .inr (h.exit hok).1

lemma lifeOk_boot (masterSock : ℕ) : LifeOk (IpcCore.boot masterSock) where
  handles p := by
    by_cases hp : p = 0
    · simp [IpcCore.boot, hp, HandleOk, callsOf]
    · simp [IpcCore.boot, hp, HandleOk, callsOf, Settled]
  unborn p hp := by
    have hne : p ≠ 0 := Nat.one_le_iff_ne_zero.mp hp
    exact ⟨if_neg hne, rfl⟩
  listed p := by
    by_cases hp : p = 0
    · simp [IpcCore.boot, hp]
    · simp [IpcCore.boot, hp]
  nodup := by simp [IpcCore.boot]
  stale := rfl
  formed := formed_boot masterSock

/-- **The life cycle of a subscriber.**  In a run that ends with `ipc_server_exit`, in which
subscribers are orderly and none is left at the end, the manager hook is called for an accepted
subscriber with its registration, with synchronisations, with exactly one of
`IPC_CLIENT_UNREGISTER` and `IPC_CLIENT_SHUTDOWN`, and then with `IPC_CLIENT_RELEASE`, which is
the last call; and the handle is not used after that. -/
theorem manager_life_cycle {masterSock : ℕ} {buf : IpcBuf} {clone : Mem} {ls : List ServerLabel}
    {s : Server} {es : List Empty}
    (hrun : run (serverStep filter) (ls ++ [.exit]) (Server.boot masterSock buf clone) =
      some (s, es))
    (hok : Along (serverStep filter) LeavesInOrder (ls ++ [.exit])
      (Server.boot masterSock buf clone))
    {p : Ptr} {r : ℤ} (hr : 0 ≤ r) (hreg : .register r ∈ callsOf p s.core.log) :
    LifeCycle (callsOf p s.core.log) ∧ p ∉ s.core.stale := by
  obtain ⟨t, es₁, es₂, hrun₁, hrun₂, -⟩ := run_append.mp hrun
  obtain ⟨hok₁, hok₂⟩ := hok.append
  have hinv : t.core.dead = true ∨ LifeOk t.core :=
    run_invariant lifeOk_step (.inr (lifeOk_boot masterSock)) hok₁ hrun₁
  obtain ⟨s', e₁, e₂, hstep, hnil, -⟩ := run_cons.mp hrun₂
  obtain ⟨rfl, -⟩ := Prod.mk.inj (Option.some.inj hnil)
  simp only [serverStep] at hstep
  split_ifs at hstep with hdead
  obtain ⟨rfl, -⟩ := Prod.mk.inj (Option.some.inj hstep)
  obtain ⟨hlife, hpeers⟩ := (hinv.resolve_left hdead).exit (hok₂ t es₁ hrun₁).1
  refine ⟨?_, by simp [hlife.stale]⟩
  have hp := hlife.handles p
  cases hh : (ipcServerExit t.core).handle p with
  | none =>
      rw [hh] at hp
      exact hp r hr hreg
  | some q =>
      -- a handle that is left is no subscriber
      have hclazz : q.clazz ≠ .subscriber := by
        intro hc
        have hpeer := IpcCore.isPeer_iff.mpr ⟨q, hh, hc⟩
        rw [hpeers p] at hpeer
        exact absurd hpeer (by simp)
      rw [hh] at hp
      simp only [HandleOk, hclazz, if_false] at hp
      exact absurd hreg (hp.2 r)

end Runs

/-- The bytes of a message to the server. -/
def requestFrame (id : UInt32) (data : List UInt8) : List UInt8 :=
  toLE 4 41 ++ toLE 4 (id ||| ipcMsgToken).toNat ++ toLE 2 0 ++ toLE 2 data.length ++ data

/-- A client registers for the topic 0, and the manager accepts it. -/
def acceptSubscriber (sock : ℕ) : ServerLabel :=
  .accept {
    sock := some sock
    opts := true
    events := [.bytes (requestFrame ipcSdkMsgRegister [1, 0, 0, 0, 0, 0, 0, 0])]
    connect := ⟨true, 0, true⟩
    register := ⟨⟨true, true, true⟩, 0, true⟩
    answer := ⟨0, readMsg blank 0, true⟩ }

/-- A server with a buffer of 64 bytes. -/
def smallServer : Server := Server.boot 3 ⟨0, 0, 64, blank⟩ blank

/-- One subscriber synchronises and unregisters, the connection of another one is closed. -/
def orderlyRun : List ServerLabel :=
  [acceptSubscriber 5, acceptSubscriber 6,
    .recv 1 [.bytes (requestFrame ipcSdkMsgSync [])] [], .recv 2 [.eof] [],
    .recv 1 [.bytes (requestFrame ipcSdkMsgUnregister [])] []]

theorem manager_life_cycle_sample :
    ∃ s es, run (serverStep none) (orderlyRun ++ [.exit]) smallServer = some (s, es) ∧
      LifeCycle (callsOf 1 s.core.log) ∧ LifeCycle (callsOf 2 s.core.log) := by
  have hlog : (run (serverStep none) (orderlyRun ++ [.exit]) smallServer).map
      (fun x => (callsOf 1 x.1.core.log, callsOf 2 x.1.core.log)) =
      some ([.register 0, .sync, .unregister, .release], [.register 0, .shutdown, .release]) := by
    decide +kernel
  obtain ⟨⟨s, es⟩, hrun, hcalls⟩ := Option.map_eq_some_iff.mp hlog
  obtain ⟨h1, h2⟩ := Prod.mk.inj hcalls
  have hok : Along (serverStep none) LeavesInOrder (orderlyRun ++ [.exit]) smallServer := by
    decide +kernel
  exact ⟨s, es, hrun, (manager_life_cycle hrun hok (le_refl 0) (by simp [h1])).1,
    (manager_life_cycle hrun hok (le_refl 0) (by simp [h2])).1⟩

/-- A subscriber that sends an `IPC_SDK_MSG_CONNECT` on its connection. -/
def forbiddenRun : List ServerLabel :=
  [acceptSubscriber 5, .recv 1 [.bytes (requestFrame ipcSdkMsgConnect [1, 0, 0, 0])] []]

/-- The receive loop leaves through `__error`: the hook sees the release of the subscriber, and
neither of the two commands. -/
theorem release_without_goodbye :
    ∃ s es, run (serverStep none) (forbiddenRun ++ [.exit]) smallServer = some (s, es) ∧
      callsOf 1 s.core.log = [.register 0, .release] ∧ ¬ LifeCycle (callsOf 1 s.core.log) := by
  have hlog : (run (serverStep none) (forbiddenRun ++ [.exit]) smallServer).map
      (fun x => callsOf 1 x.1.core.log) = some [.register 0, .release] := by
    decide +kernel
  obtain ⟨⟨s, es⟩, hrun, hcalls⟩ := Option.map_eq_some_iff.mp hlog
  refine ⟨s, es, hrun, hcalls, ?_⟩
  rw [hcalls]
  rintro ⟨r, n, last, -, hlast, heq⟩
  have hlen := congrArg List.length heq
  simp at hlen

end LinuxC.Ipc
