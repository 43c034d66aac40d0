import LinuxC.Ipc.Conduct
import LinuxC.Ipc.SelectSet

/-!
# Who closes a socket (`ipc/ipc_server.c`)

A descriptor that `accept` returns is closed by the master's handler, by `ipc_server_connect` or
`ipc_server_register`, or it becomes the socket of a handle and is closed when the handle is
released.  The account of a core (`accounted`) is the descriptors that were closed and those of the
handles.  Every operation adds to the account what it opens and takes nothing out of it
(`Settles`), whichever way it ends, so that no descriptor is lost and none is closed twice.
-/

namespace LinuxC.Ipc

/-! ## The account -/

/-- The descriptors that were closed, and those that belong to a handle. -/
def accounted (core : IpcCore) : List ℕ := core.closed ++ core.head.map (sockOf core)

/-- From `core` to `core'` the descriptors `opened` were added to the account.  Nothing that was
closed is forgotten, and an old handle keeps its socket as long as it lives. -/
structure Settles (opened : List ℕ) (core core' : IpcCore) : Prop where
  accounted : (accounted core').Perm (opened ++ accounted core)
  closed : core.closed <+: core'.closed
  brk : core.brk ≤ core'.brk
  kept : ∀ p < core.brk, ∀ t, core'.handle p = some t →
    ∃ s, core.handle p = some s ∧ s.sock = t.sock

lemma Settles.refl (core : IpcCore) : Settles [] core core :=
  ⟨.refl _, List.prefix_refl _, Nat.le_refl _, fun _ _ t ht => ⟨t, ht, rfl⟩⟩

lemma Settles.trans {opened opened' : List ℕ} {core core' core'' : IpcCore}
    (h : Settles opened core core') (h' : Settles opened' core' core'') :
    Settles (opened' ++ opened) core core'' := by
  refine ⟨?_, h.closed.trans h'.closed, h.brk.trans h'.brk, fun p hp t ht => ?_⟩
  · rw [List.append_assoc]
    exact h'.accounted.trans (h.accounted.append_left opened')
  · obtain ⟨s, hs, hsock⟩ := h'.kept p (lt_of_lt_of_le hp h.brk) t ht
    obtain ⟨r, hr, hsock'⟩ := h.kept p hp s hs
    exact ⟨r, hr, hsock'.trans hsock⟩

lemma Settles.before {opened : List ℕ} {core core' core'' : IpcCore} (h : Settles [] core core')
    (h' : Settles opened core' core'') : Settles opened core core'' := by
  have htrans := h.trans h'
  rwa [List.append_nil] at htrans

lemma Settles.after {opened : List ℕ} {core core' core'' : IpcCore} (h : Settles opened core core')
    (h' : Settles [] core' core'') : Settles opened core core'' := h.trans h'

variable {core core' : IpcCore} {p : Ptr} {s : IpcServer}

/-- Neither the list, the sockets of the handles, nor what was closed is changed. -/
lemma settles_of_same (hclosed : core'.closed = core.closed) (hhead : core'.head = core.head)
    (hbrk : core'.brk = core.brk)
    (hsock : ∀ p, (core'.handle p).map IpcServer.sock = (core.handle p).map IpcServer.sock) :
    Settles [] core core' := by
  refine ⟨?_, by rw [hclosed], hbrk.ge, fun p _ t ht => ?_⟩
  · have hsocks : sockOf core' = sockOf core := by
      funext p
      have hp := hsock p
      unfold sockOf
      cases h' : core'.handle p <;> cases h : core.handle p <;> simp_all
    rw [accounted, accounted, hclosed, hhead, hsocks]
    exact .refl _
  · have hp := hsock p
    rw [ht, Option.map_some, eq_comm, Option.map_eq_some_iff] at hp
    exact hp

lemma settles_of_eq (hclosed : core'.closed = core.closed) (hhead : core'.head = core.head)
    (hbrk : core'.brk = core.brk) (hhandle : core'.handle = core.handle) : Settles [] core core' :=
  settles_of_same hclosed hhead hbrk fun p => by rw [hhandle]

lemma settles_manager (p : Ptr) (cmd : ManagerCmd) (core : IpcCore) :
    Settles [] core (ipcServerManager p cmd core) := settles_of_eq rfl rfl rfl rfl

lemma settles_close (sock : ℕ) (core : IpcCore) : Settles [sock] core (closeSock sock core) := by
  refine ⟨?_, List.prefix_append _ _, Nat.le_refl _, fun _ _ t ht => ⟨t, ht, rfl⟩⟩
  have hsocks : sockOf (closeSock sock core) = sockOf core := rfl
  rw [accounted, accounted, hsocks]
  change ((core.closed ++ [sock]) ++ core.head.map (sockOf core)).Perm _
  rw [List.append_assoc]
  exact List.perm_middle

lemma settles_sevrInit (h : Formed core) (s : IpcServer) :
    Settles [s.sock] core (sevrInit s core) := by
  have hclosed : (sevrInit s core).closed = core.closed := rfl
  refine ⟨?_, List.prefix_refl _, Nat.le_succ _, fun q hq t ht => ?_⟩
  · rw [accounted, accounted, hclosed, map_sockOf_sevrInit h, ← List.append_assoc]
    exact List.perm_append_comm
  · have hhandle : (sevrInit s core).handle q = if q = core.brk then some s else core.handle q :=
      rfl
    rw [hhandle, if_neg (Nat.ne_of_lt hq)] at ht
    exact ⟨t, ht, rfl⟩

/-- The end of `ipc_release`: the socket goes from the handle to the closed ones. -/
lemma settles_free (h : Formed core) (hs : core.handle p = some s)
    (hclosed : core'.closed = core.closed) (hhead : core'.head = core.head)
    (hbrk : core'.brk = core.brk) (hhandle : core'.handle = core.handle) :
    Settles [] core (ipcFree p s core') := by
  have hmem : p ∈ core.head := by
    rw [h.listed, hs]
    simp
  have hget : ∀ q, (ipcFree p s core').handle q = if q = p then none else core.handle q := by
    intro q
    rw [← hhandle]
    rfl
  refine ⟨?_, ?_, hbrk.ge, fun q _ t ht => ?_⟩
  · have hfree : (ipcFree p s core').closed = core.closed ++ [s.sock] := by
      rw [← hclosed]
      rfl
    have hlist : (ipcFree p s core').head = core.head.erase p := by
      rw [← hhead]
      rfl
    have hold : ∀ q ∈ core.head.erase p, sockOf (ipcFree p s core') q = sockOf core q := by
      intro q hq
      rw [sockOf, hget, if_neg (h.nodup.mem_erase_iff.mp hq).1, sockOf]
    have hsock : sockOf core p = s.sock := by simp [sockOf, hs]
    rw [accounted, accounted, hfree, hlist, List.map_congr_left hold, List.append_assoc,
      List.nil_append]
    apply List.Perm.append_left _
    have hperm := (List.perm_cons_erase hmem).map (sockOf core)
    rw [List.map_cons, hsock] at hperm
    exact hperm.symm
  · rw [← hclosed]
    exact List.prefix_append _ _
  · rw [hget] at ht
    split_ifs at ht
    exact ⟨t, ht, rfl⟩

/-- **A release** closes the socket of the handle. -/
lemma settles_release (h : Formed core) (p : Ptr) : Settles [] core (ipcRelease p core) := by
  unfold ipcRelease
  split
  · exact settles_of_eq rfl rfl rfl rfl
  · rename_i s hs
    split
    · exact settles_of_eq rfl rfl rfl rfl
    · exact settles_free h hs rfl rfl rfl rfl
    · exact settles_free h hs rfl rfl rfl rfl
    · exact settles_free h hs rfl rfl rfl rfl
    · exact settles_free h hs rfl rfl rfl rfl

/-! ## Accepted connections -/

lemma settles_connect (h : Formed core) (sock : ℕ) (msg : IpcMsg) (env : ConnectEnv) :
    Settles [sock] core (ipcServerConnect sock msg env core) := by
  unfold ipcServerConnect
  have hinit := settles_sevrInit h ⟨.requester, int32 (leNat (msg.data.take 4)), sock, 0, []⟩
  have hnew : Formed (sevrInit ⟨.requester, int32 (leNat (msg.data.take 4)), sock, 0, []⟩ core) :=
    h.sevrInit (by simp) (by simp)
  have hcall := hinit.after (settles_manager core.brk (.connect env.verdict) _)
  have hrelease := hcall.after (settles_release
    (hnew.manager core.brk (.connect env.verdict)) core.brk)
  dsimp only
  split_ifs
  · exact settles_close sock core
  · exact hrelease
  · exact hcall
  · exact hrelease

lemma settles_register (h : Formed core) (sock : ℕ) (msg : IpcMsg) (env : RegisterEnv)
    (hdead : (ipcServerRegister sock msg env core).dead = false) :
    Settles [sock] core (ipcServerRegister sock msg env core) := by
  have hneed : Settles [] core (needBuckets core) := by
    unfold needBuckets
    split_ifs
    · exact Settles.refl core
    · exact settles_of_eq rfl rfl rfl rfl
  have hinit := hneed.before (settles_sevrInit h.needBuckets (newSubscriber sock msg))
  have hcall := hinit.after (settles_manager core.brk (.register env.verdict) _)
  obtain hreg | ⟨hmask, core', rfl, ⟨hd, hreg⟩ | hreg⟩ := ipcServerRegister_cases sock msg env core
  · rw [hreg]
    exact settles_close sock core
  · rw [hreg, hd] at hdead
    cases hdead
  · rw [hreg]
    have hformed := (h.newPeer hmask sock).manager core.brk (.register env.verdict)
    obtain ⟨-, hpeer⟩ | ⟨-, hpeer | hpeer⟩ := registerPeer_cases core.brk env
      (sevrInit (newSubscriber sock msg) (needBuckets core))
    · rw [hpeer]
      exact hcall.after (settles_release hformed core.brk)
    · rw [hpeer]
      exact hcall
    · rw [hpeer]
      exact (hcall.after (settles_manager core.brk .shutdown _)).after
        (settles_release (hformed.manager core.brk .shutdown) core.brk)

variable {filter : Option (IpcNotify → ℤ)}

/-- The `switch` of the master's handler, unless the server dies in it. -/
lemma settles_masterSwitch (h : Formed core) (sock : ℕ) (env : AcceptEnv) (m : Mem)
    (hdead : (masterSwitch filter sock env m core).dead = false) :
    Settles [sock] core (masterSwitch filter sock env m core) := by
  unfold masterSwitch at hdead ⊢
  simp only [] at hdead ⊢
  split_ifs at hdead ⊢
  · exact settles_connect h sock _ _
  · exact settles_register h sock _ _ hdead
  · exact settles_close sock core
  · exact settles_close sock core
  · split at hdead
    · cases hdead
    · exact settles_close sock core
  · split at hdead
    · cases hdead
    · exact settles_close sock core

/-- **`ipc_master_socket_handler`** puts what it accepts into the account. -/
lemma settles_master {s s' : Server} (h : Formed s.core) {env : AcceptEnv}
    (hs : ipcMasterSocketHandler filter env s = some s') (hdead : s'.core.dead = false) :
    Settles env.accepted.toList s.core s'.core := by
  unfold ipcMasterSocketHandler at hs
  split at hs
  · rename_i hnone
    obtain rfl := Option.some.inj hs
    rw [hnone]
    exact Settles.refl s.core
  · rename_i sock hsock
    rw [hsock]
    split_ifs at hs
    · obtain rfl := Option.some.inj hs
      exact settles_close sock s.core
    · split at hs
      · cases hs
      · obtain rfl := Option.some.inj hs
        exact settles_close sock s.core
      · obtain rfl := Option.some.inj hs
        exact settles_masterSwitch h sock env _ hdead

/-! ## Runs -/

lemma settles_nodeInitLoop (p : Ptr) (fuel : ℕ) (mask : UInt64) (i j : ℕ) (core : IpcCore) :
    Settles [] core (nodeInitLoop p fuel mask i j core) := by
  induction fuel generalizing mask i j core with
  | zero => exact Settles.refl core
  | succ fuel ih =>
      rw [nodeInitLoop]
      split_ifs
      · exact Settles.refl core
      · have hlink : Settles [] core (linkNode p i j core) := by
          refine settles_of_same rfl rfl rfl fun q => ?_
          simp only [linkNode]
          split_ifs
          · rw [Option.map_map]
            rfl
          · rfl
        exact hlink.after (ih _ _ _ _)
      · exact ih _ _ _ _

lemma settles_sync (p : Ptr) (core : IpcCore) : Settles [] core (ipcServerSync p core) := by
  unfold ipcServerSync
  split
  · exact settles_of_eq rfl rfl rfl rfl
  · split_ifs
    · exact settles_of_eq rfl rfl rfl rfl
    · exact settles_of_eq rfl rfl rfl rfl
    · exact (settles_nodeInitLoop p 64 _ 0 0 core).after (settles_manager p .sync _)

lemma settles_unregister (h : Formed core) (p : Ptr) :
    Settles [] core (ipcServerUnregister p core).1 := by
  unfold ipcServerUnregister
  split
  · exact settles_of_eq rfl rfl rfl rfl
  · split_ifs
    · exact Settles.refl core
    · exact Settles.refl core
    · exact (settles_manager p .unregister core).after
        (settles_release (h.manager p .unregister) p)

/-- What a client sends may release its handle, and nothing else. -/
lemma keeps_settles (core : IpcCore) (p : Ptr) :
    Keeps (serverHooks filter p) (fun s => Formed s.core ∧ Settles [] core s.core)
      fun s => Formed s.core ∧ Settles [] core s.core :=
  keeps_core p (I := fun c => Formed c ∧ Settles [] core c)
    (fun h => ⟨h.1.release p, h.2.after (settles_release h.1 p)⟩)
    (fun h => ⟨h.1.sync p, h.2.after (settles_sync p _)⟩)
    (fun h => ⟨h.1.unregister p, h.2.after (settles_unregister h.1 p)⟩)
    fun h hhandle hbrk hhead hclosed => ⟨h.1.congr hhandle hbrk hhead,
      h.2.after (settles_of_eq hclosed hhead hbrk hhandle)⟩

lemma settles_releaseAll (ps : List Ptr) (h : Formed core) :
    Settles [] core (ps.foldl (fun c p => ipcRelease p c) core) := by
  induction ps generalizing core with
  | nil => exact Settles.refl core
  | cons p ps ih => exact (settles_release h p).after (ih (h.release p))

lemma settles_exit (h : Formed core) : Settles [] core (ipcServerExit core) := by
  unfold ipcServerExit
  split_ifs
  · have hstop : Formed { core with running := false } := h.congr rfl rfl rfl
    have hsame : Settles [] core { core with running := false } := settles_of_eq rfl rfl rfl rfl
    exact (hsame.after (settles_releaseAll core.head hstop)).after (settles_of_eq rfl rfl rfl rfl)
  · exact Settles.refl core

/-- The descriptors that come to the server in a step. -/
def ServerLabel.opened (core : IpcCore) : ServerLabel → List ℕ
  | .accept env => env.accepted.toList
  | .proxy fd alloc => if core.inited && alloc then [fd] else []
  | _ => []

/-- **Every step settles what it opens**, unless the server dies in it. -/
lemma settles_step {s s' : Server} {l : ServerLabel} {es : List Empty} (h : Formed s.core)
    (hstep : serverStep filter s l = some (s', es)) (hdead : s'.core.dead = false) :
    Settles (l.opened s.core) s.core s'.core := by
  have hmoved := (serverStep_moved hstep).2
  cases l with
  | accept env =>
      unfold serverStep at hstep
      split_ifs at hstep
      obtain ⟨t, ht, heq⟩ := Option.map_eq_some_iff.mp hstep
      obtain ⟨rfl, -⟩ := Prod.mk.inj heq
      exact settles_master h ht hdead
  | recv p events answers =>
      cases hmoved with
      | recv _ heq =>
          rw [heq]
          exact ((keeps_settles s.core p).handlerRecv _ _ ⟨h, Settles.refl _⟩).2
  | proxy fd alloc =>
      cases hmoved with
      | proxy heq =>
          rw [heq]
          simp only [ipcServerProxy, ServerLabel.opened]
          split_ifs
          · exact settles_sevrInit h { clazz := .proxy, identity := 0, sock := fd }
          · exact Settles.refl s.core
  | exit =>
      cases hmoved with
      | exit heq =>
          rw [heq]
          exact settles_exit h

lemma Formed.master {s s' : Server} (h : Formed s.core) {env : AcceptEnv}
    (hcall : ipcMasterSocketHandler filter env s = some s') : Formed s'.core := by
  unfold ipcMasterSocketHandler at hcall
  split at hcall
  · obtain rfl := Option.some.inj hcall
    exact h
  · split_ifs at hcall
    · obtain rfl := Option.some.inj hcall
      exact h.close _
    · split at hcall
      · cases hcall
      · obtain rfl := Option.some.inj hcall
        exact h.close _
      · obtain rfl := Option.some.inj hcall
        exact h.masterSwitch _ env _

/-! ## Owners -/

/-- The descriptor is the socket of the handle, which is in the list of the core, and of no
other. -/
structure OwnedBy (sock : ℕ) (p : Ptr) (core : IpcCore) : Prop where
  listed : p ∈ core.head
  live : ∃ t, core.handle p = some t ∧ t.sock = sock
  only : ∀ q ∈ core.head, sockOf core q = sock → q = p

/-- How many handles have the descriptor. -/
def ownersOf (core : IpcCore) (sock : ℕ) : ℕ := (core.head.map (sockOf core)).count sock

lemma Settles.count {opened : List ℕ} (h : Settles opened core core') (sock : ℕ) :
    core'.closed.count sock + ownersOf core' sock =
      opened.count sock + (core.closed.count sock + ownersOf core sock) := by
  have hperm := h.accounted.count_eq sock
  simpa only [Ipc.accounted, List.count_append, ownersOf] using hperm

lemma Settles.closed_le {opened : List ℕ} (h : Settles opened core core') (sock : ℕ) :
    core.closed.count sock ≤ core'.closed.count sock := h.closed.sublist.count_le sock

lemma ownersOf_eq_zero {sock : ℕ} : ownersOf core sock = 0 ↔ SockFree core sock := by
  simp [ownersOf, SockFree, List.count_eq_zero]

lemma Formed.ownersOf_eq_one (h : Formed core) {sock : ℕ} :
    ownersOf core sock = 1 ↔ ∃ p, OwnedBy sock p core := by
  have hcount : ownersOf core sock =
      (core.head.filter fun p => decide (sockOf core p = sock)).length := by
    rw [ownersOf, List.count, List.countP_map, List.countP_eq_length_filter]
    rfl
  have hsock : ∀ p ∈ core.head, ∀ t, core.handle p = some t → sockOf core p = t.sock := by
    intro p _ t ht
    simp [sockOf, ht]
  rw [hcount, List.length_eq_one_iff]
  constructor
  · rintro ⟨p, hp⟩
    have hmem : ∀ q, q ∈ core.head ∧ sockOf core q = sock ↔ q = p := by
      intro q
      rw [← List.mem_singleton (a := q), ← hp, List.mem_filter, decide_eq_true_iff]
    obtain ⟨hlist, heq⟩ := (hmem p).mpr rfl
    obtain ⟨t, ht⟩ := Option.ne_none_iff_exists'.mp ((h.listed p).mp hlist)
    exact ⟨p, hlist, ⟨t, ht, (hsock p hlist t ht).symm.trans heq⟩,
      fun q hq hqs => (hmem q).mp ⟨hq, hqs⟩⟩
  · rintro ⟨p, hlist, ⟨t, ht, hts⟩, honly⟩
    refine ⟨p, ?_⟩
    have hfilter : core.head.filter (fun q => decide (sockOf core q = sock)) =
        core.head.filter fun q => q = p := by
      apply List.filter_congr
      intro q hq
      rw [decide_eq_decide]
      refine ⟨honly q hq, ?_⟩
      rintro rfl
      exact (hsock q hlist t ht).trans hts
    rw [hfilter, List.filter_eq, h.nodup.count, if_pos hlist, List.replicate_one]

/-- **The release of the owner** closes the descriptor once. -/
lemma OwnedBy.release {sock : ℕ} (ho : OwnedBy sock p core) (h : Formed core) :
    (ipcRelease p core).closed.count sock = core.closed.count sock + 1 ∧
      SockFree (ipcRelease p core) sock := by
  have hsettles := settles_release h p
  obtain ⟨t, ht, -⟩ := ho.live
  have hfree : SockFree (ipcRelease p core) sock := by
    intro q hq hqs
    obtain ⟨u, hu⟩ := Option.ne_none_iff_exists'.mp (((h.release p).listed q).mp hq)
    have hqp : q ≠ p := by
      rintro rfl
      rw [(h.release_live ht).1] at hu
      cases hu
    rw [handle_ipcRelease_of_ne hqp] at hu
    have hqlist : q ∈ core.head := by
      rw [h.listed, hu]
      simp
    refine hqp (ho.only q hqlist ?_)
    rw [← hqs, sockOf, sockOf, handle_ipcRelease_of_ne hqp]
  have hcount := hsettles.count sock
  rw [ownersOf_eq_zero.mpr hfree, h.ownersOf_eq_one.mpr ⟨p, ho⟩, List.count_nil] at hcount
  exact ⟨by omega, hfree⟩

/-- What comes to the server in a step is not the socket of a handle: it is not open before. -/
def OpensFresh (s : Server) (l : ServerLabel) : Prop :=
  ∀ sock ∈ l.opened s.core, SockFree s.core sock

/-- A descriptor stays with its owner as long as that lives. -/
lemma OwnedBy.step {s s' : Server} {l : ServerLabel} {es : List Empty} {sock : ℕ}
    (ho : OwnedBy sock p s.core) (h : Formed s.core) (hfresh : OpensFresh s l)
    (hstep : serverStep filter s l = some (s', es)) (hdead : s'.core.dead = false)
    (hlive : ∃ t, s'.core.handle p = some t) :
    OwnedBy sock p s'.core ∧ s'.core.closed.count sock = s.core.closed.count sock := by
  have hsettles := settles_step h hstep hdead
  have h' := h.step hstep
  obtain ⟨t, ht, hts⟩ := ho.live
  obtain ⟨t', ht'⟩ := hlive
  have hlt : p < s.core.brk := by
    by_contra hge
    rw [h.fresh p (Nat.le_of_not_lt hge)] at ht
    cases ht
  have hsock : t'.sock = sock := by
    obtain ⟨u, hu, hus⟩ := hsettles.kept p hlt t' ht'
    obtain rfl := Option.some.inj (ht.symm.trans hu)
    exact hus.symm.trans hts
  have hlist : p ∈ s.core.head ∧ p ∈ s'.core.head := by
    rw [h.listed, h'.listed, ht, ht']
    simp
  have hnew : (l.opened s.core).count sock = 0 := by
    rw [List.count_eq_zero]
    intro hmem
    exact hfresh sock hmem p hlist.1 (by simp [sockOf, ht, hts])
  have hpos : 0 < ownersOf s'.core sock := by
    rw [Nat.pos_iff_ne_zero, Ne, ownersOf_eq_zero]
    intro hfree
    exact hfree p hlist.2 (by simp [sockOf, ht', hsock])
  have hcount := hsettles.count sock
  have hle := hsettles.closed_le sock
  rw [hnew, h.ownersOf_eq_one.mpr ⟨p, ho⟩] at hcount
  obtain ⟨q, hq⟩ := h'.ownersOf_eq_one.mp (show ownersOf s'.core sock = 1 by omega)
  obtain rfl : p = q := hq.only p hlist.2 (by simp [sockOf, ht', hsock])
  exact ⟨hq, by omega⟩

/-- A handle that lives at the end of a run has lived before. -/
lemma run_kept {ls : List ServerLabel} {s s' : Server} {es : List Empty} (h : Formed s.core)
    (hrun : run (serverStep filter) ls s = some (s', es)) (hdead : s'.core.dead = false) :
    s.core.dead = false ∧ ∃ opened, Settles opened s.core s'.core := by
  induction ls generalizing s es with
  | nil =>
      obtain ⟨rfl, -⟩ := Prod.mk.inj (Option.some.inj hrun)
      exact ⟨hdead, [], Settles.refl s.core⟩
  | cons l ls ih =>
      obtain ⟨s₁, es₁, es₂, h₁, h₂, -⟩ := run_cons.mp hrun
      obtain ⟨hdead₁, opened, hsettles⟩ := ih (h.step h₁) h₂
      exact ⟨(serverStep_moved h₁).1, _, (settles_step h h₁ hdead₁).trans hsettles⟩

lemma OwnedBy.run {ls : List ServerLabel} {s s' : Server} {es : List Empty} {sock : ℕ}
    (ho : OwnedBy sock p s.core) (h : Formed s.core)
    (hfresh : Along (serverStep filter) OpensFresh ls s)
    (hrun : LinuxC.run (serverStep filter) ls s = some (s', es)) (hdead : s'.core.dead = false)
    (hlive : ∃ t, s'.core.handle p = some t) :
    OwnedBy sock p s'.core ∧ s'.core.closed.count sock = s.core.closed.count sock := by
  induction ls generalizing s es with
  | nil =>
      obtain ⟨rfl, -⟩ := Prod.mk.inj (Option.some.inj hrun)
      exact ⟨ho, rfl⟩
  | cons l ls ih =>
      obtain ⟨s₁, es₁, es₂, h₁, h₂, -⟩ := run_cons.mp hrun
      have hform₁ := h.step h₁
      obtain ⟨hdead₁, opened, hsettles⟩ := run_kept hform₁ h₂ hdead
      obtain ⟨t, ht⟩ := hlive
      have hlt : p < s₁.core.brk := by
        obtain ⟨u, hu, -⟩ := ho.live
        by_contra hge
        have hle := (settles_step h h₁ hdead₁).brk
        rw [h.fresh p (hle.trans (Nat.le_of_not_lt hge))] at hu
        cases hu
      obtain ⟨u, hu, -⟩ := hsettles.kept p hlt t ht
      obtain ⟨ho₁, hclosed₁⟩ := ho.step h hfresh.1 h₁ hdead₁ ⟨u, hu⟩
      obtain ⟨ho', hclosed'⟩ := ih ho₁ hform₁ (hfresh.2 s₁ es₁ h₁) h₂
      exact ⟨ho', hclosed'.trans hclosed₁⟩

end LinuxC.Ipc
