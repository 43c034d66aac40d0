import LinuxC.Framework.DeadlineQueue
import LinuxC.Mcd.Supervision

/-!
# Clients that do not answer their probes

`mcd_inspect` goes through `client_runningq` from the tail and stops at the first client that still
has time, so that it finds every client that has missed its probes only if the queue is ordered by
`probe_expire`, the latest in front (`InOrder`).  Most handlers do not touch this order: they leave
the probes alone (`Still`), or clients leave the queue (`Thins`).  `mcd_client_active` puts the
client where it belongs.  `mcd_client_attach` calls it, too, but then moves the client to the tail.

The order is lost when a client is attached behind one that has to answer earlier (`misplaces`).
Where no step does this, an inspection finds every client that is late.
-/

namespace LinuxC.Mcd.Clients

variable {s s' s'' : State} {c : ClientPtr}

/-! ## What leaves the order alone -/

/-- The probes are as they were. -/
structure Still (s s' : State) : Prop where
  runningq : s'.runningq = s.runningq
  lossq : s'.lossq = s.lossq
  probeExpire : s'.probeExpire = s.probeExpire
  probeTime : s'.probeTime = s.probeTime
  config : s'.config = s.config

/-- Clients leave `client_runningq`; the probes of the others are as they were. -/
structure Thins (s s' : State) : Prop where
  runningq : s'.runningq.Sublist s.runningq
  probeExpire : ∀ d ∈ s'.runningq, s'.probeExpire d = s.probeExpire d

lemma Still.refl (s : State) : Still s s := ⟨rfl, rfl, rfl, rfl, rfl⟩

lemma Still.trans (h : Still s s') (h' : Still s' s'') : Still s s'' :=
  ⟨h'.runningq.trans h.runningq, h'.lossq.trans h.lossq, h'.probeExpire.trans h.probeExpire,
    h'.probeTime.trans h.probeTime, h'.config.trans h.config⟩

lemma Still.thins (h : Still s s') : Thins s s' :=
  ⟨h.runningq ▸ List.Sublist.refl _, fun d _ => congrFun h.probeExpire d⟩

lemma Thins.refl (s : State) : Thins s s := (Still.refl s).thins

lemma Thins.trans (h : Thins s s') (h' : Thins s' s'') : Thins s s'' :=
  ⟨h'.runningq.trans h.runningq, fun d hd =>
    (h'.probeExpire d hd).trans (h.probeExpire d (h'.runningq.subset hd))⟩

/-- `client_runningq` has the client in front that has to answer last. -/
def InOrder (s : State) : Prop := LatestFirst s.probeExpire s.runningq

lemma InOrder.thins (h : InOrder s) (ht : Thins s s') : InOrder s' :=
  (LatestFirst.sublist h ht.runningq).congr ht.probeExpire

/-! ### Records -/

lemma probeExpire_modify_of_ne {d : ClientPtr} (hd : d ≠ c) (f : McClient → McClient) (s : State) :
    (s.modify c f).probeExpire d = s.probeExpire d := by
  unfold State.probeExpire
  rw [State.client_modify_of_ne hd]

lemma still_modify {f : McClient → McClient} (hf : ∀ x, (f x).probeExpire = x.probeExpire) :
    Still s (s.modify c f) := by
  refine ⟨rfl, rfl, funext fun d => ?_, rfl, rfl⟩
  by_cases hd : d = c
  · subst hd
    unfold State.probeExpire
    rw [State.client_modify_self]
    cases s.client d with
    | none => rfl
    | some x => exact hf x
  · exact probeExpire_modify_of_ne hd f s

lemma still_setFlags (c : ClientPtr) (f : Finset ℕ → Finset ℕ) (s : State) :
    Still s (s.setFlags c f) :=
  still_modify fun _ => rfl

lemma still_setState (c : ClientPtr) (kind : Kind) (detached : Bool) (s : State) :
    Still s (s.setState c kind detached) :=
  still_modify fun _ => rfl

lemma still_detached (c : ClientPtr) (detached : Bool) (s : State) :
    Still s (s.modify c fun x => { x with state := ⟨x.state.kind, detached⟩ }) :=
  still_modify fun _ => rfl

lemma still_delTasks (c : ClientPtr) (s : State) : Still s (s.delTasks c) :=
  ⟨rfl, rfl, rfl, rfl, rfl⟩

lemma still_taskActive (c : ClientPtr) (i : ℕ) (s : State) : Still s (mcTaskActive c i s) := by
  have hmodify : Still s (s.modify c fun x =>
      { x with tasks := x.tasks.modify i fun t =>
          { t with expire := s.now + s.config.lossMax * t.interval } }) :=
    still_modify fun _ => rfl
  exact ⟨rfl, rfl, hmodify.probeExpire, rfl, rfl⟩

lemma still_activateTasks (c : ClientPtr) (n : ℕ) (s : State) :
    Still s (activateTasks c n s) := by
  unfold activateTasks
  generalize List.range n = is
  induction is generalizing s with
  | nil => exact .refl s
  | cons i is ih => exact (still_taskActive c i s).trans (ih _)

lemma still_clientRestart (c : ClientPtr) (started : Bool) (s : State) :
    Still s (clientRestart c started s) := by
  unfold clientRestart
  split_ifs
  · exact still_modify fun _ => rfl
  · exact .refl s

lemma still_restart {started : Bool} (h : mcdClientRestart c started s = some s') :
    Still s s' := by
  obtain ⟨x, hx, rfl⟩ := Option.map_eq_some_iff.mp h
  split_ifs
  · exact still_modify fun _ => rfl
  · exact still_clientRestart c started s

lemma still_exitClient {notified : Bool} (h : mcExitClient c notified s = some s') :
    Still s s' := by
  obtain rfl | rfl := mcExitClient_cases h
  · exact .refl s'
  · exact still_setFlags c _ s

lemma still_guardAnswer (gs : Option (List McGuard)) (s : State) :
    Still s (s.guardAnswer gs).1 := by
  cases gs with
  | none => exact .refl s
  | some gs => exact ⟨rfl, rfl, rfl, rfl, rfl⟩

lemma still_release (h : Handle) (s : State) : Still s (ipcRelease h s) := by
  unfold ipcRelease mcIpcReleaseProcess
  cases (s.peer h).bind Peer.cookie with
  | none => exact ⟨rfl, rfl, rfl, rfl, rfl⟩
  | some a => exact ⟨rfl, rfl, rfl, rfl, rfl⟩

/-! ### Queues -/

lemma thins_listMove {q : Queue} (hq : q ≠ .running) (c : ClientPtr) (s : State) :
    Thins s (s.listMove q c) := by
  have hthins (rest : List ClientPtr) (hrest : rest = s.runningq.filter (· ≠ c)) :
      rest.Sublist s.runningq := hrest ▸ List.filter_sublist
  cases q with
  | running => exact absurd rfl hq
  | loss => exact ⟨hthins _ rfl, fun _ _ => rfl⟩
  | detachd => exact ⟨hthins _ rfl, fun _ _ => rfl⟩
  | dead => exact ⟨hthins _ rfl, fun _ _ => rfl⟩

lemma thins_listDel (c : ClientPtr) (s : State) : Thins s (s.listDel c) :=
  ⟨List.filter_sublist, fun _ _ => rfl⟩

/-- The memory of a client that is not in `client_runningq` is taken or released. -/
lemma thins_update {v : Option McClient} (hc : c ∉ s.runningq) (hrun : s'.runningq = s.runningq)
    (hclient : s'.client = Function.update s.client c v) : Thins s s' := by
  refine ⟨hrun ▸ List.Sublist.refl _, fun d hd => ?_⟩
  have hdc : d ≠ c := fun h => hc (h ▸ hrun ▸ hd)
  unfold State.probeExpire
  rw [hclient, Function.update_of_ne hdc]

lemma thins_destroy (h : mcdClientDestroy c s = some s') : Thins s s' := by
  obtain ⟨x, hx, rfl⟩ := Option.map_eq_some_iff.mp h
  have hlast : Still s ((s.delTasks c).modify c fun x =>
      { x with flags := ∅, pid := 0, subscriber := none }) :=
    (still_delTasks c s).trans (still_modify fun _ => rfl)
  split_ifs
  · exact (thins_listDel c s).trans
      (thins_update (notMem_filter_ne c s.runningq) rfl rfl)
  · exact (hlast.trans (still_setState c .dead true _)).thins
  · exact (hlast.trans (still_setState c .dead false _)).thins.trans
      (thins_listMove (q := .dead) (by decide) c _)

lemma thins_shutdown {h : Handle} {started : Bool}
    (hstep : mcIpcShutdownProcess h started s = some s') : Thins s s' := by
  obtain ⟨c, s₁, -, hdestroy, hstep⟩ | ⟨-, rfl⟩ := mcIpcShutdownProcess_cases hstep
  · rcases hstep with rfl | hrestart
    · exact thins_destroy hdestroy
    · exact (thins_destroy hdestroy).trans (still_restart hrestart).thins
  · exact .refl s'

/-! ## What puts a client into its place -/

lemma insertBefore_eq (due : ClientPtr → ℤ) (c : ClientPtr) (xs : List ClientPtr) :
    insertBefore (fun d => due d ≤ due c) c xs =
      xs.orderedInsert (fun a b => due b ≤ due a) c := by
  induction xs with
  | nil => rfl
  | cons d xs ih =>
      rw [List.orderedInsert_cons, ← ih]
      simp only [insertBefore, decide_eq_true_eq]

/-- **`mcd_client_active`.** -/
lemma InOrder.clientActive (h : InOrder s) (c : ClientPtr) (time : ℤ) :
    InOrder (mcdClientActive c time s) := by
  unfold InOrder mcdClientActive
  dsimp only
  rw [insertBefore_eq]
  refine LatestFirst.orderedInsert c ((LatestFirst.sublist h List.filter_sublist).congr ?_)
  intro d hd
  have hdc : d ≠ c := by simpa using List.of_mem_filter hd
  exact probeExpire_modify_of_ne hdc _ s

lemma InOrder.constructOut (h : InOrder s) (info : McReginfo) (a : SubscriberPtr)
    (c : ClientPtr) : InOrder (constructOut info a c s) := by
  unfold Clients.constructOut
  have hfields : Still s (s.modify c fun x =>
      { x with
        pid := info.pid
        flags := ∅
        subscriber := some a
        birthTime := s.now
        tasks := info.tasks.map fun t => ⟨t.tid, t.interval, t.strategy, 0⟩ }) :=
    still_modify fun _ => rfl
  have htasks := hfields.trans (still_activateTasks c info.tasks.length _)
  exact ((h.thins htasks.thins).clientActive c _).thins (still_setState c .running false _).thins

/-- **`mcd_client_construct`.** -/
lemma InOrder.construct {info : McReginfo} {a : SubscriberPtr} {mem : Option ClientPtr}
    (h : InOrder s) (hmem : ∀ d ∈ mem, d ∉ s.runningq)
    (hstep : mcdClientConstruct info a mem s = some (c, s')) : InOrder s' := by
  unfold mcdClientConstruct at hstep
  split at hstep
  · rename_i d _
    obtain ⟨rfl, rfl⟩ := Prod.mk.inj (Option.some.inj hstep)
    refine InOrder.constructOut ?_ info a d
    refine h.thins ((thins_listDel d s).trans (still_modify fun x => ?_).thins)
    split_ifs <;> rfl
  · obtain ⟨d, hd, hstep⟩ := Option.map_eq_some_iff.mp hstep
    obtain ⟨rfl, rfl⟩ := Prod.mk.inj hstep
    refine InOrder.constructOut (h.thins ?_) info a d
    exact thins_update (hmem d hd) rfl rfl

lemma thins_bindSubscriber {h : Handle} {a : SubscriberPtr} {cookie : Cookie} {accepted : Bool}
    (hstep : bindSubscriber h a cookie s = some (s', accepted)) : Thins s s' := by
  unfold bindSubscriber at hstep
  split at hstep
  · cases hstep
  · split at hstep
    · split at hstep
      · obtain ⟨s₁, hdestroy, heq⟩ := Option.map_eq_some_iff.mp hstep
        obtain ⟨rfl, -⟩ := Prod.mk.inj heq
        exact thins_destroy hdestroy
      · obtain ⟨rfl, -⟩ := Prod.mk.inj (Option.some.inj hstep)
        exact .refl s
    · obtain ⟨rfl, -⟩ := Prod.mk.inj (Option.some.inj hstep)
      exact Still.thins ⟨rfl, rfl, rfl, rfl, rfl⟩

/-- **`mc_ipc_register_process`.**  A new record is not in a queue, since its memory was free. -/
lemma InOrder.registerProcess {h : Handle} {p : Peer} {info : McReginfo} {env : RegisterEnv}
    {accepted : Bool} (hs : InOrder s) (halloc : ∀ d ∈ s.runningq, (s.client d).isSome = true)
    (hstep : mcIpcRegisterProcess h p info env s = some (s', accepted)) : InOrder s' := by
  obtain ⟨-, rfl⟩ | ⟨name, a, -, -, -, -, hbind⟩ := mcIpcRegisterProcess_cases hstep
  · exact hs
  obtain ⟨c, s₁, -, -, -, hfree, hconstruct, hbind⟩ | hbind := hbind
  · have hmem : ∀ d ∈ env.client, d ∉ s.runningq := by
      intro d hd hrun
      have hsome := halloc d hrun
      rw [hfree d hd] at hsome
      cases hsome
    exact (hs.construct hmem hconstruct).thins (thins_bindSubscriber hbind)
  · exact hs.thins (thins_bindSubscriber hbind)

lemma InOrder.register {h : Handle} {identity : ℤ} {mask : UInt64} {info : McReginfo}
    {env : RegisterEnv} {sent started : Bool} (hs : InOrder s)
    (halloc : ∀ d ∈ s.runningq, (s.client d).isSome = true)
    (hstep : ipcServerRegister h identity mask info env sent started s = some s') :
    InOrder s' := by
  obtain ⟨s₁, accepted, hregister, hend⟩ := ipcServerRegister_cases hstep
  have hfirst : Still s { s with
      peer := Function.update s.peer h (some ⟨identity, mask, none⟩) } :=
    ⟨rfl, rfl, rfl, rfl, rfl⟩
  have h₁ : InOrder s₁ := (hs.thins hfirst.thins).registerProcess halloc hregister
  obtain ⟨-, rfl⟩ | ⟨-, rfl⟩ | ⟨-, s₂, hshutdown, rfl⟩ := hend
  · exact h₁.thins (still_release h s₁).thins
  · exact h₁
  · exact h₁.thins ((thins_shutdown hshutdown).trans (still_release h s₂).thins)

lemma InOrder.probe {h : Handle} {time : ℤ} (hs : InOrder s)
    (hstep : mcdClientProbeMsg h time s = some s') : InOrder s' := by
  obtain rfl | ⟨c, -, rfl⟩ := mcdClientProbeMsg_cases hstep
  · exact hs
  · exact hs.clientActive c time

/-! ## Messages -/

lemma still_heartbeat {h : Handle} {pid : ℤ} {tid : ℕ}
    (hstep : mcdClientHeartbeatMsg h pid tid s = some s') : Still s s' := by
  obtain rfl | ⟨c, i, flags, -, rfl⟩ := mcdClientHeartbeatMsg_cases hstep
  · exact .refl s'
  · exact (still_taskActive _ _ s).trans (still_setFlags _ _ _)

lemma still_unregister {h : Handle} (hstep : ipcServerUnregister h s = some s') : Still s s' := by
  obtain ⟨s₁, hunregister, rfl⟩ := ipcServerUnregister_cases hstep
  refine Still.trans ?_ (still_release h s₁)
  obtain rfl | ⟨c, rfl⟩ := mcIpcUnregisterProcess_cases hunregister
  · exact .refl s₁
  · exact still_setFlags c _ s

lemma thins_detach {name : String} {exit notified : Bool} {r : State × Bool}
    (h : mcdClientDetach name exit notified s = some r) : Thins s r.1 := by
  obtain ⟨c, x, s₁, hx, hs₁, hexit⟩ | ⟨gs, rfl⟩ := mcdClientDetach_cases h
  · have hmoved : Thins s s₁ := by
      rw [hs₁]
      exact ((still_delTasks c s).thins.trans (thins_listMove (q := .detachd) (by decide) c _)).trans
        (still_detached c true _).thins
    rcases hexit with heq | hexit
    · rw [heq]
      exact hmoved
    · exact hmoved.trans (still_exitClient hexit).thins
  · exact (still_guardAnswer gs s).thins

lemma still_restartMsg {name : String} {notified : Bool} {r : State × Bool}
    (h : mcdClientRestartMsg name notified s = some r) : Still s r.1 := by
  obtain ⟨c, hexit⟩ | ⟨gs, rfl⟩ := mcdClientRestartMsg_cases h
  · exact still_exitClient hexit
  · exact still_guardAnswer gs s

lemma still_restartTimer {started : Bool} (h : restartTimer c started s = some s') :
    Still s s' := by
  have hstop : Still s (s.modify c fun x => { x with restartTiming := none }) :=
    still_modify fun _ => rfl
  obtain rfl | rfl | rfl := restartTimer_cases h
  · exact .refl s'
  · exact hstop
  · exact hstop.trans (still_clientRestart c started _)

/-! ### An attach -/

/-- When a client has to answer that is attached now. -/
def attachExpire (s : State) : ℤ := s.probeTime + s.config.lossMax * s.config.probeInterval

/-- The step attaches a client that runs, and one in `client_runningq` has to answer earlier. -/
def misplaces (s : State) : Label → Bool
  | .attach name _ =>
      (s.findName s.detachdq name).any fun c =>
        (s.client c).any fun x =>
          x.state.kind = .running ∧ ∃ d ∈ s.runningq, s.probeExpire d < attachExpire s
  | _ => false

lemma filter_insertBefore (p : ClientPtr → Bool) (c : ClientPtr) (xs : List ClientPtr) :
    (insertBefore p c xs).filter (· ≠ c) = xs.filter (· ≠ c) := by
  induction xs with
  | nil => simp [insertBefore]
  | cons d xs ih =>
      unfold insertBefore
      split_ifs
      · simp
      · rw [List.filter_cons, List.filter_cons, ih]

lemma clientActive_spec (c : ClientPtr) (time : ℤ) (hc : (s.client c).isSome = true) :
    (mcdClientActive c time s).runningq.filter (· ≠ c) = s.runningq.filter (· ≠ c) ∧
      (mcdClientActive c time s).probeExpire c =
        time + s.config.lossMax * s.config.probeInterval ∧
      ∀ d, d ≠ c → (mcdClientActive c time s).probeExpire d = s.probeExpire d := by
  refine ⟨?_, ?_, fun d hd => probeExpire_modify_of_ne hd _ s⟩
  · refine (filter_insertBefore _ c _).trans ?_
    simp [State.listDel, State.modify, List.filter_filter]
  · obtain ⟨x, hx⟩ := Option.isSome_iff_exists.mp hc
    change ((s.modify c _).client c).elim 0 McClient.probeExpire = _
    rw [State.client_modify_self, hx]
    rfl

/-- **`mcd_client_attach`.**  The place that `mcd_client_active` has found for the client is lost:
the client is at the tail. -/
lemma attach_spec {name : String} {started : Bool} {x : McClient} {r : State × Bool}
    (hfind : s.findName s.detachdq name = some c) (hx : s.client c = some x)
    (hkind : x.state.kind = .running) (hout : c ∉ s.runningq)
    (hstep : mcdClientAttach name started s = some r) :
    r.1.runningq = s.runningq ++ [c] ∧ r.1.probeExpire c = attachExpire s ∧
      ∀ d ∈ s.runningq, r.1.probeExpire d = s.probeExpire d := by
  unfold mcdClientAttach at hstep
  rw [hfind] at hstep
  simp only [hx, hkind, Option.bind_some, Option.some.injEq] at hstep
  subst hstep
  have htasks := still_activateTasks c x.tasks.length s
  have hsome : ((activateTasks c x.tasks.length s).client c).isSome = true := by
    rw [(keeps_activateTasks (by rw [hx]; rfl)).isSome, hx]
    rfl
  generalize activateTasks c x.tasks.length s = s₁ at htasks hsome
  obtain ⟨hrun, hexpire, hothers⟩ := clientActive_spec c s₁.probeTime hsome
  generalize mcdClientActive c s₁.probeTime s₁ = s₂ at hrun hexpire hothers
  have hstate := still_detached c false s₂
  refine ⟨?_, ?_, fun d hd => ?_⟩
  · change s₂.runningq.filter (· ≠ c) ++ [c] = _
    rw [hrun, htasks.runningq, List.filter_eq_self.mpr fun d hd => ?_]
    exact decide_eq_true fun h => hout (h ▸ hd)
  · refine (congrFun hstate.probeExpire c).trans (hexpire.trans ?_)
    rw [htasks.probeTime, htasks.config]
    rfl
  · have hdc : d ≠ c := fun h => hout (h ▸ hd)
    exact (congrFun hstate.probeExpire d).trans
      ((hothers d hdc).trans (congrFun htasks.probeExpire d))

lemma thins_attach {name : String} {started : Bool} {r : State × Bool}
    (hidle : ∀ c x, s.findName s.detachdq name = some c → s.client c = some x →
      x.state.kind ≠ .running)
    (hstep : mcdClientAttach name started s = some r) : Thins s r.1 := by
  obtain ⟨c, x, hfind, hx, hclient⟩ | ⟨gs, rfl⟩ := mcdClientAttach_cases hstep
  · obtain ⟨hkind, -⟩ | ⟨-, hrestart⟩ | ⟨-, heq⟩ := hclient
    · exact absurd hkind (hidle c x hfind hx)
    · exact ((still_detached c false s).thins.trans
        (thins_listMove (q := .dead) (by decide) c _)).trans (still_restart hrestart).thins
    · rw [heq]
      exact .refl s
  · exact (still_guardAnswer gs s).thins

/-- A detached client has a record, and is not in `client_runningq`. -/
lemma Queued.findName_detachd {name : String} (hs : Queued s)
    (hfind : s.findName s.detachdq name = some c) :
    (∃ x, s.client c = some x) ∧ c ∉ s.runningq := by
  have hc : c ∈ s.detachdq := List.mem_of_find?_eq_some hfind
  refine ⟨Option.isSome_iff_exists.mp ((hs.alloc c).mp (by simp [State.records, hc])), ?_⟩
  intro hrun
  have hnodup := hs.nodup
  unfold State.records at hnodup
  have hapart := List.disjoint_of_nodup_append (List.nodup_append.mp hnodup).1
  exact hapart (List.mem_append_left _ hrun) hc

/-- **An attach keeps the order exactly when it does not misplace the client.** -/
lemma inOrder_attach_iff {name : String} {started : Bool} {r : State × Bool} (hs : Queued s)
    (ho : InOrder s) (hstep : mcdClientAttach name started s = some r) :
    InOrder r.1 ↔ misplaces s (.attach name started) = false := by
  by_cases hidle : ∀ c x, s.findName s.detachdq name = some c → s.client c = some x →
      x.state.kind ≠ .running
  · apply iff_of_true (ho.thins (thins_attach hidle hstep))
    unfold misplaces
    apply Bool.eq_false_iff.mpr
    intro hany
    obtain ⟨c, hfind, hany⟩ := (Option.any_eq_true _ _).mp hany
    obtain ⟨x, hx, hlate⟩ := (Option.any_eq_true _ _).mp hany
    exact hidle c x hfind hx (of_decide_eq_true hlate).1
  · push Not at hidle
    obtain ⟨c, x, hfind, hx, hkind⟩ := hidle
    obtain ⟨hrun, hexpire, hothers⟩ :=
      attach_spec hfind hx hkind (hs.findName_detachd hfind).2 hstep
    have hsame : LatestFirst r.1.probeExpire s.runningq := LatestFirst.congr ho hothers
    unfold InOrder
    rw [hrun, latestFirst_concat, hexpire]
    simp only [misplaces, hfind, hx, hkind, Option.any_some, true_and, decide_eq_false_iff_not]
    push Not
    refine ⟨fun h d hd => ?_, fun h => ⟨hsame, fun d hd => ?_⟩⟩
    · rw [← hothers d hd]
      exact h.2 d hd
    · rw [hothers d hd]
      exact h d hd

/-! ## Inspections -/

/-- `mcd_inspect` after its two scans. -/
def scanned (s : State) : State :=
  let missed := s.taskHead.reverse.takeWhile fun t => s.taskExpire t ≤ s.now
  let s := missed.foldl missHeartbeat s
  let missed := s.runningq.reverse.takeWhile fun c => s.probeExpire c ≤ s.probeTime
  missed.foldl missProbe s

lemma mcdInspect_eq (notified killed : ClientPtr → Bool) (s : State) :
    mcdInspect notified killed s = (scanned s).lossq.foldlM (punish notified killed) (scanned s) :=
  rfl

/-- What the scans do: clients go from `client_runningq` to `client_lossq`. -/
structure Scans (s s' : State) : Prop extends Thins s s' where
  probeTime : s'.probeTime = s.probeTime
  lossq : ∀ c ∈ s.lossq, c ∈ s'.lossq
  left : ∀ c ∈ s.runningq, c ∈ s'.runningq ∨ c ∈ s'.lossq

lemma Still.scans (h : Still s s') : Scans s s' :=
  ⟨h.thins, h.probeTime, fun _ hc => h.lossq ▸ hc, fun _ hc => .inl (h.runningq ▸ hc)⟩

lemma Scans.trans (h : Scans s s') (h' : Scans s' s'') : Scans s s'' :=
  ⟨h.toThins.trans h'.toThins, h'.probeTime.trans h.probeTime, fun c hc => h'.lossq c (h.lossq c hc),
    fun c hc => (h.left c hc).elim (h'.left c) fun hc => .inr (h'.lossq c hc)⟩

lemma scans_listMove (c : ClientPtr) (s : State) : Scans s (s.listMove .loss c) := by
  have hmem (d : ClientPtr) (hd : d ∈ s.lossq) : d ∈ (s.listMove .loss c).lossq := by
    by_cases hdc : d = c
    · exact List.mem_append_right _ (List.mem_singleton.mpr hdc)
    · exact List.mem_append_left _ (List.mem_filter.mpr ⟨hd, decide_eq_true hdc⟩)
  refine ⟨thins_listMove (by decide) c s, rfl, hmem, fun d hd => ?_⟩
  by_cases hdc : d = c
  · exact .inr (List.mem_append_right _ (List.mem_singleton.mpr hdc))
  · exact .inl (List.mem_filter.mpr ⟨hd, decide_eq_true hdc⟩)

lemma scans_missHeartbeat (s : State) (t : ClientPtr × ℕ) : Scans s (missHeartbeat s t) := by
  unfold missHeartbeat
  split
  · exact (Still.refl s).scans
  · split
    · exact (Still.refl s).scans
    · rename_i task _
      split_ifs
      · exact (Still.refl s).scans
      · exact (still_setFlags t.1 _ s).scans.trans (scans_listMove t.1 _)
      · exact (still_setFlags t.1 _ s).scans

lemma scans_missProbe (s : State) (c : ClientPtr) : Scans s (missProbe s c) :=
  (still_setFlags c _ s).scans.trans (scans_listMove c _)

lemma mem_lossq_missProbe (s : State) (c : ClientPtr) : c ∈ (missProbe s c).lossq :=
  List.mem_append_right _ (List.mem_singleton_self c)

lemma scans_foldl {α : Type} {f : State → α → State} (hf : ∀ s x, Scans s (f s x)) (xs : List α)
    (s : State) : Scans s (xs.foldl f s) := by
  induction xs generalizing s with
  | nil => exact (Still.refl s).scans
  | cons x xs ih => exact (hf s x).trans (ih (f s x))

/-- The second scan moves every client that it has seen. -/
lemma mem_lossq_foldl {cs : List ClientPtr} (hc : c ∈ cs) (s : State) :
    c ∈ (cs.foldl missProbe s).lossq := by
  induction cs generalizing s with
  | nil => cases hc
  | cons d cs ih =>
      rcases List.mem_cons.mp hc with rfl | hc
      · exact (scans_foldl scans_missProbe cs _).lossq c (mem_lossq_missProbe s c)
      · exact ih hc (missProbe s d)

lemma scans_scanned (s : State) : Scans s (scanned s) :=
  (scans_foldl scans_missHeartbeat _ s).trans (scans_foldl scans_missProbe _ _)

lemma still_punish {notified killed : ClientPtr → Bool}
    (h : punish notified killed s c = some s') : Still s s' := by
  obtain hexit | rfl | rfl := punish_cases h
  · exact still_exitClient hexit
  · obtain hkill | hkill := mcKillClient_cases c (killed c) s
    · rw [hkill]
      exact .refl s
    · rw [hkill]
      exact still_setFlags c _ s
  · exact still_setState c .blocked false s

lemma still_punishAll {notified killed : ClientPtr → Bool} {cs : List ClientPtr}
    (h : cs.foldlM (punish notified killed) s = some s') : Still s s' := by
  induction cs generalizing s with
  | nil =>
      obtain rfl := Option.some.inj h
      exact .refl s
  | cons c cs ih =>
      rw [List.foldlM_cons] at h
      obtain ⟨s₁, h₁, h₂⟩ := Option.bind_eq_some_iff.mp h
      exact (still_punish h₁).trans (ih h₂)

/-- **The scans find every client that is late**, if the queue is ordered.  The clients that have
missed a heartbeat are already gone when the second scan begins. -/
lemma InOrder.mem_lossq_scanned (h : InOrder s) (hc : c ∈ s.runningq)
    (hlate : s.probeExpire c ≤ s.probeTime) : c ∈ (scanned s).lossq := by
  unfold scanned
  dsimp only
  have hfirst := scans_foldl scans_missHeartbeat
    (s.taskHead.reverse.takeWhile fun t => s.taskExpire t ≤ s.now) s
  generalize List.foldl missHeartbeat s _ = s₁ at hfirst
  rcases hfirst.left c hc with hrun | hloss
  · refine mem_lossq_foldl (LatestFirst.mem_scan (h.thins hfirst.toThins) hrun ?_) s₁
    rw [hfirst.probeExpire c hrun, hfirst.probeTime]
    exact hlate
  · exact (scans_foldl scans_missProbe _ s₁).lossq c hloss

/-! ## Runs -/

/-- **Every step keeps the order**, but for an attach that misplaces the client. -/
lemma InOrder.step {l : Label} {es : List Event} (hs : Queued s) (ho : InOrder s)
    (hplace : misplaces s l = false) (h : step s l = some (s', es)) : InOrder s' := by
  cases l with
  | tick now =>
      simp only [Clients.step] at h
      split at h
      · obtain ⟨rfl, -⟩ := Prod.mk.inj (Option.some.inj h)
        exact ho
      · cases h
  | close =>
      obtain ⟨rfl, -⟩ := Prod.mk.inj (Option.some.inj h)
      exact ho
  | probeTimer =>
      obtain ⟨rfl, -⟩ := Prod.mk.inj (Option.some.inj h)
      exact ho
  | register h₀ identity mask info env sent started =>
      refine ho.register (fun d hd => ?_) (eq_some_of_quietly h)
      exact (hs.alloc d).mp (by simp [State.records, hd])
  | sync h₀ =>
      obtain rfl := mcIpcSyncProcess_eq (eq_some_of_quietly h)
      exact ho
  | unregister h₀ => exact ho.thins (still_unregister (eq_some_of_quietly h)).thins
  | hangup h₀ started =>
      obtain ⟨-, s₁, hshutdown, rfl⟩ | ⟨hbad, -⟩ :=
        ipcCommonSocketHandler_cases (eq_some_of_quietly h)
      · exact ho.thins ((thins_shutdown hshutdown).trans (still_release h₀ s₁).thins)
      · cases hbad
  | drop h₀ =>
      obtain ⟨hbad, -⟩ | ⟨-, rfl⟩ := ipcCommonSocketHandler_cases (eq_some_of_quietly h)
      · cases hbad
      · exact ho.thins (still_release h₀ s).thins
  | heartbeat h₀ pid tid => exact ho.thins (still_heartbeat (eq_some_of_quietly h)).thins
  | probe h₀ time => exact ho.probe (eq_some_of_quietly h)
  | attach name started =>
      obtain ⟨found, hstep⟩ := eq_some_of_answering h
      exact (inOrder_attach_iff hs ho hstep).mpr hplace
  | detach name exit notified =>
      obtain ⟨found, hstep⟩ := eq_some_of_answering h
      exact ho.thins (thins_detach hstep)
  | restart name notified =>
      obtain ⟨found, hstep⟩ := eq_some_of_answering h
      exact ho.thins (still_restartMsg hstep).thins
  | inspect notified killed =>
      have hstep := eq_some_of_quietly h
      rw [mcdInspect_eq] at hstep
      exact ho.thins ((scans_scanned s).toThins.trans (still_punishAll hstep).thins)
  | restartTimer c started => exact ho.thins (still_restartTimer (eq_some_of_quietly h)).thins

/-- An inspection finds every client that is late: the scans move it to `client_lossq`, and it is
there when `mcd_inspect` returns. -/
def FindsLate (s : State) : Prop :=
  ∀ c ∈ s.runningq, s.probeExpire c ≤ s.probeTime →
    c ∈ (scanned s).lossq ∧ ∀ notified killed s', mcdInspect notified killed s = some s' →
      c ∈ s'.lossq ∧ c ∉ s'.runningq

/-- **Inspections find the clients that are late.**  In every run in which no client that runs is
attached while one in `client_runningq` has to answer earlier than it, `mcd_inspect` moves every
client of `client_runningq` to `client_lossq` whose `probe_expire` has come, in every state. -/
theorem inspection_finds_late {ls : List Label} {config : McConfig} {now : ℤ}
    {guards : List McGuard} {s : State} {es : List Event}
    (hrun : run step ls (mcInit config now guards) = some (s, es))
    (hplace : Along step (fun s l => misplaces s l = false) ls (mcInit config now guards)) :
    FindsLate s := by
  have hinv : Queued s ∧ InOrder s := run_invariant (I := fun s => Queued s ∧ InOrder s)
    (fun hs hok hstep =>
      ⟨(hs.1.step (I := fun _ => True) (fun _ _ _ => trivial) trivial hstep).1,
        hs.2.step hs.1 hok hstep⟩)
    ⟨queued_init config now guards, List.Pairwise.nil⟩ hplace hrun
  intro c hc hlate
  have hloss := hinv.2.mem_lossq_scanned hc hlate
  refine ⟨hloss, fun notified killed s' hinspect => ?_⟩
  have hqueued := hinv.1.keep (keeps_inspect hinv.1 hinspect)
  have hloss' : c ∈ s'.lossq := by
    rw [mcdInspect_eq] at hinspect
    rw [(still_punishAll hinspect).lossq]
    exact hloss
  refine ⟨hloss', fun hrun' => ?_⟩
  have hnodup := hqueued.nodup
  unfold State.records at hnodup
  have hapart := List.disjoint_of_nodup_append
    (List.nodup_append.mp (List.nodup_append.mp hnodup).1).1
  exact hapart hrun' hloss'

/-- A program with one task registers. -/
def registerProgram (name : String) (h : Handle) (a : SubscriberPtr) (c : ClientPtr) : Label :=
  .register h 7 mcGuardMask ⟨7, 5, name, name, [⟨1, 16, 30⟩]⟩
    ⟨some name, some a, some c, true⟩ true true

/-- The program `b` is detached and attached again before the next probe; then `a` answers, and `b`
does not. -/
def lateRun : List Label :=
  [registerProgram "a" 0 10 20, registerProgram "b" 1 11 21, .detach "b" false false,
    .attach "b" true, .tick 35, .probeTimer, .probe 0 35]

/-- The client that has not answered is found. -/
theorem inspection_finds_late_sample :
    ∃ s es, run step lateRun (mcInit ⟨3, 10⟩ 0 []) = some (s, es) ∧ s.runningq = [20, 21] ∧
      s.probeExpire 21 ≤ s.probeTime ∧ 21 ∈ (scanned s).lossq := by
  obtain ⟨s, es, hrun, hrunning, hlate⟩ : ∃ s es,
      run step lateRun (mcInit ⟨3, 10⟩ 0 []) = some (s, es) ∧ s.runningq = [20, 21] ∧
        s.probeExpire 21 ≤ s.probeTime :=
    ⟨_, _, rfl, by decide, by decide⟩
  have hfinds : FindsLate s := inspection_finds_late hrun (by decide)
  exact ⟨s, es, hrun, hrunning, hlate, (hfinds 21 (by simp [hrunning]) hlate).1⟩

/-- **An inspection misses a client.**  The program `b` is detached and attached again after a probe
that `a` has not answered.  It stands behind `a`, although it has to answer later; when the time of
`a` is up, the scan stops at `b`. -/
theorem inspection_misses_client :
    ¬ ∀ (ls : List Label) (s : State) (es : List Event),
      run step ls (mcInit ⟨3, 10⟩ 0 []) = some (s, es) →
        ∀ notified killed s', mcdInspect notified killed s = some s' →
          ∀ c ∈ s.runningq, s.probeExpire c ≤ s.probeTime → c ∈ s'.lossq := by
  intro h
  have hbad := h [registerProgram "a" 0 10 20, registerProgram "b" 1 11 21,
    .detach "b" false false, .tick 25, .probeTimer, .attach "b" true, .tick 35, .probeTimer]
    _ _ rfl (fun _ => true) (fun _ => true) _ rfl 20 (by decide) (by decide)
  exact absurd hbad (by decide)

end LinuxC.Mcd.Clients
