import LinuxC.Framework.Transition
import LinuxC.Mcd.Records

/-!
# One subscriber for a client, one record for a program

A step of the daemon is made of changes (`Change`): the records are kept, a subscriber that is not
that of a client comes or goes, a client registers, or a client ends.  The last two touch one record
(`Beside`), which `Constructed` and `Left` describe.  `Queued` is kept by every change, so that it
holds in every run.

Two things hold only of some runs.  When a client unregisters, `mc_ipc_unregister_process` sets
`MC_CLIENT_F_UNREG` and leaves the rest to `mcd_client_destroy`, which only
`mc_ipc_shutdown_process` calls; the server releases the subscriber at once, and the record stays in
its queue with a pointer to it.  The same happens when the server drops the connection after a bad
message.  And a record need not be the only one of its program: `mcd_client_construct` looks for it
in `client_deadq` only.
-/

namespace LinuxC.Mcd.Clients

variable {s s' : State} {c : ClientPtr}

/-! ## One record changes -/

/-- Only the record `c` is different, and where it is. -/
structure Beside (c : ClientPtr) (s s' : State) : Prop where
  client : ∀ d, d ≠ c → s'.client d = s.client d
  records : (s'.records.filter (· ≠ c)).Perm (s.records.filter (· ≠ c))
  dead : ∀ d ∈ s'.deadq, d ≠ c → d ∈ s.deadq
  tasks : ∀ t ∈ s'.taskHead, t.1 ≠ c → t ∈ s.taskHead
  subscriber : s'.subscriber = s.subscriber
  peer : s'.peer = s.peer

namespace Beside

variable {s'' : State}

lemma refl (c : ClientPtr) (s : State) : Beside c s s :=
  ⟨fun _ _ => rfl, List.Perm.refl _, fun _ hd _ => hd, fun _ ht _ => ht, rfl, rfl⟩

lemma trans (h : Beside c s s') (h' : Beside c s' s'') : Beside c s s'' :=
  ⟨fun d hd => (h'.client d hd).trans (h.client d hd), h'.records.trans h.records,
    fun d hdead hd => h.dead d (h'.dead d hdead hd) hd,
    fun t ht htc => h.tasks t (h'.tasks t ht htc) htc, h'.subscriber.trans h.subscriber,
    h'.peer.trans h.peer⟩

/-- The other records are in the queues as before. -/
lemma mem_iff (h : Beside c s s') {d : ClientPtr} (hd : d ≠ c) :
    d ∈ s'.records ↔ d ∈ s.records := by
  have hmem := h.records.mem_iff (a := d)
  simpa [hd] using hmem

end Beside

lemma beside_modify (c : ClientPtr) (f : McClient → McClient) (s : State) :
    Beside c s (s.modify c f) :=
  ⟨fun _ hd => State.client_modify_of_ne hd f s, List.Perm.refl _, fun _ hd _ => hd,
    fun _ ht _ => ht, rfl, rfl⟩

lemma notMem_filter_ne (c : ClientPtr) (xs : List ClientPtr) : c ∉ xs.filter (· ≠ c) := by
  simp

lemma beside_listDel (c : ClientPtr) (s : State) : Beside c s (s.listDel c) := by
  refine ⟨fun _ _ => rfl, ?_, fun _ hd _ => List.mem_of_mem_filter hd, fun _ ht _ => ht, rfl, rfl⟩
  rw [records_listDel, List.filter_filter]
  simp

lemma beside_listMove (q : Queue) (c : ClientPtr) (s : State) : Beside c s (s.listMove q c) := by
  obtain ⟨hclient, htask, hsub, hpeer⟩ := client_listMove q c s
  refine ⟨fun _ _ => by rw [hclient], ?_, fun d hdead hd => ?_, fun t ht _ => by rwa [← htask],
    hsub, hpeer⟩
  · have hperm := (records_listMove q c s).filter (· ≠ c)
    simpa [List.filter_filter] using hperm
  · exact (deadq_listMove q c s d hdead).resolve_right fun h => hd h.2

lemma beside_delTasks (c : ClientPtr) (s : State) : Beside c s (s.delTasks c) :=
  ⟨fun _ _ => rfl, List.Perm.refl _, fun _ hd _ => hd, fun _ ht _ => List.mem_of_mem_filter ht,
    rfl, rfl⟩

lemma beside_taskActive (c : ClientPtr) (i : ℕ) (s : State) : Beside c s (mcTaskActive c i s) := by
  have hmodify := beside_modify c (fun x =>
    { x with tasks := x.tasks.modify i fun t =>
        { t with expire := s.now + s.config.lossMax * t.interval } }) s
  refine ⟨hmodify.client, hmodify.records, hmodify.dead, fun t ht htc => ?_, rfl, rfl⟩
  rcases List.mem_cons.mp ((perm_insertBefore _ _ _).mem_iff.mp ht) with rfl | ht
  · exact absurd rfl htc
  · exact List.mem_of_mem_filter ht

lemma beside_activateTasks (c : ClientPtr) (n : ℕ) (s : State) :
    Beside c s (activateTasks c n s) := by
  unfold activateTasks
  generalize List.range n = is
  induction is generalizing s with
  | nil => exact .refl c s
  | cons i is ih => exact (beside_taskActive c i s).trans (ih _)

lemma beside_clientActive (c : ClientPtr) (time : ℤ) (s : State) :
    Beside c s (mcdClientActive c time s) := by
  refine ⟨fun d hd => State.client_modify_of_ne hd _ s, ?_,
    fun d hd _ => List.mem_of_mem_filter hd, fun _ ht _ => ht, rfl, rfl⟩
  have hperm := (records_clientActive c time s).filter (· ≠ c)
  simpa [List.filter_filter] using hperm

lemma beside_restart {started : Bool} (h : mcdClientRestart c started s = some s') :
    Beside c s s' := by
  obtain ⟨x, hx, rfl⟩ := Option.map_eq_some_iff.mp h
  split_ifs
  · exact beside_modify c _ s
  · unfold clientRestart
    split_ifs
    · exact beside_modify c _ s
    · exact .refl c s

/-! ### A registration -/

/-- What `mcd_client_construct` leaves of the record: it is in one queue, not that of the dead, runs
and has its subscriber. -/
structure Constructed (info : McReginfo) (a : SubscriberPtr) (c : ClientPtr) (s' : State) :
    Prop where
  client : ∃ x, s'.client c = some x ∧ x.key = info.key ∧ x.subscriber = some a ∧
    x.state.kind = .running
  records : s'.records.Perm (c :: s'.records.filter (· ≠ c))
  dead : c ∉ s'.deadq

lemma beside_constructOut (info : McReginfo) (a : SubscriberPtr) (c : ClientPtr) (s : State) :
    Beside c s (constructOut info a c s) :=
  (((beside_modify c _ s).trans (beside_activateTasks c _ _)).trans
    (beside_clientActive c _ _)).trans (beside_modify c _ _)

lemma constructed_constructOut {info : McReginfo} {a : SubscriberPtr} {x : McClient}
    (hx : s.client c = some x) (hname : x.name = info.name) (hcmd : x.cmdline = info.cmdline) :
    Constructed info a c (constructOut info a c s) := by
  unfold constructOut
  generalize hs₁ : s.modify c _ = s₁
  have hc₁ : ∃ x₁, s₁.client c = some x₁ ∧ x₁.key = info.key ∧ x₁.subscriber = some a := by
    rw [← hs₁, State.client_modify_self, hx]
    exact ⟨_, rfl, by simp [McClient.key, McReginfo.key, hname, hcmd], rfl⟩
  obtain ⟨x₁, hx₁, hkey₁, hsub₁⟩ := hc₁
  have k₂ : Keeps s₁ (activateTasks c info.tasks.length s₁) :=
    keeps_activateTasks (by rw [hx₁]; rfl)
  dsimp only
  generalize activateTasks c info.tasks.length s₁ = s₂ at k₂ ⊢
  obtain ⟨x₂, hx₂, hkey₂, hsub₂⟩ := k₂.after hx₁
  obtain ⟨x₃, hx₃, hkey₃, hsub₃⟩ := (keeps_probeExpire c
    (s₂.probeTime + s₂.config.lossMax * s₂.config.probeInterval) s₂).after hx₂
  refine ⟨⟨{ x₃ with state := ⟨.running, false⟩ }, ?_, hkey₃.trans (hkey₂.trans hkey₁),
    hsub₃.trans (hsub₂.trans hsub₁), rfl⟩, ?_, ?_⟩
  · exact (State.client_modify_self ..).trans (congrArg (Option.map _) hx₃)
  · exact (records_clientActive c s₂.probeTime s₂).trans
      ((beside_clientActive c s₂.probeTime s₂).records.symm.cons c)
  · exact notMem_filter_ne c s₂.deadq

lemma key_of_findDead {info : McReginfo} (h : findDead info s = some c) :
    ∃ x, s.client c = some x ∧ x.key = info.key := by
  have hfits := List.find?_some h
  exact Option.map_eq_some_iff.mp (of_decide_eq_true hfits)

/-- **`mcd_client_construct`.**  The record was dead, or is new. -/
lemma construct_spec {info : McReginfo} {a : SubscriberPtr} {mem : Option ClientPtr}
    (h : mcdClientConstruct info a mem s = some (c, s')) :
    Beside c s s' ∧ Constructed info a c s' ∧
      (findDead info s = some c ∨ findDead info s = none ∧ mem = some c) := by
  unfold mcdClientConstruct at h
  split at h
  · rename_i d hfind
    obtain ⟨rfl, rfl⟩ := Prod.mk.inj (Option.some.inj h)
    obtain ⟨x, hx, hkey⟩ := key_of_findDead hfind
    obtain ⟨hname, hcmd, -⟩ : x.name = info.name ∧ x.cmdline = info.cmdline ∧
        x.tasks.length = info.tasks.length := by
      simpa [McClient.key, McReginfo.key] using hkey
    refine ⟨((beside_listDel d s).trans (beside_modify d _ _)).trans (beside_constructOut ..),
      ?_, .inl hfind⟩
    have hx₁ : (((s.listDel d).modify d fun x =>
        if x.state.kind = .starting ∨ x.state.kind = .prestart then
          { x with restartTiming := none } else x).client d) =
        some (if x.state.kind = .starting ∨ x.state.kind = .prestart then
          { x with restartTiming := none } else x) := by
      rw [State.client_modify_self]
      exact congrArg (Option.map _) hx
    exact constructed_constructOut hx₁ (by split_ifs <;> exact hname)
      (by split_ifs <;> exact hcmd)
  · rename_i hfind
    obtain ⟨d, hmem, h⟩ := Option.map_eq_some_iff.mp h
    obtain ⟨rfl, rfl⟩ := Prod.mk.inj h
    refine ⟨?_, constructed_constructOut (Function.update_self ..) rfl rfl, .inr ⟨hfind, hmem⟩⟩
    refine Beside.trans ?_ (beside_constructOut ..)
    exact ⟨fun e he => Function.update_of_ne he .., List.Perm.refl _, fun _ he _ => he,
      fun _ ht _ => ht, rfl, rfl⟩

/-! ### The end of a client -/

/-- What is left of a client that has shut down: nothing, or a record without subscriber. -/
def Left (c : ClientPtr) (s s' : State) : Prop :=
  s'.client c = none ∧ c ∉ s'.records ∧ (∀ t ∈ s'.taskHead, t.1 ≠ c) ∨
    (∃ x x', s.client c = some x ∧ s'.client c = some x' ∧ x'.key = x.key ∧
      x'.subscriber = none) ∧ s'.records.Perm s.records

/-- **`mcd_client_destroy`.**  Nothing is left of a client that has unregistered; any other is dead,
in `client_deadq` or where it was detached. -/
lemma destroy_spec (hs : Queued s) (h : mcdClientDestroy c s = some s') :
    Beside c s s' ∧ Left c s s' := by
  obtain ⟨x, hx, rfl⟩ := Option.map_eq_some_iff.mp h
  have hlast : ((s.delTasks c).modify c fun x =>
      { x with flags := ∅, pid := 0, subscriber := none }).client c =
      some { x with flags := ∅, pid := 0, subscriber := none } :=
    (State.client_modify_self ..).trans (congrArg (Option.map _) hx)
  split_ifs
  · have hdel := (beside_listDel c s).trans (beside_delTasks c _)
    have hout : c ∉ (s.listDel c).records := by
      rw [records_listDel]
      exact notMem_filter_ne c s.records
    exact ⟨⟨fun d hd => Function.update_of_ne hd .., hdel.records, hdel.dead, hdel.tasks, rfl,
      rfl⟩, .inl ⟨Function.update_self .., hout,
        fun t ht => by simpa using List.of_mem_filter ht⟩⟩
  · refine ⟨((beside_delTasks c s).trans (beside_modify c _ _)).trans (beside_modify c _ _),
      .inr ⟨⟨x, { x with flags := ∅, pid := 0, subscriber := none, state := ⟨.dead, true⟩ }, hx, ?_,
        rfl, rfl⟩, List.Perm.refl _⟩⟩
    exact (State.client_modify_self ..).trans (congrArg (Option.map _) hlast)
  · refine ⟨(((beside_delTasks c s).trans (beside_modify c _ _)).trans (beside_modify c _ _)).trans
      (beside_listMove .dead c _),
      .inr ⟨⟨x, { x with flags := ∅, pid := 0, subscriber := none, state := ⟨.dead, false⟩ }, hx, ?_,
        rfl, rfl⟩, ?_⟩⟩
    · exact (State.client_modify_self ..).trans (congrArg (Option.map _) hlast)
    · exact (records_listMove .dead c _).trans (perm_cons_filter hs.nodup (hs.mem hx))

/-- **`mc_ipc_shutdown_process`.**  The client is destroyed and may be started again. -/
lemma shutdown_spec {h : Handle} {started : Bool} (hs : Queued s)
    (hcookie : s.cookie h = some (.client c)) (hstep : mcIpcShutdownProcess h started s = some s') :
    Beside c s s' ∧ Left c s s' := by
  obtain ⟨d, s₁, hd, hdestroy, hstep⟩ | ⟨hnot, -⟩ := mcIpcShutdownProcess_cases hstep
  swap
  · exact absurd hcookie (hnot c)
  obtain rfl : c = d := Cookie.client.inj (Option.some.inj (hcookie.symm.trans hd))
  obtain ⟨hbeside, hleft⟩ := destroy_spec hs hdestroy
  rcases hstep with rfl | hstep
  · exact ⟨hbeside, hleft⟩
  · refine ⟨hbeside.trans (beside_restart hstep), ?_⟩
    rcases hleft with ⟨hnone, -⟩ | ⟨⟨x, x₁, hx, hx₁, hkey₁, hsub₁⟩, hperm⟩
    · -- the code would go on with a record that has been freed
      unfold mcdClientRestart at hstep
      rw [hnone] at hstep
      cases hstep
    · have hkeeps := keeps_restart hstep
      obtain ⟨x₂, hx₂, hkey₂, hsub₂⟩ := hkeeps.after hx₁
      exact .inr ⟨⟨x, x₂, hx, hx₂, hkey₂.trans hkey₁, hsub₂.trans hsub₁⟩,
        hkeeps.records.trans hperm⟩

/-! ## Steps -/

/-- What a cookie refers to is a client. -/
def Cookie.isClient : Cookie → Bool
  | .client _ => true
  | .regonly _ => false

/-- The step releases the subscriber of a client that has not been destroyed. -/
def forsakes (s : State) : Label → Bool
  | .unregister h => (s.cookie h).any Cookie.isClient
  | .drop h => (s.cookie h).any Cookie.isClient
  | _ => false

/-- The program has a record that is not dead, or was detached. -/
def present (info : McReginfo) (s : State) : Bool :=
  (s.runningq ++ s.lossq ++ s.detachdq).any fun c => (s.client c).map McClient.key = some info.key

/-- The step makes a new record for a program that has one: `mc_ipc_register_process` comes to
`mcd_client_construct`, which finds none in `client_deadq` and gets the memory. -/
def doubles (s : State) : Label → Bool
  | .register _ identity mask info env _ _ =>
      env.processName = some info.name ∧ env.subscriber.isSome ∧ ¬ s.closing ∧
        s.subscribers < mcClientMax ∧ mask &&& supportedMask ≠ 0 ∧
        mask &&& ~~~supportedMask = 0 ∧ mask &&& mcGuardMask ≠ 0 ∧ identity = info.pid ∧
        findDead info s = none ∧ env.client.isSome ∧ present info s
  | _ => false

/-- The subscriber at `a` becomes `v`; the records stay. -/
structure Rebound (a : SubscriberPtr) (v : Option McSubscriber) (s s' : State) : Prop where
  client : s'.client = s.client
  records : s'.records = s.records
  deadq : s'.deadq = s.deadq
  taskHead : s'.taskHead = s.taskHead
  subscriber : s'.subscriber = Function.update s.subscriber a v

/-- **What a step is made of.**  The flags say whether the subscriber of a client can be released
that has not been destroyed, and whether a program can get a second record. -/
inductive Change (forsake double : Bool) (s s' : State) : Prop
  | keep (k : Keeps s s')
  | rebind {a : SubscriberPtr} {v : Option McSubscriber}
      (hold : ∀ c h, s.subscriber a ≠ some ⟨.client c, h⟩)
      (hnew : ∀ c h, v ≠ some ⟨.client c, h⟩) (r : Rebound a v s s')
  | forsake {a : SubscriberPtr} (hforsake : forsake = true) (r : Rebound a none s s')
  | register {info : McReginfo} {a : SubscriberPtr} {c : ClientPtr} {h : Handle} {s₁ : State}
      (hold : s.subscriber a = none) (b : Beside c s s₁) (hc : Constructed info a c s₁)
      (hfind : findDead info s = some c ∨ s.client c = none ∧ findDead info s = none ∧
        (double = false → present info s = false))
      (r : Rebound a (some ⟨.client c, h⟩) s₁ s')
  | ends {a : SubscriberPtr} {c : ClientPtr} {h : Handle} {s₁ : State}
      (hold : s.subscriber a = some ⟨.client c, h⟩) (b : Beside c s s₁) (hleft : Left c s s₁)
      (r : Rebound a none s₁ s')

/-! ### Every change keeps the queues -/

section

variable {a : SubscriberPtr} {v : Option McSubscriber} {s₁ : State}

lemma Queued.beside (hs : Queued s) (b : Beside c s s₁) (r : Rebound a v s₁ s')
    (hnodup : s₁.records.Nodup) (halloc : c ∈ s₁.records ↔ (s₁.client c).isSome = true)
    (htasks : (s₁.client c).isSome = true ∨ ∀ t ∈ s₁.taskHead, t.1 ≠ c)
    (hdead : ∀ x, s₁.client c = some x →
      x.subscriber = none ∨ x.state.kind = .running ∧ c ∉ s₁.deadq)
    (hserved : ∀ d h, s'.subscriber d = some ⟨.client c, h⟩ →
      ∃ x, s₁.client c = some x ∧ x.subscriber = some d)
    (hnew : ∀ d h, v = some ⟨.client d, h⟩ → d = c) : Queued s' := by
  refine ⟨by rwa [r.records], fun d => ?_, fun t ht => ?_, fun e d h hsub => ?_, fun d hd x hx => ?_,
    fun d x hx hk => ?_⟩
  · rw [r.records, r.client]
    by_cases hd : d = c
    · exact hd ▸ halloc
    · rw [b.mem_iff hd, b.client d hd]
      exact hs.alloc d
  · rw [r.taskHead] at ht
    rw [r.client]
    by_cases hd : t.1 = c
    · rw [hd]
      exact htasks.resolve_right fun hnone => hnone t ht hd
    · rw [b.client _ hd]
      exact hs.tasks t (b.tasks t ht hd)
  · rw [r.client]
    by_cases hd : d = c
    · subst hd
      exact hserved e h hsub
    · have hother : e ≠ a := fun he =>
        hd (hnew d h (by rw [← hsub, he, r.subscriber, Function.update_self]))
      rw [r.subscriber, Function.update_of_ne hother, b.subscriber] at hsub
      rw [b.client d hd]
      exact hs.served e d h hsub
  · rw [r.deadq] at hd
    rw [r.client] at hx
    by_cases hdc : d = c
    · subst hdc
      exact (hdead x hx).resolve_right fun hrun => hrun.2 hd
    · rw [b.client d hdc] at hx
      exact hs.dead d (b.dead d hd hdc) x hx
  · rw [r.client] at hx
    by_cases hdc : d = c
    · subst hdc
      exact (hdead x hx).resolve_right fun hrun => by rw [hk] at hrun; cases hrun.1
    · rw [b.client d hdc] at hx
      exact hs.kind d x hx hk

lemma Queued.rebound (hs : Queued s) (hnew : ∀ c h, v ≠ some ⟨.client c, h⟩)
    (r : Rebound a v s s') : Queued s' := by
  refine ⟨by rw [r.records]; exact hs.nodup, by rw [r.records, r.client]; exact hs.alloc,
    by rw [r.taskHead, r.client]; exact hs.tasks, fun e d h hsub => ?_,
    by rw [r.deadq, r.client]; exact hs.dead, by rw [r.client]; exact hs.kind⟩
  rw [r.subscriber] at hsub
  by_cases he : e = a
  · subst he
    rw [Function.update_self] at hsub
    exact absurd hsub (hnew d h)
  · rw [Function.update_of_ne he] at hsub
    rw [r.client]
    exact hs.served e d h hsub

end

/-- No subscriber refers to a record that `mcd_client_construct` takes. -/
lemma Queued.not_served {info : McReginfo} (hs : Queued s)
    (hfind : findDead info s = some c ∨ s.client c = none) {d : SubscriberPtr} {h : Handle} :
    s.subscriber d ≠ some ⟨.client c, h⟩ := by
  intro hsub
  obtain ⟨x, hx, hxd⟩ := hs.served d c h hsub
  rcases hfind with hfind | hnone
  · rw [hs.dead c (List.mem_of_find?_eq_some hfind) x hx] at hxd
    cases hxd
  · rw [hx] at hnone
    cases hnone

section

variable {a : SubscriberPtr} {h : Handle} {s₁ : State}

lemma Queued.nodup_others (hs : Queued s) (b : Beside c s s') :
    (s'.records.filter (· ≠ c)).Nodup :=
  b.records.nodup_iff.mpr (hs.nodup.filter _)

lemma Queued.registers {info : McReginfo} (hs : Queued s) (b : Beside c s s₁)
    (hc : Constructed info a c s₁) (hfind : findDead info s = some c ∨ s.client c = none)
    (r : Rebound a (some ⟨.client c, h⟩) s₁ s') : Queued s' := by
  obtain ⟨x, hx, -, hsub, hkind⟩ := hc.client
  have hmem : c ∈ s₁.records := hc.records.mem_iff.mpr (by simp)
  have hsome : (s₁.client c).isSome = true := by rw [hx]; rfl
  have hnodup : s₁.records.Nodup := hc.records.nodup_iff.mpr
    (List.nodup_cons.mpr ⟨notMem_filter_ne c _, hs.nodup_others b⟩)
  refine hs.beside b r hnodup ⟨fun _ => hsome, fun _ => hmem⟩ (.inl hsome) (fun y hy => .inr ?_)
    (fun d hd hserved => ?_) fun d hd hv => ?_
  · rw [hx] at hy
    exact ⟨Option.some.inj hy ▸ hkind, hc.dead⟩
  · by_cases hda : d = a
    · exact ⟨x, hx, hda ▸ hsub⟩
    · rw [r.subscriber, Function.update_of_ne hda, b.subscriber] at hserved
      exact absurd hserved (hs.not_served hfind)
  · cases hv
    rfl

/-- The subscriber that is released was the only one of the client. -/
lemma Queued.not_served_after (hs : Queued s) (hold : s.subscriber a = some ⟨.client c, h⟩)
    (b : Beside c s s₁) (r : Rebound a none s₁ s') (d : SubscriberPtr) (hd : Handle) :
    s'.subscriber d ≠ some ⟨.client c, hd⟩ := by
  intro hsub
  obtain ⟨x, hx, hxa⟩ := hs.served a c h hold
  by_cases hda : d = a
  · rw [r.subscriber, hda, Function.update_self] at hsub
    cases hsub
  · rw [r.subscriber, Function.update_of_ne hda, b.subscriber] at hsub
    obtain ⟨y, hy, hyd⟩ := hs.served d c hd hsub
    obtain rfl := Option.some.inj (hx.symm.trans hy)
    exact hda (Option.some.inj (hyd.symm.trans hxa))

lemma Queued.ends (hs : Queued s) (hold : s.subscriber a = some ⟨.client c, h⟩)
    (b : Beside c s s₁) (hleft : Left c s s₁) (r : Rebound a none s₁ s') : Queued s' := by
  have hserved := hs.not_served_after hold b r
  rcases hleft with ⟨hnone, hout, htasks⟩ | ⟨⟨x, x', hx, hx', -, hnone⟩, hperm⟩
  · have hall : s₁.records.filter (· ≠ c) = s₁.records :=
      List.filter_eq_self.mpr fun d hd => by
        simpa using fun hdc : d = c => hout (hdc ▸ hd)
    refine hs.beside b r (hall ▸ hs.nodup_others b) (by simp [hout, hnone]) (.inr htasks)
      (fun y hy => ?_) (fun d hd hsub => absurd hsub (hserved d hd)) fun d hd hv => ?_
    · rw [hnone] at hy
      cases hy
    · cases hv
  · have hsome : (s₁.client c).isSome = true := by rw [hx']; rfl
    have hmem : c ∈ s₁.records := hperm.mem_iff.mpr (hs.mem hx)
    refine hs.beside b r (hperm.nodup_iff.mpr hs.nodup) ⟨fun _ => hsome, fun _ => hmem⟩
      (.inl hsome) (fun y hy => .inl ?_) (fun d hd hsub => absurd hsub (hserved d hd))
      fun d hd hv => ?_
    · rw [← Option.some.inj (hx'.symm.trans hy)]
      exact hnone
    · cases hv

end

/-- **Every change keeps the queues.** -/
lemma Queued.change {forsake double : Bool} (hs : Queued s) (h : Change forsake double s s') :
    Queued s' := by
  cases h with
  | keep k => exact hs.keep k
  | rebind _ hnew r => exact hs.rebound hnew r
  | forsake _ r => exact hs.rebound (fun _ _ hnone => by cases hnone) r
  | register _ b hc hfind r => exact hs.registers b hc (hfind.imp_right And.left) r
  | ends hold b hleft r => exact hs.ends hold b hleft r

/-! ### Every step is made of changes -/

section

variable {forsake double : Bool} {h : Handle}

/-- A step that only changes what the records do not show. -/
lemma keeps_of_eq (hclient : s'.client = s.client) (hrecords : s'.records = s.records)
    (hdeadq : s'.deadq = s.deadq) (htask : s'.taskHead = s.taskHead)
    (hsub : s'.subscriber = s.subscriber) : Keeps s s' := by
  refine ⟨fun _ => by rw [hclient], fun _ x' hx hk => ⟨x', hclient ▸ hx, hk⟩, by rw [hrecords],
    fun _ hd => .inl (hdeadq ▸ hd), fun _ ht => .inl (htask ▸ ht), hsub⟩

lemma any_isClient :
    (s.cookie h).any Cookie.isClient = true ↔ ∃ c, s.cookie h = some (.client c) := by
  rcases s.cookie h with _ | c | name <;> simp [Cookie.isClient]

lemma release_cookie {a : SubscriberPtr} (hcookie : (s.peer h).bind Peer.cookie = some a) :
    Rebound a none s (ipcRelease h s) := by
  unfold ipcRelease mcIpcReleaseProcess
  rw [hcookie]
  exact ⟨rfl, rfl, rfl, rfl, rfl⟩

/-- **`ipc_release`.** -/
lemma change_release (hforsake : (s.cookie h).any Cookie.isClient = true → forsake = true) :
    Change forsake double s (ipcRelease h s) := by
  rcases hcookie : (s.peer h).bind Peer.cookie with _ | a
  · refine .keep ?_
    unfold ipcRelease mcIpcReleaseProcess
    rw [hcookie]
    exact keeps_of_eq rfl rfl rfl rfl rfl
  · have hr := release_cookie hcookie
    by_cases hclient : ∃ c hd, s.subscriber a = some ⟨.client c, hd⟩
    · obtain ⟨c, hd, hsub⟩ := hclient
      refine .forsake (hforsake ?_) hr
      exact any_isClient.mpr ⟨c, by simp [State.cookie, hcookie, hsub]⟩
    · push Not at hclient
      exact .rebind hclient (fun _ _ hnone => by cases hnone) hr

lemma cookie_eq_client (hcookie : s.cookie h = some (.client c)) :
    ∃ a hd, (s.peer h).bind Peer.cookie = some a ∧ s.subscriber a = some ⟨.client c, hd⟩ := by
  obtain ⟨m, hm, hmc⟩ := Option.map_eq_some_iff.mp hcookie
  obtain ⟨a, ha, hsub⟩ := Option.bind_eq_some_iff.mp hm
  obtain ⟨cookie, hd⟩ := m
  exact ⟨a, hd, ha, hmc ▸ hsub⟩

/-- **`IPC_CLIENT_SHUTDOWN`, then `ipc_release`.** -/
lemma change_shutdown {started : Bool} (hs : Queued s)
    (hstep : mcIpcShutdownProcess h started s = some s') :
    Change forsake double s (ipcRelease h s') := by
  by_cases hclient : ∃ c, s.cookie h = some (.client c)
  · obtain ⟨c, hcookie⟩ := hclient
    obtain ⟨a, hd, ha, hsub⟩ := cookie_eq_client hcookie
    obtain ⟨hbeside, hleft⟩ := shutdown_spec hs hcookie hstep
    exact .ends hsub hbeside hleft (release_cookie (by rw [hbeside.peer]; exact ha))
  · obtain ⟨c, _, hcookie, -⟩ | ⟨-, rfl⟩ := mcIpcShutdownProcess_cases hstep
    · exact absurd ⟨c, hcookie⟩ hclient
    · exact change_release fun hany => absurd (any_isClient.mp hany) hclient

variable {p : Peer} {a : SubscriberPtr} {accepted : Bool}

/-- A new handle has no cookie, so that `ipc_server_bind` succeeds. -/
lemma bindSubscriber_spec {cookie : Cookie} (hp : s.peer h = some p) (hnone : p.cookie = none)
    (hstep : bindSubscriber h a cookie s = some (s', accepted)) :
    accepted = true ∧ Rebound a (some ⟨cookie, h⟩) s s' := by
  unfold bindSubscriber at hstep
  simp only [hp, hnone, Option.isSome_none, Bool.false_eq_true, if_false, Option.some.injEq,
    Prod.mk.injEq] at hstep
  obtain ⟨rfl, rfl⟩ := hstep
  exact ⟨rfl, rfl, rfl, rfl, rfl, rfl⟩

/-- **`mc_ipc_register_process`.**  The program is refused and leaves no trace, or it has a
subscriber and, if it is to be guarded, a record. -/
lemma registerProcess_spec {info : McReginfo} {env : RegisterEnv} {sent started : Bool}
    (hp : s.peer h = some p) (hnone : p.cookie = none)
    (hstep : mcIpcRegisterProcess h p info env s = some (s', accepted)) :
    accepted = false ∧ s' = s ∨ accepted = true ∧ Change forsake
      (doubles s (.register h p.identity p.mask info env sent started)) s s' := by
  obtain hrefused | ⟨name, a, hname, ha, hold, hopen, hbind⟩ := mcIpcRegisterProcess_cases hstep
  · exact .inl hrefused
  obtain ⟨c, s₁, hguard, hid, rfl, hmem, hconstruct, hbind⟩ | hbind := hbind
  · obtain ⟨hbeside, hc, hfind⟩ := construct_spec hconstruct
    obtain ⟨rfl, hr⟩ := bindSubscriber_spec (by rw [hbeside.peer]; exact hp) hnone hbind
    refine .inr ⟨rfl, .register hold hbeside hc (hfind.imp_right fun hnew => ?_) hr⟩
    refine ⟨hmem c hnew.2, hnew.1,
      fun hdouble => Bool.eq_false_iff.mpr fun hpresent => ?_⟩
    -- all the checks have been passed, so that a record of the program would make two
    push Not at hopen
    refine absurd hdouble (Bool.not_eq_false _ ▸ decide_eq_true ?_)
    exact ⟨hname, by rw [ha]; rfl, by simpa using hopen.1, hopen.2.1,
      hopen.2.2.1, hopen.2.2.2, hguard, hid, hnew.1, by rw [hnew.2]; rfl, hpresent⟩
  · obtain ⟨rfl, hr⟩ := bindSubscriber_spec hp hnone hbind
    refine .inr ⟨rfl, .rebind (fun c hd hsub => ?_) (fun c hd hsub => ?_) hr⟩
    · rw [hold] at hsub
      cases hsub
    · cases hsub

/-- A registration is a change for the handle, one for the program and, if the answer does not
reach the client, a shutdown. -/
lemma changes_register {identity : ℤ} {mask : UInt64} {info : McReginfo} {env : RegisterEnv}
    {sent started : Bool} (hs : Queued s)
    (hstep : ipcServerRegister h identity mask info env sent started s = some s') :
    Relation.ReflTransGen (Change forsake
      (doubles s (.register h identity mask info env sent started))) s s' := by
  obtain ⟨s₂, accepted, hregister, hend⟩ := ipcServerRegister_cases hstep
  generalize hs₁ : ({ s with
    peer := Function.update s.peer h (some ⟨identity, mask, none⟩) } : State) = s₁ at hregister
  have hp : s₁.peer h = some ⟨identity, mask, none⟩ := by
    rw [← hs₁]
    exact Function.update_self ..
  have hfirst : Keeps s s₁ := by
    subst hs₁
    exact keeps_of_eq rfl rfl rfl rfl rfl
  have hsame : doubles s₁ (.register h identity mask info env sent started) =
      doubles s (.register h identity mask info env sent started) := by
    subst hs₁
    rfl
  rw [← hsame]
  apply Relation.ReflTransGen.head (.keep hfirst)
  have hspec : accepted = false ∧ s₂ = s₁ ∨ accepted = true ∧ Change forsake
      (doubles s₁ (.register h identity mask info env sent started)) s₁ s₂ :=
    registerProcess_spec hp rfl hregister
  rcases hspec with ⟨rfl, rfl⟩ | ⟨rfl, hchange⟩
  · obtain ⟨-, rfl⟩ | ⟨hbad, -⟩ | ⟨hbad, -⟩ := hend
    · refine .single (change_release fun hany => ?_)
      obtain ⟨c, hcookie⟩ := any_isClient.mp hany
      simp [State.cookie, hp] at hcookie
    · cases hbad
    · cases hbad
  · refine .head hchange ?_
    obtain ⟨hbad, -⟩ | ⟨-, rfl⟩ | ⟨-, s₃, hshutdown, rfl⟩ := hend
    · cases hbad
    · exact .refl
    · exact .single (change_shutdown ((hs.keep hfirst).change hchange) hshutdown)

end

lemma eq_some_of_quietly {r : Option State} {es : List Event} (h : quietly r = some (s', es)) :
    r = some s' := by
  obtain ⟨s₁, hr, heq⟩ := Option.map_eq_some_iff.mp h
  rw [hr, (Prod.mk.inj heq).1]

lemma eq_some_of_answering {r : Option (State × Bool)} {es : List Event}
    (h : answering r = some (s', es)) : ∃ found, r = some (s', found) := by
  obtain ⟨⟨s₁, found⟩, hr, heq⟩ := Option.map_eq_some_iff.mp h
  exact ⟨found, by rw [hr, ← (Prod.mk.inj heq).1]⟩

lemma unregister_spec {h : Handle} (hstep : mcIpcUnregisterProcess h s = some s') :
    Keeps s s' ∧ s'.cookie h = s.cookie h := by
  obtain rfl | ⟨c, rfl⟩ := mcIpcUnregisterProcess_cases hstep
  · exact ⟨.refl s', rfl⟩
  · exact ⟨keeps_setFlags c _ s, rfl⟩

/-- **A step is made of changes.** -/
lemma changes_step {l : Label} {es : List Event} (hs : Queued s)
    (h : step s l = some (s', es)) :
    Relation.ReflTransGen (Change (forsakes s l) (doubles s l)) s s' := by
  cases l with
  | tick now =>
      simp only [step] at h
      split at h
      · obtain ⟨rfl, -⟩ := Prod.mk.inj (Option.some.inj h)
        exact .single (.keep (keeps_of_eq rfl rfl rfl rfl rfl))
      · cases h
  | close =>
      obtain ⟨rfl, -⟩ := Prod.mk.inj (Option.some.inj h)
      exact .single (.keep (keeps_of_eq rfl rfl rfl rfl rfl))
  | probeTimer =>
      obtain ⟨rfl, -⟩ := Prod.mk.inj (Option.some.inj h)
      exact .single (.keep (keeps_of_eq rfl rfl rfl rfl rfl))
  | register h₀ identity mask info env sent started =>
      exact changes_register hs (eq_some_of_quietly h)
  | sync h₀ =>
      obtain rfl := mcIpcSyncProcess_eq (eq_some_of_quietly h)
      exact .refl
  | unregister h₀ =>
      obtain ⟨s₁, hunregister, rfl⟩ := ipcServerUnregister_cases (eq_some_of_quietly h)
      obtain ⟨hkeeps, hcookie⟩ := unregister_spec hunregister
      refine .head (.keep hkeeps) (.single (change_release fun hany => ?_))
      rwa [hcookie] at hany
  | hangup h₀ started =>
      obtain ⟨-, s₁, hshutdown, rfl⟩ | ⟨hbad, -⟩ :=
        ipcCommonSocketHandler_cases (eq_some_of_quietly h)
      · exact .single (change_shutdown hs hshutdown)
      · cases hbad
  | drop h₀ =>
      obtain ⟨hbad, -⟩ | ⟨-, rfl⟩ := ipcCommonSocketHandler_cases (eq_some_of_quietly h)
      · cases hbad
      · exact .single (change_release id)
  | heartbeat h₀ pid tid => exact .single (.keep (keeps_heartbeat (eq_some_of_quietly h)))
  | probe h₀ time => exact .single (.keep (keeps_probe hs (eq_some_of_quietly h)))
  | attach name started =>
      obtain ⟨found, hstep⟩ := eq_some_of_answering h
      exact .single (.keep (keeps_attach hs hstep))
  | detach name exit notified =>
      obtain ⟨found, hstep⟩ := eq_some_of_answering h
      exact .single (.keep (keeps_detach hs hstep))
  | restart name notified =>
      obtain ⟨found, hstep⟩ := eq_some_of_answering h
      exact .single (.keep (keeps_restartMsg hstep))
  | inspect notified killed => exact .single (.keep (keeps_inspect hs (eq_some_of_quietly h)))
  | restartTimer c started => exact .single (.keep (keeps_restartTimer (eq_some_of_quietly h)))

lemma Queued.step {I : State → Prop} {l : Label} {es : List Event}
    (hchange : ∀ {s₁ s₂ : State}, Queued s₁ → I s₁ →
      Change (forsakes s l) (doubles s l) s₁ s₂ → I s₂)
    (hs : Queued s) (hi : I s) (h : Clients.step s l = some (s', es)) : Queued s' ∧ I s' := by
  have hchanges := changes_step hs h
  clear h
  induction hchanges with
  | refl => exact ⟨hs, hi⟩
  | tail _ hlast ih => exact ⟨ih.1.change hlast, hchange ih.1 ih.2 hlast⟩

lemma queued_init (config : McConfig) (now : ℤ) (guards : List McGuard) :
    Queued (mcInit config now guards) := by
  refine ⟨List.nodup_nil, fun c => ?_, fun t ht => ?_, fun a c h hsub => ?_, fun c hc => ?_,
    fun c x hx => ?_⟩
  · constructor
    · intro hc
      cases hc
    · intro hc
      cases hc
  · cases ht
  · cases hsub
  · cases hc
  · cases hx

/-! ## Subscribers -/

/-- The subscriber that a client refers to is allocated and refers to the client. -/
def Backed (s : State) : Prop :=
  ∀ c x a, s.client c = some x → x.subscriber = some a →
    ∃ h, s.subscriber a = some ⟨.client c, h⟩

/-- A client that neither registers nor ends keeps its subscriber. -/
lemma Backed.elsewhere {a e : SubscriberPtr} {v : Option McSubscriber} {d : ClientPtr} {s₁ : State}
    {x : McClient} (hb : Backed s) (b : Beside c s s₁) (r : Rebound a v s₁ s') (hdc : d ≠ c)
    (hold : ∀ h, s.subscriber a ≠ some ⟨.client d, h⟩) (hx : s'.client d = some x)
    (hxe : x.subscriber = some e) : ∃ h, s'.subscriber e = some ⟨.client d, h⟩ := by
  rw [r.client, b.client d hdc] at hx
  obtain ⟨h, hsub⟩ := hb d x e hx hxe
  have hea : e ≠ a := by
    rintro rfl
    exact hold h hsub
  refine ⟨h, ?_⟩
  rw [r.subscriber, Function.update_of_ne hea, b.subscriber]
  exact hsub

lemma Backed.change {double : Bool} (hb : Backed s) (h : Change false double s s') :
    Backed s' := by
  intro d x e hx hxe
  cases h with
  | keep k =>
      obtain ⟨y, hy, -, hsame⟩ := k.before hx
      rw [k.subscriber]
      exact hb d y e hy (hsame.trans hxe)
  | @rebind a v hold hnew r =>
      rw [r.client] at hx
      obtain ⟨h, hsub⟩ := hb d x e hx hxe
      have hea : e ≠ a := by
        rintro rfl
        exact hold d h hsub
      refine ⟨h, ?_⟩
      rw [r.subscriber, Function.update_of_ne hea]
      exact hsub
  | forsake hforsake r => cases hforsake
  | @register info a c h s₁ hold b hc hfind r =>
      by_cases hdc : d = c
      · subst hdc
        rw [r.client] at hx
        obtain ⟨y, hy, -, hya, -⟩ := hc.client
        obtain rfl := Option.some.inj (hy.symm.trans hx)
        obtain rfl := Option.some.inj (hya.symm.trans hxe)
        rw [r.subscriber]
        exact ⟨h, Function.update_self ..⟩
      · refine hb.elsewhere b r hdc (fun h' hsub => ?_) hx hxe
        rw [hold] at hsub
        cases hsub
  | @ends a c h s₁ hold b hleft r =>
      by_cases hdc : d = c
      · subst hdc
        rw [r.client] at hx
        rcases hleft with ⟨hnone, -⟩ | ⟨⟨y, y', hy, hy', -, hnone⟩, -⟩
        · rw [hnone] at hx
          cases hx
        · obtain rfl := Option.some.inj (hy'.symm.trans hx)
          rw [hnone] at hxe
          cases hxe
      · refine hb.elsewhere b r hdc (fun h' hsub => ?_) hx hxe
        rw [hold] at hsub
        cases hsub
        exact hdc rfl

/-- **No client outlives its subscriber.**  In every run in which the subscriber of a client is
released only after `IPC_CLIENT_SHUTDOWN`, every record in a queue, and the client of every task in
`task_head`, is allocated, and the subscriber that it refers to is allocated and refers to it. -/
theorem no_client_outlives_subscriber {ls : List Label} {config : McConfig} {now : ℤ}
    {guards : List McGuard} {s : State} {es : List Event}
    (hrun : run step ls (mcInit config now guards) = some (s, es))
    (hshutdown : Along step (fun s l => forsakes s l = false) ls (mcInit config now guards)) :
    ∀ c, (c ∈ s.records ∨ ∃ i, (c, i) ∈ s.taskHead) →
      ∃ x, s.client c = some x ∧
        ∀ a, x.subscriber = some a → ∃ h, s.subscriber a = some ⟨.client c, h⟩ := by
  have hinv : Queued s ∧ Backed s := run_invariant (I := fun s => Queued s ∧ Backed s)
    (fun hs hok hstep => hs.1.step (fun _ hb hchange => hb.change (hok ▸ hchange)) hs.2 hstep)
    ⟨queued_init config now guards, fun c x a hx => by cases hx⟩ hshutdown hrun
  intro c hc
  have hsome : (s.client c).isSome = true := by
    rcases hc with hc | ⟨i, hc⟩
    · exact (hinv.1.alloc c).mp hc
    · exact hinv.1.tasks (c, i) hc
  obtain ⟨x, hx⟩ := Option.isSome_iff_exists.mp hsome
  exact ⟨x, hx, fun a hxa => hinv.2 c x a hx hxa⟩

/-- The program `app`, with one task, registers through the handle. -/
def registerApp (h : Handle) (a : SubscriberPtr) (c : ClientPtr) : Label :=
  .register h 7 mcGuardMask ⟨7, 5, "app", "app &", [⟨1, 16, 10⟩]⟩
    ⟨some "app", some a, some c, true⟩ true true

/-- The program is detached, dies and is attached again. -/
def detachRun : List Label :=
  [registerApp 0 10 20, .heartbeat 0 7 1, .detach "app" false false, .hangup 0 true,
    .attach "app" true, registerApp 1 11 21]

/-- The program that comes back has its record and its subscriber. -/
theorem no_client_outlives_subscriber_sample :
    ∃ s es, run step detachRun (mcInit ⟨3, 10⟩ 0 []) = some (s, es) ∧ s.records = [20] ∧
      s.subscriber 10 = none ∧ ∃ x, s.client 20 = some x ∧
        ∀ a, x.subscriber = some a → ∃ h, s.subscriber a = some ⟨.client 20, h⟩ := by
  obtain ⟨s, es, hrun, hrecords, hfreed⟩ : ∃ s es,
      run step detachRun (mcInit ⟨3, 10⟩ 0 []) = some (s, es) ∧ s.records = [20] ∧
        s.subscriber 10 = none :=
    ⟨_, _, rfl, by decide, by decide⟩
  exact ⟨s, es, hrun, hrecords, hfreed,
    no_client_outlives_subscriber hrun (by decide) 20 (.inl (by simp [hrecords]))⟩

/-- **A client outlives its subscriber.**  The client unregisters: the server releases the
subscriber, and the record is still in `client_runningq`, with its task in `task_head`. -/
theorem client_outlives_subscriber :
    ¬ ∀ (ls : List Label) (s : State) (es : List Event),
      run step ls (mcInit ⟨3, 10⟩ 0 []) = some (s, es) →
        ∀ c, (c ∈ s.records ∨ ∃ i, (c, i) ∈ s.taskHead) → ∀ x, s.client c = some x →
          ∀ a, x.subscriber = some a → (s.subscriber a).isSome = true := by
  intro h
  have hbad := h [registerApp 0 10 20, .unregister 0] _ _ rfl 20 (.inl (by decide)) _ rfl 10 rfl
  exact absurd hbad (by decide)

/-! ## Programs -/

/-- No two records are of one program. -/
def Distinct (s : State) : Prop :=
  ∀ c d x y, s.client c = some x → s.client d = some y → x.key = y.key → c = d

/-- A program that is not present has no record. -/
lemma key_ne_of_not_present {info : McReginfo} {x : McClient} (hs : Queued s)
    (hfind : findDead info s = none) (hpresent : present info s = false)
    (hx : s.client c = some x) : x.key ≠ info.key := by
  intro hkey
  have hfits : (s.client c).map McClient.key = some info.key := by rw [hx, ← hkey]; rfl
  rcases List.mem_append.mp (hs.mem hx) with hlive | hdead
  · have hall := List.any_eq_false.mp hpresent c hlive
    exact hall (decide_eq_true hfits)
  · have hall := List.find?_eq_none.mp hfind c hdead
    exact hall (decide_eq_true hfits)

/-- One record changes, and no other has its key. -/
lemma Distinct.beside (hd : Distinct s) (b : Beside c s s')
    (hkey : ∀ z, s'.client c = some z → ∀ d y, d ≠ c → s.client d = some y → y.key ≠ z.key) :
    Distinct s' := by
  intro d e x y hx hy hxy
  by_cases hdc : d = c <;> by_cases hec : e = c
  · rw [hdc, hec]
  · rw [b.client e hec] at hy
    rw [hdc] at hx
    exact absurd hxy.symm (hkey x hx e y hec hy)
  · rw [b.client d hdc] at hx
    rw [hec] at hy
    exact absurd hxy (hkey y hy d x hdc hx)
  · rw [b.client d hdc] at hx
    rw [b.client e hec] at hy
    exact hd d e x y hx hy hxy

lemma Distinct.rebound {a : SubscriberPtr} {v : Option McSubscriber} (hd : Distinct s)
    (r : Rebound a v s s') : Distinct s' := by
  unfold Distinct
  rw [r.client]
  exact hd

lemma Distinct.change {forsake : Bool} (hs : Queued s) (hd : Distinct s)
    (h : Change forsake false s s') : Distinct s' := by
  cases h with
  | keep k =>
      intro c d x y hx hy hkey
      obtain ⟨x₀, hx₀, hkeyx, -⟩ := k.before hx
      obtain ⟨y₀, hy₀, hkeyy, -⟩ := k.before hy
      exact hd c d x₀ y₀ hx₀ hy₀ (by rw [hkeyx, hkeyy, hkey])
  | rebind hold hnew r => exact hd.rebound r
  | forsake hforsake r => exact hd.rebound r
  | @register info a c h s₁ hold b hc hfind r =>
      obtain ⟨z, hz, hkeyz, -⟩ := hc.client
      refine (hd.beside b fun z' hz' d y hdc hy hkey => ?_).rebound r
      obtain rfl := Option.some.inj (hz.symm.trans hz')
      rcases hfind with hfind | ⟨-, hfind, hpresent⟩
      · obtain ⟨x, hx, hkeyx⟩ := key_of_findDead hfind
        exact hdc (hd d c y x hy hx (by rw [hkey, hkeyz, hkeyx]))
      · exact key_ne_of_not_present hs hfind (hpresent rfl) hy (hkey.trans hkeyz)
  | @ends a c h s₁ hold b hleft r =>
      refine (hd.beside b fun z hz d y hdc hy hkey => ?_).rebound r
      rcases hleft with ⟨hnone, -⟩ | ⟨⟨x, x', hx, hx', hkeyx, -⟩, -⟩
      · rw [hnone] at hz
        cases hz
      · obtain rfl := Option.some.inj (hx'.symm.trans hz)
        exact hdc (hd d c y x hy hx (hkey.trans hkeyx))

/-- **One record for a program.**  In every run in which a program registers only while none of its
records is in `client_runningq`, `client_lossq` or `client_detachdq`, no two records in the queues
have one name, command line and number of tasks.  The record that an attach or a restart finds is
then the only one of its program. -/
theorem one_record_per_program {ls : List Label} {config : McConfig} {now : ℤ}
    {guards : List McGuard} {s : State} {es : List Event}
    (hrun : run step ls (mcInit config now guards) = some (s, es))
    (hfresh : Along step (fun s l => doubles s l = false) ls (mcInit config now guards)) :
    (s.records.map fun c => (s.client c).map McClient.key).Nodup ∧
      ∀ name c, (s.findName s.detachdq name = some c ∨ s.findName s.runningq name = some c) →
        ∀ d ∈ s.records, (s.client d).map McClient.key = (s.client c).map McClient.key → d = c := by
  have hinv : Queued s ∧ Distinct s := run_invariant (I := fun s => Queued s ∧ Distinct s)
    (fun hs hok hstep => hs.1.step (fun hq hd hchange => hd.change hq (hok ▸ hchange)) hs.2 hstep)
    ⟨queued_init config now guards, fun c d x y hx => by cases hx⟩ hfresh hrun
  have hone : ∀ c ∈ s.records, ∀ d ∈ s.records,
      (s.client c).map McClient.key = (s.client d).map McClient.key → c = d := by
    intro c hc d hd hkey
    obtain ⟨x, hx⟩ := Option.isSome_iff_exists.mp ((hinv.1.alloc c).mp hc)
    obtain ⟨y, hy⟩ := Option.isSome_iff_exists.mp ((hinv.1.alloc d).mp hd)
    rw [hx, hy] at hkey
    exact hinv.2 c d x y hx hy (Option.some.inj hkey)
  refine ⟨hinv.1.nodup.map_on hone, fun name c hfind d hd hkey => hone d hd c ?_ hkey⟩
  rcases hfind with hfind | hfind
  · have hc := List.mem_of_find?_eq_some hfind
    simp [State.records, hc]
  · have hc := List.mem_of_find?_eq_some hfind
    simp [State.records, hc]

/-- The program that was detached, attached and started again has one record. -/
theorem one_record_per_program_sample :
    ∃ s es, run step detachRun (mcInit ⟨3, 10⟩ 0 []) = some (s, es) ∧ s.records = [20] ∧
      (s.records.map fun c => (s.client c).map McClient.key).Nodup := by
  obtain ⟨s, es, hrun, hrecords⟩ : ∃ s es,
      run step detachRun (mcInit ⟨3, 10⟩ 0 []) = some (s, es) ∧ s.records = [20] :=
    ⟨_, _, rfl, by decide⟩
  exact ⟨s, es, hrun, hrecords, (one_record_per_program hrun (by decide)).1⟩

/-- **Two records for a program.**  A detached client dies, and its record stays in
`client_detachdq`; the program is started by hand and registers, and an attach finds the record of
the dead. -/
theorem two_records_for_program :
    ¬ ∀ (ls : List Label) (s : State) (es : List Event),
      run step ls (mcInit ⟨3, 10⟩ 0 []) = some (s, es) →
        (s.records.map fun c => (s.client c).map McClient.key).Nodup ∧
          ∀ name c, (s.findName s.detachdq name = some c ∨ s.findName s.runningq name = some c) →
            ∀ d ∈ s.records, (s.client d).map McClient.key = (s.client c).map McClient.key →
              d = c := by
  intro h
  have hbad := (h [registerApp 0 10 20, .detach "app" false false, .hangup 0 true,
    registerApp 1 11 21] _ _ rfl).2 "app" 20 (.inl rfl) 21 (by decide) rfl
  exact absurd hbad (by decide)

end LinuxC.Mcd.Clients
