import LinuxC.Mcd.Clients

/-!
# Where the records of the clients are

`Keeps` is what most handlers do to the records: they move them between the queues and change
fields that do not matter for who is who.  `Queued` is what holds in every run: the records in the
queues are those that are allocated, once each; a subscriber that refers to a client is the one that
the client refers to; and no dead client has a subscriber.  The messages, the timers and the loops
of `mcd_inspect` keep the records of a state with `Queued`; what registers and ends a client is in
`Mcd.Supervision`.
-/

namespace LinuxC.Mcd.Clients

/-! ## What stays -/

/-- The fields by which records are compared. -/
def McClient.ident (x : McClient) : (String × String × ℕ) × Option SubscriberPtr :=
  (x.key, x.subscriber)

/-- The records stay what they are and where they can be found, and only a client without a
subscriber joins the dead. -/
structure Keeps (s s' : State) : Prop where
  ident : ∀ c, (s'.client c).map McClient.ident = (s.client c).map McClient.ident
  kind : ∀ c x', s'.client c = some x' → x'.state.kind = .dead →
    ∃ x, s.client c = some x ∧ x.state.kind = .dead
  records : s'.records.Perm s.records
  dead : ∀ c ∈ s'.deadq, c ∈ s.deadq ∨ ∀ x, s.client c = some x → x.subscriber = none
  tasks : ∀ t ∈ s'.taskHead, t ∈ s.taskHead ∨ (s.client t.1).isSome = true
  subscriber : s'.subscriber = s.subscriber

namespace Keeps

variable {s s' s'' : State}

lemma isSome (h : Keeps s s') (c : ClientPtr) : (s'.client c).isSome = (s.client c).isSome := by
  have hc := congrArg Option.isSome (h.ident c)
  simpa using hc

/-- A record before the step, seen from the record after it. -/
lemma before (h : Keeps s s') {c : ClientPtr} {x' : McClient} (hx : s'.client c = some x') :
    ∃ x, s.client c = some x ∧ x.key = x'.key ∧ x.subscriber = x'.subscriber := by
  have hc := h.ident c
  rw [hx] at hc
  obtain ⟨x, hx, hident⟩ := Option.map_eq_some_iff.mp hc.symm
  obtain ⟨hkey, hsub⟩ := Prod.mk.inj hident
  exact ⟨x, hx, hkey, hsub⟩

/-- A record after the step, seen from the record before it. -/
lemma after (h : Keeps s s') {c : ClientPtr} {x : McClient} (hx : s.client c = some x) :
    ∃ x', s'.client c = some x' ∧ x'.key = x.key ∧ x'.subscriber = x.subscriber := by
  have hc := h.ident c
  rw [hx] at hc
  obtain ⟨x', hx', hident⟩ := Option.map_eq_some_iff.mp hc
  obtain ⟨hkey, hsub⟩ := Prod.mk.inj hident
  exact ⟨x', hx', hkey, hsub⟩

lemma refl (s : State) : Keeps s s :=
  ⟨fun _ => rfl, fun _ x' hx hk => ⟨x', hx, hk⟩, List.Perm.refl _, fun _ hc => .inl hc,
    fun _ ht => .inl ht, rfl⟩

lemma trans (h : Keeps s s') (h' : Keeps s' s'') : Keeps s s'' := by
  refine ⟨fun c => (h'.ident c).trans (h.ident c), fun c x'' hx hk => ?_,
    h'.records.trans h.records, fun c hc => ?_, fun t ht => ?_, h'.subscriber.trans h.subscriber⟩
  · obtain ⟨x', hx', hk'⟩ := h'.kind c x'' hx hk
    exact h.kind c x' hx' hk'
  · rcases h'.dead c hc with hc | hnone
    · exact h.dead c hc
    · refine .inr fun x hx => ?_
      obtain ⟨x', hx', -, hsub⟩ := h.after hx
      rw [← hsub, hnone x' hx']
  · rcases h'.tasks t ht with ht | halive
    · exact h.tasks t ht
    · exact .inr ((h.isSome t.1).symm.trans halive)

end Keeps

variable {s s' : State} {c : ClientPtr}

/-- Fields of a record are changed that do not matter. -/
lemma keeps_modify {f : McClient → McClient} (hident : ∀ x, (f x).ident = x.ident)
    (hkind : ∀ x, s.client c = some x → (f x).state.kind = .dead → x.state.kind = .dead) :
    Keeps s (s.modify c f) := by
  refine ⟨fun d => ?_, fun d x' hx hk => ?_, List.Perm.refl _, fun _ hd => .inl hd,
    fun _ ht => .inl ht, rfl⟩
  · by_cases hd : d = c
    · subst hd
      rw [State.client_modify_self, Option.map_map]
      exact congrArg (Option.map · _) (funext hident)
    · rw [State.client_modify_of_ne hd]
  · by_cases hd : d = c
    · subst hd
      rw [State.client_modify_self] at hx
      obtain ⟨x, hx₀, rfl⟩ := Option.map_eq_some_iff.mp hx
      exact ⟨x, hx₀, hkind x hx₀ hk⟩
    · rw [State.client_modify_of_ne hd] at hx
      exact ⟨x', hx, hk⟩

lemma keeps_setFlags (c : ClientPtr) (f : Finset ℕ → Finset ℕ) (s : State) :
    Keeps s (s.setFlags c f) :=
  keeps_modify (fun _ => rfl) fun _ _ hk => hk

/-! ### Queues -/

lemma records_listDel (c : ClientPtr) (s : State) :
    (s.listDel c).records = s.records.filter (· ≠ c) := by
  simp [State.records, State.listDel, List.filter_append]

/-- Wherever a record is added, the queues have one more. -/
lemma records_listAddTail (q : Queue) (c : ClientPtr) (s : State) :
    (s.listAddTail q c).records.Perm (c :: s.records) := by
  have hmiddle (xs ys : List ClientPtr) : (xs ++ c :: ys).Perm (c :: (xs ++ ys)) :=
    List.perm_middle
  unfold State.listAddTail State.records
  cases q with
  | running =>
      have hrunning := hmiddle s.runningq (s.lossq ++ s.detachdq ++ s.deadq)
      simp only [List.append_assoc, List.cons_append, List.nil_append] at hrunning ⊢
      exact hrunning
  | loss => simpa using hmiddle (s.runningq ++ s.lossq) (s.detachdq ++ s.deadq)
  | detachd => simpa using hmiddle (s.runningq ++ s.lossq ++ s.detachdq) s.deadq
  | dead => simpa using hmiddle (s.runningq ++ s.lossq ++ s.detachdq ++ s.deadq) []

lemma perm_insertBefore {α : Type} (p : α → Bool) (x : α) (xs : List α) :
    (insertBefore p x xs).Perm (x :: xs) := by
  induction xs with
  | nil => exact List.Perm.refl _
  | cons y ys ih =>
      unfold insertBefore
      split_ifs
      · exact List.Perm.refl _
      · exact (ih.cons y).trans (List.Perm.swap x y ys)

/-- A record that is taken out and put back. -/
lemma perm_cons_filter {xs : List ClientPtr} (hnodup : xs.Nodup) (hc : c ∈ xs) :
    (c :: xs.filter (· ≠ c)).Perm xs := by
  have herase : xs.filter (· ≠ c) = xs.erase c := by
    rw [hnodup.erase_eq_filter]
    exact List.filter_congr fun x _ => by simp [bne, beq_eq_decide]
  rw [herase]
  exact (List.perm_cons_erase hc).symm

lemma records_listMove (q : Queue) (c : ClientPtr) (s : State) :
    (s.listMove q c).records.Perm (c :: s.records.filter (· ≠ c)) := by
  rw [← records_listDel]
  exact records_listAddTail q c _

lemma client_listMove (q : Queue) (c : ClientPtr) (s : State) :
    (s.listMove q c).client = s.client ∧ (s.listMove q c).taskHead = s.taskHead ∧
      (s.listMove q c).subscriber = s.subscriber ∧ (s.listMove q c).peer = s.peer := by
  cases q <;> exact ⟨rfl, rfl, rfl, rfl⟩

lemma deadq_listMove (q : Queue) (c : ClientPtr) (s : State) :
    ∀ d ∈ (s.listMove q c).deadq, d ∈ s.deadq ∨ q = .dead ∧ d = c := by
  intro d hd
  cases q with
  | dead =>
      rcases List.mem_append.mp hd with hd | hd
      · exact .inl (List.mem_of_mem_filter hd)
      · exact .inr ⟨rfl, List.mem_singleton.mp hd⟩
  | running | loss | detachd => exact .inl (List.mem_of_mem_filter hd)

lemma keeps_listMove {q : Queue} (hnodup : s.records.Nodup) (hc : c ∈ s.records)
    (hdead : q = .dead → ∀ x, s.client c = some x → x.subscriber = none) :
    Keeps s (s.listMove q c) := by
  obtain ⟨hclient, htask, hsub, -⟩ := client_listMove q c s
  refine ⟨fun d => by rw [hclient], fun d x' hx hk => ?_,
    (records_listMove q c s).trans (perm_cons_filter hnodup hc), fun d hd => ?_, fun t ht => ?_,
    hsub⟩
  · rw [hclient] at hx
    exact ⟨x', hx, hk⟩
  · refine (deadq_listMove q c s d hd).imp_right fun hq => ?_
    rw [hq.2]
    exact hdead hq.1
  · rw [htask] at ht
    exact .inl ht

/-! ### Tasks and probes -/

lemma keeps_delTasks (c : ClientPtr) (s : State) : Keeps s (s.delTasks c) :=
  ⟨fun _ => rfl, fun _ x' hx hk => ⟨x', hx, hk⟩, List.Perm.refl _, fun _ hd => .inl hd,
    fun _ ht => .inl (List.mem_of_mem_filter ht), rfl⟩

lemma ident_modify_tasks (i : ℕ) (f : McTask → McTask) (x : McClient) :
    McClient.ident { x with tasks := x.tasks.modify i f } = x.ident := by
  simp [McClient.ident, McClient.key]

lemma keeps_taskActive {i : ℕ} (hc : (s.client c).isSome = true) :
    Keeps s (mcTaskActive c i s) := by
  have hmodify : Keeps s (s.modify c fun x =>
      { x with tasks := x.tasks.modify i fun t =>
          { t with expire := s.now + s.config.lossMax * t.interval } }) :=
    keeps_modify (fun x => ident_modify_tasks i _ x) fun _ _ hk => hk
  refine ⟨hmodify.ident, hmodify.kind, hmodify.records, hmodify.dead, fun t ht => ?_,
    hmodify.subscriber⟩
  rcases List.mem_cons.mp ((perm_insertBefore _ _ _).mem_iff.mp ht) with rfl | ht
  · exact .inr hc
  · exact .inl (List.mem_of_mem_filter ht)

lemma keeps_activateTasks {n : ℕ} (hc : (s.client c).isSome = true) :
    Keeps s (activateTasks c n s) := by
  unfold activateTasks
  generalize List.range n = is
  induction is generalizing s with
  | nil => exact .refl s
  | cons i is ih =>
      have hfirst := keeps_taskActive (i := i) hc
      exact hfirst.trans (ih ((hfirst.isSome c).trans hc))

lemma records_clientActive (c : ClientPtr) (time : ℤ) (s : State) :
    (mcdClientActive c time s).records.Perm (c :: s.records.filter (· ≠ c)) := by
  have hdel : (s.listDel c).records = s.records.filter (· ≠ c) := records_listDel c s
  rw [← hdel]
  unfold mcdClientActive State.records
  simp only [List.append_assoc]
  exact (perm_insertBefore _ _ _).append_right _

lemma keeps_probeExpire (c : ClientPtr) (time : ℤ) (s : State) :
    Keeps s (s.modify c fun x => { x with probeExpire := time }) :=
  keeps_modify (fun _ => rfl) fun _ _ hk => hk

lemma keeps_clientActive (time : ℤ) (hnodup : s.records.Nodup) (hc : c ∈ s.records) :
    Keeps s (mcdClientActive c time s) := by
  have hmodify := keeps_probeExpire c (time + s.config.lossMax * s.config.probeInterval) s
  exact ⟨hmodify.ident, hmodify.kind,
    (records_clientActive c time s).trans (perm_cons_filter hnodup hc),
    fun d hd => .inl (List.mem_of_mem_filter hd), hmodify.tasks, hmodify.subscriber⟩

/-! ### Restart and exit -/

lemma keeps_clientRestart (c : ClientPtr) (started : Bool) (s : State) :
    Keeps s (clientRestart c started s) := by
  unfold clientRestart
  split_ifs
  · exact keeps_modify (fun _ => rfl) fun _ _ hk => by cases hk
  · exact .refl s

lemma keeps_restart {started : Bool} (h : mcdClientRestart c started s = some s') :
    Keeps s s' := by
  obtain ⟨x, hx, rfl⟩ := Option.map_eq_some_iff.mp h
  split_ifs
  · exact keeps_modify (fun _ => rfl) fun _ _ hk => by cases hk
  · exact keeps_clientRestart c started s

lemma keeps_exitClient {notified : Bool} (h : mcExitClient c notified s = some s') :
    Keeps s s' := by
  obtain rfl | rfl := mcExitClient_cases h
  · exact .refl s'
  · exact keeps_setFlags c _ s

/-! ## What holds in every run -/

/-- The records in the queues are those that are allocated, once each; the subscriber that refers
to a client is the one that the client refers to; and the dead have none. -/
structure Queued (s : State) : Prop where
  nodup : s.records.Nodup
  alloc : ∀ c, c ∈ s.records ↔ (s.client c).isSome = true
  tasks : ∀ t ∈ s.taskHead, (s.client t.1).isSome = true
  served : ∀ a c h, s.subscriber a = some ⟨.client c, h⟩ →
    ∃ x, s.client c = some x ∧ x.subscriber = some a
  dead : ∀ c ∈ s.deadq, ∀ x, s.client c = some x → x.subscriber = none
  kind : ∀ c x, s.client c = some x → x.state.kind = .dead → x.subscriber = none

lemma Queued.mem (h : Queued s) {x : McClient} (hx : s.client c = some x) : c ∈ s.records :=
  (h.alloc c).mpr (by rw [hx]; rfl)

lemma Queued.keep (h : Queued s) (k : Keeps s s') : Queued s' := by
  refine ⟨(k.records.nodup_iff).mpr h.nodup, fun c => ?_, fun t ht => ?_, fun a c hd hsub => ?_,
    fun c hc x' hx => ?_, fun c x' hx hk => ?_⟩
  · rw [k.records.mem_iff, k.isSome c]
    exact h.alloc c
  · rw [k.isSome t.1]
    exact (k.tasks t ht).elim (h.tasks t) id
  · rw [k.subscriber] at hsub
    obtain ⟨x, hx, hxa⟩ := h.served a c hd hsub
    obtain ⟨x', hx', -, hsame⟩ := k.after hx
    exact ⟨x', hx', hsame.trans hxa⟩
  · obtain ⟨x, hx₀, -, hsame⟩ := k.before hx
    rw [← hsame]
    rcases k.dead c hc with hold | hnone
    · exact h.dead c hold x hx₀
    · exact hnone x hx₀
  · obtain ⟨x, hx₀, hk₀⟩ := k.kind c x' hx hk
    obtain ⟨y, hy, -, hsame⟩ := k.before hx
    rw [← hsame, h.kind c y hy]
    rw [hx₀] at hy
    rw [← Option.some.inj hy]
    exact hk₀

/-! ### Loops -/

lemma keeps_foldl {α : Type} {f : State → α → State} {P : State → α → Prop}
    (hP : ∀ {s s' : State} (x : α), Keeps s s' → P s x → P s' x)
    (hf : ∀ {s : State} (x : α), Queued s → P s x → Keeps s (f s x)) (xs : List α)
    (hs : Queued s) (hx : ∀ x ∈ xs, P s x) : Keeps s (xs.foldl f s) := by
  induction xs generalizing s with
  | nil => exact .refl s
  | cons x xs ih =>
      have hfirst := hf x hs (hx x (by simp))
      exact hfirst.trans (ih (hs.keep hfirst) fun y hy => hP y hfirst (hx y (by simp [hy])))

lemma keeps_foldlM {α : Type} {f : State → α → Option State}
    (hf : ∀ {s s' : State} (x : α), f s x = some s' → Keeps s s') {xs : List α}
    (h : xs.foldlM f s = some s') : Keeps s s' := by
  induction xs generalizing s with
  | nil =>
      obtain rfl := Option.some.inj h
      exact .refl s
  | cons x xs ih =>
      rw [List.foldlM_cons] at h
      obtain ⟨s₁, h₁, h₂⟩ := Option.bind_eq_some_iff.mp h
      exact (hf x h₁).trans (ih h₂)

lemma keeps_missHeartbeat (h : Queued s) (t : ClientPtr × ℕ) : Keeps s (missHeartbeat s t) := by
  unfold missHeartbeat
  split
  · exact .refl s
  · rename_i x hx
    split
    · exact .refl s
    · rename_i task htask
      split_ifs
      · exact .refl s
      · have hflags := keeps_setFlags t.1 (insert task.strategy) s
        have hs := h.keep hflags
        refine hflags.trans (keeps_listMove hs.nodup ?_ fun hq => by cases hq)
        exact hflags.records.mem_iff.mpr (h.mem hx)
      · exact keeps_setFlags t.1 _ s

lemma keeps_missProbe (h : Queued s) (hc : c ∈ s.records) : Keeps s (missProbe s c) := by
  have hflags := keeps_setFlags c (insert mcStrategyRestart) s
  exact hflags.trans (keeps_listMove (h.keep hflags).nodup (hflags.records.mem_iff.mpr hc)
    fun hq => by cases hq)

lemma keeps_punish {notified killed : ClientPtr → Bool} (h : punish notified killed s c = some s') :
    Keeps s s' := by
  obtain hexit | rfl | rfl := punish_cases h
  · exact keeps_exitClient hexit
  · obtain hkill | hkill := mcKillClient_cases c (killed c) s
    · rw [hkill]
      exact .refl s
    · rw [hkill]
      exact keeps_setFlags c _ s
  · exact keeps_modify (fun _ => rfl) fun _ _ hk => by cases hk

lemma keeps_inspect {notified killed : ClientPtr → Bool} (hs : Queued s)
    (h : mcdInspect notified killed s = some s') : Keeps s s' := by
  unfold mcdInspect at h
  simp only at h
  generalize s.taskHead.reverse.takeWhile _ = missed at h
  have h₁ : Keeps s (missed.foldl missHeartbeat s) :=
    keeps_foldl (P := fun _ _ => True) (fun _ _ _ => trivial)
      (fun t hs _ => keeps_missHeartbeat hs t) missed hs fun _ _ => trivial
  generalize missed.foldl missHeartbeat s = s₁ at h h₁
  have hs₁ := hs.keep h₁
  have hlate : ∀ c ∈ s₁.runningq.reverse.takeWhile (fun c => s₁.probeExpire c ≤ s₁.probeTime),
      c ∈ s₁.records := by
    intro c hc
    have hrun : c ∈ s₁.runningq := List.mem_reverse.mp (List.takeWhile_subset _ hc)
    simp [State.records, hrun]
  generalize s₁.runningq.reverse.takeWhile _ = late at h hlate
  have h₂ : Keeps s₁ (late.foldl missProbe s₁) :=
    keeps_foldl (P := fun s c => c ∈ s.records) (fun c k hc => k.records.mem_iff.mpr hc)
      (fun c hs hc => keeps_missProbe hs hc) late hs₁ hlate
  exact (h₁.trans h₂).trans (keeps_foldlM (fun c hc => keeps_punish hc) h)

/-! ### Messages and timers -/

lemma keeps_heartbeat {h : Handle} {pid : ℤ} {tid : ℕ}
    (hstep : mcdClientHeartbeatMsg h pid tid s = some s') : Keeps s s' := by
  obtain rfl | ⟨c, i, flags, hsome, rfl⟩ := mcdClientHeartbeatMsg_cases hstep
  · exact .refl s'
  · exact (keeps_taskActive hsome).trans (keeps_setFlags c _ _)

lemma keeps_probe {h : Handle} {time : ℤ} (hs : Queued s)
    (hstep : mcdClientProbeMsg h time s = some s') : Keeps s s' := by
  obtain rfl | ⟨c, hsome, rfl⟩ := mcdClientProbeMsg_cases hstep
  · exact .refl s'
  · exact keeps_clientActive time hs.nodup ((hs.alloc c).mpr hsome)

lemma keeps_guardAnswer (gs : Option (List McGuard)) (s : State) :
    Keeps s (s.guardAnswer gs).1 := by
  cases gs with
  | none => exact .refl s
  | some gs =>
      exact ⟨fun _ => rfl, fun _ x' hx hk => ⟨x', hx, hk⟩, List.Perm.refl _, fun _ hd => .inl hd,
        fun _ ht => .inl ht, rfl⟩

lemma keeps_detached (c : ClientPtr) (detached : Bool) (s : State) :
    Keeps s (s.modify c fun x => { x with state := ⟨x.state.kind, detached⟩ }) :=
  keeps_modify (fun _ => rfl) fun _ _ hk => hk

/-- A client that was detached is attached, alive or dead. -/
lemma keeps_attach {name : String} {started : Bool} {r : State × Bool} (hs : Queued s)
    (h : mcdClientAttach name started s = some r) : Keeps s r.1 := by
  obtain ⟨c, x, hfind, hx, hclient⟩ | ⟨gs, rfl⟩ := mcdClientAttach_cases h
  · have hc : c ∈ s.records := hs.mem hx
    obtain ⟨-, heq⟩ | ⟨hkind, hrestart⟩ | ⟨-, heq⟩ := hclient
    · rw [heq]
      have h₁ : Keeps s (activateTasks c x.tasks.length s) :=
        keeps_activateTasks (by rw [hx]; rfl)
      have hc₁ := h₁.records.mem_iff.mpr hc
      have h₂ := h₁.trans (keeps_clientActive (activateTasks c x.tasks.length s).probeTime
        (hs.keep h₁).nodup hc₁)
      have h₃ := h₂.trans (keeps_detached c false _)
      exact h₃.trans (keeps_listMove (q := .running) (hs.keep h₃).nodup
        (h₃.records.mem_iff.mpr hc) fun hq => by cases hq)
    · have h₁ := keeps_detached c false s
      refine (h₁.trans (keeps_listMove (hs.keep h₁).nodup (h₁.records.mem_iff.mpr hc) ?_)).trans
        (keeps_restart hrestart)
      intro _ y hy
      obtain ⟨y', hy', -, hsame⟩ := h₁.before hy
      rw [← hsame]
      exact hs.kind c y' hy' (Option.some.inj (hx.symm.trans hy') ▸ hkind)
    · rw [heq]
      exact .refl s
  · exact keeps_guardAnswer _ s

lemma keeps_detach {name : String} {exit notified : Bool} {r : State × Bool} (hs : Queued s)
    (h : mcdClientDetach name exit notified s = some r) : Keeps s r.1 := by
  obtain ⟨c, x, s₁, hx, hs₁, hexit⟩ | ⟨gs, rfl⟩ := mcdClientDetach_cases h
  · have h₁ := keeps_delTasks c s
    have h₂ := h₁.trans (keeps_listMove (q := .detachd) (hs.keep h₁).nodup (hs.mem hx)
      fun hq => by cases hq)
    have h₃ : Keeps s s₁ := hs₁ ▸ h₂.trans (keeps_detached c true _)
    rcases hexit with heq | hexit
    · rw [heq]
      exact h₃
    · exact h₃.trans (keeps_exitClient hexit)
  · exact keeps_guardAnswer _ s

lemma keeps_restartMsg {name : String} {notified : Bool} {r : State × Bool}
    (h : mcdClientRestartMsg name notified s = some r) : Keeps s r.1 := by
  obtain ⟨c, hexit⟩ | ⟨gs, rfl⟩ := mcdClientRestartMsg_cases h
  · exact keeps_exitClient hexit
  · exact keeps_guardAnswer _ s

lemma keeps_restartTimer {started : Bool} (h : restartTimer c started s = some s') :
    Keeps s s' := by
  have hstop : Keeps s (s.modify c fun x => { x with restartTiming := none }) :=
    keeps_modify (fun _ => rfl) fun _ _ hk => hk
  obtain rfl | rfl | rfl := restartTimer_cases h
  · exact .refl s'
  · exact hstop
  · exact hstop.trans (keeps_clientRestart c started _)

end LinuxC.Mcd.Clients
