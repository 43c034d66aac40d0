import LinuxC.Timer.Table

/-!
# Where the timers are

The flags `TMR_F_PENDING` and `TMR_F_EXECUTING` of a timer are meant to tell where it is:
in `base->expired_timer`, or in the thread `timer->thread` that runs its function.  `ExecOk`
says that they do.

`timer_add` breaks it.  A timer that has been deleted is inactive, and yet it may still be in the
list, or its function may still run; `timer_add` then accepts it and sets `flags = 0`.  Every
other step keeps `ExecOk`, and `timer_flags_match` is about runs in which this does not happen.
-/

namespace LinuxC.Timer

/-! ## The invariant -/

/-- The flags tell where the timers are. -/
structure ExecOk (s : State) : Prop where
  pending : ∀ t, t ∈ s.base.expiredTimer ↔ (s.timer t).flags.pending = true
  nodup : s.base.expiredTimer.Nodup
  exclusive : ∀ t, (s.timer t).flags.pending = true → (s.timer t).flags.executing = false
  runs : ∀ u t, s.Runs u t ↔
    (s.timer t).flags.executing = true ∧ (s.timer t).thread = some u
  named : ∀ t, (s.timer t).flags.executing = true → ∃ u, (s.timer t).thread = some u

/-- Nothing that `ExecOk` speaks about is changed. -/
structure SameExec (s s' : State) : Prop where
  expired : s'.base.expiredTimer = s.base.expiredTimer
  flags : ∀ t, (s'.timer t).flags.pending = (s.timer t).flags.pending ∧
    (s'.timer t).flags.executing = (s.timer t).flags.executing ∧
    (s'.timer t).thread = (s.timer t).thread
  runs : ∀ u t, s'.Runs u t ↔ s.Runs u t

lemma SameExec.trans {s s' s'' : State} (h : SameExec s s') (h' : SameExec s' s'') :
    SameExec s s'' := by
  refine ⟨h'.expired.trans h.expired, fun t => ?_, fun u t => (h'.runs u t).trans (h.runs u t)⟩
  obtain ⟨h1, h2, h3⟩ := h.flags t
  obtain ⟨h1', h2', h3'⟩ := h'.flags t
  exact ⟨h1'.trans h1, h2'.trans h2, h3'.trans h3⟩

lemma ExecOk.congr {s s' : State} (h : ExecOk s) (hs : SameExec s s') : ExecOk s' := by
  refine ⟨fun t => ?_, ?_, fun t ht => ?_, fun u t => ?_, fun t ht => ?_⟩
  · rw [hs.expired, (hs.flags t).1, h.pending]
  · rw [hs.expired]
    exact h.nodup
  · rw [(hs.flags t).1] at ht
    rw [(hs.flags t).2.1]
    exact h.exclusive t ht
  · rw [hs.runs, h.runs, (hs.flags t).2.1, (hs.flags t).2.2]
  · rw [(hs.flags t).2.1] at ht
    rw [(hs.flags t).2.2]
    exact h.named t ht

/-! ## Changes that leave the execution alone -/

lemma sameExec_of_pcs {s s' : State} (hexp : s'.base.expiredTimer = s.base.expiredTimer)
    (hpc : s'.inspector = s.inspector) (hexe : s'.executors = s.executors)
    (hflags : ∀ t, (s'.timer t).flags.pending = (s.timer t).flags.pending ∧
      (s'.timer t).flags.executing = (s.timer t).flags.executing ∧
      (s'.timer t).thread = (s.timer t).thread) : SameExec s s' := by
  refine ⟨hexp, hflags, fun u t => ?_⟩
  cases u with
  | inspector => simp only [State.Runs, hpc]
  | executor i => simp only [State.Runs, hexe]
  | user i => exact Iff.rfl

lemma sameExec_of_timer {s s' : State} (hexp : s'.base.expiredTimer = s.base.expiredTimer)
    (hpc : s'.inspector = s.inspector) (hexe : s'.executors = s.executors)
    (htimer : s'.timer = s.timer) : SameExec s s' :=
  sameExec_of_pcs hexp hpc hexe fun t => by rw [htimer]; exact ⟨rfl, rfl, rfl⟩

lemma sameExec_setFlags {s : State} {t : Ptr} {g : Flags → Flags}
    (hg : (g (s.timer t).flags).pending = (s.timer t).flags.pending ∧
      (g (s.timer t).flags).executing = (s.timer t).flags.executing) :
    SameExec s (s.setFlags t g) := by
  refine sameExec_of_pcs rfl rfl rfl fun x => ?_
  simp only [State.setFlags, State.modify]
  split_ifs with hx
  · rw [hx]
    exact ⟨hg.1, hg.2, rfl⟩
  · exact ⟨rfl, rfl, rfl⟩

/-- The inspector moves, and neither leaves nor enters a timer's function. -/
lemma sameExec_inspector {s : State} {pc : Inspector} (hold : ∀ t, s.inspector ≠ .running t)
    (hnew : ∀ t, pc ≠ .running t) : SameExec s { s with inspector := pc } := by
  refine ⟨rfl, fun t => ⟨rfl, rfl, rfl⟩, fun u t => ?_⟩
  cases u with
  | inspector => exact ⟨fun h => absurd h (hnew t), fun h => absurd h (hold t)⟩
  | executor i => exact Iff.rfl
  | user i => exact Iff.rfl

/-- An executor moves, and neither leaves nor enters a timer's function. -/
lemma sameExec_setExecutor {s : State} {i : ℕ} {e : Executor}
    (hold : ∀ t b, s.executors[i]? ≠ some (.running t b)) (hnew : ∀ t b, e ≠ .running t b) :
    SameExec s (s.setExecutor i e) := by
  refine ⟨rfl, fun t => ⟨rfl, rfl, rfl⟩, fun u t => ?_⟩
  cases u with
  | inspector => exact Iff.rfl
  | executor j =>
      simp only [State.Runs, State.setExecutor, List.getElem?_set]
      split_ifs with hij hlt
      · subst hij
        simp only [Option.some.injEq]
        constructor
        · rintro ⟨b, hb⟩
          exact absurd hb (hnew t b)
        · rintro ⟨b, hb⟩
          exact absurd hb (hold t b)
      · subst hij
        constructor
        · rintro ⟨b, hb⟩
          simp at hb
        · rintro ⟨b, hb⟩
          exact absurd hb (hold t b)
      · exact Iff.rfl
  | user j => exact Iff.rfl

lemma sameExec_signalWork (s : State) : SameExec s s.signalWork := by
  refine ⟨rfl, fun t => ⟨rfl, rfl, rfl⟩, fun u t => ?_⟩
  cases u with
  | inspector => cases hpc : s.inspector <;> simp [State.Runs, State.signalWork, hpc]
  | executor i => exact Iff.rfl
  | user i => exact Iff.rfl

lemma sameExec_insert (t : Ptr) (s : State) : SameExec s (timerInsert t s) := by
  refine sameExec_of_pcs rfl rfl rfl fun x => ?_
  simp only [timerInsert, timerMount, timerKey, State.setFlags, State.modify]
  split_ifs <;> exact ⟨rfl, rfl, rfl⟩

lemma sameExec_remove (t : Ptr) (s : State) : SameExec s (timerRemove t s) := by
  refine sameExec_of_pcs rfl rfl rfl fun x => ?_
  simp only [timerRemove, State.setFlags, State.modify]
  split_ifs <;> exact ⟨rfl, rfl, rfl⟩

lemma sameExec_shoot (t : Ptr) (s : State) : SameExec s (shootState t s) := by
  have h0 : SameExec s (s.setState .shooting) := sameExec_of_timer rfl rfl rfl rfl
  have h1 := h0.trans (sameExec_remove t _)
  simp only [shootState, reinsert]
  split
  · exact h1.trans (sameExec_insert t _)
  · exact h1

lemma shootState_inspector (t : Ptr) (s : State) :
    (shootState t s).inspector = s.inspector := by
  simp only [shootState, reinsert]
  split <;> rfl

lemma sameExec_exit (t : Ptr) (s : State) : SameExec s (exitState t s) := by
  refine SameExec.trans ?_ (sameExec_setFlags ⟨rfl, rfl⟩)
  unfold timerDrop
  split
  · unfold signalDel
    split
    · have h1 : SameExec s ((timerRemove t s).setRunning none) :=
        (sameExec_remove t s).trans (sameExec_of_timer rfl rfl rfl rfl)
      exact h1.trans (sameExec_signalWork _)
    · exact sameExec_remove t s
  · exact sameExec_of_timer rfl rfl rfl rfl

lemma sameExec_mod (t : Ptr) (msec : ℤ) (s : State) :
    SameExec s (signalMod t (modState t msec s)) := by
  have h1 : SameExec s (timerUnmount t s) := by
    unfold timerUnmount
    split
    · exact sameExec_remove t s
    · exact sameExec_of_timer rfl rfl rfl rfl
  have h2 : SameExec s (timerRearm t msec (timerUnmount t s)) := by
    refine h1.trans (sameExec_of_pcs rfl rfl rfl fun x => ?_)
    simp only [timerRearm, State.modify]
    split_ifs <;> exact ⟨rfl, rfl, rfl⟩
  have h3 : SameExec s (modState t msec s) := h2.trans (sameExec_insert t _)
  unfold signalMod
  split
  · exact h3.trans (sameExec_signalWork _)
  · exact h3

/-! ## Changes of the execution -/

lemma runs_unique {s : State} {u : Tid} {t t' : Ptr} (h : s.Runs u t) (h' : s.Runs u t') :
    t = t' := by
  cases u with
  | inspector =>
      rw [State.Runs] at h h'
      rw [h] at h'
      exact Inspector.running.inj h'
  | executor i =>
      obtain ⟨b, hb⟩ := h
      obtain ⟨b', hb'⟩ := h'
      rw [hb] at hb'
      exact (Executor.running.inj (Option.some.inj hb')).1
  | user i => exact h.elim

/-- The thread `u` starts the function of a timer that is neither pending nor executing. -/
lemma ExecOk.start {s s' : State} {u : Tid} {t : Ptr} (h : ExecOk s)
    (hbusy : (s.timer t).flags.busy = false) (hidle : ∀ x, ¬ s.Runs u x)
    (hexp : s'.base.expiredTimer = s.base.expiredTimer)
    (htimer : s'.timer = (timerExecute u t s).timer)
    (hself : ∀ x, s'.Runs u x ↔ x = t) (hother : ∀ v x, v ≠ u → (s'.Runs v x ↔ s.Runs v x)) :
    ExecOk s' := by
  obtain ⟨hpend, hexec⟩ : (s.timer t).flags.pending = false ∧
      (s.timer t).flags.executing = false := by simpa [Flags.busy] using hbusy
  have hnew : s'.timer t =
      { s.timer t with
        thread := some u, flags := { (s.timer t).flags with executing := true } } := by
    simp [htimer, timerExecute, State.modify]
  have hold : ∀ x, x ≠ t → s'.timer x = s.timer x := by
    intro x hx
    simp [htimer, timerExecute, State.modify, hx]
  refine ⟨fun x => ?_, by rw [hexp]; exact h.nodup, fun x hx => ?_, fun v x => ?_,
    fun x hx => ?_⟩
  · rw [hexp, h.pending]
    rcases eq_or_ne x t with rfl | hxt
    · rw [hnew]
    · rw [hold x hxt]
  · rcases eq_or_ne x t with rfl | hxt
    · rw [hnew] at hx
      simp [hpend] at hx
    · rw [hold x hxt] at hx ⊢
      exact h.exclusive x hx
  · rcases eq_or_ne x t with rfl | hxt
    · rw [hnew]
      rcases eq_or_ne v u with rfl | hv
      · simp [hself]
      · simp [hother v x hv, h.runs, hexec, hv.symm]
    · rw [hold x hxt, ← h.runs]
      rcases eq_or_ne v u with rfl | hv
      · simp [hself, hxt, hidle]
      · exact hother v x hv
  · rcases eq_or_ne x t with rfl | hxt
    · rw [hnew]
      exact ⟨u, rfl⟩
    · rw [hold x hxt] at hx ⊢
      exact h.named x hx

/-- The thread `u` returns from the function of the timer. -/
lemma ExecOk.finish {s s' : State} {u : Tid} {t : Ptr} (h : ExecOk s) (hrun : s.Runs u t)
    (hexp : s'.base.expiredTimer = s.base.expiredTimer)
    (htimer : s'.timer = (timerCleanup t s).timer)
    (hself : ∀ x, ¬ s'.Runs u x) (hother : ∀ v x, v ≠ u → (s'.Runs v x ↔ s.Runs v x)) :
    ExecOk s' := by
  have hthread := ((h.runs u t).mp hrun).2
  have hflags : ∀ x, (s'.timer x).flags.pending = (s.timer x).flags.pending ∧
      (s'.timer x).thread = (s.timer x).thread := by
    intro x
    simp only [htimer, timerCleanup, State.setFlags, State.modify]
    split_ifs <;> exact ⟨rfl, rfl⟩
  have hnew : (s'.timer t).flags.executing = false := by
    simp [htimer, timerCleanup, State.setFlags, State.modify]
  have hold : ∀ x, x ≠ t → (s'.timer x).flags.executing = (s.timer x).flags.executing := by
    intro x hx
    simp [htimer, timerCleanup, State.setFlags, State.modify, hx]
  refine ⟨fun x => ?_, by rw [hexp]; exact h.nodup, fun x hx => ?_, fun v x => ?_,
    fun x hx => ?_⟩
  · rw [hexp, h.pending, (hflags x).1]
  · rcases eq_or_ne x t with rfl | hxt
    · exact hnew
    · rw [(hflags x).1] at hx
      rw [hold x hxt]
      exact h.exclusive x hx
  · rcases eq_or_ne v u with rfl | hv
    · -- the thread has left the only function that it ran
      apply iff_of_false (hself x)
      intro hx
      rcases eq_or_ne x t with rfl | hxt
      · simp [hnew] at hx
      · rw [hold x hxt, (hflags x).2] at hx
        exact hxt (runs_unique ((h.runs v x).mpr hx) hrun)
    · rw [hother v x hv, h.runs, (hflags x).2]
      rcases eq_or_ne x t with rfl | hxt
      · simp [hnew, hthread, hv.symm]
      · rw [hold x hxt]
  · rcases eq_or_ne x t with rfl | hxt
    · simp [hnew] at hx
    · rw [hold x hxt] at hx
      rw [(hflags x).2]
      exact h.named x hx

/-- A timer that is neither pending nor executing goes into the list. -/
lemma ExecOk.pend {s s' : State} {t : Ptr} (h : ExecOk s)
    (hbusy : (s.timer t).flags.busy = false)
    (hexp : s'.base.expiredTimer = s.base.expiredTimer ++ [t])
    (htimer : s'.timer = (timerPend t s).timer) (hruns : ∀ u x, s'.Runs u x ↔ s.Runs u x) :
    ExecOk s' := by
  obtain ⟨hpend, hexec⟩ : (s.timer t).flags.pending = false ∧
      (s.timer t).flags.executing = false := by simpa [Flags.busy] using hbusy
  have hnew : (s'.timer t).flags.pending = true := by
    simp [htimer, timerPend, State.setFlags, State.modify]
  have hold : ∀ x, x ≠ t → s'.timer x = s.timer x := by
    intro x hx
    simp [htimer, timerPend, State.setFlags, State.modify, hx]
  have hflags : ∀ x, (s'.timer x).flags.executing = (s.timer x).flags.executing ∧
      (s'.timer x).thread = (s.timer x).thread := by
    intro x
    simp only [htimer, timerPend, State.setFlags, State.modify]
    split_ifs <;> exact ⟨rfl, rfl⟩
  have hnot : t ∉ s.base.expiredTimer := by simp [h.pending, hpend]
  refine ⟨fun x => ?_, ?_, fun x hx => ?_, fun u x => ?_, fun x hx => ?_⟩
  · rw [hexp, List.mem_append, List.mem_singleton, h.pending]
    rcases eq_or_ne x t with rfl | hxt
    · simp [hnew]
    · simp [hold x hxt, hxt]
  · rw [hexp]
    refine List.nodup_append.mpr ⟨h.nodup, by simp, fun x hx y hy => ?_⟩
    rintro rfl
    exact hnot (List.mem_singleton.mp hy ▸ hx)
  · rw [(hflags x).1]
    rcases eq_or_ne x t with rfl | hxt
    · exact hexec
    · exact h.exclusive x (by rwa [hold x hxt] at hx)
  · rw [hruns, h.runs, (hflags x).1, (hflags x).2]
  · rw [(hflags x).1] at hx
    rw [(hflags x).2]
    exact h.named x hx

lemma ExecOk.takeExpired {s : State} {t : Ptr} {rest : List Ptr} (h : ExecOk s)
    (hexp : s.base.expiredTimer = t :: rest) :
    ExecOk (takeExpired t rest s) ∧
      ((takeExpired t rest s).timer t).flags.busy = false := by
  have hnodup := h.nodup
  rw [hexp, List.nodup_cons] at hnodup
  have hexec := h.exclusive t ((h.pending t).mp (by simp [hexp]))
  refine ⟨⟨fun x => ?_, hnodup.2, fun x hx => ?_, fun u x => ?_, fun x hx => ?_⟩, ?_⟩
  · have hmem := h.pending x
    rw [hexp, List.mem_cons] at hmem
    simp only [Timer.takeExpired, State.setFlags, State.modify]
    split_ifs with hxt
    · simp [hxt, hnodup.1]
    · simpa [hxt] using hmem
  · have hex := h.exclusive x
    simp only [Timer.takeExpired, State.setFlags, State.modify] at hx ⊢
    split_ifs at hx ⊢ with hxt
    exact hex hx
  · have hr := h.runs u x
    have hsame : (Timer.takeExpired t rest s).Runs u x ↔ s.Runs u x := by
      cases u <;> exact Iff.rfl
    rw [hsame, hr]
    simp only [Timer.takeExpired, State.setFlags, State.modify]
    split_ifs <;> exact Iff.rfl
  · have hnamed := h.named x
    simp only [Timer.takeExpired, State.setFlags, State.modify] at hx ⊢
    split_ifs at hx ⊢ with hxt
    · exact hnamed hx
    · exact hnamed hx
  · simp [Timer.takeExpired, State.setFlags, State.modify, Flags.busy, hexec]

/-- A signal to the executors does not make one run or stop. -/
lemma signalFirst_running (es : List Executor) (i : ℕ) (t : Ptr) (b : Bool) :
    (signalFirst es)[i]? = some (.running t b) ↔ es[i]? = some (.running t b) := by
  induction es using signalFirst.induct generalizing i with
  | case1 => rfl
  | case2 => cases i <;> simp [signalFirst]
  | case3 e es hne ih => cases i <;> simp [signalFirst, ih]

lemma signalExec_running (wake : ℕ) (es : List Executor) (i : ℕ) (t : Ptr) (b : Bool) :
    (signalExec wake es)[i]? = some (.running t b) ↔ es[i]? = some (.running t b) := by
  unfold signalExec
  split
  · rename_i d b' hwake
    rw [List.getElem?_set]
    split_ifs with hi
    · subst hi
      simp [hwake]
    · subst hi
      simp [hwake]
    · exact Iff.rfl
  · exact signalFirst_running es i t b

/-- The three cases of `timer_thread_execute` put the timer into the list. -/
lemma ExecOk.thread {s : State} {t : Ptr} (h : ExecOk s)
    (hbusy : (s.timer t).flags.busy = false) (wake : ℕ) (created : Bool) :
    ExecOk (timerThreadExecute t wake created s) := by
  unfold timerThreadExecute
  split_ifs
  · refine h.pend hbusy rfl rfl fun u x => ?_
    cases u with
    | inspector => exact Iff.rfl
    | executor i => simp only [State.Runs, signalExec_running]
    | user i => exact Iff.rfl
  · refine h.pend hbusy rfl rfl fun u x => ?_
    cases u with
    | inspector => exact Iff.rfl
    | executor i =>
        simp only [State.Runs, List.getElem?_append]
        split_ifs with hi
        · exact Iff.rfl
        · rw [List.getElem?_eq_none (by omega : s.executors.length ≤ i)]
          cases hk : i - s.executors.length <;> simp
    | user i => exact Iff.rfl
  · exact h.pend hbusy rfl rfl fun u x => by cases u <;> exact Iff.rfl

lemma ExecOk.dispatched {t : Ptr} {s s' : State} {es : List Event} (h : ExecOk s)
    (hpc : ∀ x, s.inspector ≠ .running x) {created : Bool}
    (hd : Dispatched t created s s' es) : ExecOk s' := by
  cases hd with
  | skip => exact h.congr (sameExec_inspector hpc (by simp))
  | pool wake hbusy =>
      refine (h.thread hbusy wake created).congr (sameExec_inspector ?_ (by simp))
      unfold timerThreadExecute
      split_ifs <;> exact hpc
  | inline hbusy =>
      refine h.start (u := .inspector) hbusy hpc rfl rfl (fun x => ?_) fun v x hv => ?_
      · simp [State.Runs, eq_comm]
      · cases v with
        | inspector => exact absurd rfl hv
        | executor i => exact Iff.rfl
        | user i => exact Iff.rfl

lemma ExecOk.drained {i : ℕ} {b : Bool} {e : Executor} {s s' : State} {es : List Event}
    (h : ExecOk s) (hpc : s.executors[i]? = some e) (he : ∀ t b, e ≠ .running t b)
    (hd : Drained i b s s' es) : ExecOk s' := by
  have hold : ∀ t b, s.executors[i]? ≠ some (.running t b) := by simpa [hpc] using he
  cases hd with
  | @take t rest hexp hpend =>
      obtain ⟨h1, hbusy⟩ := h.takeExpired hexp
      have hlt : i < s.executors.length := (List.getElem?_eq_some_iff.mp hpc).1
      refine h1.start (u := .executor i) hbusy ?_ rfl rfl (fun x => ?_) fun v x hv => ?_
      · rintro x ⟨b', hb'⟩
        exact hold x b' hb'
      · simp [State.Runs, State.setExecutor, timerExecute, Timer.takeExpired, State.setFlags,
          State.modify, hlt, eq_comm]
      · cases v with
        | inspector => exact Iff.rfl
        | executor j =>
            have hij : i ≠ j := fun hij => hv (by rw [hij])
            simp [State.Runs, State.setExecutor, timerExecute, Timer.takeExpired, State.setFlags,
              State.modify, hij]
        | user j => exact Iff.rfl
  | exit =>
      have h1 : ExecOk (threadCleanup s) := h.congr (sameExec_of_timer rfl rfl rfl rfl)
      exact h1.congr (sameExec_setExecutor hold (by simp))
  | again => exact h.congr (sameExec_setExecutor hold (by simp))

/-- The loop of an executor does not look at where the executor was. -/
lemma Drained.setExecutor {i : ℕ} {b : Bool} {s s' : State} {es : List Event} (e : Executor)
    (hd : Drained i b s s' es) : Drained i b (s.setExecutor i e) s' es := by
  cases hd with
  | @take t rest hexp hpend =>
      have heq : (timerExecute (.executor i) t (takeExpired t rest (s.setExecutor i e))).setExecutor
          i (.running t b) =
          (timerExecute (.executor i) t (takeExpired t rest s)).setExecutor i (.running t b) := by
        simp [State.setExecutor, timerExecute, takeExpired, State.setFlags, State.modify]
      rw [← heq]
      exact .take hexp hpend
  | exit hexp hlinger =>
      have heq : (threadCleanup (s.setExecutor i e)).setExecutor i .dead =
          (threadCleanup s).setExecutor i .dead := by
        simp [State.setExecutor, threadCleanup]
      rw [← heq]
      exact .exit hexp hlinger
  | again hexp hlinger =>
      have heq : (s.setExecutor i e).setExecutor i (.loop b) = s.setExecutor i (.loop b) := by
        simp [State.setExecutor]
      rw [← heq]
      exact .again hexp hlinger

/-- `timer_add` clears the flags of a timer that was neither pending nor executing. -/
lemma ExecOk.add {s : State} {t : Ptr} (h : ExecOk s)
    (hbusy : (s.timer t).flags.busy = false) (option : TimerOpt) (msec : ℤ) :
    ExecOk (signalAdd t (addState t option msec s)) := by
  obtain ⟨hpend, hexec⟩ : (s.timer t).flags.pending = false ∧
      (s.timer t).flags.executing = false := by simpa [Flags.busy] using hbusy
  have h1 : ExecOk (addState t option msec s) := by
    refine h.congr (sameExec_of_pcs rfl rfl rfl fun x => ?_)
    simp only [addState, timerInsert, timerMount, timerKey, timerFill, State.setFlags,
      State.modify]
    split_ifs with hx
    · simp [hx, hpend, hexec]
    · exact ⟨rfl, rfl, rfl⟩
  unfold signalAdd
  split
  · exact h1.congr (sameExec_signalWork _)
  · exact h1

/-! ## Steps -/

/-- The timer that a call of `timer_add` adds. -/
def Label.addTimer : Label → Option Ptr
  | .add _ t _ _ => some t
  | _ => none

/-- The step does not add an inactive timer that is pending or executing. -/
def AddIdle (s : State) (l : Label) : Prop :=
  ∀ t ∈ l.addTimer, (s.timer t).flags.active = false → (s.timer t).flags.busy = false

instance (s : State) (l : Label) : Decidable (AddIdle s l) :=
  inferInstanceAs (Decidable (∀ t ∈ l.addTimer, _))

lemma ExecOk.step {s s' : State} {l : Label} {es : List Event} (h : ExecOk s)
    (hl : l.isRuntime = true) (hadd : AddIdle s l) (hstep : step s l = some (s', es)) :
    ExecOk s' := by
  cases trans_of_step hstep with
  | tick => exact h.congr (sameExec_of_timer rfl rfl rfl rfl)
  | setup => simp [Label.isRuntime] at hl
  | failed => exact h
  | add _ _ hactive => exact h.add (hadd _ rfl hactive) _ _
  | @delDetach u t =>
      exact (h.congr (sameExec_exit t s)).congr (sameExec_setFlags ⟨rfl, rfl⟩)
  | @delWait u t =>
      have h1 : ExecOk ((exitState t s).setFlags t fun f => { f with waiting := true }) :=
        (h.congr (sameExec_exit t s)).congr (sameExec_setFlags ⟨rfl, rfl⟩)
      exact h1.congr (sameExec_of_timer rfl rfl rfl rfl)
  | delDone => exact h.congr (sameExec_exit _ _)
  | delStay => exact h.congr (sameExec_setFlags ⟨rfl, rfl⟩)
  | delReturn => exact h.congr (sameExec_of_timer rfl rfl rfl rfl)
  | mod => exact h.congr (sameExec_mod _ _ _)
  | destroy => simp [Label.isRuntime] at hl
  | destroyCleanup => simp [Label.isRuntime] at hl
  | inspectorStart hpc => exact h.congr (sameExec_inspector (by simp [hpc]) (by simp))
  | inspectorExit hpc =>
      have h1 : ExecOk (threadCleanup s) := h.congr (sameExec_of_timer rfl rfl rfl rfl)
      exact h1.congr (sameExec_inspector (by simp [threadCleanup, hpc]) (by simp))
  | inspectorWait hpc =>
      have h1 : ExecOk (s.setState .waiting) := h.congr (sameExec_of_timer rfl rfl rfl rfl)
      exact h1.congr (sameExec_inspector (by simp [State.setState, hpc]) (by simp))
  | @inspectorTimed wake created t hpc =>
      have h1 : ExecOk ((s.setState .timing).setRunning (some t)) :=
        h.congr (sameExec_of_timer rfl rfl rfl rfl)
      exact h1.congr (sameExec_inspector (by simp [State.setState, State.setRunning, hpc])
        (by simp))
  | inspectorShoot hpc _ _ _ hshoot =>
      refine (h.congr (sameExec_shoot _ _)).dispatched (fun x => ?_) hshoot
      rw [shootState_inspector, hpc]
      simp
  | inspectorWoken hpc => exact h.congr (sameExec_inspector (by simp [hpc]) (by simp))
  | timedRemoved hpc => exact h.congr (sameExec_inspector (by simp [hpc]) (by simp))
  | timedSignal hpc =>
      have h1 : ExecOk (s.setRunning none) := h.congr (sameExec_of_timer rfl rfl rfl rfl)
      exact h1.congr (sameExec_inspector (by simp [State.setRunning, hpc]) (by simp))
  | timedShoot hpc _ _ hshoot =>
      have h1 : ExecOk (s.setRunning none) := h.congr (sameExec_of_timer rfl rfl rfl rfl)
      refine (h1.congr (sameExec_shoot _ _)).dispatched (fun x => ?_) hshoot
      rw [shootState_inspector]
      simp [State.setRunning, hpc]
  | @inspectorReturn t hpc =>
      refine h.finish (u := .inspector) hpc rfl rfl (fun x => by simp [State.Runs]) fun v x hv => ?_
      cases v with
      | inspector => exact absurd rfl hv
      | executor i => exact Iff.rfl
      | user i => exact Iff.rfl
  | executorStart hpc => exact h.congr (sameExec_setExecutor (by simp [hpc]) (by simp))
  | executorExit hpc =>
      have h1 : ExecOk (threadCleanup s) := h.congr (sameExec_of_timer rfl rfl rfl rfl)
      exact h1.congr (sameExec_setExecutor (by simp [threadCleanup, hpc]) (by simp))
  | executorWait hpc =>
      have h1 : ExecOk (s.addIdle 1) := h.congr (sameExec_of_timer rfl rfl rfl rfl)
      exact h1.congr (sameExec_setExecutor (by simp [State.addIdle, hpc]) (by simp))
  | executorDrain hpc _ hdrain => exact h.drained hpc (by simp) hdrain
  | executorWoken hpc hdrain =>
      have h1 : ExecOk (s.addIdle (-1)) := h.congr (sameExec_of_timer rfl rfl rfl rfl)
      exact h1.drained hpc (by simp) hdrain
  | @executorReturn i t b s' es hpc hfree hdrain =>
      have hlt : i < s.executors.length := (List.getElem?_eq_some_iff.mp hpc).1
      have hget : ((timerCleanup t s).setExecutor i (.loop b)).executors[i]? =
          some (.loop b) := by
        simp [State.setExecutor, timerCleanup, State.setFlags, State.modify, hlt]
      have h1 : ExecOk ((timerCleanup t s).setExecutor i (.loop b)) := by
        refine h.finish (u := .executor i) ⟨b, hpc⟩ rfl rfl (fun x => ?_) fun v x hv => ?_
        · rintro ⟨b', hb'⟩
          simp [hget] at hb'
        · cases v with
          | inspector => exact Iff.rfl
          | executor j =>
              have hij : i ≠ j := fun hij => hv (by rw [hij])
              simp [State.Runs, State.setExecutor, timerCleanup, State.setFlags, State.modify, hij]
          | user j => exact Iff.rfl
      exact h1.drained hget (by simp) (hdrain.setExecutor _)

/-! ## Runs -/

lemma Fresh.flags {s : State} (h : Fresh s) (t : Ptr) : (s.timer t).flags = {} := by
  rw [h.timer]
  rfl

lemma Fresh.execOk {s : State} (h : Fresh s) : ExecOk s := by
  refine ⟨fun t => ?_, ?_, fun t ht => ?_, fun u t => ?_, fun t ht => ?_⟩
  · simp [h.expired, h.flags]
  · simp [h.expired]
  · simp [h.flags] at ht
  · cases u with
    | inspector => rcases h.inspector with hpc | hpc <;> simp [State.Runs, hpc, h.flags]
    | executor i => simp [State.Runs, h.executors, h.flags]
    | user i => simp [State.Runs, h.flags]
  · simp [h.flags] at ht

end LinuxC.Timer
