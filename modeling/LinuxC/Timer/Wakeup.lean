import LinuxC.Timer.Table

/-!
# The inspector is woken

The inspector sleeps in `pthread_cond_wait` while the table is empty and in
`pthread_cond_timedwait` until its first timer expires.  `WaitOk` is what makes these waits
safe: a change of the table that asks for an earlier look at it comes with a signal.
`timer_add` and `timer_del` keep it.  `timer_mod` does not: it compares with the running timer
only, and when it arms a fired timer again while the table is empty nobody wakes the inspector.
-/

namespace LinuxC.Timer

/-- The inspector is blocked on `work_cond` and no signal to it is pending. -/
def State.Asleep (s : State) : Prop :=
  s.inspector = .waiting false ∨ ∃ t d, s.inspector = .timing t d false

/-- A sleeping inspector does not miss a timer: the table is empty, or the inspector is in the
timed wait, the running timer is mounted, and the deadline is not after the expiry of any mounted
timer. -/
def NoLostWakeup (s : State) : Prop :=
  s.Asleep → s.base.table = [] ∨
    ∃ t d, s.inspector = .timing t d false ∧
      (∃ r, s.base.runningTimer = some r ∧ (s.timer r).flags.mounted = true) ∧
      ∀ x, (s.timer x).flags.mounted = true → ¬ timespecLt (s.timer x).expire d

/-- The invariant of the waits. -/
structure WaitOk (s : State) : Prop where
  state : ∀ sig, s.inspector = .waiting sig → s.base.state = .waiting
  empty : s.inspector = .waiting false → s.base.table = []
  timed : ∀ t d, s.inspector = .timing t d false → s.base.runningTimer = some t ∧
    (s.timer t).expire = d ∧ ∀ x ∈ s.base.table, ¬ timespecLt (s.timer x).expire d

lemma noLostWakeup_of_waitOk {s : State} (hrt : RuntimeInv s) (h : WaitOk s) :
    NoLostWakeup s := by
  rintro (hpc | ⟨t, d, hpc⟩)
  · exact .inl (h.empty hpc)
  · obtain ⟨hrun, -, hall⟩ := h.timed t d hpc
    refine .inr ⟨t, d, hpc, ⟨t, hrun, (hrt.timed t hrun).1⟩, fun x hx => ?_⟩
    exact hall x ((hrt.table.table.mem x).mpr hx)

/-! ## Steps that keep the waits -/

lemma waitOk_of_awake {s : State} (hwait : ∀ sig, s.inspector ≠ .waiting sig)
    (htimed : ∀ t d, s.inspector ≠ .timing t d false) : WaitOk s :=
  ⟨fun sig hpc => absurd hpc (hwait sig), fun hpc => absurd hpc (hwait false),
    fun t d hpc => absurd hpc (htimed t d)⟩

/-- After a signal there is nothing left to show. -/
lemma waitOk_signalWork {s : State}
    (hstate : ∀ sig, s.inspector = .waiting sig → s.base.state = .waiting) :
    WaitOk s.signalWork := by
  refine ⟨fun sig hpc => ?_, fun hpc => ?_, fun t d hpc => ?_⟩
  · cases hins : s.inspector with
    | waiting sig' => exact hstate sig' hins
    | dead | start | loop | timing | running => simp [State.signalWork, hins] at hpc
  · cases hins : s.inspector <;> simp [State.signalWork, hins] at hpc
  · cases hins : s.inspector <;> simp [State.signalWork, hins] at hpc

/-- No timer is added to the table, and no expiry is changed. -/
lemma WaitOk.mono {s s' : State} (h : WaitOk s) (hpc : s'.inspector = s.inspector)
    (hstate : s'.base.state = s.base.state)
    (hrun : s'.base.runningTimer = s.base.runningTimer)
    (htable : ∀ x ∈ s'.base.table, x ∈ s.base.table)
    (hexpire : ∀ x, (s'.timer x).expire = (s.timer x).expire) : WaitOk s' := by
  refine ⟨fun sig hw => ?_, fun hw => ?_, fun t d ht => ?_⟩
  · rw [hstate]
    exact h.state sig (hpc ▸ hw)
  · have hnil := h.empty (hpc ▸ hw)
    exact List.eq_nil_iff_forall_not_mem.mpr fun x hx => by simpa [hnil] using htable x hx
  · obtain ⟨h1, h2, h3⟩ := h.timed t d (hpc ▸ ht)
    refine ⟨hrun.trans h1, (hexpire t).trans h2, fun x hx => ?_⟩
    rw [hexpire]
    exact h3 x (htable x hx)

/-- The timer `t` is put into the table, not before the running timer. -/
lemma WaitOk.insert {s s' : State} {t : Ptr} (h : WaitOk s) (hpc : s'.inspector = s.inspector)
    (hstate : s'.base.state = s.base.state)
    (hrun : s'.base.runningTimer = s.base.runningTimer)
    (htable : ∀ x ∈ s'.base.table, x = t ∨ x ∈ s.base.table)
    (hexpire : ∀ x, x ≠ t → (s'.timer x).expire = (s.timer x).expire)
    (hwait : s.inspector ≠ .waiting false) (hne : s.base.runningTimer ≠ some t)
    (hbefore : ¬ BeforeRunning t s') : WaitOk s' := by
  refine ⟨fun sig hw => ?_, fun hw => absurd (hpc ▸ hw) hwait, fun r d ht => ?_⟩
  · rw [hstate]
    exact h.state sig (hpc ▸ hw)
  · obtain ⟨h1, h2, h3⟩ := h.timed r d (hpc ▸ ht)
    have hrt : r ≠ t := by
      rintro rfl
      exact hne h1
    have hd : (s'.timer r).expire = d := (hexpire r hrt).trans h2
    refine ⟨hrun.trans h1, hd, fun x hx hlt => ?_⟩
    rcases eq_or_ne x t with rfl | hxt
    · exact hbefore ⟨r, hrun.trans h1, by rwa [hd]⟩
    · rw [hexpire x hxt] at hlt
      exact h3 x ((htable x hx).resolve_left hxt) hlt

lemma WaitOk.add {s : State} (h : WaitOk s) (hrt : RuntimeInv s) {t : Ptr} (option : TimerOpt)
    (msec : ℤ) (hactive : (s.timer t).flags.active = false) :
    WaitOk (signalAdd t (addState t option msec s)) := by
  unfold signalAdd
  split_ifs with hsig
  · exact waitOk_signalWork h.state
  · obtain ⟨hwaiting, hbefore⟩ := not_or.mp hsig
    refine h.insert (t := t) rfl rfl rfl (fun x hx => ?_)
      (fun x hx => addState_expire option msec s hx) (fun hpc => hwaiting (h.state false hpc))
      (hrt.running_ne hactive) hbefore
    have hmounted := ((hrt.table.add option msec hactive).table.mem x).mp hx
    rw [addState_flags] at hmounted
    split_ifs at hmounted with hxt
    · exact .inl hxt
    · exact .inr ((hrt.table.table.mem x).mpr hmounted)

lemma modState_state (t : Ptr) (msec : ℤ) (s : State) :
    (modState t msec s).base.state = s.base.state := by
  unfold modState timerUnmount
  split <;> rfl

/-- `timer_mod` keeps the invariant unless the inspector waits for the first timer. -/
lemma WaitOk.mod {s : State} (h : WaitOk s) (hrt : RuntimeInv s) {t : Ptr} (msec : ℤ)
    (hactive : (s.timer t).flags.active = true) (hwait : s.inspector ≠ .waiting false) :
    WaitOk (signalMod t (modState t msec s)) := by
  obtain ⟨hrun, hpc⟩ := modState_running t msec s
  unfold signalMod
  split_ifs with hsig
  · apply waitOk_signalWork
    intro sig hw
    rw [modState_state]
    exact h.state sig (hpc ▸ hw)
  · obtain ⟨hne, hbefore⟩ := not_or.mp hsig
    refine h.insert (t := t) hpc (modState_state t msec s) hrun (fun x hx => ?_)
      (fun x hx => (modState_expire t msec s x).trans (if_neg hx)) hwait (hrun ▸ hne) hbefore
    have hmounted := ((hrt.table.mod msec hactive).table.mem x).mp hx
    rw [modState_flags] at hmounted
    split_ifs at hmounted with hxt
    · exact .inl hxt
    · exact .inr ((hrt.table.table.mem x).mpr hmounted)

lemma WaitOk.setFlags {s : State} (h : WaitOk s) (t : Ptr) (g : Flags → Flags) :
    WaitOk (s.setFlags t g) := by
  exact h.mono rfl rfl rfl (fun x hx => hx) (sameTimes_setFlags t g s).expire

lemma WaitOk.exit {s : State} (h : WaitOk s) (t : Ptr) : WaitOk (exitState t s) := by
  have hremove := (sameTimes_timerRemove t s).expire
  refine WaitOk.setFlags ?_ t _
  unfold timerDrop
  split
  · unfold signalDel
    split
    · exact waitOk_signalWork h.state
    · exact h.mono rfl rfl rfl (fun x hx => List.mem_of_mem_erase hx) hremove
  · exact h

lemma WaitOk.drained {i : ℕ} {b : Bool} {s s' : State} {es : List Event} (h : WaitOk s)
    (hd : Drained i b s s' es) : WaitOk s' := by
  cases hd with
  | @take t rest =>
      refine h.mono rfl rfl rfl (fun x hx => hx) fun x => ?_
      simp only [timerExecute, takeExpired, State.setExecutor, State.setFlags, State.modify]
      split_ifs <;> rfl
  | exit => exact h.mono rfl rfl rfl (fun x hx => hx) fun _ => rfl
  | again => exact h.mono rfl rfl rfl (fun x hx => hx) fun _ => rfl

/-- The inspector that has shot a timer does not wait. -/
lemma waitOk_dispatched {t : Ptr} {s s' : State} {es : List Event}
    {created : Bool} (hd : Dispatched t created s s' es) : WaitOk s' := by
  cases hd with
  | skip => exact waitOk_of_awake (by simp) (by simp)
  | pool => exact waitOk_of_awake (by simp) (by simp)
  | inline => exact waitOk_of_awake (by simp) (by simp)

/-! ## Runs -/

/-- The timer that a call of `timer_mod` arms. -/
def Label.modTimer : Label → Option Ptr
  | .mod _ t _ => some t
  | _ => none

/-- The step does not arm an active timer with `timer_mod` while the inspector sleeps in
`pthread_cond_wait`. -/
def ModSafe (s : State) (l : Label) : Prop :=
  s.inspector = .waiting false → ∀ t ∈ l.modTimer, (s.timer t).flags.active = false

instance (s : State) (l : Label) : Decidable (ModSafe s l) :=
  inferInstanceAs (Decidable (_ → ∀ t ∈ l.modTimer, _))

lemma WaitOk.step {s s' : State} {l : Label} {es : List Event} (hrt : RuntimeInv s)
    (h : WaitOk s) (hl : l.isRuntime = true) (hok : ModSafe s l)
    (hstep : step s l = some (s', es)) : WaitOk s' := by
  cases trans_of_step hstep with
  | tick => exact h.mono rfl rfl rfl (fun x hx => hx) fun _ => rfl
  | setup => simp [Label.isRuntime] at hl
  | failed => exact h
  | add _ _ hactive => exact h.add hrt _ _ hactive
  | delDetach => exact (h.exit _).setFlags _ _
  | @delWait u t =>
      have h1 := (h.exit t).setFlags t fun f => { f with waiting := true }
      exact h1.mono rfl rfl rfl (fun x hx => hx) fun _ => rfl
  | delDone => exact h.exit _
  | delStay => exact h.setFlags _ _
  | delReturn => exact h.mono rfl rfl rfl (fun x hx => hx) fun _ => rfl
  | mod _ _ hactive =>
      apply h.mod hrt _ hactive
      intro hpc
      simp [hok hpc _ rfl] at hactive
  | destroy => simp [Label.isRuntime] at hl
  | destroyCleanup => simp [Label.isRuntime] at hl
  | inspectorStart => exact waitOk_of_awake (by simp) (by simp)
  | inspectorExit => exact waitOk_of_awake (by simp) (by simp)
  | inspectorWait _ _ htable =>
      exact ⟨fun _ _ => rfl, fun _ => htable, fun t d hpc => by simp at hpc⟩
  | @inspectorTimed wake created t hpc hstate hhead hearly =>
      refine ⟨fun sig hno => by simp at hno, fun hno => by simp at hno, fun r d htimed => ?_⟩
      obtain ⟨rfl, rfl, -⟩ := Inspector.timing.inj htimed
      exact ⟨rfl, rfl, fun x hx => hrt.table.table.head_le hhead hx⟩
  | inspectorShoot _ _ _ _ hshoot => exact waitOk_dispatched hshoot
  | inspectorWoken => exact waitOk_of_awake (by simp) (by simp)
  | timedRemoved => exact waitOk_of_awake (by simp) (by simp)
  | timedSignal => exact waitOk_of_awake (by simp) (by simp)
  | timedShoot _ _ _ hshoot => exact waitOk_dispatched hshoot
  | inspectorReturn => exact waitOk_of_awake (by simp) (by simp)
  | executorStart => exact h.mono rfl rfl rfl (fun x hx => hx) fun _ => rfl
  | executorExit => exact h.mono rfl rfl rfl (fun x hx => hx) fun _ => rfl
  | executorWait => exact h.mono rfl rfl rfl (fun x hx => hx) fun _ => rfl
  | executorDrain _ _ hdrain => exact h.drained hdrain
  | executorWoken _ hdrain =>
      have h1 : WaitOk (s.addIdle (-1)) := h.mono rfl rfl rfl (fun x hx => hx) fun _ => rfl
      exact h1.drained hdrain
  | @executorReturn i t b s' es hpc hfree hdrain =>
      have h1 : WaitOk (timerCleanup t s) := h.setFlags _ _
      exact h1.drained hdrain

/-- **No lost wake-up.**  In every run of the runtime in which `timer_mod` does not arm an active
timer while the inspector sleeps in `pthread_cond_wait`, a sleeping inspector never misses a
timer. -/
theorem no_lost_wakeup {users : Option TimerOption} {created : Bool} {ls : List Label}
    {now : Timespec} {s : State} {es : List Event}
    (hrun : run step (.setup users created :: ls) (boot now) = some (s, es))
    (hruntime : ∀ l ∈ ls, l.isRuntime = true)
    (hsafe : Along step ModSafe (.setup users created :: ls) (boot now)) : NoLostWakeup s := by
  have hfresh : ∀ {s : State}, Fresh s → WaitOk s := by
    intro s hs
    rcases hs.inspector with hpc | hpc
    · exact waitOk_of_awake (by simp [hpc]) (by simp [hpc])
    · exact waitOk_of_awake (by simp [hpc]) (by simp [hpc])
  obtain ⟨hrt, hwait⟩ := runtime_invariant hfresh WaitOk.step hruntime hsafe hrun
  exact noLostWakeup_of_waitOk hrt hwait

/-- A one-shot timer fires, and the inspector goes to sleep on an empty table. -/
def firedLabels : List Label :=
  [.add (.user 0) 1 ⟨false, false⟩ 0, .inspectorStart, .inspectorLoop 0 false, .inspectorReturn,
    .inspectorLoop 0 false]

/-- A second timer is added then. -/
theorem no_lost_wakeup_sample :
    ∃ s es, run step (.setup none true :: firedLabels ++ [.add (.user 0) 2 ⟨false, false⟩ 1000])
      (boot ⟨0, 0⟩) = some (s, es) ∧ NoLostWakeup s := by
  obtain ⟨s, es, hrun⟩ : ∃ s es,
      run step (.setup none true :: firedLabels ++ [.add (.user 0) 2 ⟨false, false⟩ 1000])
        (boot ⟨0, 0⟩) = some (s, es) := ⟨_, _, rfl⟩
  exact ⟨s, es, hrun, no_lost_wakeup hrun (by decide) (by decide)⟩

/-- **A lost wake-up.**  If the fired timer is armed again with `timer_mod` instead, the inspector
sleeps without a deadline and without a signal while the timer is in the table. -/
theorem wakeup_lost :
    ¬ ∀ (ls : List Label) (s : State) (es : List Event), (∀ l ∈ ls, l.isRuntime = true) →
      run step (.setup none true :: ls) (boot ⟨0, 0⟩) = some (s, es) → NoLostWakeup s := by
  intro h
  have hbad := h (firedLabels ++ [.mod (.user 0) 1 1000]) _ _ (by decide) rfl (.inl rfl)
  rcases hbad with htable | ⟨t, d, hpc, -⟩
  · exact absurd htable (by decide)
  · cases hpc

end LinuxC.Timer
