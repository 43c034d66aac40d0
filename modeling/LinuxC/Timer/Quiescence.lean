import LinuxC.Timer.Execution

/-!
# `timer_del` is a quiescence point

`timer_del` relies on the flags `TMR_F_PENDING` and `TMR_F_EXECUTING`: it returns to another
thread only when both are off.  They are right while `timer_add` is kept away from the timers
that are pending or executing (`AddIdle`).  The callers are asked for less: a pending timer is
active or some `timer_del` waits for it (`WaitersOk`), so that it is enough not to add a timer
that is being deleted (`DelSafe`), nor one whose function has deleted it and still runs
(`AddSafe`).
-/

namespace LinuxC.Timer

/-! ## The callers -/

/-- A timer for which `timer_del` waits is not active, and a pending timer is active or waited
for. -/
structure WaitersOk (s : State) : Prop where
  inactive : ∀ w ∈ s.waiters, (s.timer w.timer).flags.active = false
  pending : ∀ t, (s.timer t).flags.pending = true →
    (s.timer t).flags.active = true ∨ ∃ w ∈ s.waiters, w.timer = t

/-- No call of `timer_del` for the timer that the step adds is in progress. -/
def DelSafe (s : State) (l : Label) : Prop :=
  ∀ t ∈ l.addTimer, ∀ w ∈ s.waiters, w.timer ≠ t

/-- The step does not add an inactive timer while its function runs. -/
def AddSafe (s : State) (l : Label) : Prop :=
  ∀ t ∈ l.addTimer, (s.timer t).flags.active = false → (s.timer t).flags.executing = false

instance (s : State) (l : Label) : Decidable (DelSafe s l) :=
  inferInstanceAs (Decidable (∀ t ∈ l.addTimer, _))

instance (s : State) (l : Label) : Decidable (AddSafe s l) :=
  inferInstanceAs (Decidable (∀ t ∈ l.addTimer, _))

/-- A timer that `timer_add` accepts is neither pending nor executing. -/
lemma WaitersOk.addIdle {s : State} {l : Label} (h : WaitersOk s) (hdel : DelSafe s l)
    (hadd : AddSafe s l) : AddIdle s l := by
  intro t ht hactive
  have hpend : (s.timer t).flags.pending = false := by
    rw [← Bool.not_eq_true]
    intro hp
    rcases h.pending t hp with hno | ⟨w, hw, hwt⟩
    · simp [hactive] at hno
    · exact hdel t ht w hw hwt
  simp [Flags.busy, hpend, hadd t ht hactive]

/-! ## The waiting calls of `timer_del` -/

/-- The waiting calls and the active timers are the same, and no timer becomes pending. -/
structure Calm (s s' : State) : Prop where
  waiters : s'.waiters = s.waiters
  active : ∀ t, (s'.timer t).flags.active = (s.timer t).flags.active
  pending : ∀ t, (s'.timer t).flags.pending = true → (s.timer t).flags.pending = true

lemma Calm.trans {s s' s'' : State} (h : Calm s s') (h' : Calm s' s'') : Calm s s'' :=
  ⟨h'.waiters.trans h.waiters, fun t => (h'.active t).trans (h.active t),
    fun t ht => h.pending t (h'.pending t ht)⟩

lemma calm_of_timer {s s' : State} (hw : s'.waiters = s.waiters) (htimer : s'.timer = s.timer) :
    Calm s s' :=
  ⟨hw, fun t => by rw [htimer], fun t => by rw [htimer]; exact id⟩

lemma calm_shoot (t : Ptr) (s : State) : Calm s (shootState t s) := by
  simp only [shootState, reinsert]
  split
  · refine ⟨rfl, fun x => ?_, fun x hx => ?_⟩
    · simp only [timerInsert, timerMount, timerKey, timerRemove, State.setState, State.setFlags,
        State.modify]
      split_ifs <;> rfl
    · simp only [timerInsert, timerMount, timerKey, timerRemove, State.setState, State.setFlags,
        State.modify] at hx
      split_ifs at hx <;> exact hx
  · refine ⟨rfl, fun x => ?_, fun x hx => ?_⟩
    · simp only [timerRemove, State.setState, State.setFlags, State.modify]
      split_ifs <;> rfl
    · simp only [timerRemove, State.setState, State.setFlags, State.modify] at hx
      split_ifs at hx <;> exact hx

lemma calm_timed (t : Ptr) (s : State) : Calm s (shootState t (s.setRunning none)) := by
  have hcalm : Calm s (s.setRunning none) := calm_of_timer rfl rfl
  exact hcalm.trans (calm_shoot t _)

lemma calm_setFlags {s : State} {t : Ptr} {g : Flags → Flags}
    (hg : (g (s.timer t).flags).active = (s.timer t).flags.active ∧
      (g (s.timer t).flags).pending = (s.timer t).flags.pending) : Calm s (s.setFlags t g) := by
  refine ⟨rfl, fun x => ?_, fun x hx => ?_⟩
  · simp only [State.setFlags, State.modify]
    split_ifs with hxt
    · rw [hxt]
      exact hg.1
    · rfl
  · simp only [State.setFlags, State.modify] at hx
    split_ifs at hx with hxt
    · rw [hxt] at hx ⊢
      exact hg.2 ▸ hx
    · exact hx

lemma calm_mod (t : Ptr) (msec : ℤ) (s : State) : Calm s (signalMod t (modState t msec s)) := by
  have h1 : Calm s (modState t msec s) := by
    refine ⟨?_, fun x => ?_, fun x hx => ?_⟩
    · unfold modState timerUnmount
      split <;> rfl
    · rw [modState_flags]
      split_ifs with hx
      · rw [hx]
      · rfl
    · rw [modState_flags] at hx
      split_ifs at hx with hxt
      · rw [hxt]
        exact hx
      · exact hx
  unfold signalMod
  split
  · exact h1.trans (calm_of_timer rfl rfl)
  · exact h1

/-- A timer that its own function has deleted is inactive already. -/
lemma calm_cleanup {s : State} (h : TableInv s) (t : Ptr) : Calm s (timerCleanup t s) := by
  refine ⟨rfl, fun x => ?_, fun x hx => ?_⟩
  · have hdetach := (h.flags x).detach
    simp only [timerCleanup, State.setFlags, State.modify]
    split_ifs
    · cases hd : (s.timer x).flags.detach with
      | true => simp [hdetach hd]
      | false => simp
    · rfl
  · simp only [timerCleanup, State.setFlags, State.modify] at hx
    split_ifs at hx <;> exact hx

lemma calm_drained {i : ℕ} {b : Bool} {s s' : State} {es : List Event}
    (hd : Drained i b s s' es) : Calm s s' := by
  cases hd with
  | @take t rest hexp hpend =>
      refine ⟨rfl, fun x => ?_, fun x hx => ?_⟩
      · simp only [timerExecute, takeExpired, State.setExecutor, State.setFlags, State.modify]
        split_ifs <;> rfl
      · simp only [timerExecute, takeExpired, State.setExecutor, State.setFlags,
          State.modify] at hx
        split_ifs at hx
        exact hx
  | exit => exact calm_of_timer rfl rfl
  | again => exact calm_of_timer rfl rfl

lemma exitState_flags (t : Ptr) (s : State) (x : Ptr) :
    ((exitState t s).timer x).flags =
      if x = t then { (s.timer t).flags with mounted := false, active := false }
      else (s.timer x).flags := by
  have hdrop : ((timerDrop t s).timer x).flags =
      if x = t then { (s.timer t).flags with mounted := false } else (s.timer x).flags := by
    have hremove : ((timerRemove t s).timer x).flags =
        if x = t then { (s.timer t).flags with mounted := false } else (s.timer x).flags := by
      simp only [timerRemove, State.setFlags, State.modify]
      split_ifs with hx
      · rw [hx]
      · rfl
    unfold timerDrop
    split
    · unfold signalDel
      split <;> exact hremove
    · rename_i hno
      split_ifs with hx
      · rw [hx, ← Bool.eq_false_of_not_eq_true hno]
      · rfl
  simp only [exitState, State.setFlags, State.modify]
  split_ifs with hx
  · rw [hdrop, if_pos hx]
  · rw [hdrop, if_neg hx]

lemma exitState_waiters (t : Ptr) (s : State) : (exitState t s).waiters = s.waiters := by
  unfold exitState timerDrop signalDel
  split_ifs <;> rfl

lemma WaitersOk.calm {s s' : State} (h : WaitersOk s) (hc : Calm s s') : WaitersOk s' := by
  refine ⟨fun w hw => ?_, fun t ht => ?_⟩
  · rw [hc.active]
    exact h.inactive w (hc.waiters ▸ hw)
  · rw [hc.active, hc.waiters]
    exact h.pending t (hc.pending t ht)

/-- A timer that is deleted is waited for if it is pending. -/
lemma WaitersOk.exit {s s' : State} {t : Ptr} (h : WaitersOk s)
    (hwaiters : ∀ w ∈ s'.waiters, w ∈ s.waiters ∨ w.timer = t)
    (hkept : ∀ w ∈ s.waiters, w ∈ s'.waiters)
    (hactive : ∀ x, (s'.timer x).flags.active = ((exitState t s).timer x).flags.active)
    (hpending : ∀ x, (s'.timer x).flags.pending = ((exitState t s).timer x).flags.pending)
    (hwait : ((exitState t s).timer t).flags.pending = true → ∃ w ∈ s'.waiters, w.timer = t) :
    WaitersOk s' := by
  have hother : ∀ x, x ≠ t → ((exitState t s).timer x).flags = (s.timer x).flags := by
    intro x hx
    rw [exitState_flags, if_neg hx]
  refine ⟨fun w hw => ?_, fun x hx => ?_⟩
  · rw [hactive]
    rcases eq_or_ne w.timer t with hwt | hwt
    · rw [hwt, exitState_active]
    · rw [hother _ hwt]
      exact h.inactive w ((hwaiters w hw).resolve_right hwt)
  · rw [hpending] at hx
    rw [hactive]
    rcases eq_or_ne x t with rfl | hxt
    · exact .inr (hwait hx)
    · rw [hother x hxt] at hx ⊢
      exact (h.pending x hx).imp_right fun ⟨w, hw, hwx⟩ => ⟨w, hkept w hw, hwx⟩

lemma timerThreadExecute_flags (t : Ptr) (wake : ℕ) (created : Bool) (s : State) (x : Ptr) :
    ((timerThreadExecute t wake created s).timer x).flags =
      if x = t then { (s.timer t).flags with pending := true } else (s.timer x).flags := by
  have htimer : (timerThreadExecute t wake created s).timer = (timerPend t s).timer := by
    unfold timerThreadExecute
    split_ifs <;> rfl
  rw [htimer]
  simp only [timerPend, State.setFlags, State.modify]
  split_ifs with hx
  · rw [hx]
  · rfl

lemma timerThreadExecute_waiters (t : Ptr) (wake : ℕ) (created : Bool) (s : State) :
    (timerThreadExecute t wake created s).waiters = s.waiters := by
  unfold timerThreadExecute
  split_ifs <;> rfl

lemma calm_execute (u : Tid) (t : Ptr) (s : State) : Calm s (timerExecute u t s) := by
  refine ⟨rfl, fun x => ?_, fun x hx => ?_⟩
  · simp only [timerExecute, State.modify]
    split_ifs <;> rfl
  · simp only [timerExecute, State.modify] at hx
    split_ifs at hx <;> exact hx

lemma WaitersOk.dispatched {t : Ptr} {s s' : State} {es : List Event} (h : WaitersOk s)
    (hactive : (s.timer t).flags.active = true) {created : Bool}
    (hd : Dispatched t created s s' es) : WaitersOk s' := by
  cases hd with
  | skip => exact h.calm (calm_of_timer rfl rfl)
  | pool wake hbusy =>
      refine ⟨fun w hw => ?_, fun x hx => ?_⟩
      · have hin := h.inactive w ((timerThreadExecute_waiters t wake created s) ▸ hw)
        have hne : w.timer ≠ t := by
          intro hwt
          rw [hwt, hactive] at hin
          cases hin
        simp only [timerThreadExecute_flags, if_neg hne, hin]
      · simp only [timerThreadExecute_flags, timerThreadExecute_waiters] at hx ⊢
        split_ifs at hx ⊢ with hxt
        · exact .inl hactive
        · exact h.pending x hx
  | inline => exact h.calm ((calm_execute .inspector t s).trans (calm_of_timer rfl rfl))

lemma RuntimeInv.shoot_active {s : State} (h : RuntimeInv s) {t : Ptr} (ht : t ∈ s.base.table) :
    ((shootState t s).timer t).flags.active = true := by
  rw [(calm_shoot t s).active]
  exact h.table.active ((h.table.table.mem t).mp ht)

lemma WaitersOk.step {s s' : State} {l : Label} {es : List Event} (h : WaitersOk s)
    (hrt : RuntimeInv s) (he : ExecOk s) (hl : l.isRuntime = true) (hdel : DelSafe s l)
    (hstep : step s l = some (s', es)) : WaitersOk s' := by
  cases trans_of_step hstep with
  | tick => exact h.calm (calm_of_timer rfl rfl)
  | setup => simp [Label.isRuntime] at hl
  | failed => exact h
  | @add u t option msec _ _ hactive =>
      have hflags := addState_flags t option msec s
      have h1 : WaitersOk (addState t option msec s) := by
        refine ⟨fun w hw => ?_, fun x hx => ?_⟩
        · rw [hflags, if_neg (hdel t rfl w hw)]
          exact h.inactive w hw
        · rw [hflags] at hx ⊢
          split_ifs at hx ⊢
          exact h.pending x hx
      unfold signalAdd
      split
      · exact h1.calm (calm_of_timer rfl rfl)
      · exact h1
  | @delDetach u t _ _ hexec _ =>
      refine h.exit (t := t) (fun w hw => .inl ?_) (fun w hw => ?_) (fun x => ?_) (fun x => ?_) ?_
      · rwa [← exitState_waiters t s]
      · rwa [← exitState_waiters t s] at hw
      · simp only [State.setFlags, State.modify]
        split_ifs <;> rfl
      · simp only [State.setFlags, State.modify]
        split_ifs <;> rfl
      · intro hpend
        have hno := (he.congr (sameExec_exit t s)).exclusive t hpend
        simp [hexec] at hno
  | @delWait u t =>
      refine h.exit (t := t) (fun w hw => ?_) (fun w hw => ?_) (fun x => ?_) (fun x => ?_) ?_
      · rcases List.mem_cons.mp hw with rfl | hw
        · exact .inr rfl
        · exact .inl (by rwa [← exitState_waiters t s])
      · exact List.mem_cons_of_mem _ (by rwa [exitState_waiters t s])
      · simp only [State.setFlags, State.modify]
        split_ifs <;> rfl
      · simp only [State.setFlags, State.modify]
        split_ifs <;> rfl
      · exact fun _ => ⟨⟨u, t⟩, List.mem_cons_self, rfl⟩
  | @delDone u t _ _ hbusy =>
      refine h.exit (t := t) (fun w hw => .inl ?_) (fun w hw => ?_) (fun x => rfl)
        (fun x => rfl) ?_
      · rwa [← exitState_waiters t s]
      · rwa [exitState_waiters t s]
      · intro hpend
        simp [Flags.busy, hpend] at hbusy
  | delStay => exact h.calm (calm_setFlags ⟨rfl, rfl⟩)
  | @delReturn w hw hbusy =>
      refine ⟨fun w' hw' => h.inactive w' (List.mem_of_mem_erase hw'), fun x hx => ?_⟩
      refine (h.pending x hx).imp_right ?_
      rintro ⟨w', hw', hwx⟩
      refine ⟨w', ?_, hwx⟩
      refine (List.mem_erase_of_ne ?_).mpr hw'
      rintro rfl
      have hpend : (s.timer w'.timer).flags.pending = true := by
        rw [hwx]
        exact hx
      simp [Flags.busy, hpend] at hbusy
  | mod => exact h.calm (calm_mod _ _ _)
  | destroy => simp [Label.isRuntime] at hl
  | destroyCleanup => simp [Label.isRuntime] at hl
  | inspectorStart => exact h.calm (calm_of_timer rfl rfl)
  | inspectorExit => exact h.calm (calm_of_timer rfl rfl)
  | inspectorWait => exact h.calm (calm_of_timer rfl rfl)
  | inspectorTimed => exact h.calm (calm_of_timer rfl rfl)
  | inspectorShoot _ _ hhead _ hshoot =>
      exact (h.calm (calm_shoot _ _)).dispatched
        (hrt.shoot_active (List.mem_of_mem_head? hhead)) hshoot
  | inspectorWoken => exact h.calm (calm_of_timer rfl rfl)
  | timedRemoved => exact h.calm (calm_of_timer rfl rfl)
  | timedSignal => exact h.calm (calm_of_timer rfl rfl)
  | timedShoot hpc hrun _ hshoot =>
      have hactive := hrt.table.active (hrt.timed.mem hpc hrun).2
      exact (h.calm (calm_timed _ s)).dispatched (((calm_timed _ s).active _).trans hactive) hshoot
  | inspectorReturn =>
      exact h.calm ((calm_cleanup hrt.table _).trans (calm_of_timer rfl rfl))
  | executorStart => exact h.calm (calm_of_timer rfl rfl)
  | executorExit => exact h.calm (calm_of_timer rfl rfl)
  | executorWait => exact h.calm (calm_of_timer rfl rfl)
  | executorDrain _ _ hdrain => exact h.calm (calm_drained hdrain)
  | executorWoken _ hdrain =>
      have hcalm : Calm s (s.addIdle (-1)) := calm_of_timer rfl rfl
      exact h.calm (hcalm.trans (calm_drained hdrain))
  | executorReturn _ _ hdrain =>
      exact h.calm ((calm_cleanup hrt.table _).trans (calm_drained hdrain))

/-! ## Deleted timers stay deleted -/

/-- The timer is neither active nor pending. -/
structure Quiet (t : Ptr) (s : State) : Prop where
  active : (s.timer t).flags.active = false
  pending : (s.timer t).flags.pending = false

lemma Quiet.calm {t : Ptr} {s s' : State} (h : Quiet t s) (hc : Calm s s') : Quiet t s' := by
  refine ⟨(hc.active t).trans h.active, ?_⟩
  rw [← Bool.not_eq_true]
  intro hpend
  have hold := hc.pending t hpend
  simp [h.pending] at hold

lemma Quiet.congr {t : Ptr} {s s' : State} (h : Quiet t s)
    (hflags : (s'.timer t).flags = (s.timer t).flags) : Quiet t s' :=
  ⟨by rw [hflags, h.active], by rw [hflags, h.pending]⟩

lemma Quiet.exit {t : Ptr} {s : State} (h : Quiet t s) (x : Ptr) : Quiet t (exitState x s) := by
  constructor
  · rw [exitState_flags]
    split_ifs
    · rfl
    · exact h.active
  · rw [exitState_flags]
    split_ifs with htx
    · rw [← htx]
      exact h.pending
    · exact h.pending

lemma Quiet.dispatched {t x : Ptr} {s s' : State} {es : List Event} (h : Quiet t s)
    (hactive : (s.timer x).flags.active = true) {created : Bool}
    (hd : Dispatched x created s s' es) :
    Quiet t s' ∧ ∀ u, .started u t ∉ es := by
  have hne : t ≠ x := by
    rintro rfl
    simp [h.active] at hactive
  cases hd with
  | skip => exact ⟨h.congr rfl, by simp⟩
  | pool wake hbusy =>
      refine ⟨h.congr ?_, by simp⟩
      exact (timerThreadExecute_flags x wake created s t).trans (if_neg hne)
  | inline =>
      refine ⟨h.calm ((calm_execute .inspector x s).trans (calm_of_timer rfl rfl)), fun u => ?_⟩
      simp [hne]

lemma Quiet.drained {t : Ptr} {i : ℕ} {b : Bool} {s s' : State} {es : List Event} (h : Quiet t s)
    (hd : Drained i b s s' es) : Quiet t s' ∧ ∀ u, .started u t ∉ es := by
  refine ⟨h.calm (calm_drained hd), fun u => ?_⟩
  cases hd with
  | @take x rest hexp hpend =>
      have hne : t ≠ x := by
        rintro rfl
        simp [h.pending] at hpend
      simp [hne]
  | exit => simp
  | again => simp

/-- **A quiet timer stays quiet** until it is added again, and its function is not started. -/
lemma Quiet.step {t : Ptr} {s s' : State} {l : Label} {es : List Event} (h : Quiet t s)
    (hrt : RuntimeInv s) (hl : l.isRuntime = true) (hstep : step s l = some (s', es))
    (hno : ∀ u, .addOk u t ∉ es) : Quiet t s' ∧ ∀ u, .started u t ∉ es := by
  cases trans_of_step hstep with
  | tick => exact ⟨h.congr rfl, by simp⟩
  | setup => simp [Label.isRuntime] at hl
  | failed => exact ⟨h, by simp⟩
  | @add u x option msec =>
      have hne : t ≠ x := by
        rintro rfl
        exact hno u (by simp)
      have h1 : Quiet t (addState x option msec s) :=
        h.congr ((addState_flags x option msec s t).trans (if_neg hne))
      refine ⟨?_, by simp⟩
      unfold signalAdd
      split
      · exact h1.congr rfl
      · exact h1
  | delDetach => exact ⟨(h.exit _).calm (calm_setFlags ⟨rfl, rfl⟩), by simp⟩
  | @delWait u x =>
      have h1 : Quiet t ((exitState x s).setFlags x fun f => { f with waiting := true }) :=
        (h.exit x).calm (calm_setFlags ⟨rfl, rfl⟩)
      exact ⟨h1.congr rfl, by simp⟩
  | delDone => exact ⟨h.exit _, by simp⟩
  | delStay => exact ⟨h.calm (calm_setFlags ⟨rfl, rfl⟩), by simp⟩
  | delReturn => exact ⟨h.congr rfl, by simp⟩
  | mod => exact ⟨h.calm (calm_mod _ _ _), by simp⟩
  | destroy => simp [Label.isRuntime] at hl
  | destroyCleanup => simp [Label.isRuntime] at hl
  | inspectorStart => exact ⟨h.congr rfl, by simp⟩
  | inspectorExit => exact ⟨h.congr rfl, by simp⟩
  | inspectorWait => exact ⟨h.congr rfl, by simp⟩
  | inspectorTimed => exact ⟨h.congr rfl, by simp⟩
  | inspectorShoot _ _ hhead _ hshoot =>
      obtain ⟨h1, h2⟩ := (h.calm (calm_shoot _ _)).dispatched
        (hrt.shoot_active (List.mem_of_mem_head? hhead)) hshoot
      exact ⟨h1, by simpa using h2⟩
  | inspectorWoken => exact ⟨h.congr rfl, by simp⟩
  | timedRemoved => exact ⟨h.congr rfl, by simp⟩
  | timedSignal => exact ⟨h.congr rfl, by simp⟩
  | timedShoot hpc hrun _ hshoot =>
      have hactive := hrt.table.active (hrt.timed.mem hpc hrun).2
      exact (h.calm (calm_timed _ s)).dispatched (((calm_timed _ s).active _).trans hactive) hshoot
  | inspectorReturn =>
      exact ⟨h.calm ((calm_cleanup hrt.table _).trans (calm_of_timer rfl rfl)), by simp⟩
  | executorStart => exact ⟨h.congr rfl, by simp⟩
  | executorExit => exact ⟨h.congr rfl, by simp⟩
  | executorWait => exact ⟨h.congr rfl, by simp⟩
  | executorDrain _ _ hdrain =>
      obtain ⟨h1, h2⟩ := h.drained hdrain
      exact ⟨h1, by simpa using h2⟩
  | executorWoken _ hdrain =>
      have h1 : Quiet t (s.addIdle (-1)) := h.congr rfl
      exact h1.drained hdrain
  | executorReturn _ _ hdrain => exact (h.calm (calm_cleanup hrt.table _)).drained hdrain

/-! ## The return from `timer_del` -/

lemma Dispatched.not_delOk {x t : Ptr} {u : Tid} {s s' : State} {es : List Event}
    {created : Bool} (hd : Dispatched x created s s' es) : .delOk u t ∉ es := by
  cases hd <;> simp

lemma Drained.not_delOk {i : ℕ} {b : Bool} {t : Ptr} {u : Tid} {s s' : State} {es : List Event}
    (hd : Drained i b s s' es) : .delOk u t ∉ es := by
  cases hd <;> simp

/-- `timer_del` returns to a thread that does not run the timer's function only when the timer is
neither pending nor executing. -/
lemma del_quiet {u : Tid} {t : Ptr} {s s' : State} {l : Label} {es : List Event}
    (he : ExecOk s) (hw : WaitersOk s) (hl : l.isRuntime = true)
    (hstep : step s l = some (s', es)) (hret : .delOk u t ∈ es) (hself : ¬ s'.Runs u t) :
    Quiet t s' ∧ (s'.timer t).flags.executing = false ∧ l.addTimer = none := by
  cases trans_of_step hstep with
  | tick | failed | delWait | delStay | mod | inspectorStart | inspectorExit | inspectorWait |
      inspectorTimed | inspectorWoken | timedRemoved | timedSignal | inspectorReturn |
      executorStart | executorExit | executorWait | add => simp at hret
  | setup | destroy | destroyCleanup => simp [Label.isRuntime] at hl
  | inspectorShoot _ _ _ _ hshoot => exact absurd (by simpa using hret) hshoot.not_delOk
  | timedShoot _ _ _ hshoot => exact absurd hret hshoot.not_delOk
  | executorDrain _ _ hdrain => exact absurd (by simpa using hret) hdrain.not_delOk
  | executorWoken _ hdrain => exact absurd hret hdrain.not_delOk
  | executorReturn _ _ hdrain => exact absurd hret hdrain.not_delOk
  | @delDetach v x _ _ hexec hthread =>
      obtain ⟨rfl, rfl⟩ : u = v ∧ t = x := by simpa using hret
      -- the thread that the timer names runs its function
      have hruns := ((he.congr (sameExec_exit t s)).runs u t).mpr ⟨hexec, hthread⟩
      exact absurd (((sameExec_setFlags ⟨rfl, rfl⟩).runs u t).mpr hruns) hself
  | @delDone v x _ _ hbusy =>
      obtain ⟨rfl, rfl⟩ : u = v ∧ t = x := by simpa using hret
      obtain ⟨hpend, hexec⟩ : _ = false ∧ _ = false := by simpa [Flags.busy] using hbusy
      exact ⟨⟨exitState_active t s, hpend⟩, hexec, rfl⟩
  | @delReturn w hmem hbusy =>
      obtain ⟨rfl, rfl⟩ : u = w.tid ∧ t = w.timer := by simpa using hret
      obtain ⟨hpend, hexec⟩ : _ = false ∧ _ = false := by simpa [Flags.busy] using hbusy
      exact ⟨⟨hw.inactive w hmem, hpend⟩, hexec, rfl⟩

/-! ## Runs -/

lemma Fresh.waitersOk {s : State} (h : Fresh s) : WaitersOk s := by
  refine ⟨fun w hw => ?_, fun t ht => ?_⟩
  · simp [h.waiters] at hw
  · simp [h.flags] at ht

/-- A quiet timer is not started in a run in which it is not added. -/
lemma not_started_of_quiet {t : Ptr} {ls : List Label} {s s' : State} {es : List Event}
    (h : Quiet t s) (hrt : RuntimeInv s) (hruntime : ∀ l ∈ ls, l.isRuntime = true)
    (hrun : run step ls s = some (s', es)) (hno : ∀ u, .addOk u t ∉ es) :
    ∀ u, .started u t ∉ es := by
  have hadd := along_of_events hrun (Q := fun e => ∀ u, e ≠ .addOk u t) (by
    rintro e he u rfl
    exact hno u he)
  have hsafe : (RuntimeInv s' ∧ Quiet t s') ∧ ∀ e ∈ es, ∀ u, e ≠ .started u t := by
    refine run_safe (I := fun s => RuntimeInv s ∧ Quiet t s) (fun {s l s' es} hs hok hstep => ?_)
      ⟨hrt, h⟩ ((along_of_forall hruntime s).and hadd) hrun
    obtain ⟨h1, h2⟩ := hs.2.step hs.1 hok.1 hstep fun u hu => hok.2 s' es hstep _ hu u rfl
    refine ⟨⟨hs.1.step hok.1 hstep, h1⟩, ?_⟩
    rintro e he u rfl
    exact h2 u he
  exact fun u hu => hsafe.2 _ hu u rfl

/-- No trace of the timer is left in the runtime. -/
def Quiescent (t : Ptr) (s : State) : Prop :=
  t ∉ s.base.table ∧ t ∉ s.base.expiredTimer ∧ ∀ v, ¬ s.Runs v t

lemma quiescent_of_quiet {t : Ptr} {s : State} (hrt : RuntimeInv s) (he : ExecOk s)
    (h : Quiet t s) (hexec : (s.timer t).flags.executing = false) : Quiescent t s := by
  refine ⟨fun hmem => ?_, fun hmem => ?_, fun v hv => ?_⟩
  · have hmounted := (hrt.table.table.mem t).mp hmem
    simp [(hrt.table.flags t).inactive h.active] at hmounted
  · have hpend := (he.pending t).mp hmem
    simp [h.pending] at hpend
  · simp [((he.runs v t).mp hv).1] at hexec

/-- **`timer_del` is a quiescence point.**  In every run of the runtime in which no timer is
added while it is being deleted, and none while it is inactive and its function runs: when
`timer_del` returns 0 to a thread that does not run the timer's function, the timer is not in the
table, not in `expired_timer` and not executed by any thread, and its function is not started
before the timer is added again. -/
theorem timer_del_quiescent {users : Option TimerOption} {created : Bool} {ls : List Label}
    {l : Label} {now : Timespec} {s s' : State} {es es' : List Event} {u : Tid} {t : Ptr}
    (hrun : run step (.setup users created :: ls) (boot now) = some (s, es))
    (hruntime : ∀ x ∈ ls, x.isRuntime = true)
    (hdel : Along step DelSafe (.setup users created :: ls) (boot now))
    (hadd : Along step AddSafe (.setup users created :: ls) (boot now))
    (hl : l.isRuntime = true) (hlast : step s l = some (s', es'))
    (hret : .delOk u t ∈ es') (hself : ¬ s'.Runs u t) :
    Quiescent t s' ∧ ∀ (ls' : List Label) (s'' : State) (es'' : List Event),
      (∀ x ∈ ls', x.isRuntime = true) → run step ls' s' = some (s'', es'') →
      (∀ v, .addOk v t ∉ es'') → ∀ v, .started v t ∉ es'' := by
  obtain ⟨hrt, he, hw⟩ := runtime_invariant (I := fun s => ExecOk s ∧ WaitersOk s)
    (fun hfresh => ⟨hfresh.execOk, hfresh.waitersOk⟩)
    (fun hrt hinv hl hok hstep => ⟨hinv.1.step hl (hinv.2.addIdle hok.1 hok.2) hstep,
      hinv.2.step hrt hinv.1 hl hok.1 hstep⟩) hruntime (hdel.and hadd) hrun
  obtain ⟨hquiet, hexec, hnone⟩ := del_quiet he hw hl hlast hret hself
  have hrt' := hrt.step hl hlast
  have he' : ExecOk s' := he.step hl (by simp [AddIdle, hnone]) hlast
  refine ⟨quiescent_of_quiet hrt' he' hquiet hexec, fun ls' s'' es'' hls' hrun' hno => ?_⟩
  exact not_started_of_quiet hquiet hrt' hls' hrun' hno

/-- A timer fires, the inspector runs its function, and another thread deletes the timer: it has
to wait until the function returns. -/
def deleteRun : List Label :=
  [.add (.user 0) 1 ⟨true, false⟩ 0, .inspectorStart, .inspectorLoop 0 false, .del (.user 0) 1,
    .inspectorReturn, .inspectorLoop 0 false]

/-- The wait of `timer_del` ends then. -/
theorem timer_del_quiescent_sample :
    ∃ s es s' es', run step (.setup none true :: deleteRun) (boot ⟨0, 0⟩) = some (s, es) ∧
      step s (.delWake ⟨.user 0, 1⟩) = some (s', es') ∧ .delOk (.user 0) 1 ∈ es' ∧
      Quiescent 1 s' := by
  obtain ⟨s, es, s', es', hrun, hlast, hret⟩ : ∃ s es s' es',
      run step (.setup none true :: deleteRun) (boot ⟨0, 0⟩) = some (s, es) ∧
        step s (.delWake ⟨.user 0, 1⟩) = some (s', es') ∧ .delOk (.user 0) 1 ∈ es' :=
    ⟨_, _, _, _, rfl, rfl, by decide⟩
  exact ⟨s, es, s', es', hrun, hlast, hret, (timer_del_quiescent hrun (by decide) (by decide)
    (by decide) rfl hlast hret id).1⟩

/-- A timer is deleted by its own function, which goes on, and is added by another thread. -/
def readdRun : List Label :=
  [.add (.user 0) 1 ⟨false, false⟩ 0, .inspectorStart, .inspectorLoop 0 false, .del .inspector 1,
    .add (.user 0) 1 ⟨false, false⟩ 1000]

/-- **A deleted timer runs.**  The other thread deletes the timer, and `timer_del` returns to it
while the inspector is still in the timer's function. -/
theorem timer_del_not_quiescent :
    ¬ ∀ (ls : List Label) (l : Label) (s s' : State) (es es' : List Event) (u : Tid) (t : Ptr),
      (∀ x ∈ ls, x.isRuntime = true) →
      run step (.setup none true :: ls) (boot ⟨0, 0⟩) = some (s, es) →
      Along step DelSafe (.setup none true :: ls) (boot ⟨0, 0⟩) →
      l.isRuntime = true → step s l = some (s', es') → .delOk u t ∈ es' → ¬ s'.Runs u t →
      Quiescent t s' := by
  intro h
  have hbad := h readdRun (.del (.user 0) 1) _ _ _ _ (.user 0) 1 (by decide) rfl (by decide) rfl
    rfl (by decide) id
  exact hbad.2.2 .inspector rfl

end LinuxC.Timer
