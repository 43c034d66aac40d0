import LinuxC.Timer.Model

/-!
# What a step can do

The step function read backwards: `Trans s l s' es` lists the cases of a step with what is known
in each of them, and `trans_of_step` says that there are no others.  The invariants of the
runtime are proved by cases on it.
-/

namespace LinuxC.Timer

/-- The cases of `executorDrain`. -/
inductive Drained (i : ℕ) (timedout : Bool) (s : State) : State → List Event → Prop
  | take {t : Ptr} {rest : List Ptr} (hexp : s.base.expiredTimer = t :: rest)
      (hpend : (s.timer t).flags.pending = true) :
      Drained i timedout s ((timerExecute (.executor i) t (takeExpired t rest s)).setExecutor i
        (.running t timedout)) [.started (.executor i) t]
  | exit (hexp : s.base.expiredTimer = [])
      (hlinger : timedout = true ∧ s.base.opt.threadMin < s.base.nthreads) :
      Drained i timedout s ((threadCleanup s).setExecutor i .dead) []
  | again (hexp : s.base.expiredTimer = [])
      (hlinger : ¬ (timedout = true ∧ s.base.opt.threadMin < s.base.nthreads)) :
      Drained i timedout s (s.setExecutor i (.loop timedout)) []

/-- The cases of `dispatch`. -/
inductive Dispatched (t : Ptr) (created : Bool) (s : State) : State → List Event → Prop
  | skip (hbusy : (s.timer t).flags.busy = true) :
      Dispatched t created s { s with inspector := .loop } [.fired t]
  | pool (wake : ℕ) (hbusy : (s.timer t).flags.busy = false) :
      Dispatched t created s { timerThreadExecute t wake created s with inspector := .loop }
        [.fired t]
  | inline (hbusy : (s.timer t).flags.busy = false) :
      Dispatched t created s { timerExecute .inspector t s with inspector := .running t }
        [.fired t, .started .inspector t]

/-- The state in which the inspector dispatches the timer it shoots. -/
def shootState (t : Ptr) (s : State) : State :=
  reinsert t (timerRemove t (s.setState .shooting))

/-- The state in which `timer_del` decides whether to wait. -/
def exitState (t : Ptr) (s : State) : State :=
  (timerDrop t s).setFlags t fun f => { f with active := false }

/-- The state in which `timer_add` decides whether to signal. -/
def addState (t : Ptr) (option : TimerOpt) (msec : ℤ) (s : State) : State :=
  (timerInsert t (timerFill t option msec s)).setFlags t fun f => { f with active := true }

/-- The state in which `timer_mod` decides whether to signal. -/
def modState (t : Ptr) (msec : ℤ) (s : State) : State :=
  timerInsert t (timerRearm t msec (timerUnmount t s))

/-- The step calls a function that can fail. -/
def Label.isCall : Label → Bool
  | .add .. | .del .. | .mod .. | .destroy _ | .destroyWake _ => true
  | _ => false

/-- The cases of a step. -/
inductive Trans (s : State) : Label → State → List Event → Prop
  | tick {now : Timespec} (hnow : ¬ timespecLt now s.now) :
      Trans s (.tick now) { s with now := now } []
  | setup {users : Option TimerOption} {created : Bool} {s' : State} {es : List Event}
      (hsetup : timerSetup users created s = some (s', es)) :
      Trans s (.setup users created) s' es
  | failed {l : Label} (hcall : l.isCall = true) : Trans s l s []
  | add {u : Tid} {t : Ptr} {option : TimerOpt} {msec : ℤ} (hcall : s.canCall u = true)
      (hwork : workingBase s = true) (hactive : (s.timer t).flags.active = false)
      (hsearch : ((s.timer t).flags.mounted && timerSearch t s) = false) :
      Trans s (.add u t option msec) (signalAdd t (addState t option msec s)) [.addOk u t]
  | delDetach {u : Tid} {t : Ptr} (hcall : s.canCall u = true)
      (hactive : (s.timer t).flags.active = true)
      (hexec : ((exitState t s).timer t).flags.executing = true)
      (hself : ((exitState t s).timer t).thread = some u) :
      Trans s (.del u t) ((exitState t s).setFlags t fun f => { f with detach := true })
        [.delOk u t]
  | delWait {u : Tid} {t : Ptr} (hcall : s.canCall u = true)
      (hactive : (s.timer t).flags.active = true)
      (hbusy : ((exitState t s).timer t).flags.busy = true) :
      Trans s (.del u t)
        { (exitState t s).setFlags t fun f => { f with waiting := true } with
          waiters := ⟨u, t⟩ :: (exitState t s).waiters } []
  | delDone {u : Tid} {t : Ptr} (hcall : s.canCall u = true)
      (hactive : (s.timer t).flags.active = true)
      (hbusy : ((exitState t s).timer t).flags.busy = false) :
      Trans s (.del u t) (exitState t s) [.delOk u t]
  | delStay {w : Waiter} (hw : w ∈ s.waiters) (hbusy : (s.timer w.timer).flags.busy = true) :
      Trans s (.delWake w) (s.setFlags w.timer fun f => { f with waiting := true }) []
  | delReturn {w : Waiter} (hw : w ∈ s.waiters) (hbusy : (s.timer w.timer).flags.busy = false) :
      Trans s (.delWake w) { s with waiters := s.waiters.erase w } [.delOk w.tid w.timer]
  | mod {u : Tid} {t : Ptr} {msec : ℤ} (hcall : s.canCall u = true)
      (hwork : workingBase s = true) (hactive : (s.timer t).flags.active = true) :
      Trans s (.mod u t msec) (signalMod t (modState t msec s)) []
  | destroy {i : ℕ} (hwork : workingBase s = true) :
      Trans s (.destroy i)
        { (signalDestroy s).setState .destroy with destroyers := i :: s.destroyers } []
  | destroyCleanup {i : ℕ} (hthreads : ¬ 0 < s.base.nthreads) :
      Trans s (.destroyWake i)
        { timerDestroyCleanup s with destroyers := s.destroyers.erase i } [.destroyed]
  | inspectorStart (hpc : s.inspector = .start) :
      Trans s .inspectorStart { s with inspector := .loop } []
  | inspectorExit {wake : ℕ} {created : Bool} (hpc : s.inspector = .loop)
      (hstate : s.base.state = .destroy) :
      Trans s (.inspectorLoop wake created) { threadCleanup s with inspector := .dead } []
  | inspectorWait {wake : ℕ} {created : Bool} (hpc : s.inspector = .loop)
      (hstate : s.base.state ≠ .destroy) (htable : s.base.table = []) :
      Trans s (.inspectorLoop wake created) { s.setState .waiting with inspector := .waiting false }
        [.entered .inspector]
  | inspectorTimed {wake : ℕ} {created : Bool} {t : Ptr} (hpc : s.inspector = .loop)
      (hstate : s.base.state ≠ .destroy) (htable : s.base.table.head? = some t)
      (hearly : timespecLt s.now (s.timer t).expire) :
      Trans s (.inspectorLoop wake created)
        { (s.setState .timing).setRunning (some t) with
          inspector := .timing t (s.timer t).expire false } [.entered .inspector]
  | inspectorShoot {wake : ℕ} {created : Bool} {t : Ptr} {s' : State} {es : List Event}
      (hpc : s.inspector = .loop) (hstate : s.base.state ≠ .destroy)
      (htable : s.base.table.head? = some t) (hlate : ¬ timespecLt s.now (s.timer t).expire)
      (hshoot : Dispatched t created (shootState t s) s' es) :
      Trans s (.inspectorLoop wake created) s' (.entered .inspector :: es)
  | inspectorWoken {sig : Bool} {wake : ℕ} {created : Bool} (hpc : s.inspector = .waiting sig) :
      Trans s (.inspectorWake false wake created) { s with inspector := .loop } []
  | timedRemoved {t : Ptr} {d : Timespec} {sig timedout : Bool} {wake : ℕ} {created : Bool}
      (hpc : s.inspector = .timing t d sig) (hrun : s.base.runningTimer = none) :
      Trans s (.inspectorWake timedout wake created) { s with inspector := .loop } []
  | timedSignal {t : Ptr} {d : Timespec} {sig : Bool} {wake : ℕ} {created : Bool}
      (hpc : s.inspector = .timing t d sig) (hrun : s.base.runningTimer ≠ none) :
      Trans s (.inspectorWake false wake created) { s.setRunning none with inspector := .loop } []
  | timedShoot {t : Ptr} {d : Timespec} {sig : Bool} {wake : ℕ} {created : Bool} {s' : State}
      {es : List Event} (hpc : s.inspector = .timing t d sig) (hrun : s.base.runningTimer ≠ none)
      (hlate : ¬ timespecLt s.now d)
      (hshoot : Dispatched t created (shootState t (s.setRunning none)) s' es) :
      Trans s (.inspectorWake true wake created) s' es
  | inspectorReturn {t : Ptr} (hpc : s.inspector = .running t)
      (hfree : s.blocked .inspector = false) :
      Trans s .inspectorReturn { timerCleanup t s with inspector := .loop } []
  | executorStart {i : ℕ} (hpc : s.executors[i]? = some .start) :
      Trans s (.executorStart i) (s.setExecutor i (.loop false)) []
  | executorExit {i : ℕ} {b : Bool} (hpc : s.executors[i]? = some (.loop b))
      (hstate : s.base.state = .destroy) :
      Trans s (.executorLoop i) ((threadCleanup s).setExecutor i .dead) []
  | executorWait {i : ℕ} {b : Bool} {d : Option Timespec}
      (hpc : s.executors[i]? = some (.loop b)) (hstate : s.base.state ≠ .destroy)
      (hexp : s.base.expiredTimer = []) :
      Trans s (.executorLoop i) ((s.addIdle 1).setExecutor i (.idle d b false))
        [.entered (.executor i)]
  | executorDrain {i : ℕ} {b b' : Bool} {s' : State} {es : List Event}
      (hpc : s.executors[i]? = some (.loop b)) (hstate : s.base.state ≠ .destroy)
      (hdrain : Drained i b' s s' es) :
      Trans s (.executorLoop i) s' (.entered (.executor i) :: es)
  | executorWoken {i : ℕ} {d : Option Timespec} {b b' sig timedout : Bool} {s' : State}
      {es : List Event} (hpc : s.executors[i]? = some (.idle d b sig))
      (hdrain : Drained i b' (s.addIdle (-1)) s' es) :
      Trans s (.executorWake i timedout) s' es
  | executorReturn {i : ℕ} {t : Ptr} {b : Bool} {s' : State} {es : List Event}
      (hpc : s.executors[i]? = some (.running t b)) (hfree : s.blocked (.executor i) = false)
      (hdrain : Drained i b (timerCleanup t s) s' es) :
      Trans s (.executorReturn i) s' es

lemma Dispatched.fired {t x : Ptr} {s s' : State} {es : List Event}
    {created : Bool} (hd : Dispatched t created s s' es) (h : .fired x ∈ es) : x = t := by
  cases hd <;> simpa using h

lemma Drained.not_fired {i : ℕ} {b : Bool} {x : Ptr} {s s' : State} {es : List Event}
    (hd : Drained i b s s' es) : .fired x ∉ es := by
  cases hd <;> simp

lemma drained_of_eq {i : ℕ} {b : Bool} {s s' : State} {es : List Event}
    (h : executorDrain i b s = some (s', es)) : Drained i b s s' es := by
  unfold executorDrain at h
  split at h
  · split at h
    · obtain ⟨rfl, rfl⟩ := Prod.mk.inj (Option.some.inj h)
      exact .take ‹_› ‹_›
    · cases h
  · split at h
    · obtain ⟨rfl, rfl⟩ := Prod.mk.inj (Option.some.inj h)
      exact .exit ‹_› ‹_›
    · obtain ⟨rfl, rfl⟩ := Prod.mk.inj (Option.some.inj h)
      exact .again ‹_› ‹_›

lemma dispatched_shoot (t : Ptr) (wake : ℕ) (created : Bool) (s : State) :
    Dispatched t created (shootState t s) (shoot t wake created s).1
      (shoot t wake created s).2 := by
  rw [shoot, ← shootState, dispatch]
  split
  · exact .skip ‹_›
  · rename_i hbusy
    split
    · exact .pool wake (by simpa using hbusy)
    · exact .inline (by simpa using hbusy)

lemma trans_of_failed {l : Label} {s s' : State} {es : List Event} (hcall : l.isCall = true)
    (h : (s, []) = (s', es)) : Trans s l s' es := by
  obtain ⟨rfl, rfl⟩ := Prod.mk.inj h
  exact .failed hcall

/-- The failing branches of the API and the successful one. -/
lemma trans_add {u : Tid} {t : Ptr} {option : TimerOpt} {msec : ℤ} {s s' : State}
    {es : List Event} (hcall : s.canCall u = true) (h : timerAdd u t option msec s = (s', es)) :
    Trans s (.add u t option msec) s' es := by
  unfold timerAdd at h
  split_ifs at h with hwork hactive hsearch
  · exact trans_of_failed rfl h
  · exact trans_of_failed rfl h
  · exact trans_of_failed rfl h
  · obtain ⟨rfl, rfl⟩ := Prod.mk.inj h
    exact .add hcall (by simpa using hwork) (by simpa using hactive) (by simpa using hsearch)

lemma trans_del {u : Tid} {t : Ptr} {s s' : State} {es : List Event}
    (hcall : s.canCall u = true) (h : timerDel u t s = (s', es)) :
    Trans s (.del u t) s' es := by
  unfold timerDel at h
  split_ifs at h with hwork hactive hsearch
  · exact trans_of_failed rfl h
  · exact trans_of_failed rfl h
  · exact trans_of_failed rfl h
  · have hactive : (s.timer t).flags.active = true := by simpa using hactive
    rw [timerExit, ← exitState] at h
    unfold exitWait at h
    split_ifs at h with hself hbusy
    · obtain ⟨rfl, rfl⟩ := Prod.mk.inj h
      exact .delDetach hcall hactive hself.1 hself.2
    · obtain ⟨rfl, rfl⟩ := Prod.mk.inj h
      exact .delWait hcall hactive hbusy
    · obtain ⟨rfl, rfl⟩ := Prod.mk.inj h
      exact .delDone hcall hactive (by simpa using hbusy)

lemma trans_mod {u : Tid} {t : Ptr} {msec : ℤ} {s s' : State} {es : List Event}
    (hcall : s.canCall u = true) (h : timerMod t msec s = (s', es)) :
    Trans s (.mod u t msec) s' es := by
  unfold timerMod at h
  split_ifs at h with hwork hactive hsearch
  · exact trans_of_failed rfl h
  · exact trans_of_failed rfl h
  · exact trans_of_failed rfl h
  · obtain ⟨rfl, rfl⟩ := Prod.mk.inj h
    exact .mod hcall (by simpa using hwork) (by simpa using hactive)

lemma trans_inspectorLoop {wake : ℕ} {created : Bool} {s s' : State} {es : List Event}
    (hpc : s.inspector = .loop) (h : inspectorLoop wake created s = (s', es)) :
    Trans s (.inspectorLoop wake created) s' es := by
  unfold inspectorLoop at h
  split at h
  · obtain ⟨rfl, rfl⟩ := Prod.mk.inj h
    exact .inspectorExit hpc ‹_›
  · rename_i hstate
    obtain ⟨rfl, rfl⟩ := Prod.mk.inj h
    cases hhead : s.base.table.head? with
    | none =>
        simp only [inspectorBody, hhead]
        exact .inspectorWait hpc hstate (List.head?_eq_none_iff.mp hhead)
    | some t =>
        simp only [inspectorBody, hhead]
        split
        · exact .inspectorTimed hpc hstate hhead ‹_›
        · exact .inspectorShoot hpc hstate hhead ‹_› (dispatched_shoot t wake created s)

lemma trans_inspectorWake {timedout : Bool} {wake : ℕ} {created : Bool} {s s' : State}
    {es : List Event} (h : inspectorWake timedout wake created s = some (s', es)) :
    Trans s (.inspectorWake timedout wake created) s' es := by
  unfold inspectorWake at h
  split at h
  · rename_i hpc
    obtain ⟨hto, h⟩ := allow_eq_some.mp h
    obtain ⟨rfl, rfl⟩ := Prod.mk.inj h
    obtain rfl : timedout = false := by simpa using hto
    exact .inspectorWoken hpc
  · rename_i t d sig hpc
    obtain ⟨hto, hres⟩ := allow_eq_some.mp h
    cases timedout with
    | true =>
        simp only [inspectorTimedwait, if_true] at hres
        split at hres
        · obtain ⟨rfl, rfl⟩ := Prod.mk.inj hres
          exact .timedRemoved hpc ‹_›
        · have hshoot := dispatched_shoot t wake created (s.setRunning none)
          rw [hres] at hshoot
          exact .timedShoot hpc ‹_› (by simpa using hto) hshoot
    | false =>
        simp only [inspectorTimedwait, Bool.false_eq_true, if_false] at hres
        split at hres
        · obtain ⟨rfl, rfl⟩ := Prod.mk.inj hres
          exact .timedRemoved hpc ‹_›
        · obtain ⟨rfl, rfl⟩ := Prod.mk.inj hres
          exact .timedSignal hpc ‹_›
  · cases h

lemma trans_executorLoop {i : ℕ} {b : Bool} {s s' : State} {es : List Event}
    (hpc : s.executors[i]? = some (.loop b)) (h : executorLoop i b s = some (s', es)) :
    Trans s (.executorLoop i) s' es := by
  unfold executorLoop at h
  split at h
  · obtain ⟨rfl, rfl⟩ := Prod.mk.inj (Option.some.inj h)
    exact .executorExit hpc ‹_›
  · rename_i hstate
    obtain ⟨⟨s₁, es₁⟩, hbody, h⟩ := Option.map_eq_some_iff.mp h
    obtain ⟨rfl, rfl⟩ := Prod.mk.inj h
    unfold executorBody at hbody
    split_ifs at hbody with hexp
    · obtain ⟨rfl, rfl⟩ := Prod.mk.inj (Option.some.inj hbody)
      exact .executorWait hpc hstate hexp
    · obtain ⟨rfl, rfl⟩ := Prod.mk.inj (Option.some.inj hbody)
      exact .executorWait hpc hstate hexp
    · exact .executorDrain hpc hstate (drained_of_eq hbody)
    · exact .executorDrain hpc hstate (drained_of_eq hbody)

/-- **There are no other cases.** -/
lemma trans_of_step {s s' : State} {l : Label} {es : List Event}
    (h : step s l = some (s', es)) : Trans s l s' es := by
  cases l with
  | tick now =>
      obtain ⟨hnow, h⟩ := allow_eq_some.mp h
      obtain ⟨rfl, rfl⟩ := Prod.mk.inj h
      exact .tick (by simpa using hnow)
  | setup users created =>
      simp only [step] at h
      split at h
      · cases h
      · exact .setup h
  | add u t option msec =>
      obtain ⟨hcall, h⟩ := allow_eq_some.mp h
      exact trans_add hcall h
  | del u t =>
      obtain ⟨hcall, h⟩ := allow_eq_some.mp h
      exact trans_del hcall h
  | mod u t msec =>
      obtain ⟨hcall, h⟩ := allow_eq_some.mp h
      exact trans_mod hcall h
  | destroy i =>
      obtain ⟨-, h⟩ := allow_eq_some.mp h
      unfold timerDestroy at h
      split_ifs at h with hwork
      · obtain ⟨rfl, rfl⟩ := Prod.mk.inj h
        exact .failed rfl
      · obtain ⟨rfl, rfl⟩ := Prod.mk.inj h
        exact .destroy (by simpa using hwork)
  | destroyWake i =>
      obtain ⟨-, h⟩ := allow_eq_some.mp h
      unfold timerDestroyWake at h
      split_ifs at h with hthreads
      · obtain ⟨rfl, rfl⟩ := Prod.mk.inj h
        exact .failed rfl
      · obtain ⟨rfl, rfl⟩ := Prod.mk.inj h
        exact .destroyCleanup hthreads
  | delWake w =>
      obtain ⟨hw, h⟩ := allow_eq_some.mp h
      have hw : w ∈ s.waiters := by simp at hw; exact hw.2
      unfold timerExitWake at h
      split_ifs at h with hbusy
      · obtain ⟨rfl, rfl⟩ := Prod.mk.inj h
        exact .delStay hw hbusy
      · obtain ⟨rfl, rfl⟩ := Prod.mk.inj h
        exact .delReturn hw (by simpa using hbusy)
  | inspectorStart =>
      obtain ⟨hpc, h⟩ := allow_eq_some.mp h
      obtain ⟨rfl, rfl⟩ := Prod.mk.inj h
      exact .inspectorStart (by simp at hpc; exact hpc.2)
  | inspectorLoop wake created =>
      obtain ⟨hpc, h⟩ := allow_eq_some.mp h
      exact trans_inspectorLoop (by simpa using hpc) h
  | inspectorWake timedout wake created =>
      simp only [step] at h
      split at h
      · cases h
      · exact trans_inspectorWake h
  | inspectorReturn =>
      simp only [step] at h
      split at h
      · obtain ⟨hcall, h⟩ := allow_eq_some.mp h
        obtain ⟨rfl, rfl⟩ := Prod.mk.inj h
        exact .inspectorReturn ‹_› (by simp [State.canCall] at hcall; exact hcall.1.2)
      · cases h
  | executorStart i =>
      obtain ⟨hpc, h⟩ := allow_eq_some.mp h
      obtain ⟨rfl, rfl⟩ := Prod.mk.inj h
      exact .executorStart (by simp at hpc; exact hpc.2)
  | executorLoop i =>
      simp only [step] at h
      split at h
      · exact trans_executorLoop ‹_› h
      · cases h
  | executorWake i timedout =>
      simp only [step] at h
      split at h
      · cases h
      · unfold executorWake at h
        split at h
        · split at h
          · cases h
          · exact .executorWoken ‹_› (drained_of_eq h)
        · cases h
  | executorReturn i =>
      simp only [step] at h
      split at h
      · split at h
        · rename_i hcall
          exact .executorReturn ‹_› (by simp [State.canCall] at hcall; exact hcall.1.2)
            (drained_of_eq h)
        · cases h
      · cases h

end LinuxC.Timer
