import LinuxC.Framework.Threads
import LinuxC.Timer.Destroy
import LinuxC.Timer.Steps

/-!
# The pool of executors

The inspector gives an expired timer to the pool: it puts it into `base->expired_timer` and
signals an executor if some executor counts as idle, and creates one otherwise if there is room.
`Tallied` says that the counters by which it decides are right; every step keeps them.  The
inspector is counted in `nthreads`, but `thread_max` is at least 2, so that a full pool has an
executor.

`Attended` says that an executor looks at the list as long as timers are in it.  An executor that
ends because its time is up or because it waits for nothing has drained the list.  One that finds
`TMR_BASE_DESTROY` at the head of its loop has not, and if it is the last one that is awake the
timers are left behind, also by the next `timer_setup`.
-/

namespace LinuxC.Timer

/-- The executor has not ended. -/
def Executor.live : Executor → Bool
  | .dead => false
  | _ => true

/-- The executor waits for expired timers. -/
def Executor.isIdle : Executor → Bool
  | .idle .. => true
  | _ => false

/-- The executor has not ended, and is not blocked in a wait without a wake-up. -/
def Executor.awake : Executor → Bool
  | .dead => false
  | .idle _ _ signalled => signalled
  | _ => true

/-- The counters of the pool. -/
structure Tallied (s : State) : Prop where
  threads : s.base.nthreads =
    (if s.inspector = .dead then 0 else 1) + (s.executors.countP Executor.live : ℕ)
  idle : s.base.idlethreads = (s.executors.countP Executor.isIdle : ℕ)
  max : 2 ≤ s.base.opt.threadMax

/-! ## Changes that leave the pool alone -/

/-- The threads, the list and the counters are the same, and no timer becomes pending. -/
structure SamePool (s s' : State) : Prop where
  nthreads : s'.base.nthreads = s.base.nthreads
  idlethreads : s'.base.idlethreads = s.base.idlethreads
  opt : s'.base.opt = s.base.opt
  state : s'.base.state = .destroy → s.base.state = .destroy
  expired : s'.base.expiredTimer = s.base.expiredTimer
  executors : s'.executors = s.executors
  inspector : s'.inspector = .dead ↔ s.inspector = .dead
  pending : ∀ t, (s'.timer t).flags.pending = true → (s.timer t).flags.pending = true

lemma SamePool.trans {s s' s'' : State} (h : SamePool s s') (h' : SamePool s' s'') :
    SamePool s s'' :=
  ⟨h'.nthreads.trans h.nthreads, h'.idlethreads.trans h.idlethreads, h'.opt.trans h.opt,
    fun hs => h.state (h'.state hs), h'.expired.trans h.expired, h'.executors.trans h.executors,
    h'.inspector.trans h.inspector, fun t ht => h.pending t (h'.pending t ht)⟩

lemma Tallied.congr {s s' : State} (h : Tallied s) (hs : SamePool s s') : Tallied s' := by
  refine ⟨?_, ?_, ?_⟩
  · rw [hs.nthreads, h.threads, hs.executors]
    simp only [hs.inspector]
  · rw [hs.idlethreads, h.idle, hs.executors]
  · rw [hs.opt]
    exact h.max

lemma samePool_modify {s : State} {t : Ptr} {g : TimerStruct → TimerStruct}
    (hg : (g (s.timer t)).flags.pending = true → (s.timer t).flags.pending = true) :
    SamePool s (s.modify t g) := by
  refine ⟨rfl, rfl, rfl, id, rfl, rfl, Iff.rfl, fun x hx => ?_⟩
  simp only [State.modify] at hx
  split_ifs at hx with hxt
  · subst hxt
    exact hg hx
  · exact hx

lemma samePool_setFlags {s : State} {t : Ptr} {g : Flags → Flags}
    (hg : (g (s.timer t).flags).pending = true → (s.timer t).flags.pending = true) :
    SamePool s (s.setFlags t g) :=
  samePool_modify hg

/-- The table, the id, the running timer, the clock and the waiting calls do not matter. -/
lemma samePool_of_timer {s s' : State} (hn : s'.base.nthreads = s.base.nthreads)
    (hi : s'.base.idlethreads = s.base.idlethreads) (ho : s'.base.opt = s.base.opt)
    (hs : s'.base.state = .destroy → s.base.state = .destroy)
    (he : s'.base.expiredTimer = s.base.expiredTimer) (hex : s'.executors = s.executors)
    (hpc : s'.inspector = .dead ↔ s.inspector = .dead) (ht : s'.timer = s.timer) :
    SamePool s s' :=
  ⟨hn, hi, ho, hs, he, hex, hpc, fun t h => by rwa [ht] at h⟩

lemma samePool_signalWork (s : State) : SamePool s s.signalWork := by
  refine samePool_of_timer rfl rfl rfl id rfl rfl ?_ rfl
  cases hpc : s.inspector <;> simp [State.signalWork, hpc]

lemma samePool_insert (t : Ptr) (s : State) : SamePool s (timerInsert t s) := by
  refine ⟨rfl, rfl, rfl, id, rfl, rfl, Iff.rfl, fun x hx => ?_⟩
  simp only [timerInsert, timerMount, timerKey, State.setFlags, State.modify] at hx
  split_ifs at hx <;> exact hx

lemma samePool_remove (t : Ptr) (s : State) : SamePool s (timerRemove t s) := by
  refine ⟨rfl, rfl, rfl, id, rfl, rfl, Iff.rfl, fun x hx => ?_⟩
  simp only [timerRemove, State.setFlags, State.modify] at hx
  split_ifs at hx <;> exact hx

lemma samePool_add (t : Ptr) (option : TimerOpt) (msec : ℤ) (s : State) :
    SamePool s (signalAdd t (addState t option msec s)) := by
  have h1 : SamePool s (timerFill t option msec s) :=
    samePool_modify fun h => by simp at h
  have h2 : SamePool s (addState t option msec s) :=
    (h1.trans (samePool_insert t _)).trans (samePool_setFlags id)
  unfold signalAdd
  split
  · exact h2.trans (samePool_signalWork _)
  · exact h2

lemma samePool_exit (t : Ptr) (s : State) : SamePool s (exitState t s) := by
  refine SamePool.trans ?_ (samePool_setFlags id)
  unfold timerDrop
  split
  · unfold signalDel
    split
    · have h1 : SamePool s ((timerRemove t s).setRunning none) :=
        (samePool_remove t s).trans (samePool_of_timer rfl rfl rfl id rfl rfl Iff.rfl rfl)
      exact h1.trans (samePool_signalWork _)
    · exact samePool_remove t s
  · exact samePool_of_timer rfl rfl rfl id rfl rfl Iff.rfl rfl

lemma samePool_mod (t : Ptr) (msec : ℤ) (s : State) :
    SamePool s (signalMod t (modState t msec s)) := by
  have h1 : SamePool s (timerUnmount t s) := by
    unfold timerUnmount
    split
    · exact samePool_remove t s
    · exact samePool_of_timer rfl rfl rfl id rfl rfl Iff.rfl rfl
  have h2 : SamePool s (modState t msec s) :=
    (h1.trans (samePool_modify id)).trans (samePool_insert t _)
  unfold signalMod
  split
  · exact h2.trans (samePool_signalWork _)
  · exact h2

lemma samePool_shoot (t : Ptr) (s : State) : SamePool s (shootState t s) := by
  have h0 : SamePool s (s.setState .shooting) :=
    samePool_of_timer rfl rfl rfl (fun h => by simp [State.setState] at h) rfl rfl Iff.rfl rfl
  have h1 := h0.trans (samePool_remove t _)
  simp only [shootState, reinsert]
  split
  · exact h1.trans (samePool_insert t _)
  · exact h1

lemma samePool_inspector {s : State} {pc : Inspector} (hold : s.inspector ≠ .dead)
    (hnew : pc ≠ .dead) : SamePool s { s with inspector := pc } :=
  samePool_of_timer rfl rfl rfl id rfl rfl (by simp [hold, hnew]) rfl

/-! ## The executors -/

/-- The state in which an executor that was at `e` looks at the expired timers: it does not count
as idle any more. -/
structure Woken (e : Executor) (s s' : State) : Prop where
  nthreads : s'.base.nthreads = s.base.nthreads
  idlethreads : s'.base.idlethreads + (e.isIdle.toNat : ℕ) = s.base.idlethreads
  opt : s'.base.opt = s.base.opt
  expired : s'.base.expiredTimer = s.base.expiredTimer
  executors : s'.executors = s.executors
  inspector : s'.inspector = s.inspector
  pending : ∀ t, (s'.timer t).flags.pending = true → (s.timer t).flags.pending = true

/-- One executor moves from `e` to `f` in a state with the same inspector and the same options. -/
lemma Tallied.move {i : ℕ} {e f : Executor} {s s' : State} (h : Tallied s)
    (hpc : s.executors[i]? = some e) (hexec : s'.executors = s.executors.set i f)
    (hins : s'.inspector = s.inspector) (hopt : s'.base.opt = s.base.opt)
    (hthreads : s'.base.nthreads + (e.live.toNat : ℕ) = s.base.nthreads + (f.live.toNat : ℕ))
    (hidle : s'.base.idlethreads + (e.isIdle.toNat : ℕ) =
      s.base.idlethreads + (f.isIdle.toNat : ℕ)) : Tallied s' := by
  have hl := countP_set_add (p := Executor.live) (b := f) hpc
  have hi := countP_set_add (p := Executor.isIdle) (b := f) hpc
  have hthreads' := h.threads
  have hidle' := h.idle
  rw [← hexec] at hl hi
  refine ⟨?_, ?_, hopt ▸ h.max⟩
  · rw [hins]
    omega
  · omega

lemma Tallied.drained {i : ℕ} {b : Bool} {e : Executor} {s s₁ s' : State} {es : List Event}
    (h : Tallied s) (hpc : s.executors[i]? = some e) (hlive : e.live = true)
    (hw : Woken e s s₁) (hd : Drained i b s₁ s' es) : Tallied s' := by
  have hidle := hw.idlethreads
  have hthreads := hw.nthreads
  have hone : (e.live.toNat : ℤ) = 1 := by
    rw [hlive]
    rfl
  cases hd with
  | @take t rest hexp hpend =>
      refine h.move (f := .running t b) hpc (congrArg (List.set · i _) hw.executors) hw.inspector
        hw.opt ?_ ?_
      · change s₁.base.nthreads + (e.live.toNat : ℤ) = s.base.nthreads + 1
        omega
      · change s₁.base.idlethreads + (e.isIdle.toNat : ℤ) = s.base.idlethreads + 0
        omega
  | exit hexp =>
      refine h.move (f := .dead) hpc (congrArg (List.set · i _) hw.executors) hw.inspector
        hw.opt ?_ ?_
      · change s₁.base.nthreads - 1 + (e.live.toNat : ℤ) = s.base.nthreads + 0
        omega
      · change s₁.base.idlethreads + (e.isIdle.toNat : ℤ) = s.base.idlethreads + 0
        omega
  | again hexp =>
      refine h.move (f := .loop b) hpc (congrArg (List.set · i _) hw.executors) hw.inspector
        hw.opt ?_ ?_
      · change s₁.base.nthreads + (e.live.toNat : ℤ) = s.base.nthreads + 1
        omega
      · change s₁.base.idlethreads + (e.isIdle.toNat : ℤ) = s.base.idlethreads + 0
        omega

lemma Tallied.start {i : ℕ} {s : State} (h : Tallied s) (hpc : s.executors[i]? = some .start) :
    Tallied (s.setExecutor i (.loop false)) :=
  h.move hpc rfl rfl rfl rfl rfl

/-- An executor ends at the head of its loop. -/
lemma Tallied.exit {i : ℕ} {b : Bool} {s : State} (h : Tallied s)
    (hpc : s.executors[i]? = some (.loop b)) :
    Tallied ((threadCleanup s).setExecutor i .dead) := by
  refine h.move hpc rfl rfl rfl ?_ rfl
  change s.base.nthreads - 1 + 1 = s.base.nthreads + 0
  omega

lemma Tallied.wait {i : ℕ} {b : Bool} {d : Option Timespec} {s : State} (h : Tallied s)
    (hpc : s.executors[i]? = some (.loop b)) :
    Tallied ((s.addIdle 1).setExecutor i (.idle d b false)) := by
  refine h.move hpc rfl rfl rfl rfl ?_
  change s.base.idlethreads + 1 + 0 = s.base.idlethreads + 1
  omega

/-! ## A timer becomes pending -/

/-- A signal moves an idle executor to an idle one. -/
lemma signalFirst_countP {p : Executor → Bool}
    (hp : ∀ d b, p (.idle d b true) = p (.idle d b false)) (es : List Executor) :
    (signalFirst es).countP p = es.countP p := by
  induction es using signalFirst.induct with
  | case1 => rfl
  | case2 d b es => simp [signalFirst, List.countP_cons, hp]
  | case3 e es hne ih => simp [signalFirst, List.countP_cons, ih]

lemma signalExec_countP {p : Executor → Bool}
    (hp : ∀ d b, p (.idle d b true) = p (.idle d b false)) (wake : ℕ) (es : List Executor) :
    (signalExec wake es).countP p = es.countP p := by
  unfold signalExec
  split
  · rename_i d b hwake
    exact countP_set_eq hwake (hp d b)
  · exact signalFirst_countP hp es

lemma exists_of_countP {p : Executor → Bool} {es : List Executor} (h : 0 < es.countP p) :
    ∃ e ∈ es, p e = true :=
  List.countP_pos_iff.mp h

lemma Tallied.thread {s : State} (h : Tallied s) (t : Ptr) (wake : ℕ) (created : Bool) :
    Tallied (timerThreadExecute t wake created s) := by
  have hthreads := h.threads
  have hidle := h.idle
  unfold timerThreadExecute
  split_ifs with hpos hnew
  · refine ⟨?_, ?_, h.max⟩
    · simp only [signalExec_countP (p := Executor.live) (fun _ _ => rfl)]
      exact hthreads
    · simp only [signalExec_countP (p := Executor.isIdle) (fun _ _ => rfl)]
      exact hidle
  · have hl : (s.executors ++ [Executor.start]).countP Executor.live =
        s.executors.countP Executor.live + 1 := List.countP_append
    have hi : (s.executors ++ [Executor.start]).countP Executor.isIdle =
        s.executors.countP Executor.isIdle := List.countP_append
    refine ⟨?_, ?_, h.max⟩
    · change s.base.nthreads + 1 = (if s.inspector = .dead then 0 else 1) +
        ((s.executors ++ [Executor.start]).countP Executor.live : ℕ)
      omega
    · change s.base.idlethreads = ((s.executors ++ [Executor.start]).countP Executor.isIdle : ℕ)
      omega
  · exact ⟨hthreads, hidle, h.max⟩

lemma shootState_state (t : Ptr) (s : State) : (shootState t s).base.state = .shooting := by
  simp only [shootState, reinsert]
  split <;> rfl

lemma timerThreadExecute_inspector (t : Ptr) (wake : ℕ) (created : Bool) (s : State) :
    (timerThreadExecute t wake created s).inspector = s.inspector := by
  unfold timerThreadExecute
  split_ifs <;> rfl

lemma Tallied.dispatched {t : Ptr} {created : Bool} {s s' : State} {es : List Event}
    (h : Tallied s) (hpc : s.inspector ≠ .dead) (hd : Dispatched t created s s' es) :
    Tallied s' := by
  cases hd with
  | skip => exact h.congr (samePool_inspector hpc (by simp))
  | pool wake =>
      refine (h.thread t wake created).congr (samePool_inspector ?_ (by simp))
      rw [timerThreadExecute_inspector]
      exact hpc
  | inline =>
      have h1 : SamePool s (timerExecute .inspector t s) := samePool_modify id
      exact (h.congr h1).congr (samePool_inspector hpc (by simp))

/-! ## Setup and destruction -/

lemma Tallied.empty {s : State} (h : Tallied s) (hn : ¬ 0 < s.base.nthreads) :
    s.inspector = .dead ∧ s.executors.countP Executor.live = 0 := by
  have hthreads := h.threads
  split_ifs at hthreads with hpc
  · exact ⟨hpc, by omega⟩
  · omega

lemma isIdle_countP_le (es : List Executor) :
    es.countP Executor.isIdle ≤ es.countP Executor.live := by
  apply List.countP_mono_left
  intro e _ he
  cases e <;> simp_all [Executor.isIdle, Executor.live]

lemma two_le_usersOption {opt users : TimerOption} (h : 2 ≤ opt.threadMax) :
    2 ≤ (usersOption opt users).threadMax := by
  have hmax : (usersOption opt users).threadMax =
      if 0 < users.threadMax then users.threadMax + 1 else opt.threadMax := by
    simp only [usersOption]
    split_ifs <;> rfl
  rw [hmax]
  split_ifs <;> omega

lemma timerInitOnce_base (users : Option TimerOption) (s : State) :
    (timerInitOnce users s).base.nthreads = s.base.nthreads ∧
      (s.base.expiredTimer = [] → (timerInitOnce users s).base.expiredTimer = []) := by
  unfold timerInitOnce
  split
  · exact ⟨rfl, id⟩
  · exact ⟨rfl, fun _ => rfl⟩

lemma timerInitOnce_timer (users : Option TimerOption) (s : State) :
    (timerInitOnce users s).timer = s.timer := by
  unfold timerInitOnce
  split <;> rfl

lemma Tallied.initOnce {s : State} (h : Tallied s) (users : Option TimerOption) :
    Tallied (timerInitOnce users s) := by
  unfold timerInitOnce
  split
  · exact h
  · refine ⟨h.threads, h.idle, ?_⟩
    cases users with
    | none => exact h.max
    | some users => exact two_le_usersOption h.max

/-- What `timer_setup` leaves: the executors as they were, and one thread if it can be created. -/
lemma timerSetup_cases {s s' : State} {users : Option TimerOption} {created : Bool}
    {es : List Event} (h : timerSetup users created s = some (s', es)) :
    s.base.nthreads = 0 ∧ (s' = resetBase (timerInitOnce users s) ∨
      s' = { resetBase (timerInitOnce users s) with
        inspector := .start
        base := { (resetBase (timerInitOnce users s)).base with nthreads := 1 } }) := by
  unfold timerSetup setupThreads at h
  split at h
  · cases h
  · rename_i hn
    refine ⟨?_, ?_⟩
    · rw [← (timerInitOnce_base users s).1]
      simpa using hn
    · split at h
      · obtain ⟨rfl, rfl⟩ := Prod.mk.inj (Option.some.inj h)
        exact .inr rfl
      · obtain ⟨rfl, rfl⟩ := Prod.mk.inj (Option.some.inj h)
        exact .inl rfl

lemma Tallied.setup {s s' : State} {users : Option TimerOption} {created : Bool} {es : List Event}
    (h : Tallied s) (hsetup : timerSetup users created s = some (s', es)) : Tallied s' := by
  obtain ⟨hn, hcases⟩ := timerSetup_cases hsetup
  have h1 := h.initOnce users
  have hn1 := (timerInitOnce_base users s).1.trans hn
  obtain ⟨hpc, hlive⟩ := h1.empty (by omega)
  have hidle := isIdle_countP_le (timerInitOnce users s).executors
  have hzero : (0 : ℤ) = ((timerInitOnce users s).executors.countP Executor.isIdle : ℕ) := by omega
  rcases hcases with rfl | rfl
  · exact ⟨h1.threads, hzero, h1.max⟩
  · refine ⟨?_, hzero, h1.max⟩
    change (1 : ℤ) = 1 + ((timerInitOnce users s).executors.countP Executor.live : ℕ)
    omega

lemma signalAll_countP {p : Executor → Bool} (hp : ∀ d b b', p (.idle d b true) = p (.idle d b b'))
    (es : List Executor) : (es.map signalAll).countP p = es.countP p := by
  rw [List.countP_map]
  apply List.countP_congr
  intro e _
  cases e with
  | idle d b sig => simp only [Function.comp, signalAll, hp d b sig]
  | dead | start | loop | running => rfl

lemma signalDestroy_cases (s : State) :
    ∃ s₁, SamePool s s₁ ∧ (signalDestroy s = s₁ ∨
      signalDestroy s = { s₁ with executors := s₁.executors.map signalAll }) := by
  by_cases hw : s.base.state = .waiting ∨ s.base.state = .timing
  · refine ⟨s.signalWork, samePool_signalWork s, ?_⟩
    simp only [signalDestroy, if_pos hw]
    split_ifs
    · exact .inr rfl
    · exact .inl rfl
  · refine ⟨s, samePool_of_timer rfl rfl rfl id rfl rfl Iff.rfl rfl, ?_⟩
    simp only [signalDestroy, if_neg hw]
    split_ifs
    · exact .inr rfl
    · exact .inl rfl

lemma Tallied.destroying {s : State} (h : Tallied s) (ds : List ℕ) :
    Tallied { (signalDestroy s).setState .destroy with destroyers := ds } := by
  obtain ⟨s₁, hsame, heq⟩ := signalDestroy_cases s
  have h1 := h.congr hsame
  rcases heq with heq | heq
  · rw [heq]
    exact ⟨h1.threads, h1.idle, h1.max⟩
  · rw [heq]
    refine ⟨?_, ?_, h1.max⟩
    · simp only [State.setState, signalAll_countP (p := Executor.live) (fun _ _ _ => rfl)]
      exact h1.threads
    · simp only [State.setState, signalAll_countP (p := Executor.isIdle) (fun _ _ _ => rfl)]
      exact h1.idle

/-! ## Steps -/

/-- The shot, also after a timed wait, starts from a pool as it was. -/
lemma samePool_timedShoot (t : Ptr) (s : State) :
    SamePool s (shootState t (s.setRunning none)) := by
  have h0 : SamePool s (s.setRunning none) := samePool_of_timer rfl rfl rfl id rfl rfl Iff.rfl rfl
  exact h0.trans (samePool_shoot t (s.setRunning none))

/-- `pthread_create` fails in the step of the inspector, if it is called. -/
def Label.createFails : Label → Bool
  | .inspectorLoop _ created => !created
  | .inspectorWake _ _ created => !created
  | _ => false

/-- What a step can do to the pool. -/
inductive Worked (s : State) : Label → State → Prop
  | same {l : Label} {s' : State} (hsame : SamePool s s') : Worked s l s'
  | setup {users : Option TimerOption} {created : Bool} {s' : State} {es : List Event}
      (hsetup : timerSetup users created s = some (s', es)) : Worked s (.setup users created) s'
  | destroy {i : ℕ} {ds : List ℕ} :
      Worked s (.destroy i) { (signalDestroy s).setState .destroy with destroyers := ds }
  | cleanup {i : ℕ} {ds : List ℕ} (hn : ¬ 0 < s.base.nthreads) :
      Worked s (.destroyWake i) { timerDestroyCleanup s with destroyers := ds }
  | inspectorExit {l : Label} (hpc : s.inspector = .loop) :
      Worked s l { threadCleanup s with inspector := .dead }
  | dispatched {l : Label} {t : Ptr} {created : Bool} {s₁ s' : State} {es : List Event}
      (hl : l.createFails = !created) (hsame : SamePool s s₁) (hstate : s₁.base.state ≠ .destroy)
      (hpc : s.inspector ≠ .dead) (hd : Dispatched t created s₁ s' es) : Worked s l s'
  | start {i : ℕ} (hpc : s.executors[i]? = some .start) :
      Worked s (.executorStart i) (s.setExecutor i (.loop false))
  | exit {i : ℕ} {b : Bool} (hpc : s.executors[i]? = some (.loop b))
      (hstate : s.base.state = .destroy) :
      Worked s (.executorLoop i) ((threadCleanup s).setExecutor i .dead)
  | wait {l : Label} {i : ℕ} {b : Bool} {d : Option Timespec}
      (hpc : s.executors[i]? = some (.loop b)) (hexp : s.base.expiredTimer = []) :
      Worked s l ((s.addIdle 1).setExecutor i (.idle d b false))
  | drained {l : Label} {i : ℕ} {b : Bool} {e : Executor} {s₁ s' : State} {es : List Event}
      (hpc : s.executors[i]? = some e) (hlive : e.live = true) (hw : Woken e s s₁)
      (hd : Drained i b s₁ s' es) : Worked s l s'

/-- **Every step is one of these.** -/
lemma worked_of_step {s s' : State} {l : Label} {es : List Event}
    (hstep : step s l = some (s', es)) : Worked s l s' := by
  cases trans_of_step hstep with
  | tick => exact .same (samePool_of_timer rfl rfl rfl id rfl rfl Iff.rfl rfl)
  | setup hsetup => exact .setup hsetup
  | failed => exact .same (samePool_of_timer rfl rfl rfl id rfl rfl Iff.rfl rfl)
  | add => exact .same (samePool_add _ _ _ _)
  | delDetach => exact .same ((samePool_exit _ _).trans (samePool_setFlags id))
  | @delWait u t =>
      have h1 : SamePool s ((exitState t s).setFlags t fun f => { f with waiting := true }) :=
        (samePool_exit t s).trans (samePool_setFlags id)
      exact .same (h1.trans (samePool_of_timer rfl rfl rfl id rfl rfl Iff.rfl rfl))
  | delDone => exact .same (samePool_exit _ _)
  | delStay => exact .same (samePool_setFlags id)
  | delReturn => exact .same (samePool_of_timer rfl rfl rfl id rfl rfl Iff.rfl rfl)
  | mod => exact .same (samePool_mod _ _ _)
  | destroy => exact .destroy
  | destroyCleanup hn => exact .cleanup hn
  | inspectorStart hpc => exact .same (samePool_inspector (by simp [hpc]) (by simp))
  | inspectorExit hpc => exact .inspectorExit hpc
  | inspectorWait hpc =>
      refine .same (samePool_of_timer rfl rfl rfl (fun hd => ?_) rfl rfl (by simp [hpc]) rfl)
      cases hd
  | inspectorTimed hpc =>
      refine .same (samePool_of_timer rfl rfl rfl (fun hd => ?_) rfl rfl (by simp [hpc]) rfl)
      cases hd
  | inspectorShoot hpc _ _ _ hshoot =>
      exact .dispatched rfl (samePool_shoot _ _) (by simp [shootState_state]) (by simp [hpc]) hshoot
  | inspectorWoken hpc => exact .same (samePool_inspector (by simp [hpc]) (by simp))
  | timedRemoved hpc => exact .same (samePool_inspector (by simp [hpc]) (by simp))
  | timedSignal hpc =>
      exact .same (samePool_of_timer rfl rfl rfl id rfl rfl (by simp [hpc]) rfl)
  | timedShoot hpc _ _ hshoot =>
      exact .dispatched rfl (samePool_timedShoot _ _) (by simp [shootState_state]) (by simp [hpc])
        hshoot
  | @inspectorReturn t hpc =>
      have h1 : SamePool s (timerCleanup t s) := samePool_setFlags id
      exact .same (h1.trans (samePool_inspector (by simp [h1.inspector, hpc]) (by simp)))
  | executorStart hpc => exact .start hpc
  | executorExit hpc hstate => exact .exit hpc hstate
  | executorWait hpc _ hexp => exact .wait hpc hexp
  | executorDrain hpc _ hdrain =>
      exact .drained hpc rfl ⟨rfl, by simp [Executor.isIdle], rfl, rfl, rfl, rfl, fun _ ht => ht⟩
        hdrain
  | executorWoken hpc hdrain =>
      refine .drained hpc rfl (?_ : Woken _ s (s.addIdle (-1))) hdrain
      refine ⟨rfl, ?_, rfl, rfl, rfl, rfl, fun _ ht => ht⟩
      simp [Executor.isIdle, State.addIdle]
  | @executorReturn i t b s' es hpc _ hdrain =>
      refine .drained hpc rfl (?_ : Woken _ s (timerCleanup t s)) hdrain
      refine ⟨rfl, by simp [Executor.isIdle, timerCleanup, State.setFlags, State.modify], rfl, rfl,
        rfl, rfl, fun x hx => ?_⟩
      simp only [timerCleanup, State.setFlags, State.modify] at hx
      split_ifs at hx <;> exact hx

/-- **The counters** are right after every step. -/
lemma Tallied.step {s s' : State} {l : Label} {es : List Event} (h : Tallied s)
    (hstep : step s l = some (s', es)) : Tallied s' := by
  cases worked_of_step hstep with
  | same hsame => exact h.congr hsame
  | setup hsetup => exact h.setup hsetup
  | destroy => exact h.destroying _
  | cleanup => exact ⟨h.threads, h.idle, le_refl 2⟩
  | inspectorExit hpc =>
      have hthreads := h.threads
      rw [if_neg (by simp [hpc])] at hthreads
      refine ⟨?_, h.idle, h.max⟩
      change s.base.nthreads - 1 = 0 + (s.executors.countP Executor.live : ℕ)
      omega
  | dispatched _ hsame _ hpc hd =>
      exact (h.congr hsame).dispatched (fun hdead => hpc (hsame.inspector.mp hdead)) hd
  | start hpc => exact h.start hpc
  | exit hpc => exact h.exit hpc
  | wait hpc => exact h.wait hpc
  | drained hpc hlive hw hd => exact h.drained hpc hlive hw hd

lemma tallied_boot (now : Timespec) : Tallied (boot now) := ⟨rfl, rfl, le_refl 2⟩

/-! ## An executor looks at the expired timers -/

/-- As long as timers are in `expired_timer`, some executor is awake. -/
def Attended (s : State) : Prop :=
  s.base.expiredTimer ≠ [] → ∃ e ∈ s.executors, e.awake = true

/-- An executor that ends at the head of its loop, because it finds `TMR_BASE_DESTROY` there,
leaves no timer behind, or another executor that is awake. -/
def LeavesSafe (s : State) : Label → Prop
  | .executorLoop i => s.base.state = .destroy → s.base.expiredTimer = [] ∨
      ∃ e ∈ s.executors.eraseIdx i, e.awake = true
  | _ => True

instance (s : State) : (l : Label) → Decidable (LeavesSafe s l)
  | .executorLoop _ => inferInstanceAs (Decidable (_ → _ ∨ _))
  | .tick _ | .setup .. | .add .. | .del .. | .delWake _ | .mod .. | .destroy _ | .destroyWake _ |
    .inspectorStart | .inspectorLoop .. | .inspectorWake .. | .inspectorReturn | .executorStart _ |
    .executorWake .. | .executorReturn _ => inferInstanceAs (Decidable True)

lemma awake_signalFirst {es : List Executor} (h : ∃ e ∈ es, e.isIdle = true) :
    ∃ e ∈ signalFirst es, e.awake = true := by
  induction es using signalFirst.induct with
  | case1 => simp at h
  | case2 d b es => exact ⟨.idle d b true, by simp [signalFirst], rfl⟩
  | case3 e es hne ih =>
      obtain ⟨e', hmem, hidle⟩ := h
      rcases List.mem_cons.mp hmem with rfl | hmem
      · -- an idle executor that is passed over has been signalled before
        refine ⟨e', by simp [signalFirst], ?_⟩
        cases e' with
        | idle d b sig =>
            cases sig with
            | true => rfl
            | false => exact absurd rfl (hne d b)
        | dead | start | loop | running => cases hidle
      · obtain ⟨e'', hmem', hawake⟩ := ih ⟨e', hmem, hidle⟩
        exact ⟨e'', by simp [signalFirst, hmem'], hawake⟩

/-- A signal while some executor counts as idle: this one or another is awake. -/
lemma awake_signalExec (wake : ℕ) {es : List Executor} (h : ∃ e ∈ es, e.isIdle = true) :
    ∃ e ∈ signalExec wake es, e.awake = true := by
  unfold signalExec
  split
  · rename_i d b hwake
    exact ⟨.idle d b true, mem_set_self hwake, rfl⟩
  · exact awake_signalFirst h

/-- `timer_thread_execute` finds or makes an executor that is awake. -/
lemma Tallied.attended {s : State} (h : Tallied s) (t : Ptr) (wake : ℕ) :
    ∃ e ∈ (timerThreadExecute t wake true s).executors, e.awake = true := by
  have hthreads := h.threads
  have hidle := h.idle
  have hmax := h.max
  unfold timerThreadExecute
  split_ifs with hpos hnew
  · exact awake_signalExec wake (exists_of_countP (by omega))
  · exact ⟨.start, by simp, rfl⟩
  · -- the pool is full, one of its threads is the inspector, and nobody is idle
    have hfull : ¬ s.base.nthreads < s.base.opt.threadMax := fun hlt => hnew ⟨hlt, rfl⟩
    have hlive : 0 < s.executors.countP Executor.live := by
      split_ifs at hthreads <;> omega
    obtain ⟨e, hmem, he⟩ := exists_of_countP hlive
    refine ⟨e, hmem, ?_⟩
    cases e with
    | idle d b sig =>
        have hone := countP_pos_of_mem (p := Executor.isIdle) hmem rfl
        omega
    | start | loop | running => rfl
    | dead => cases he

lemma Attended.same {s s' : State} (h : Attended s)
    (hexp : s'.base.expiredTimer = s.base.expiredTimer) (hexec : s'.executors = s.executors) :
    Attended s' := by
  intro hne
  rw [hexec]
  exact h (hexp ▸ hne)

lemma Attended.dispatched {t : Ptr} {s s' : State} {es : List Event} (h : Attended s)
    (htally : Tallied s) (hd : Dispatched t true s s' es) : Attended s' := by
  cases hd with
  | skip => exact h.same rfl rfl
  | pool wake => exact fun _ => htally.attended t wake
  | inline => exact h.same rfl rfl

lemma Attended.drained {i : ℕ} {b : Bool} {e : Executor} {s s₁ s' : State} {es : List Event}
    (hpc : s.executors[i]? = some e) (hw : Woken e s s₁) (hd : Drained i b s₁ s' es) :
    Attended s' := by
  cases hd with
  | @take t rest hexp hpend =>
      have hmem : Executor.running t b ∈ s₁.executors.set i (.running t b) :=
        mem_set_self (hw.executors ▸ hpc)
      exact fun _ => ⟨_, hmem, rfl⟩
  | exit hexp => exact fun hne => absurd hexp hne
  | again hexp => exact fun hne => absurd hexp hne

lemma mem_set_of_mem_eraseIdx {e e' : Executor} {es : List Executor} {i : ℕ}
    (h : e ∈ es.eraseIdx i) : e ∈ es.set i e' := by
  obtain ⟨k, hk, he⟩ := List.mem_eraseIdx_iff_getElem?.mp h
  refine List.mem_of_getElem? (i := k) ?_
  rw [List.getElem?_set_ne (Ne.symm hk), he]

lemma Attended.step {s s' : State} {l : Label} {es : List Event} (htally : Tallied s)
    (h : Attended s) (hl : l.createFails = false) (hsafe : LeavesSafe s l)
    (hstep : step s l = some (s', es)) : Attended s' := by
  cases worked_of_step hstep with
  | same hsame => exact h.same hsame.expired hsame.executors
  | @setup users _ _ _ hsetup =>
      have hinit : Attended (timerInitOnce users s) := by
        unfold timerInitOnce
        split
        · exact h
        · exact fun hne => absurd rfl hne
      obtain ⟨-, rfl | rfl⟩ := timerSetup_cases hsetup
      · exact hinit.same rfl rfl
      · exact hinit.same rfl rfl
  | destroy =>
      obtain ⟨s₁, hsame, heq⟩ := signalDestroy_cases s
      have h1 := h.same hsame.expired hsame.executors
      rcases heq with heq | heq
      · rw [heq]
        exact h1.same rfl rfl
      · rw [heq]
        intro hne
        obtain ⟨e, hmem, hawake⟩ := h1 hne
        refine ⟨signalAll e, List.mem_map_of_mem hmem, ?_⟩
        cases e <;> first | rfl | exact hawake
  | cleanup => exact h.same rfl rfl
  | inspectorExit => exact h.same rfl rfl
  | @dispatched _ _ created _ _ _ hcreate hsame _ _ hd =>
      obtain rfl : created = true := by
        rw [hl] at hcreate
        simpa using hcreate
      exact (h.same hsame.expired hsame.executors).dispatched (htally.congr hsame) hd
  | start hpc => exact fun _ => ⟨_, mem_set_self hpc, rfl⟩
  | exit hpc hstate =>
      intro hne
      obtain ⟨e, hmem, hawake⟩ := (hsafe hstate).resolve_left hne
      exact ⟨e, mem_set_of_mem_eraseIdx hmem, hawake⟩
  | wait hpc hexp => exact fun hne => absurd hexp hne
  | drained hpc _ hw hd => exact Attended.drained hpc hw hd

/-! ## An executor leaves its loop -/

/-- The executor `i` leaves its loop in the step. -/
def Leaves (i : ℕ) (s s' : State) : Prop :=
  (∃ e, s.executors[i]? = some e ∧ e.live = true) ∧ s'.executors[i]? = some .dead

lemma not_leaves {i : ℕ} {s s' : State}
    (h : ∀ e, s.executors[i]? = some e → e.live = true → s'.executors[i]? ≠ some .dead) :
    ¬ Leaves i s s' :=
  fun ⟨⟨e, he, hlive⟩, hdead⟩ => h e he hlive hdead

lemma not_leaves_of_eq {i : ℕ} {s s' : State} (h : s'.executors = s.executors) :
    ¬ Leaves i s s' := by
  apply not_leaves
  intro e he hlive hdead
  rw [h, he] at hdead
  obtain rfl := Option.some.inj hdead
  cases hlive

lemma not_leaves_of_set {i k : ℕ} {e : Executor} {s s' : State} (hne : e ≠ .dead)
    (h : s'.executors = s.executors.set k e) : ¬ Leaves i s s' := by
  apply not_leaves
  intro e' he hlive hdead
  rw [h] at hdead
  rcases eq_or_ne k i with rfl | hki
  · obtain ⟨hlt, -⟩ := List.getElem?_eq_some_iff.mp he
    rw [List.getElem?_set_self hlt] at hdead
    exact hne (Option.some.inj hdead)
  · rw [List.getElem?_set_ne hki, he] at hdead
    obtain rfl := Option.some.inj hdead
    cases hlive

lemma not_leaves_of_map {i : ℕ} {s s' : State}
    (h : s'.executors.map Executor.live = s.executors.map Executor.live) : ¬ Leaves i s s' := by
  apply not_leaves
  intro e he hlive hdead
  have hi : (s'.executors.map Executor.live)[i]? = (s.executors.map Executor.live)[i]? := by
    rw [h]
  rw [List.getElem?_map, List.getElem?_map, he, hdead] at hi
  have hfalse : false = e.live := Option.some.inj hi
  rw [hlive] at hfalse
  cases hfalse

lemma live_signalFirst (es : List Executor) :
    (signalFirst es).map Executor.live = es.map Executor.live := by
  induction es using signalFirst.induct with
  | case1 => rfl
  | case2 d b es => rfl
  | case3 e es hne ih => simp [signalFirst, ih]

lemma live_signalExec (wake : ℕ) (es : List Executor) :
    (signalExec wake es).map Executor.live = es.map Executor.live := by
  unfold signalExec
  split
  · rename_i d b hwake
    obtain ⟨hlt, he⟩ := List.getElem?_eq_some_iff.mp hwake
    have hlive : Executor.live (.idle d b true) = Executor.live es[wake] := by
      rw [he]
      rfl
    rw [List.map_set, hlive, ← List.getElem_map Executor.live (h := by simpa using hlt)]
    exact List.set_getElem_self _
  · exact live_signalFirst es

lemma not_leaves_thread {i : ℕ} (t : Ptr) (wake : ℕ) (created : Bool) (s : State) :
    ¬ Leaves i s (timerThreadExecute t wake created s) := by
  unfold timerThreadExecute
  split_ifs
  · exact not_leaves_of_map (live_signalExec wake s.executors)
  · apply not_leaves
    intro e he hlive hdead
    obtain ⟨hlt, -⟩ := List.getElem?_eq_some_iff.mp he
    change (s.executors ++ [Executor.start])[i]? = some .dead at hdead
    rw [List.getElem?_append_left hlt, he] at hdead
    obtain rfl := Option.some.inj hdead
    cases hlive
  · exact not_leaves_of_eq rfl

/-- **An executor leaves** its loop only when nothing is in `expired_timer` or the runtime is
being destroyed. -/
lemma leaves_step {s s' : State} {l : Label} {es : List Event} {i : ℕ}
    (hstep : step s l = some (s', es)) (hleave : Leaves i s s') :
    s.base.expiredTimer = [] ∨ s.base.state = .destroy := by
  cases worked_of_step hstep with
  | same hsame => exact absurd hleave (not_leaves_of_eq hsame.executors)
  | @setup users _ _ _ hsetup =>
      have hinit : (timerInitOnce users s).executors = s.executors := by
        unfold timerInitOnce
        split <;> rfl
      obtain ⟨-, rfl | rfl⟩ := timerSetup_cases hsetup
      · exact absurd hleave (not_leaves_of_eq hinit)
      · exact absurd hleave (not_leaves_of_eq hinit)
  | destroy =>
      obtain ⟨s₁, hsame, heq⟩ := signalDestroy_cases s
      refine absurd hleave (not_leaves_of_map ?_)
      rcases heq with heq | heq
      · rw [heq]
        exact congrArg _ hsame.executors
      · rw [heq, ← hsame.executors]
        change (s₁.executors.map signalAll).map Executor.live = _
        rw [List.map_map]
        apply List.map_congr_left
        intro e _
        cases e <;> rfl
  | cleanup => exact absurd hleave (not_leaves_of_eq rfl)
  | inspectorExit => exact absurd hleave (not_leaves_of_eq rfl)
  | @dispatched _ t created s₁ _ _ _ hsame _ _ hd =>
      obtain ⟨⟨e, he, hlive⟩, hdead⟩ := hleave
      rw [← hsame.executors] at he
      cases hd with
      | skip => exact absurd ⟨⟨e, he, hlive⟩, hdead⟩ (not_leaves_of_eq (s := s₁) rfl)
      | pool wake => exact absurd ⟨⟨e, he, hlive⟩, hdead⟩ (not_leaves_thread t wake created s₁)
      | inline => exact absurd ⟨⟨e, he, hlive⟩, hdead⟩ (not_leaves_of_eq (s := s₁) rfl)
  | start => exact absurd hleave (not_leaves_of_set (by simp) rfl)
  | exit _ hstate => exact .inr hstate
  | wait _ hexp => exact .inl hexp
  | drained _ _ hw hd =>
      cases hd with
      | take =>
          refine absurd hleave (not_leaves_of_set ?_ (congrArg (List.set · _ _) hw.executors))
          simp
      | exit hexp => exact .inl (hw.expired ▸ hexp)
      | again hexp => exact .inl (hw.expired ▸ hexp)

/-- **No expired timer is stranded.**  In every run from the start of the process, with any options
of the user, in which the creation of executors succeeds and an executor that finds
`TMR_BASE_DESTROY` at the head of its loop leaves no timer behind or another executor awake:
whenever the runtime is not being destroyed and `expired_timer` is not empty, some executor is live
and not blocked without a wake-up.  An executor leaves its loop only when `expired_timer` is empty
or the runtime is being destroyed. -/
theorem no_timer_stranded {ls : List Label} {now : Timespec} {s : State} {es : List Event}
    (hrun : run step ls (boot now) = some (s, es)) (hcreated : ∀ l ∈ ls, l.createFails = false)
    (hleave : Along step LeavesSafe ls (boot now)) :
    (s.base.state ≠ .destroy → s.base.expiredTimer ≠ [] → ∃ e ∈ s.executors, e.awake = true) ∧
      ∀ l s' es' i, step s l = some (s', es') → Leaves i s s' →
        s.base.expiredTimer = [] ∨ s.base.state = .destroy := by
  have hinv : Tallied s ∧ Attended s := run_invariant (I := fun s => Tallied s ∧ Attended s)
    (fun h hok hstep => ⟨h.1.step hstep, h.2.step h.1 hok.1 hok.2 hstep⟩)
    ⟨tallied_boot now, fun hne => absurd rfl hne⟩ ((along_of_forall hcreated _).and hleave) hrun
  exact ⟨fun _ => hinv.2, fun l s' es' i hstep hleaves => leaves_step hstep hleaves⟩

/-- A timer expires and is given to a new executor; nobody has taken the mutex yet. -/
def queueRun : List Label :=
  [.setup none true, .add (.user 0) 1 ⟨false, true⟩ 0, .inspectorStart, .inspectorLoop 0 true,
    .inspectorLoop 0 true]

/-- The new executor will take the timer. -/
theorem no_timer_stranded_sample :
    ∃ s es, run step queueRun (boot ⟨0, 0⟩) = some (s, es) ∧ s.base.expiredTimer ≠ [] ∧
      ∃ e ∈ s.executors, e.awake = true := by
  obtain ⟨s, es, hrun, hstate, hexp⟩ : ∃ s es, run step queueRun (boot ⟨0, 0⟩) = some (s, es) ∧
      s.base.state ≠ .destroy ∧ s.base.expiredTimer ≠ [] :=
    ⟨_, _, rfl, by decide, by decide⟩
  exact ⟨s, es, hrun, hexp, (no_timer_stranded hrun (by decide) (by decide)).1 hstate hexp⟩

/-- **An expired timer is stranded.**  `timer_destroy` gets the mutex before the new executor does:
the executor ends at the head of its loop, and the timer is still in the list when the runtime is
set up again and its inspector waits, alone. -/
theorem timer_stranded :
    ¬ ∀ (ls : List Label) (s : State) (es : List Event), run step ls (boot ⟨0, 0⟩) = some (s, es) →
      (∀ l ∈ ls, l.createFails = false) → s.base.state ≠ .destroy → s.base.expiredTimer ≠ [] →
      ∃ e ∈ s.executors, e.awake = true := by
  intro h
  have hbad := h (queueRun ++ [.destroy 0, .inspectorWake false 0 true, .inspectorLoop 0 true,
    .executorStart 0, .executorLoop 0, .destroyWake 0, .setup none true, .inspectorStart,
    .inspectorLoop 0 true]) _ _ rfl (by decide) (by decide) (by decide)
  exact absurd hbad (by decide)

end LinuxC.Timer
