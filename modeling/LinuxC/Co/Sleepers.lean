import LinuxC.Co.Scheduling

/-!
# No coroutine is lost, and the sleep tree is exact

The two results about whole runs of the scheduler, each under the conditions that the code needs
(`no_coroutine_lost`, `sleep_tree_exact`), and for each a run in which the code breaks it.
-/

namespace LinuxC.Co

open Rb

variable {C : Type} [DecidableEq C]

/-! ## No coroutine is lost -/

/-- The coroutine is in the queue. -/
def InQueue (i : Queue) (s : Scheduler C) (c : C) : Prop :=
  ∃ cs : List C, s.list.Ring (.head i) (cs.map Item.co) ∧ c ∈ cs

/-- The coroutine has been initialised, has not exited and is not the running one. -/
def Suspended (s : Scheduler C) (c : C) : Prop :=
  s.live c ∧ s.state c ≠ .exited ∧ s.runningco ≠ some c

/-- No coroutine is lost: all of them are in a queue or in the sleep tree, those in the tree are
made ready when `expire` comes to them after their time, and `co_scheduler_run` goes on. -/
structure NoneLost (s : Scheduler C) : Prop where
  kept : ∀ c, Suspended s c →
    InQueue .readyq s c ∨ InQueue .waitsq s c ∨ c ∈ members s.sleepTree
  expires : ∀ c ∈ members s.sleepTree,
    ∃ now s', expireNode c now s = some s' ∧ InQueue .readyq s' c
  goesOn : s.phase = .head → (∃ c, s.live c) → anyLeft s

section NoneLost

variable {s s' : Scheduler C} {q : Queue → List C} {xs : List C} {c : C}

omit [DecidableEq C] in
lemma Keeps.inQueue (h : Keeps s q xs) {i : Queue} (hlive : s.live c)
    (hst : queueOf (s.state c) = some i) : InQueue i s c :=
  ⟨q i, h.queues.rings.ring i, (h.queues.mem i c).mpr ⟨hlive, hst⟩⟩

omit [DecidableEq C] in
lemma Keeps.kept (h : Keeps s q xs) (hc : Suspended s c) :
    InQueue .readyq s c ∨ InQueue .waitsq s c ∨ c ∈ members s.sleepTree := by
  obtain ⟨hlive, hexit, hrun⟩ := hc
  have hactive := h.places.active c hlive
  have htimed := h.places.timed c
  cases hst : s.state c with
  | ready => exact .inl (h.inQueue hlive (by rw [hst]; rfl))
  | running => exact absurd (hactive (.inl hst)) hrun
  | sleeping =>
      exact .inr (.inr (h.tree.mem_members.mpr (htimed.mpr ⟨hlive, .inl hst⟩)))
  | waiting => exact .inr (.inl (h.inQueue hlive (by rw [hst]; rfl)))
  | timedwait => exact .inr (.inl (h.inQueue hlive (by rw [hst]; rfl)))
  | exited => exact absurd hst hexit

/-- A coroutine in the tree is made ready at its time. -/
lemma Keeps.expires (h : Keeps s q xs) (hc : c ∈ xs) :
    ∃ s', expireNode c (s.sleepExpiredTime c) s = some s' ∧ InQueue .readyq s' c := by
  obtain ⟨hlive, -⟩ := (h.places.timed c).mp hc
  obtain ⟨t, r, hremove, hnext, -, -⟩ := h.removed hc
  have hqueues := h.queues.transfer hlive .ready
  refine ⟨{ coTransfer c .ready { s with sleepTree := t } with phase := .expiring r }, ?_,
    moved q c .ready .readyq, hqueues.rings.ring .readyq, ?_⟩
  · simp [expireNode, hremove, hnext, coTransfer]
  · exact (mem_moved h.queues).mpr (.inr ⟨rfl, rfl⟩)

/-- A coroutine in a queue or in the tree keeps the loop of `co_scheduler_run` going. -/
lemma Keeps.anyLeft_of_place (h : Keeps s q xs) (hlive : s.live c)
    (hplace : (∃ i, queueOf (s.state c) = some i) ∨ Timed (s.state c)) : anyLeft s := by
  rcases hplace with ⟨i, hi⟩ | htimed
  · have hany : stqAny i s := by
      rw [h.queues.any, decide_eq_true_eq]
      exact List.ne_nil_of_mem ((h.queues.mem i c).mpr ⟨hlive, hi⟩)
    cases i with
    | readyq => simp [anyLeft, hany]
    | waitsq => simp [anyLeft, hany]
  · have hne : s.sleepTree.rbCount ≠ 0 := by
      rw [h.tree.count, ne_eq, List.length_eq_zero_iff]
      exact List.ne_nil_of_mem ((h.places.timed c).mpr ⟨hlive, htimed⟩)
    simp [anyLeft, hne]

/-- While a coroutine is left, the loop of `co_scheduler_run` goes on. -/
lemma Keeps.goesOn (h : Keeps s q xs) (hphase : s.phase = .head) (hc : s.live c) : anyLeft s := by
  have hrun := h.phase
  simp only [PhaseOk, hphase] at hrun
  have hactive := h.places.active c hc
  apply h.anyLeft_of_place hc
  cases hst : s.state c with
  | ready => exact .inl ⟨.readyq, rfl⟩
  | running => simp [hst, hrun] at hactive
  | sleeping => exact .inr (.inl rfl)
  | waiting => exact .inl ⟨.waitsq, rfl⟩
  | timedwait => exact .inr (.inr rfl)
  | exited => simp [hst, hrun] at hactive

lemma Keeps.noneLost (h : Keeps s q xs) : NoneLost s where
  kept _ hc := h.kept hc
  expires _ hc := ⟨_, h.expires (h.tree.mem_members.mp hc)⟩
  goesOn hphase hc := h.goesOn hphase hc.choose_spec

end NoneLost

/-! ## The kernel's list -/

def Accepted : Label C → Prop
  | .epoll added _ _ => added
  | _ => True

/-- Every coroutine in `waitsq` is on the kernel's list. -/
structure Heard (s : Scheduler C) : Prop where
  waiting : ∀ c, s.live c → queueOf (s.state c) = some .waitsq → s.watched c
  inserting : ∀ c, s.phase = .inserting c .timedwait → s.watched c

section Heard

variable {s s' : Scheduler C} {q : Queue → List C} {xs : List C} {c : C}

lemma Heard.update (h : Heard s) {live w : C → Bool} {st : CoState}
    (hlive : ∀ x, x ≠ c → live x → s.live x) (hw : ∀ x, x ≠ c → w x = s.watched x)
    (hst : queueOf st = some .waitsq → w c) (x : C) (hx : live x)
    (hqueue : queueOf (Function.update s.state c st x) = some .waitsq) : w x := by
  rcases eq_or_ne x c with rfl | hne
  · rw [Function.update_self] at hqueue
    exact hst hqueue
  · rw [Function.update_of_ne hne] at hqueue
    rw [hw x hne]
    exact h.waiting x (hlive x hne hx) hqueue

lemma Heard.transfer (h : Heard s) (st : CoState) (hst : queueOf st ≠ some .waitsq) (x : C)
    (hx : s.live x) (hqueue : queueOf ((coTransfer c st s).state x) = some .waitsq) :
    s.watched x :=
  h.update (fun _ _ hl => hl) (fun _ _ => rfl) (fun hq => absurd hq hst) x hx hqueue

omit [DecidableEq C] in
/-- The control moves on to a place outside the retry loops. -/
lemma Heard.goTo (h : Heard s) {p : Phase C} (hp : ∀ c, p ≠ .inserting c .timedwait) :
    Heard { s with phase := p } :=
  ⟨h.waiting, fun c hc => absurd hc (hp c)⟩

lemma Heard.resume (h : Heard s) (heval : resume s = some s') : Heard s' := by
  obtain ⟨c, -, heval⟩ := Option.bind_eq_some_iff.mp heval
  obtain rfl := Option.some.inj heval
  refine ⟨fun x hx hqueue => ?_, by simp⟩
  refine h.update (fun _ _ hl => hl) (fun y hy => ?_) (by simp [queueOf]) x hx hqueue
  exact Function.update_of_ne hy ..

lemma Heard.switchedBack (h : Heard s) (heval : switchedBack s = some s') : Heard s' := by
  obtain ⟨c, -, heval⟩ := Option.bind_eq_some_iff.mp heval
  obtain rfl := Option.some.inj heval
  refine ⟨fun x hx hqueue => h.waiting x ?_ hqueue, by simp⟩
  dsimp only at hx
  split at hx
  · rcases eq_or_ne x c with rfl | hne
    · simp at hx
    · rwa [Function.update_of_ne hne] at hx
  · exact hx

lemma Heard.goOn (h : Heard s) (heval : goOn s = some s') : Heard s' := by
  unfold Co.goOn at heval
  split at heval
  · split at heval
    · obtain ⟨n, -, heval⟩ := Option.bind_eq_some_iff.mp heval
      obtain rfl := Option.some.inj heval
      exact h.goTo (by simp)
    · obtain rfl := Option.some.inj heval
      exact h.goTo (by simp)
  · obtain rfl := Option.some.inj heval
    exact h.goTo (by simp)
  · split at heval
    · exact h.resume heval
    · obtain rfl := Option.some.inj heval
      exact h.goTo (by simp)
  · exact h.switchedBack heval
  · cases heval

lemma Heard.expire (h : Heard s) {now : ℤ} (heval : expireNode c now s = some s') : Heard s' := by
  unfold expireNode at heval
  split at heval
  · obtain ⟨t, -, heval⟩ := Option.bind_eq_some_iff.mp heval
    obtain ⟨s₁, hs₁, heval⟩ := Option.bind_eq_some_iff.mp heval
    obtain rfl := Option.some.inj hs₁
    obtain ⟨n, -, heval⟩ := Option.bind_eq_some_iff.mp heval
    obtain rfl := Option.some.inj heval
    exact ⟨h.transfer .ready (by simp [queueOf]), by simp⟩
  · obtain ⟨s₁, hs₁, heval⟩ := Option.bind_eq_some_iff.mp heval
    obtain rfl := Option.some.inj hs₁
    obtain ⟨n, -, heval⟩ := Option.bind_eq_some_iff.mp heval
    obtain rfl := Option.some.inj heval
    exact h.goTo (by simp)

lemma Heard.tryInsert (h : Heard s) (hk : Keeps s q xs) {next : CoState}
    (hphase : s.phase = .inserting c next) (heval : tryInsert c next s = some s') :
    Heard s' := by
  obtain ⟨⟨t, r⟩, -, heval⟩ := Option.bind_eq_some_iff.mp heval
  dsimp only at heval
  split at heval
  · obtain rfl := Option.some.inj heval
    refine ⟨fun x hx hqueue => ?_, by simp⟩
    refine h.update (fun _ _ hl => hl) (fun _ _ => rfl) (fun hnext => ?_) x hx hqueue
    have hold := hk.phase
    simp only [PhaseOk, hphase] at hold
    rcases hold.2.2.2.1 with rfl | rfl
    · simp [queueOf] at hnext
    · exact h.inserting c hphase
  · obtain rfl := Option.some.inj heval
    exact ⟨h.waiting, h.inserting⟩

lemma Heard.sleep (h : Heard s) (usec now : ℤ) : Heard (coSleep c usec now s) := by
  unfold coSleep
  split
  · exact ⟨h.waiting, by simp⟩
  · exact ⟨h.transfer .sleeping (by simp [queueOf]), by simp⟩

lemma Heard.epoll (h : Heard s) (timeout now : ℤ) : Heard (coEpoll c true timeout now s) := by
  have hw : ∀ x, x ≠ c → Function.update s.watched c true x = s.watched x :=
    fun x hx => Function.update_of_ne hx ..
  unfold coEpoll
  split
  · refine ⟨fun x hx hqueue => ?_, fun x hx => ?_⟩
    · rcases eq_or_ne x c with rfl | hne
      · simp
      · exact (hw x hne).trans (h.waiting x hx hqueue)
    · obtain rfl : c = x := by simpa using hx
      simp
  · exact ⟨fun x hx hqueue => h.update (fun _ _ hl => hl) hw (by simp) x hx hqueue, by simp⟩

lemma Heard.deliver (h : Heard s) (cs : List C) (x : C) (hx : s.live x)
    (hqueue : queueOf ((deliver cs s).state x) = some .waitsq) : s.watched x := by
  induction cs generalizing s with
  | nil => exact h.waiting x hx hqueue
  | cons c cs ih =>
      refine ih (s := coTransfer c .ready s) ⟨?_, h.inserting⟩ hx hqueue
      exact h.transfer .ready (by simp [queueOf])

/-- Every step in which the kernel accepts the descriptor keeps the coroutines on its list. -/
lemma Heard.step (h : Heard s) (hk : Keeps s q xs) {l : Label C} (hl : Accepted l)
    (heval : stepTo s l = some s') : Heard s' := by
  cases moved_of_stepTo heval with
  | @init c _ _ =>
      have hnew : ∀ x, Function.update s.live c true x →
          queueOf (Function.update s.state c .ready x) = some .waitsq → s.watched x :=
        fun x => h.update (fun y hy hl => by rwa [Function.update_of_ne hy] at hl)
          (fun _ _ => rfl) (by simp [queueOf]) x
      exact ⟨hnew, h.inserting⟩
  | run => exact h.goTo (by simp)
  | go hgo => exact h.goOn hgo
  | expire _ hnode => exact h.expire hnode
  | sleep => exact h.sleep _ _
  | @epoll _ added timeout now _ =>
      obtain rfl : added = true := hl
      exact h.epoll timeout now
  | insert hp hins => exact h.tryInsert hk hp hins
  | exit => exact ⟨h.transfer .exited (by simp [queueOf]), by simp [coExit]⟩
  | @events cs _ _ _ =>
      obtain ⟨hlive, -, -, -, hwatched⟩ := deliver_fields cs s
      refine ⟨fun x hx hqueue => ?_, by simp⟩
      rw [hwatched]
      exact h.deliver cs x (hlive ▸ hx) hqueue

omit [DecidableEq C] in
lemma Keeps.of_inQueue (h : Keeps s q xs) {i : Queue} (hc : InQueue i s c) :
    s.live c ∧ queueOf (s.state c) = some i := by
  classical
  obtain ⟨cs, hring, hmem⟩ := hc
  have hsame : cs.map Item.co = (q i).map Item.co := by
    have hlong := hring.walk (le_max_left _ ((q i).map Item.co).length)
    have hown := (h.queues.rings.ring i).walk (le_max_right (cs.map Item.co).length _)
    exact Option.some.inj (hlong.symm.trans hown)
  have hcs : cs = q i := List.map_injective_iff.mpr (fun _ _ he => Item.co.inj he) hsame
  exact (h.queues.mem i c).mp (hcs ▸ hmem)

end Heard

/-! ## The results -/

/-- The conditions can be checked on given runs. -/
instance (l : Label C) : Decidable (Sleeps l) := by
  cases l <;> unfold Sleeps <;> infer_instance

instance (s : Scheduler C) (l : Label C) : Decidable (NoTimedEvent s l) := by
  cases l <;> unfold NoTimedEvent <;> infer_instance

section Results

variable {s₀ s : Scheduler C} {ls : List (Label C)} {es : List Unit}

/-- **No coroutine is lost** in a run in which every `co_sleep` is for a positive time and no
event is delivered to a coroutine in `CO_TIMEDWAIT`: every coroutine that has been initialised,
has not exited and is not the running one is in `readyq`, in `waitsq` or in the sleep tree, and
`co_scheduler_run` does not end while there is one.  If the kernel has accepted all descriptors,
those in `waitsq` are on its list, so that an event can come. -/
theorem no_coroutine_lost (hrun : run step ls (coSchedulerInit s₀) = some (s, es))
    (hsleep : ∀ l ∈ ls, Sleeps l)
    (hevent : Along step NoTimedEvent ls (coSchedulerInit s₀)) :
    NoneLost s ∧ ((∀ l ∈ ls, Accepted l) → ∀ c, InQueue .waitsq s c → s.watched c) := by
  obtain ⟨q, xs, h⟩ := run_keeps hsleep hevent hrun
  refine ⟨h.noneLost, fun haccept c hc => ?_⟩
  have hok := ((along_of_forall hsleep (coSchedulerInit s₀)).and hevent).and
    (along_of_forall haccept (coSchedulerInit s₀))
  have hheard : (∃ q xs, Keeps s q xs) ∧ Heard s := by
    refine run_invariant (I := fun s => (∃ q xs, Keeps s q xs) ∧ Heard s) ?_
      ⟨⟨_, _, keeps_init s₀⟩, ⟨by simp [coSchedulerInit], by simp [coSchedulerInit]⟩⟩ hok hrun
    rintro s l s' es ⟨⟨q, xs, hk⟩, hh⟩ ⟨⟨hs, he⟩, ha⟩ heval
    exact ⟨hk.step hs he (stepTo_of_step heval), hh.step hk ha (stepTo_of_step heval)⟩
  obtain ⟨hlive, hqueue⟩ := h.of_inQueue hc
  exact hheard.2.waiting c hlive hqueue

end Results

/-- Memory with some contents. -/
def someMemory : Scheduler ℕ where
  live _ := false
  state _ := .exited
  sleepExpiredTime _ := 0
  list := ⟨id, id⟩
  sleepTree := ⟨none, fun _ => ⟨none, none, none, .black⟩, 0⟩
  runningco := none
  watched _ := false
  phase := .idle

/-- Two coroutines: one sleeps, the other waits for an event, which comes. -/
def sampleRun : List (Label ℕ) :=
  [.init 0, .init 1, .run, .go, .go, .go, .sleep 5 100, .insert, .go, .go, .epoll true (-1) 101,
    .go, .go, .events [1], .go, .expire 102]

/-- After the sample run the first coroutine sleeps and the second is ready. -/
theorem no_coroutine_lost_sample : ∃ s, run step sampleRun (coSchedulerInit someMemory) =
    some (s, []) ∧ s.state 0 = .sleeping ∧ s.state 1 = .ready ∧ NoneLost s := by
  have hrun : (run step sampleRun (coSchedulerInit someMemory)).map
      (fun r => (r.2, r.1.state 0, r.1.state 1)) = some ([], .sleeping, .ready) := by
    decide +kernel
  obtain ⟨⟨s, es⟩, hrun, hs⟩ := Option.map_eq_some_iff.mp hrun
  obtain ⟨rfl, h0, h1⟩ : es = [] ∧ s.state 0 = .sleeping ∧ s.state 1 = .ready := by simpa using hs
  exact ⟨s, hrun, h0, h1, (no_coroutine_lost hrun (by decide) (by decide +kernel)).1⟩

/-- A coroutine that calls `co_sleep` with the time zero. -/
def zeroSleepRun : List (Label ℕ) :=
  [.init 0, .run, .go, .go, .go, .sleep 0 0, .go, .go, .events [], .go]

omit [DecidableEq C] in
/-- A coroutine that is in a queue is behind the head of the queue. -/
lemma next_ne_of_inQueue {s : Scheduler C} {i : Queue} {c : C} (h : InQueue i s c) :
    s.list.next (.head i) ≠ .head i := by
  obtain ⟨cs, hring, hmem⟩ := h
  cases cs with
  | nil => simp at hmem
  | cons d cs =>
      rw [hring.seg.1]
      simp

omit [DecidableEq C] in
lemma root_ne_of_mem {t : RbTree C} {c : C} (h : c ∈ members t) : t.root ≠ none := by
  induction h with
  | root hroot => simp [hroot]
  | child _ _ ih => exact ih

/-- **A sleep of no length loses the coroutine**: it is in no queue and not in the tree, and
`co_scheduler_run` has ended. -/
theorem zero_sleep_lost : ∃ s, run step zeroSleepRun (coSchedulerInit someMemory) = some (s, []) ∧
    Suspended s 0 ∧ ¬ InQueue .readyq s 0 ∧ ¬ InQueue .waitsq s 0 ∧ 0 ∉ members s.sleepTree ∧
    s.phase = .idle := by
  have hrun : (run step zeroSleepRun (coSchedulerInit someMemory)).map
      (fun r => (r.2, r.1.live 0, r.1.state 0, r.1.runningco, r.1.phase)) =
      some ([], true, .sleeping, none, .idle) := by
    decide +kernel
  have hends : (run step zeroSleepRun (coSchedulerInit someMemory)).map
      (fun r => (r.1.list.next (.head .readyq), r.1.list.next (.head .waitsq),
        r.1.sleepTree.root)) = some (.head .readyq, .head .waitsq, none) := by
    decide +kernel
  obtain ⟨⟨s, es⟩, hrun, hs⟩ := Option.map_eq_some_iff.mp hrun
  simp only [Prod.mk.injEq] at hs
  obtain ⟨rfl, hlive, hstate, hnone, hphase⟩ := hs
  rw [hrun] at hends
  simp only [Option.map_some, Option.some.injEq, Prod.mk.injEq] at hends
  obtain ⟨hready, hwaits, hroot⟩ := hends
  refine ⟨s, hrun, ⟨hlive, by simp [hstate], by simp [hnone]⟩, ?_, ?_, ?_, hphase⟩
  · exact fun hc => next_ne_of_inQueue hc hready
  · exact fun hc => next_ne_of_inQueue hc hwaits
  · exact fun hc => root_ne_of_mem hc hroot

section Results

variable {s₀ s : Scheduler C} {ls : List (Label C)} {es : List Unit}

/-- The tree has exactly the timed sleepers, and a node that is about to be inserted is not in
it. -/
structure TreeExact (s : Scheduler C) : Prop where
  members : ∀ c, c ∈ members s.sleepTree ↔
    s.live c ∧ (s.state c = .sleeping ∨ s.state c = .timedwait)
  insertion : ∀ c next, s.phase = .inserting c next → c ∉ Rb.members s.sleepTree

omit [DecidableEq C] in
lemma Keeps.treeExact {q : Queue → List C} {xs : List C} (h : Keeps s q xs) : TreeExact s := by
  refine ⟨fun c => h.tree.mem_members.trans (h.places.timed c), fun c next hphase hmem => ?_⟩
  have hold := h.phase
  simp only [PhaseOk, hphase] at hold
  have htimed := ((h.places.timed c).mp (h.tree.mem_members.mp hmem)).2
  simp [hold.2.2.1, Timed] at htimed

/-- **The sleep tree holds exactly the timed sleepers** in every state of a run in which every
`co_sleep` is for a positive time and no event is delivered to a coroutine in `CO_TIMEDWAIT`. -/
theorem sleep_tree_exact (hrun : run step ls (coSchedulerInit s₀) = some (s, es))
    (hsleep : ∀ l ∈ ls, Sleeps l)
    (hevent : Along step NoTimedEvent ls (coSchedulerInit s₀)) : TreeExact s := by
  obtain ⟨q, xs, h⟩ := run_keeps hsleep hevent hrun
  exact h.treeExact

end Results

/-- In the sample run. -/
theorem sleep_tree_exact_sample : ∃ s, run step sampleRun (coSchedulerInit someMemory) =
    some (s, []) ∧ s.state 0 = .sleeping ∧ TreeExact s := by
  have hrun : (run step sampleRun (coSchedulerInit someMemory)).map
      (fun r => (r.2, r.1.state 0)) = some ([], .sleeping) := by
    decide +kernel
  obtain ⟨⟨s, es⟩, hrun, hs⟩ := Option.map_eq_some_iff.mp hrun
  obtain ⟨rfl, h0⟩ : es = [] ∧ s.state 0 = .sleeping := by simpa using hs
  exact ⟨s, hrun, h0, sleep_tree_exact hrun (by decide) (by decide +kernel)⟩

/-- A coroutine waits for an event with a timeout, the event comes first, and the coroutine goes
on to sleep. -/
def timedEventRun : List (Label ℕ) :=
  [.init 0, .run, .go, .go, .go, .epoll true 1000 0, .insert, .go, .go, .events [0], .go,
    .expire 0, .go, .go, .sleep 5 0]

/-- **An event before the timeout leaves the node in the tree**: the coroutine runs with its node
in the tree, and the next call of `rb_insert` is on that node. -/
theorem linked_node_inserted : ∃ s, run step timedEventRun (coSchedulerInit someMemory) =
    some (s, []) ∧ (∀ l ∈ timedEventRun, Sleeps l) ∧ s.state 0 = .running ∧
    0 ∈ members s.sleepTree ∧ s.phase = .inserting 0 .sleeping := by
  have hrun : (run step timedEventRun (coSchedulerInit someMemory)).map
      (fun r => (r.2, r.1.state 0, r.1.sleepTree.root, r.1.phase)) =
      some ([], .running, some 0, .inserting 0 .sleeping) := by
    decide +kernel
  obtain ⟨⟨s, es⟩, hrun, hs⟩ := Option.map_eq_some_iff.mp hrun
  simp only [Prod.mk.injEq] at hs
  obtain ⟨rfl, hstate, hroot, hphase⟩ := hs
  exact ⟨s, hrun, by decide, hstate, .root hroot, hphase⟩

end LinuxC.Co
