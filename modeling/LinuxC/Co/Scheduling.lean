import LinuxC.Co.Queues
import LinuxC.Co.SleepTree

/-!
# What the scheduler keeps

`Keeps s q xs` is the invariant of the scheduler: the queues are `q` and the sleep tree has the
coroutines `xs`, every live coroutine is in the queue its state calls for, and it is in the tree
exactly when its state is `CO_SLEEPING` or `CO_TIMEDWAIT`.

Two steps of the code break it.  `co_sleep` with a time that is not positive puts the coroutine
into the state `CO_SLEEPING` without a place in the tree, and nothing resumes it any more.  And
`co_epoll_schedule` makes a coroutine in `CO_TIMEDWAIT` ready without taking it out of the tree;
the node that stays behind is inserted a second time by the next sleep, or outlives the
coroutine.  All other steps keep the invariant (`Keeps.step`), and a state that has it is never stuck
in the code of the scheduler or of the tree (`Keeps.not_stuck`).
-/

namespace LinuxC.Co

open Rb

variable {C : Type} [DecidableEq C]

/-! ## The invariant -/

/-- The states of the coroutines in the sleep tree. -/
def Timed (st : CoState) : Prop := st = .sleeping ∨ st = .timedwait

instance (st : CoState) : Decidable (Timed st) := inferInstanceAs (Decidable (_ ∨ _))

/-- What holds at the place where the control is. -/
def PhaseOk (s : Scheduler C) (q : Queue → List C) (xs : List C) : Prop :=
  match s.phase with
  | .idle => s.runningco = none
  | .head => s.runningco = none
  | .expiring n => s.runningco = none ∧ ∀ c, n = some c → c ∈ xs
  | .scheduling => s.runningco = none
  | .running c =>
      s.runningco = some c ∧ s.live c ∧ s.state c = .running ∧ s.watched c = false
  | .inserting c next =>
      s.runningco = some c ∧ s.live c ∧ s.state c = .running ∧ Timed next ∧
        (s.watched c → next = .timedwait)
  | .switched =>
      ∃ c, s.runningco = some c ∧ s.live c ∧ s.state c ≠ .running ∧
        (s.watched c → queueOf (s.state c) = some .waitsq)
  | .polling => s.runningco = none ∧ q .readyq = []

/-- The coroutines are where their states say: those with a time to wait for are in the tree, the
one that runs is `runningco`, and the kernel watches only those that wait for an event or have just
been told of it. -/
structure Places (live : C → Bool) (state : C → CoState) (xs : List C) (runningco : Option C)
    (watched : C → Bool) : Prop where
  timed : ∀ c, c ∈ xs ↔ live c ∧ Timed (state c)
  active : ∀ c, live c → state c = .running ∨ state c = .exited → runningco = some c
  watched : ∀ c, watched c → runningco ≠ some c →
    live c ∧ (state c = .ready ∨ queueOf (state c) = some .waitsq)

/-- **The invariant of the scheduler.** The two rings hold the coroutines whose states belong to
them, the tree is a red-black tree in the order of the times, every coroutine is where its state
says, and the control is at a place that fits. -/
structure Keeps (s : Scheduler C) (q : Queue → List C) (xs : List C) : Prop where
  queues : Queues s.list s.live s.state q
  tree : IsSet (timeOrder s.sleepExpiredTime) s.sleepTree xs
  places : Places s.live s.state xs s.runningco s.watched
  phase : PhaseOk s q xs

/-- Every sleep of the run is for a positive time. -/
def Sleeps : Label C → Prop
  | .sleep usec _ => 0 < usec
  | _ => True

/-- No event is delivered to a coroutine in `CO_TIMEDWAIT`. -/
def NoTimedEvent (s : Scheduler C) : Label C → Prop
  | .events cs => ∀ c ∈ cs, s.state c ≠ .timedwait
  | _ => True

/-! ## Places -/

section Places

variable {live : C → Bool} {state : C → CoState} {xs xs' : List C} {r r' : Option C}
  {w w' : C → Bool} {c : C}

lemma Places.update (h : Places live state xs r w) {st : CoState}
    (hxs : ∀ x, x ≠ c → (x ∈ xs' ↔ x ∈ xs)) (hc : c ∈ xs' ↔ live c ∧ Timed st)
    (hr : ∀ x, x ≠ c → r = some x → r' = some x)
    (hrc : st = .running ∨ st = .exited → r' = some c)
    (hw : ∀ x, x ≠ c → w' x → r' ≠ some x → w x ∧ r ≠ some x)
    (hwc : w' c → r' ≠ some c → live c ∧ (st = .ready ∨ queueOf st = some .waitsq)) :
    Places live (Function.update state c st) xs' r' w' := by
  refine ⟨fun x => ?_, fun x hx hst => ?_, fun x hx hx' => ?_⟩
  · rcases eq_or_ne x c with rfl | hne
    · rw [Function.update_self]
      exact hc
    · rw [Function.update_of_ne hne, hxs x hne]
      exact h.timed x
  · rcases eq_or_ne x c with rfl | hne
    · rw [Function.update_self] at hst
      exact hrc hst
    · rw [Function.update_of_ne hne] at hst
      exact hr x hne (h.active x hx hst)
  · rcases eq_or_ne x c with rfl | hne
    · rw [Function.update_self]
      exact hwc hx hx'
    · rw [Function.update_of_ne hne]
      obtain ⟨hwx, hrx⟩ := hw x hne hx hx'
      exact h.watched x hwx hrx

lemma Places.fresh (h : Places live state xs r w) (hc : live c = false) (hr : r ≠ some c) :
    Places (Function.update live c true) (Function.update state c .ready) xs r w := by
  have hnot : ¬ live c := by simp [hc]
  refine ⟨fun x => ?_, fun x hx hst => ?_, fun x hx hx' => ?_⟩
  · rcases eq_or_ne x c with rfl | hne
    · rw [Function.update_self, Function.update_self]
      refine iff_of_false (fun hmem => hnot ((h.timed x).mp hmem).1) ?_
      simp [Timed]
    · rw [Function.update_of_ne hne, Function.update_of_ne hne]
      exact h.timed x
  · rcases eq_or_ne x c with rfl | hne
    · rw [Function.update_self] at hst
      simp at hst
    · rw [Function.update_of_ne hne] at hst hx
      exact h.active x hx hst
  · rcases eq_or_ne x c with rfl | hne
    · exact absurd (h.watched x hx hr).1 hnot
    · rw [Function.update_of_ne hne, Function.update_of_ne hne]
      exact h.watched x hx hx'

/-- The running coroutine gives up the control, and is released if it has exited. -/
lemma Places.back (h : Places live state xs (some c) w) (hlive : live c)
    (hc : state c ≠ .running) (hw : w c → queueOf (state c) = some .waitsq) :
    Places (if state c = .exited then Function.update live c false else live) state xs none w := by
  have hother : ∀ x, x ≠ c →
      (if state c = .exited then Function.update live c false else live) x = live x := by
    intro x hx
    split
    · exact Function.update_of_ne hx ..
    · rfl
  have hself : state c ≠ .exited →
      (if state c = .exited then Function.update live c false else live) = live :=
    fun hx => if_neg hx
  refine ⟨fun x => ?_, fun x hx hst => ?_, fun x hx _ => ?_⟩
  · rcases eq_or_ne x c with rfl | hne
    · by_cases hx : state x = .exited
      · rw [h.timed x]
        simp [hx, Timed]
      · rw [hself hx]
        exact h.timed x
    · rw [hother x hne]
      exact h.timed x
  · rcases eq_or_ne x c with rfl | hne
    · have hx' : state x = .exited := hst.resolve_left hc
      simp [hx'] at hx
    · rw [hother x hne] at hx
      exact absurd (Option.some.inj (h.active x hx hst)).symm hne
  · rcases eq_or_ne x c with rfl | hne
    · have hqueue := hw hx
      have hx' : state x ≠ .exited := by
        intro he
        simp [he, queueOf] at hqueue
      rw [hself hx']
      exact ⟨hlive, .inr hqueue⟩
    · rw [hother x hne]
      exact h.watched x hx fun he => hne (Option.some.inj he).symm

end Places

/-! ## Steps -/

section Steps

variable {s s' : Scheduler C} {q : Queue → List C} {xs : List C} {c : C}

omit [DecidableEq C] in
lemma Keeps.not_mem (h : Keeps s q xs) (hc : ¬ Timed (s.state c)) : c ∉ xs :=
  fun hmem => hc ((h.places.timed c).mp hmem).2

/-- The running coroutine goes to a state without a place in the tree and switches. -/
lemma Keeps.leave (h : Keeps s q xs) (hrun : s.runningco = some c) (hlive : s.live c)
    (hc : s.state c = .running) {w : C → Bool} (hw : ∀ x, x ≠ c → w x = s.watched x)
    {st : CoState} (hst : ¬ Timed st) (hnot : st ≠ .running)
    (hwc : w c → queueOf st = some .waitsq) :
    Keeps { coTransfer c st { s with watched := w } with phase := .switched } (moved q c st) xs
    where
  queues := h.queues.transfer hlive st
  tree := h.tree
  places := by
    have hmem : c ∉ xs := h.not_mem (by simp [hc, Timed])
    refine h.places.update (fun _ _ => Iff.rfl) ?_ (fun _ _ hx => hx) (fun _ => hrun) ?_ ?_
    · exact iff_of_false hmem fun hx => hst hx.2
    · exact fun x hx hwx hrx => ⟨(hw x hx).symm.trans hwx, hrx⟩
    · exact fun _ hx => absurd hrun hx
  phase := by
    refine ⟨c, hrun, hlive, ?_, ?_⟩
    · simpa [coTransfer] using hnot
    · simpa [coTransfer] using hwc

lemma Keeps.init (h : Keeps s q xs) (hc : s.live c = false)
    (hphase : s.phase = .idle ∨ ∃ d, s.phase = .running d) :
    Keeps (coInit c s) (moved q c .ready) xs where
  queues := by
    have hnew := h.queues.initialised hc .sleeping rfl
    have hmoved := Queues.transfer (c := c) (s := { s with
      list := initListHead (.co c) s.list
      live := Function.update s.live c true
      state := Function.update s.state c .sleeping }) hnew (by simp) .ready
    rw [Function.update_idem] at hmoved
    exact hmoved
  tree := h.tree
  places := by
    apply h.places.fresh hc
    intro hx
    have hold := h.phase
    rcases hphase with hp | ⟨d, hp⟩
    · simp only [PhaseOk, hp] at hold
      simp [hold] at hx
    · simp only [PhaseOk, hp] at hold
      obtain rfl := Option.some.inj (hold.1.symm.trans hx)
      simp [hc] at hold
  phase := by
    have hold := h.phase
    rcases hphase with hp | ⟨d, hp⟩
    · simp only [PhaseOk, hp] at hold
      simpa only [PhaseOk, coInit, coTransfer, hp] using hold
    · simp only [PhaseOk, hp] at hold
      obtain ⟨hrun, hlive, hst, hwatch⟩ := hold
      have hne : d ≠ c := by
        rintro rfl
        simp [hc] at hlive
      simp only [PhaseOk, coInit, coTransfer, hp]
      exact ⟨hrun, by rwa [Function.update_of_ne hne], by rwa [Function.update_of_ne hne], hwatch⟩

omit [DecidableEq C] in
lemma Keeps.goTo (h : Keeps s q xs) {p : Phase C} (hp : PhaseOk { s with phase := p } q xs) :
    Keeps { s with phase := p } q xs :=
  ⟨h.queues, h.tree, h.places, hp⟩

lemma Keeps.first (h : Keeps s q xs) :
    rbFirst (fuelOf s.sleepTree) s.sleepTree = some xs.head? :=
  (h.tree.ends (Nat.lt_succ_self _)).1

lemma Keeps.resume (h : Keeps s q xs) (hrun : s.runningco = none)
    (heval : resume s = some s') : ∃ q', Keeps s' q' xs := by
  obtain ⟨c, hfirst, heval⟩ := Option.bind_eq_some_iff.mp heval
  obtain rfl := Option.some.inj heval
  rw [h.queues.first] at hfirst
  obtain ⟨hlive, hst⟩ := (h.queues.mem _ c).mp (List.mem_of_head? hfirst)
  have hready : s.state c = .ready := by
    revert hst
    cases s.state c <;> simp [queueOf]
  have hmem : c ∉ xs := h.not_mem (by simp [hready, Timed])
  refine ⟨moved q c .running, h.queues.transfer hlive .running, h.tree, ?_, rfl, hlive, ?_, ?_⟩
  · refine h.places.update (fun _ _ => Iff.rfl) ?_ ?_ (fun _ => rfl) (fun x hx hw _ => ?_) ?_
    · exact iff_of_false hmem (by simp [Timed])
    · intro x _ hx
      rw [hrun] at hx
      cases hx
    · exact ⟨by simpa [coTransfer, hx] using hw, by simp [hrun]⟩
    · exact fun _ hx => absurd rfl hx
  · simp [coTransfer]
  · simp

lemma Keeps.switchedBack (h : Keeps s q xs) (hphase : s.phase = .switched)
    (heval : switchedBack s = some s') : Keeps s' q xs := by
  have hold := h.phase
  simp only [PhaseOk, hphase] at hold
  obtain ⟨c, hrun, hlive, hst, hwatch⟩ := hold
  rw [Co.switchedBack, hrun] at heval
  obtain rfl := Option.some.inj heval
  have hplaces := h.places
  rw [hrun] at hplaces
  refine ⟨?_, h.tree, hplaces.back hlive hst hwatch, rfl⟩
  by_cases hexit : s.state c = .exited
  · simp only [hexit, if_true]
    exact h.queues.released (by simp [hexit, queueOf])
  · simp only [hexit, if_false]
    exact h.queues

lemma Keeps.goOn (h : Keeps s q xs) (heval : goOn s = some s') :
    ∃ q', Keeps s' q' xs := by
  have hphase := h.phase
  unfold Co.goOn at heval
  split at heval
  · next hp =>
      simp only [PhaseOk, hp] at hphase
      split at heval
      · rw [h.first] at heval
        obtain rfl := Option.some.inj heval
        exact ⟨q, h.goTo ⟨hphase, fun c hc => List.mem_of_head? hc⟩⟩
      · obtain rfl := Option.some.inj heval
        exact ⟨q, h.goTo hphase⟩
  · next hp =>
      simp only [PhaseOk, hp] at hphase
      obtain rfl := Option.some.inj heval
      exact ⟨q, h.goTo hphase.1⟩
  · next hp =>
      simp only [PhaseOk, hp] at hphase
      split at heval
      · exact h.resume hphase heval
      · next hempty =>
          obtain rfl := Option.some.inj heval
          rw [h.queues.any] at hempty
          exact ⟨q, h.goTo ⟨hphase, by simpa using hempty⟩⟩
  · next hp => exact ⟨q, h.switchedBack hp heval⟩
  · cases heval

/-- The removal of a node from the tree, and the way on from it. -/
lemma Keeps.removed (h : Keeps s q xs) (hc : c ∈ xs) :
    ∃ t r, rbRemove (fuelOf s.sleepTree) c s.sleepTree = some t ∧
      rbNext (fuelOf s.sleepTree) c t = some r ∧
      IsSet (timeOrder s.sleepExpiredTime) t (xs.erase c) ∧ ∀ m, r = some m → m ∈ xs.erase c := by
  have hfuel : s.sleepTree.rbCount < fuelOf s.sleepTree := Nat.lt_succ_self _
  obtain ⟨t, hremove, ht⟩ := h.tree.removed hc hfuel
  have hxs : ∀ m, m ∈ xs.erase c ↔ m ∈ xs ∧ m ≠ c := by
    intro m
    rw [h.tree.nodup.mem_erase_iff, and_comm]
  obtain ⟨r, hnext, hr⟩ := h.tree.next_removed hc hfuel hremove ht hxs
  exact ⟨t, r, hremove, hnext, ht, hr⟩

lemma Keeps.expire (h : Keeps s q xs) (hphase : s.phase = .expiring (some c)) {now : ℤ}
    (heval : expireNode c now s = some s') : ∃ q' xs', Keeps s' q' xs' := by
  have hold := h.phase
  simp only [PhaseOk, hphase] at hold
  obtain ⟨hrun, hmem⟩ := hold
  have hc : c ∈ xs := hmem c rfl
  obtain ⟨hlive, -⟩ := (h.places.timed c).mp hc
  unfold expireNode at heval
  split at heval
  · obtain ⟨t, r, hremove, hnext, ht, hr⟩ := h.removed hc
    simp only [hremove, hnext, coTransfer, bind, pure, Option.bind] at heval
    obtain rfl := Option.some.inj heval
    refine ⟨moved q c .ready, xs.erase c, h.queues.transfer hlive .ready, ht, ?_, hrun, hr⟩
    refine h.places.update (fun x hx => List.mem_erase_of_ne hx) ?_ (fun _ _ hx => hx) (by simp)
      (fun _ _ hw hx => ⟨hw, hx⟩) fun _ _ => ⟨hlive, .inl rfl⟩
    simp [h.tree.nodup.not_mem_erase, Timed]
  · obtain ⟨ys, zs, rfl⟩ := List.append_of_mem hc
    have hnext := h.tree.next (Nat.lt_succ_self s.sleepTree.rbCount)
    simp only [fuelOf, hnext, bind, pure, Option.bind] at heval
    obtain rfl := Option.some.inj heval
    refine ⟨q, ys ++ c :: zs, h.goTo ⟨hrun, fun m hm => ?_⟩⟩
    have hz : m ∈ zs := List.mem_of_head? hm
    simp [hz]

lemma Keeps.tryInsert (h : Keeps s q xs) {next : CoState}
    (hphase : s.phase = .inserting c next) (heval : tryInsert c next s = some s') :
    ∃ q' xs', Keeps s' q' xs' := by
  have hold := h.phase
  simp only [PhaseOk, hphase] at hold
  obtain ⟨hrun, hlive, hst, hnext, hwatch⟩ := hold
  have hc : c ∉ xs := h.not_mem (by simp [hst, Timed])
  have hfuel : s.sleepTree.rbCount < fuelOf s.sleepTree := Nat.lt_succ_self _
  unfold Co.tryInsert at heval
  by_cases hlate : ∀ m ∈ xs, s.sleepExpiredTime m < s.sleepExpiredTime c
  · obtain ⟨t, hinsert, ht⟩ := insert_last h.tree hlate hfuel
    simp only [hinsert, bind, Option.bind, pure, if_true] at heval
    obtain rfl := Option.some.inj heval
    refine ⟨moved q c next, xs ++ [c], h.queues.transfer hlive next, ht, ?_, c, hrun, hlive, ?_, ?_⟩
    · refine h.places.update (fun x hx => by simp [hx]) ?_ (fun _ _ hx => hx) (fun _ => hrun)
        (fun _ _ hw hx => ⟨hw, hx⟩) fun _ hx => absurd hrun hx
      simp [hlive, hnext]
    · rcases hnext with rfl | rfl <;> simp [coTransfer]
    · intro hw
      simp [coTransfer, hwatch hw, queueOf]
  · push Not at hlate
    obtain ⟨m, hm, hle⟩ := hlate
    obtain ⟨cur, hcur, hinsert⟩ := insert_early h.tree hm hle hfuel
    have hne : cur ≠ c := by
      rintro rfl
      exact hc hcur
    simp only [hinsert, bind, Option.bind, pure, hne, if_false] at heval
    obtain rfl := Option.some.inj heval
    refine ⟨q, xs, h.queues, isSet_congr h.tree fun x hx => ?_, h.places, ?_⟩
    · have hxc : x ≠ c := fun e => hc (e ▸ hx)
      exact Function.update_of_ne hxc ..
    · simp only [PhaseOk, hphase]
      exact ⟨hrun, hlive, hst, hnext, hwatch⟩

/-- The running coroutine sets its expiry time and goes on to `rb_insert`. -/
lemma Keeps.arm (h : Keeps s q xs) (hphase : s.phase = .running c) {w : C → Bool}
    (hw : ∀ x, x ≠ c → w x = s.watched x) (expiry : ℤ) {next : CoState} (hnext : Timed next)
    (hwc : w c → next = .timedwait) :
    Keeps { s with
      watched := w
      sleepExpiredTime := Function.update s.sleepExpiredTime c expiry
      phase := .inserting c next } q xs := by
  have hold := h.phase
  simp only [PhaseOk, hphase] at hold
  obtain ⟨hrun, hlive, hst, -⟩ := hold
  have hc : c ∉ xs := h.not_mem (by simp [hst, Timed])
  refine ⟨h.queues, isSet_congr h.tree fun x hx => ?_, ?_, hrun, hlive, hst, hnext, hwc⟩
  · have hxc : x ≠ c := fun e => hc (e ▸ hx)
    exact Function.update_of_ne hxc ..
  · refine ⟨h.places.timed, h.places.active, fun x hx hne => h.places.watched x ?_ hne⟩
    have hxc : x ≠ c := fun e => hne (e ▸ hrun)
    exact (hw x hxc).symm.trans hx

lemma Keeps.sleep (h : Keeps s q xs) (hphase : s.phase = .running c) {usec : ℤ}
    (husec : 0 < usec) (now : ℤ) : Keeps (coSleep c usec now s) q xs := by
  have hold := h.phase
  simp only [PhaseOk, hphase] at hold
  rw [coSleep, if_pos husec]
  exact h.arm hphase (fun _ _ => rfl) _ (.inl rfl) (by simp [hold.2.2.2])

lemma Keeps.epoll (h : Keeps s q xs) (hphase : s.phase = .running c) (added : Bool)
    (timeout now : ℤ) : ∃ q', Keeps (coEpoll c added timeout now s) q' xs := by
  have hold := h.phase
  simp only [PhaseOk, hphase] at hold
  obtain ⟨hrun, hlive, hst, -⟩ := hold
  have hw : ∀ x, x ≠ c → Function.update s.watched c added x = s.watched x :=
    fun x hx => Function.update_of_ne hx ..
  unfold coEpoll
  split
  · exact ⟨q, h.arm hphase hw _ (.inr rfl) fun _ => rfl⟩
  · exact ⟨_, h.leave hrun hlive hst hw (by simp [Timed]) (by simp) fun _ => rfl⟩

lemma Keeps.exit (h : Keeps s q xs) (hphase : s.phase = .running c) :
    ∃ q', Keeps (coExit c s) q' xs := by
  have hold := h.phase
  simp only [PhaseOk, hphase] at hold
  obtain ⟨hrun, hlive, hst, hwatch⟩ := hold
  refine ⟨_, h.leave (w := s.watched) hrun hlive hst (fun _ _ => rfl) (by simp [Timed])
    (by simp) ?_⟩
  simp [hwatch]

/-- The loop over the events, when all of them are for coroutines in `CO_WAITING`. -/
lemma deliver_keeps {cs : List C} (hq : Queues s.list s.live s.state q)
    (hplaces : Places s.live s.state xs s.runningco s.watched) (hnodup : cs.Nodup)
    (hcs : ∀ c ∈ cs, s.live c ∧ s.state c = .waiting) :
    ∃ q', Queues (deliver cs s).list s.live (deliver cs s).state q' ∧
      Places s.live (deliver cs s).state xs s.runningco s.watched := by
  induction cs generalizing s q with
  | nil => exact ⟨q, hq, hplaces⟩
  | cons c cs ih =>
      obtain ⟨hlive, hst⟩ := hcs c (by simp)
      obtain ⟨hc, hnodup⟩ := List.nodup_cons.mp hnodup
      have hmem : c ∉ xs := fun hx => by simpa [hst, Timed] using (hplaces.timed c).mp hx
      have hplaces' : Places s.live (Function.update s.state c .ready) xs s.runningco s.watched := by
        refine hplaces.update (fun _ _ => Iff.rfl) ?_ (fun _ _ hx => hx) (by simp)
          (fun _ _ hw hx => ⟨hw, hx⟩) fun _ _ => ⟨hlive, .inl rfl⟩
        exact iff_of_false hmem (by simp [Timed])
      apply ih (s := coTransfer c .ready s) (hq.transfer hlive .ready) hplaces' hnodup
      intro x hx
      have hxc : x ≠ c := fun e => hc (e ▸ hx)
      have hold := hcs x (by simp [hx])
      exact ⟨hold.1, by simpa [coTransfer, hxc] using hold.2⟩

lemma deliver_fields (cs : List C) (s : Scheduler C) :
    (deliver cs s).live = s.live ∧ (deliver cs s).sleepTree = s.sleepTree ∧
      (deliver cs s).sleepExpiredTime = s.sleepExpiredTime ∧
      (deliver cs s).runningco = s.runningco ∧ (deliver cs s).watched = s.watched := by
  induction cs generalizing s with
  | nil => exact ⟨rfl, rfl, rfl, rfl, rfl⟩
  | cons c cs ih => exact ih (coTransfer c .ready s)

lemma Keeps.events (h : Keeps s q xs) (hphase : s.phase = .polling) {cs : List C}
    (hnodup : cs.Nodup) (hcs : ∀ c ∈ cs, s.watched c) (hok : NoTimedEvent s (.events cs)) :
    ∃ q', Keeps { deliver cs s with phase := .head } q' xs := by
  have hold := h.phase
  simp only [PhaseOk, hphase] at hold
  obtain ⟨hrun, hempty⟩ := hold
  obtain ⟨hlive, htree, htime, hrunning, hwatched⟩ := deliver_fields cs s
  have hwaiting : ∀ c ∈ cs, s.live c ∧ s.state c = .waiting := by
    intro c hc
    obtain ⟨hl, hst⟩ := h.places.watched c (hcs c hc) (by simp [hrun])
    have hready : s.state c ≠ .ready := by
      intro he
      have hmem := (h.queues.mem .readyq c).mpr ⟨hl, by simp [he, queueOf]⟩
      simp [hempty] at hmem
    have htimed : s.state c ≠ .timedwait := hok c hc
    refine ⟨hl, ?_⟩
    revert hst hready htimed
    cases s.state c <;> simp [queueOf]
  obtain ⟨q', hq', hplaces'⟩ := deliver_keeps h.queues h.places hnodup hwaiting
  refine ⟨q', ?_, ?_, ?_, hrunning.trans hrun⟩
  · rw [hlive]
    exact hq'
  · rw [htime, htree]
    exact h.tree
  · rw [hlive, hrunning, hwatched]
    exact hplaces'

/-- **Every step that meets the two conditions keeps the invariant.** -/
lemma Keeps.step (h : Keeps s q xs) {l : Label C} (hsleep : Sleeps l) (hevent : NoTimedEvent s l)
    (heval : stepTo s l = some s') : ∃ q' xs', Keeps s' q' xs' := by
  cases moved_of_stepTo heval with
  | init hp hl => exact ⟨_, xs, h.init hl hp⟩
  | run hp =>
      have hphase := h.phase
      simp only [PhaseOk, hp] at hphase
      exact ⟨q, xs, h.goTo hphase⟩
  | go hgo =>
      obtain ⟨q', h'⟩ := h.goOn hgo
      exact ⟨q', xs, h'⟩
  | expire hp hnode => exact h.expire hp hnode
  | sleep hp => exact ⟨q, xs, h.sleep hp hsleep _⟩
  | epoll hp =>
      obtain ⟨q', h'⟩ := h.epoll hp _ _ _
      exact ⟨q', xs, h'⟩
  | insert hp hins => exact h.tryInsert hp hins
  | exit hp =>
      obtain ⟨q', h'⟩ := h.exit hp
      exact ⟨q', xs, h'⟩
  | events hp hnodup hwatched =>
      obtain ⟨q', h'⟩ := h.events hp hnodup hwatched hevent
      exact ⟨q', xs, h'⟩

/-- **The scheduler is never stuck**: wherever the control is outside the code of the user, its
step has a result, so that no function of the tree runs out of time or follows a null pointer. -/
lemma Keeps.not_stuck (h : Keeps s q xs) :
    match s.phase with
    | .expiring (some n) => ∀ now, (expireNode n now s).isSome
    | .inserting c next => (Co.tryInsert c next s).isSome
    | .idle => True
    | .running _ => True
    | .polling => True
    | _ => (Co.goOn s).isSome := by
  have hphase := h.phase
  have hfuel : s.sleepTree.rbCount < fuelOf s.sleepTree := Nat.lt_succ_self _
  cases hp : s.phase with
  | idle => trivial
  | running c => trivial
  | polling => trivial
  | head =>
      simp only [Co.goOn, hp, h.first]
      split <;> rfl
  | scheduling =>
      simp only [Co.goOn, hp]
      split
      · next hany =>
          rw [h.queues.any, decide_eq_true_eq] at hany
          simp [Co.resume, h.queues.first, List.head?_eq_some_head hany]
      · rfl
  | switched =>
      simp only [PhaseOk, hp] at hphase
      obtain ⟨c, hrun, -⟩ := hphase
      simp [Co.goOn, hp, Co.switchedBack, hrun]
  | inserting c next =>
      unfold Co.tryInsert
      by_cases hlate : ∀ m ∈ xs, s.sleepExpiredTime m < s.sleepExpiredTime c
      · obtain ⟨t, hinsert, -⟩ := insert_last h.tree hlate hfuel
        simp [hinsert]
      · push Not at hlate
        obtain ⟨m, hm, hle⟩ := hlate
        obtain ⟨cur, -, hinsert⟩ := insert_early h.tree hm hle hfuel
        simp only [hinsert, bind, Option.bind]
        split <;> rfl
  | expiring n =>
      cases n with
      | none => simp [Co.goOn, hp]
      | some c =>
          simp only [PhaseOk, hp] at hphase
          have hc : c ∈ xs := hphase.2 c rfl
          intro now
          unfold expireNode
          split
          · obtain ⟨t, r, hremove, hnext, -⟩ := h.removed hc
            simp [hremove, hnext, coTransfer]
          · obtain ⟨ys, zs, rfl⟩ := List.append_of_mem hc
            simp [h.tree.next hfuel]

end Steps

/-! ## Runs -/

lemma keeps_init (s : Scheduler C) : Keeps (coSchedulerInit s) (fun _ => []) [] where
  queues := by
    refine ⟨⟨fun i => Links.ring_nil ?_ ?_, ?_⟩, by simp [coSchedulerInit],
      by simp [coSchedulerInit]⟩
    · cases i <;> simp [coSchedulerInit, initListHead, Links.setNext, Links.setPrev]
    · cases i <;> simp [coSchedulerInit, initListHead, Links.setNext, Links.setPrev]
    · intro i j hij a ha
      rw [List.mem_singleton.mp ha]
      simpa using hij
  tree := isSet_init _ _
  places := ⟨by simp [coSchedulerInit], by simp [coSchedulerInit], by simp [coSchedulerInit]⟩
  phase := rfl

lemma stepTo_of_step {s s' : Scheduler C} {l : Label C} {es : List Unit}
    (h : step s l = some (s', es)) : stepTo s l = some s' := by
  obtain ⟨t, ht, heq⟩ := Option.map_eq_some_iff.mp h
  exact ht.trans (congrArg some (Prod.mk.inj heq).1)

section Runs

variable {s₀ s : Scheduler C} {ls : List (Label C)} {es : List Unit}

/-- **The invariant of a run** whose steps all meet the two conditions. -/
lemma run_keeps (hsleep : ∀ l ∈ ls, Sleeps l)
    (hevent : Along step NoTimedEvent ls (coSchedulerInit s₀))
    (hrun : run step ls (coSchedulerInit s₀) = some (s, es)) : ∃ q xs, Keeps s q xs := by
  have hok := (along_of_forall hsleep (coSchedulerInit s₀)).and hevent
  refine run_invariant (I := fun s => ∃ q xs, Keeps s q xs) ?_ ⟨_, _, keeps_init s₀⟩ hok hrun
  rintro s l s' es ⟨q, xs, h⟩ hl heval
  exact h.step hl.1 hl.2 (stepTo_of_step heval)

end Runs

end LinuxC.Co
