import LinuxC.Mcd.Waiting

/-!
# Acknowledgements, votes and wake-ups

Three results about runs of the daemon.  `synchor_own_acks` says that a thread in `mc_synchor_wait`
is woken by the acknowledgements of its own synchor, `no_blocked_complete` that nobody waits for an
object that is complete, and `disapproval_reported` that a vote against counts.

Each of them needs a condition on the steps of the run, because of two defects.
`mc_ipc_release_process` tests the bitmap of `sync_reboot` where it wakes the threads of
`sync_resume`.  And the first thread that returns from its wait clears `AF_WAIT` for all of them, so
that those which still wait are not woken, or find that another thread has begun a new round.
-/

namespace LinuxC.Mcd

variable {P T : Type} [DecidableEq P] [DecidableEq T]

section Release

variable {w : World P T} {p : P} {s : McSubscriber}

omit [DecidableEq T] in
lemma thread_release (hp : w.cookie p = some s) (hs : s.system = true) :
    (mcIpcReleaseProcess p w).thread = (releaseSystem s.index w).thread := by
  obtain ⟨-, -, -, -, -, hthread⟩ := mcIpcReleaseProcess_eq hp
  rwa [if_pos hs] at hthread

omit [DecidableEq T] in
/-- Nobody is woken when the subscriber is no system subscriber. -/
lemma thread_release_of_not (h : ∀ s ∈ w.cookie p, s.system = false) :
    (mcIpcReleaseProcess p w).thread = w.thread ∧
      (mcIpcReleaseProcess p w).mc.fullBitmap = w.mc.fullBitmap ∧
      (∀ o, (mcIpcReleaseProcess p w).mc.own o = w.mc.own o) ∧
      ∀ o, (mcIpcReleaseProcess p w).mc.wait o = w.mc.wait o := by
  cases hp : w.cookie p with
  | none =>
      have hsame : mcIpcReleaseProcess p w = w := by
        unfold mcIpcReleaseProcess
        rw [hp]
      rw [hsame]
      exact ⟨rfl, rfl, fun _ => rfl, fun _ => rfl⟩
  | some s =>
      have hs : s.system = false := h s hp
      obtain ⟨-, -, hfull, hown, hwait, hthread⟩ := mcIpcReleaseProcess_eq hp
      simp only [hs, Bool.false_eq_true, if_false] at hfull hown hthread
      exact ⟨hthread, hfull, hown, hwait⟩

end Release

/-! ## Own acknowledgements -/

section Synchor

variable {w w' : World P T}

/-- A thread that waits for `sync_resume` is not woken by the acknowledgements of `sync_reboot`. -/
def TestsOwn (w : World P T) : Op P T → Prop
  | .release p => ∀ s ∈ w.cookie p, s.system = true → w.mc.wait (.sync .resume) = true →
      (∃ t, w.thread t = .blocked (.sync .resume)) →
      (w.mc.mapBits (clearBit s.index)).isFull (.sync .reboot) →
      (w.mc.mapBits (clearBit s.index)).isFull (.sync .resume)
  | _ => True

instance [Fintype T] (w : World P T) : ∀ l, Decidable (TestsOwn w l)
  | .release p => inferInstanceAs (Decidable (∀ s ∈ w.cookie p, s.system = true →
      w.mc.wait (.sync .resume) = true → (∃ t, w.thread t = .blocked (.sync .resume)) →
      (w.mc.mapBits (clearBit s.index)).isFull (.sync .reboot) →
      (w.mc.mapBits (clearBit s.index)).isFull (.sync .resume)))
  | .register .. | .ack .. | .vote .. | .close .. | .synchorWait .. | .refereeWait ..
  | .timeout _ | .resume _ => .isTrue trivial

/-- A thread that was woken by acknowledgements has seen those of its own synchor. -/
def WokenFull (w : World P T) : Prop :=
  ∀ t x full ack, w.thread t = .woken (.sync x) false full ack → ack = full

omit [DecidableEq P] [DecidableEq T] in
/-- An answer wakes the threads of its object when the bitmap is full. -/
lemma Answered.woken {o o' : Obj} {i : Fin mcClientMax} (ha : Answered o i w w') {t : T}
    {timedout : Bool} {full own : Bitmap} (ht : w'.thread t = .woken o' timedout full own) :
    w.thread t = .woken o' timedout full own ∨ own = full := by
  obtain ⟨hsame, -⟩ | ⟨-, hfull, hwoken⟩ := ha.wakes t
  · exact .inl (hsame.symm.trans ht)
  · rw [hwoken] at ht
    obtain ⟨-, -, rfl, rfl⟩ := Phase.woken.inj ht
    exact .inr hfull

omit [DecidableEq P] in
/-- A thread that begins to wait is not woken. -/
lemma Entered.woken {t t' : T} {o o' : Obj} (he : Entered t o w w') {timedout : Bool}
    {full own : Bitmap} (ht : w'.thread t' = .woken o' timedout full own) :
    w.thread t' = .woken o' timedout full own := by
  obtain ⟨-, hsame, -⟩ | ⟨-, hblocked, -⟩ := he.wakes
  · rwa [← hsame]
  · rw [hblocked, Function.update_apply] at ht
    split_ifs at ht
    exact ht

lemma WokenFull.step {l : Op P T} (h : WokenFull w) (hok : TestsOwn w l) (hc : Change w l w') :
    WokenFull w' := by
  intro t x full ack ht
  cases hc with
  | register hr =>
      have hsame : w'.thread = w.thread := by cases hr <;> rfl
      exact h t x full ack (hsame ▸ ht)
  | @release p =>
      by_cases hs : ∃ s ∈ w.cookie p, s.system = true
      · obtain ⟨s, hp, hs⟩ := hs
        rw [thread_release hp hs] at ht
        obtain ⟨hsame, -⟩ | ⟨o, ho, hwait, htest, hwoken⟩ := releaseSystem_cases s.index w t
        · exact h t x full ack (hsame.symm.trans ht)
        · rw [hwoken] at ht
          obtain ⟨rfl, -, rfl, rfl⟩ := Phase.woken.inj ht
          -- the test on the bitmap of `sync_reboot` needs the condition
          have hfull : (w.mc.mapBits (clearBit s.index)).isFull (.sync x) := by
            cases x with
            | sleep => exact htest
            | resume => exact hok s hp hs hwait ⟨t, ho⟩ htest
            | reboot => exact htest
          unfold McStruct.isFull at hfull
          rwa [own_mapBits] at hfull
      · push Not at hs
        rw [(thread_release_of_not fun s hp => by simpa using hs s hp).1] at ht
        exact h t x full ack ht
  | ignored => exact h t x full ack ht
  | ack _ ha => exact (ha.woken ht).elim (h t x full ack) id
  | vote _ ha => exact (ha.woken ht).elim (h t x full ack) id
  | close => exact h t x full ack ht
  | synchorWait _ he => exact h t x full ack (he.woken ht)
  | refereeWait _ he => exact h t x full ack (he.woken ht)
  | @timeout t' o _ =>
      change Function.update w.thread t' _ t = _ at ht
      rw [Function.update_apply] at ht
      split_ifs at ht
      · cases ht
      · exact h t x full ack ht
  | resume _ hr =>
      rw [hr.thread, Function.update_apply] at ht
      split_ifs at ht
      exact h t x full ack ht

omit [DecidableEq P] in
lemma mem_mcSynchorWait {t : T} {x : SynId} {e : Event P T} (he : e ∈ (mcSynchorWait t x w).2) :
    ∃ full, e = .synced t x full full := by
  obtain ⟨hfull, heq⟩ | ⟨-, heq⟩ := mcSynchorWait_cases t x w
  · rw [heq, List.mem_singleton] at he
    unfold McStruct.isFull at hfull
    rw [own_setSynchor, if_pos rfl] at hfull
    rw [hfull] at he
    exact ⟨_, he⟩
  · rw [heq] at he
    cases he

omit [DecidableEq P] in
lemma mem_mcRefereeWait {t : T} {r : ApplyId} {e : Event P T} (he : e ∈ (mcRefereeWait t r w).2) :
    ∃ approved, e = .judged t r approved := by
  obtain ⟨-, heq⟩ | ⟨-, heq⟩ := mcRefereeWait_cases t r w
  · rw [heq, List.mem_singleton] at he
    exact ⟨_, he⟩
  · rw [heq] at he
    cases he

/-- **A return with zero** reports the bitmaps of the entry, which agree, or of the wake-up. -/
lemma synced_of_step {l : Op P T} {es : List (Event P T)} (hstep : step w l = some (w', es)) {t : T}
    {x : SynId} {full ack : Bitmap} (he : Event.synced t x full ack ∈ es) :
    ack = full ∨ w.thread t = .woken (.sync x) false full ack := by
  cases l with
  | register p mask env =>
      obtain ⟨w₁, -, heq⟩ := Option.map_eq_some_iff.mp hstep
      obtain ⟨-, rfl⟩ := Prod.mk.inj heq
      cases he
  | release p =>
      obtain ⟨-, rfl⟩ := Prod.mk.inj (Option.some.inj hstep)
      cases he
  | ack p y =>
      obtain ⟨-, rfl⟩ := Prod.mk.inj (Option.some.inj hstep)
      cases he
  | vote p r a =>
      have heq : (mcdClientVoteMsg p r a w).2 = es := congrArg Prod.snd (Option.some.inj hstep)
      cases hs : sender p w with
      | none =>
          unfold mcdClientVoteMsg at heq
          rw [hs] at heq
          rw [← heq] at he
          cases he
      | some s =>
          rw [mcdClientVoteMsg_eq hs] at heq
          rw [← heq] at he
          simp at he
  | close =>
      obtain ⟨-, rfl⟩ := Prod.mk.inj (Option.some.inj hstep)
      cases he
  | synchorWait t' y =>
      obtain ⟨-, heq⟩ := step_synchorWait hstep
      obtain rfl : (mcSynchorWait t' y w).2 = es := congrArg Prod.snd heq
      obtain ⟨full', hev⟩ := mem_mcSynchorWait he
      obtain ⟨-, -, rfl, rfl⟩ := Event.synced.inj hev
      exact .inl rfl
  | refereeWait t' r =>
      obtain ⟨-, heq⟩ := step_refereeWait hstep
      obtain rfl : (mcRefereeWait t' r w).2 = es := congrArg Prod.snd heq
      obtain ⟨a, hev⟩ := mem_mcRefereeWait he
      cases hev
  | timeout t' =>
      obtain ⟨o, -, rfl, -⟩ := step_timeout hstep
      cases he
  | resume t' =>
      obtain ⟨o, timedout, full', own', ht, heq⟩ := step_resume hstep
      obtain rfl : (w.resume t' o timedout full' own').2 = es := congrArg Prod.snd heq
      cases o with
      | sync y =>
          cases timedout with
          | true => simp [World.resume] at he
          | false =>
              simp only [World.resume, Bool.false_eq_true, if_false, List.mem_singleton,
                Event.synced.injEq] at he
              obtain ⟨rfl, rfl, rfl, rfl⟩ := he
              exact .inr ht
      | vote r => simp [World.resume] at he

/-- **A synchronisation completes on its own acknowledgements.**  In every run in which no client
leaves while a thread waits for `sync_resume`, the other acknowledgements of `sync_reboot` are
complete and those of `sync_resume` are not, `mc_synchor_wait` returns zero only when every
subscriber in `full_bitmap` had its bit set in the bitmap of this synchor. -/
theorem synchor_own_acks {ls : List (Op P T)} {es : List (Event P T)}
    (hrun : run step ls World.init = some (w, es)) (hok : Along step TestsOwn ls World.init)
    {t : T} {x : SynId} {full ack : Bitmap} (he : .synced t x full ack ∈ es)
    {i : Fin mcClientMax} (hi : full i = true) : ack i = true := by
  have hinit : WokenFull (World.init : World P T) := by
    intro t x full ack ht
    cases ht
  have hsafe := run_safe (I := WokenFull)
    (P := fun e => ∀ t x full ack, e = .synced t x full ack → ack = full)
    (fun h hl hstep => ⟨h.step hl (change_of_step hstep), fun e he t x full ack heq => by
      subst heq
      exact (synced_of_step hstep he).elim id (h t x full ack)⟩) hinit hok hrun
  rw [hsafe.2 _ he t x full ack rfl]
  exact hi

/-- The index of the first client. -/
def firstIndex : Fin mcClientMax := ⟨0, Nat.zero_lt_succ 127⟩

/-- The index of the second client. -/
def secondIndex : Fin mcClientMax := ⟨1, Nat.one_lt_succ_succ 126⟩

/-- The bits of the two clients. -/
def bothBits : Bitmap := setBit secondIndex (setBit firstIndex noBits)

/-- A client of the system events that is guarded. -/
def guardedSystem (p : Fin 2) : Op (Fin 2) (Fin 3) := .register p 5 ⟨true, true, true⟩

/-- Three threads wait, each for the two clients.  The first client acknowledges the sleep and the
second leaves, which ends the first wait and neither of the others. -/
def leavingRun : List (Op (Fin 2) (Fin 3)) :=
  [guardedSystem 0, guardedSystem 1, .synchorWait 0 .sleep, .synchorWait 1 .resume,
    .synchorWait 2 .reboot, .ack 0 .sleep, .release 1, .resume 0]

/-- The bitmaps that the first thread of `leavingRun` returns with have the bit of the first
client. -/
theorem synchor_own_acks_sample :
    ∃ (w : World (Fin 2) (Fin 3)) (es : List (Event (Fin 2) (Fin 3))) (full ack : Bitmap),
      run step leavingRun World.init = some (w, es) ∧
      .synced 0 .sleep full ack ∈ es ∧ full firstIndex = true ∧ ack firstIndex = true := by
  have hrun : (run step leavingRun World.init).map (fun r => r.2) =
      some [.synced 0 .sleep (clearBit secondIndex bothBits)
        (clearBit secondIndex (setBit firstIndex noBits))] := by
    decide +kernel
  obtain ⟨⟨w, es⟩, hr, hes⟩ := Option.map_eq_some_iff.mp hrun
  have he : .synced 0 .sleep (clearBit secondIndex bothBits)
      (clearBit secondIndex (setBit firstIndex noBits)) ∈ es := by
    change es = _ at hes
    rw [hes]
    exact List.mem_singleton_self _
  -- two threads still wait when the second client leaves, and neither bitmap is complete
  have hok : Along step TestsOwn leavingRun World.init := by decide +kernel
  exact ⟨w, es, _, _, hr, he, rfl, synchor_own_acks hr hok he rfl⟩

/-- **The acknowledgements of another synchor.**  Two clients are asked to acknowledge that the
system resumes; neither does, and when one of them leaves the thread returns zero. -/
theorem synced_by_reboot_acks :
    ¬ ∀ (ls : List (Op (Fin 2) (Fin 3))) (w : World (Fin 2) (Fin 3))
      (es : List (Event (Fin 2) (Fin 3))) (t : Fin 3) (x : SynId) (full ack : Bitmap),
      run step ls World.init = some (w, es) → .synced t x full ack ∈ es →
        ∀ i, full i = true → ack i = true := by
  intro h
  have hrun : (run step [guardedSystem 0, guardedSystem 1, .synchorWait 0 .resume, .release 1,
      .resume 0] World.init).map (fun r => r.2) =
      some [.synced 0 .resume (clearBit secondIndex bothBits) (clearBit secondIndex noBits)] := by
    decide +kernel
  obtain ⟨⟨w, es⟩, hr, hes⟩ := Option.map_eq_some_iff.mp hrun
  have he :
      .synced 0 .resume (clearBit secondIndex bothBits) (clearBit secondIndex noBits) ∈ es := by
    change es = _ at hes
    rw [hes]
    exact List.mem_singleton_self _
  have := h _ w es 0 .resume _ _ hr he firstIndex rfl
  exact Bool.false_ne_true this

end Synchor

/-! ## Lost wake-ups -/

section Waiting

variable {w w' : World P T}

/-- A thread that returns from its wait is the last that waits there, and a client that leaves does
not complete `sync_resume` while `sync_reboot` is incomplete and a thread waits. -/
def Attentive (w : World P T) : Op P T → Prop
  | .release p => ∀ s ∈ w.cookie p, s.system = true →
      (∃ t, w.thread t = .blocked (.sync .resume)) →
      (w.mc.mapBits (clearBit s.index)).isFull (.sync .resume) →
      (w.mc.mapBits (clearBit s.index)).isFull (.sync .reboot)
  | .resume t => ∀ o ∈ (w.thread t).object, ∀ t', w.thread t' ≠ .blocked o
  | _ => True

instance [Fintype T] (w : World P T) : ∀ l, Decidable (Attentive w l)
  | .release p => inferInstanceAs (Decidable (∀ s ∈ w.cookie p, s.system = true →
      (∃ t, w.thread t = .blocked (.sync .resume)) →
      (w.mc.mapBits (clearBit s.index)).isFull (.sync .resume) →
      (w.mc.mapBits (clearBit s.index)).isFull (.sync .reboot)))
  | .resume t =>
      inferInstanceAs (Decidable (∀ o ∈ (w.thread t).object, ∀ t', w.thread t' ≠ .blocked o))
  | .register .. | .ack .. | .vote .. | .close .. | .synchorWait .. | .refereeWait ..
  | .timeout _ => .isTrue trivial

/-- Threads wait only for what is incomplete, with the flag set. -/
def Awaited (w : World P T) : Prop :=
  ∀ t o, w.thread t = .blocked o → w.mc.wait o = true ∧ ¬ w.mc.isFull o

/-- Setting a bit that two bitmaps do not have makes no difference. -/
lemma setBit_inj {i : Fin mcClientMax} {b c : Bitmap} (hb : b i = false) (hc : c i = false)
    (h : setBit i b = setBit i c) : b = c := by
  funext j
  have hj := congrFun h j
  rw [setBit_apply, setBit_apply] at hj
  split_ifs at hj with he
  · rw [he, hb, hc]
  · exact hj

omit [DecidableEq P] in
lemma Awaited.entered {t : T} {o : Obj} (h : Awaited w) (he : Entered t o w w') : Awaited w' := by
  intro t' o' ht'
  have hold : w.thread t' = .blocked o' → w'.mc.wait o' = true ∧ ¬ w'.mc.isFull o' := by
    intro hb
    obtain ⟨hwait, hnot⟩ := h t' o' hb
    unfold McStruct.isFull at hnot ⊢
    by_cases ho : o' = o
    · -- the flag is set, so the bitmap is kept
      subst ho
      rw [he.bits, if_pos hwait, he.full]
      obtain ⟨-, -, hflag⟩ | ⟨-, -, hflag⟩ := he.wakes
      · exact ⟨hflag.trans hwait, hnot⟩
      · exact ⟨hflag, hnot⟩
    · rw [he.own o' ho, he.wait o' ho, he.full]
      exact ⟨hwait, hnot⟩
  obtain ⟨-, hsame, -⟩ | ⟨hnot, hblocked, hflag⟩ := he.wakes
  · exact hold (hsame ▸ ht')
  · rw [hblocked, Function.update_apply] at ht'
    split_ifs at ht'
    · obtain rfl := Phase.blocked.inj ht'
      exact ⟨hflag, hnot⟩
    · exact hold ht'

omit [DecidableEq P] [DecidableEq T] in
lemma Awaited.answered {o : Obj} {i : Fin mcClientMax} (h : Awaited w) (ha : Answered o i w w') :
    Awaited w' := by
  intro t o' ht
  obtain ⟨hsame, hnot⟩ | ⟨-, -, hwoken⟩ := ha.wakes t
  · rw [hsame] at ht
    obtain ⟨hwait, hnot'⟩ := h t o' ht
    by_cases ho : o' = o
    · subst ho
      have hflag := ha.flag.trans hwait
      exact ⟨hflag, fun hfull => hnot ht ⟨hflag, hfull⟩⟩
    · unfold McStruct.isFull
      rw [ha.own o' ho, ha.wait o' ho, ha.full]
      exact ⟨hwait, hnot'⟩
  · rw [hwoken] at ht
    cases ht

omit [DecidableEq T] in
lemma Awaited.registered {p : P} (h : Awaited w) (hreg : Registry w) (hr : Registered p w w') :
    Awaited w' := by
  cases hr with
  | refused => exact h
  | leaked =>
      intro t o ht
      obtain ⟨hwait, hnot⟩ := h t o ht
      cases o <;> exact ⟨hwait, hnot⟩
  | @accepted s mc hp hi hmc =>
      intro t o ht
      obtain ⟨hwait, hnot⟩ := h t o ht
      have hbits : mc.wait o = true ∧ ¬ mc.isFull o := by
        subst hmc
        split_ifs
        · rw [wait_mapBits]
          refine ⟨hwait, fun hfull => hnot ?_⟩
          unfold McStruct.isFull at hfull
          rw [own_mapBits, fullBitmap_mapBits] at hfull
          have hfree := hreg.fullBitmap_free hi
          refine setBit_inj ?_ hfree hfull
          by_contra hset
          have := hreg.own o s.index (by simpa using hset)
          rw [hfree] at this
          exact Bool.false_ne_true this
        · exact ⟨hwait, hnot⟩
      cases o <;> exact hbits

omit [DecidableEq T] in
lemma Awaited.released {p : P} (h : Awaited w) (hok : Attentive w (.release p)) :
    Awaited (mcIpcReleaseProcess p w) := by
  intro t o ht
  by_cases hs : ∃ s ∈ w.cookie p, s.system = true
  · obtain ⟨s, hp, hs⟩ := hs
    obtain ⟨-, -, hfull, hown, hwait, -⟩ := mcIpcReleaseProcess_eq hp
    rw [if_pos hs] at hfull
    rw [thread_release hp hs] at ht
    obtain ⟨hsame, hnot⟩ | ⟨o', -, -, -, hwoken⟩ := releaseSystem_cases s.index w t
    · have hb : w.thread t = .blocked o := hsame.symm.trans ht
      have hflag := (h t o hb).1
      refine ⟨(hwait o).trans hflag, fun hafter => ?_⟩
      have hcomplete : (w.mc.mapBits (clearBit s.index)).isFull o := by
        unfold McStruct.isFull at hafter ⊢
        rw [hfull, hown, if_pos hs] at hafter
        rwa [own_mapBits]
      -- the test on the bitmap of `sync_reboot` needs the condition
      have htest : (w.mc.mapBits (clearBit s.index)).isFull (tested o) := by
        rcases o with (_ | _ | _) | _
        · exact hcomplete
        · exact hok s hp hs ⟨t, hb⟩ hcomplete
        · exact hcomplete
        · exact hcomplete
      exact hnot o hb ⟨hflag, htest⟩
    · rw [hwoken] at ht
      cases ht
  · push Not at hs
    obtain ⟨hthread, hfull, hown, hwait⟩ :=
      thread_release_of_not (w := w) (p := p) fun s hp => by simpa using hs s hp
    rw [hthread] at ht
    unfold McStruct.isFull
    rw [hwait, hown, hfull]
    exact h t o ht

lemma Awaited.step {l : Op P T} (h : Awaited w) (hreg : Registry w) (hok : Attentive w l)
    (hc : Change w l w') : Awaited w' := by
  cases hc with
  | register hr => exact h.registered hreg hr
  | release => exact h.released hok
  | ignored => exact h
  | ack _ ha => exact h.answered ha
  | vote _ ha => exact h.answered ha
  | close =>
      intro t o ht
      obtain ⟨hwait, hnot⟩ := h t o ht
      cases o <;> exact ⟨hwait, hnot⟩
  | synchorWait _ he => exact h.entered he
  | refereeWait _ he => exact h.entered he
  | @timeout t' o' _ =>
      intro t o ht
      change Function.update w.thread t' _ t = _ at ht
      rw [Function.update_apply] at ht
      split_ifs at ht
      exact h t o ht
  | @resume t' o' timedout full own _ ht' hr =>
      intro t o ht
      rw [hr.thread, Function.update_apply] at ht
      split_ifs at ht
      have hne : o ≠ o' := by
        rintro rfl
        exact hok o (by rw [ht']; rfl) t ht
      unfold McStruct.isFull
      rw [hr.own o hne, hr.wait o hne, hr.full]
      exact h t o ht

/-- **No lost wake-up.**  In every run in which a thread that returns from its wait leaves nobody
behind who waits for the same object, and in which no client that leaves completes `sync_resume` for
a thread that waits while `sync_reboot` is incomplete, no thread is blocked on an object whose bitmap
is `full_bitmap`. -/
theorem no_blocked_complete {ls : List (Op P T)} {es : List (Event P T)}
    (hrun : run step ls World.init = some (w, es)) (hok : Along step Attentive ls World.init)
    {t : T} {o : Obj} (ht : w.thread t = .blocked o) : w.mc.own o ≠ w.mc.fullBitmap := by
  have hinit : Registry (World.init : World P T) ∧ Awaited (World.init : World P T) := by
    refine ⟨registry_init, fun t o ht => ?_⟩
    cases ht
  have hinv := run_invariant (I := fun w => Registry w ∧ Awaited w)
    (fun h hl hstep =>
      have hc := change_of_step hstep
      ⟨h.1.step hc, h.2.step h.1 hl hc⟩) hinit hok hrun
  exact (hinv.2 t o ht).2

/-- After `leavingRun` the second thread waits for the first client. -/
theorem no_blocked_complete_sample :
    ∃ (w : World (Fin 2) (Fin 3)) (es : List (Event (Fin 2) (Fin 3))),
      run step leavingRun World.init = some (w, es) ∧
      w.thread 1 = .blocked (.sync .resume) ∧ w.mc.own (.sync .resume) ≠ w.mc.fullBitmap := by
  have hrun : (run step leavingRun World.init).map (fun r => r.1.thread 1) =
      some (.blocked (.sync .resume)) := by
    decide +kernel
  obtain ⟨⟨w, es⟩, hr, ht⟩ := Option.map_eq_some_iff.mp hrun
  have hok : Along step Attentive leavingRun World.init := by decide +kernel
  exact ⟨w, es, hr, ht, no_blocked_complete hr hok ht⟩

/-- **A thread that is not woken.**  Two threads wait; the time of the first is over, and it clears
`AF_WAIT`.  The acknowledgement that completes the bitmap does not wake the second. -/
theorem blocked_on_complete :
    ¬ ∀ (ls : List (Op (Fin 2) (Fin 3))) (w : World (Fin 2) (Fin 3))
      (es : List (Event (Fin 2) (Fin 3))) (t : Fin 3) (o : Obj),
      run step ls World.init = some (w, es) → w.thread t = .blocked o →
        w.mc.own o ≠ w.mc.fullBitmap := by
  intro h
  have hrun : (run step [guardedSystem 0, .synchorWait 0 .sleep, .synchorWait 1 .sleep, .timeout 0,
      .resume 0, .ack 0 .sleep] World.init).map (fun r =>
        (r.1.thread 1, decide (r.1.mc.own (.sync .sleep) = r.1.mc.fullBitmap))) =
      some (.blocked (.sync .sleep), true) := by decide +kernel
  obtain ⟨⟨w, es⟩, hr, heq⟩ := Option.map_eq_some_iff.mp hrun
  obtain ⟨ht, hfull⟩ := Prod.mk.inj heq
  exact h _ w es 1 (.sync .sleep) hr ht (of_decide_eq_true hfull)

end Waiting

/-! ## Votes -/

section Votes

variable {w w' : World P T}

/-- A thread that begins to wait for the votes of `r` joins the round that is under way. -/
def Joins (r : ApplyId) (w : World P T) : Op P T → Prop
  | .refereeWait _ r' => r' = r → w.mc.wait (.vote r) = true
  | _ => True

/-- The call of `t` is under way, and the vote of `p` against is in force. -/
structure Rejected (p : P) (r : ApplyId) (t : T) (w : World P T) : Prop where
  call : (w.thread t).object = some (.vote r)
  vote : ∃ s, w.cookie p = some s ∧ s.system = true ∧
    (w.mc.referee r).voteApproved s.index = false

omit [DecidableEq P] [DecidableEq T] in
lemma Rejected.verdict {p : P} {r : ApplyId} {t : T} (h : Rejected p r t w) (hreg : Registry w) :
    w.mc.verdict r = false := by
  obtain ⟨s, hp, hs, hagainst⟩ := h.vote
  apply decide_eq_false
  intro hall
  have := hreg.full p s hp hs
  rw [← hall, hagainst] at this
  exact Bool.false_ne_true this

/-- A thread stays in its call until it returns. -/
lemma object_step {l : Op P T} {t : T} {o : Obj} (ht : (w.thread t).object = some o)
    (hl : l ≠ .resume t) (hc : Change w l w') : (w'.thread t).object = some o := by
  have hentered : ∀ {t' : T} {o' : Obj}, w.thread t' = .idle → Entered t' o' w w' →
      (w'.thread t).object = some o := by
    intro t' o' hidle he
    obtain ⟨-, hsame, -⟩ | ⟨-, hblocked, -⟩ := he.wakes
    · rwa [hsame]
    · rw [hblocked, Function.update_apply]
      split_ifs with heq
      · rw [heq, hidle] at ht
        cases ht
      · exact ht
  have hanswered : ∀ {o' : Obj} {i : Fin mcClientMax}, Answered o' i w w' →
      (w'.thread t).object = some o := by
    intro o' i ha
    obtain ⟨hsame, -⟩ | ⟨hb, -, hwoken⟩ := ha.wakes t
    · rwa [hsame]
    · rw [hb] at ht
      rw [hwoken]
      exact ht
  cases hc with
  | register hr =>
      have hsame : w'.thread = w.thread := by cases hr <;> rfl
      rwa [hsame]
  | @release p =>
      by_cases hs : ∃ s ∈ w.cookie p, s.system = true
      · obtain ⟨s, hp, hs⟩ := hs
        rw [thread_release hp hs]
        obtain ⟨hsame, -⟩ | ⟨o', hb, -, -, hwoken⟩ := releaseSystem_cases s.index w t
        · rwa [hsame]
        · rw [hb] at ht
          rw [hwoken]
          exact ht
      · push Not at hs
        rwa [(thread_release_of_not fun s hp => by simpa using hs s hp).1]
  | ignored => exact ht
  | ack _ ha => exact hanswered ha
  | vote _ ha => exact hanswered ha
  | close => exact ht
  | synchorWait hidle he => exact hentered hidle he
  | refereeWait hidle he => exact hentered hidle he
  | @timeout t' o' hb =>
      change (Function.update w.thread t' _ t).object = _
      rw [Function.update_apply]
      split_ifs with heq
      · rw [heq, hb] at ht
        exact ht
      · exact ht
  | @resume t' _ _ _ _ _ _ hr =>
      have hne : t ≠ t' := by
        rintro rfl
        exact hl rfl
      rwa [hr.thread, Function.update_of_ne hne]

/-- A subscriber keeps its cookie until it is released. -/
lemma cookie_step {l : Op P T} {p : P} {s : McSubscriber} (hp : w.cookie p = some s)
    (hl : l ≠ .release p) (hc : Change w l w') : w'.cookie p = some s := by
  cases hc with
  | @register q _ _ _ hr =>
      cases hr with
      | refused => exact hp
      | leaked => exact hp
      | accepted hq =>
          have hne : p ≠ q := by
            rintro rfl
            rw [hp] at hq
            cases hq
          exact (Function.update_of_ne hne ..).trans hp
  | @release q =>
      have hne : p ≠ q := by
        rintro rfl
        exact hl rfl
      cases hq : w.cookie q with
      | none =>
          unfold mcIpcReleaseProcess
          rwa [hq]
      | some s' =>
          rw [(mcIpcReleaseProcess_eq hq).1]
          exact (Function.update_of_ne hne ..).trans hp
  | ignored => exact hp
  | ack _ ha => rwa [ha.cookie]
  | vote _ ha => rwa [ha.cookie]
  | close => exact hp
  | synchorWait _ he => rwa [he.cookie]
  | refereeWait _ he => rwa [he.cookie]
  | timeout => exact hp
  | resume _ hr => rwa [hr.cookie]

omit [DecidableEq T] in
lemma voteApproved_registered {p q : P} {r : ApplyId} {s : McSubscriber} (hreg : Registry w)
    (hp : w.cookie p = some s) (hbit : (w.mc.referee r).voteApproved s.index = false)
    (h : Registered q w w') : (w'.mc.referee r).voteApproved s.index = false := by
  cases h with
  | refused => exact hbit
  | leaked => exact hbit
  | @accepted s' mc hq hi hmc =>
      have hne : s.index ≠ s'.index := by
        intro he
        have := hreg.stock p s hp
        rw [he, hi] at this
        exact Bool.false_ne_true this
      change (mc.referee r).voteApproved s.index = false
      subst hmc
      split_ifs
      · change setBit s'.index (w.mc.referee r).voteApproved s.index = false
        rw [setBit_apply, if_neg hne]
        exact hbit
      · exact hbit

omit [DecidableEq T] in
lemma voteApproved_release (q : P) {r : ApplyId} {i : Fin mcClientMax}
    (hbit : (w.mc.referee r).voteApproved i = false) :
    ((mcIpcReleaseProcess q w).mc.referee r).voteApproved i = false := by
  cases hq : w.cookie q with
  | none =>
      unfold mcIpcReleaseProcess
      rwa [hq]
  | some s' =>
      have hmc : ((mcIpcReleaseProcess q w).mc.referee r).voteApproved =
          if s'.system then clearBit s'.index (w.mc.referee r).voteApproved
          else (w.mc.referee r).voteApproved := by
        unfold mcIpcReleaseProcess
        rw [hq]
        by_cases hs : s'.system
        · simp only [hs, if_true, mc_releaseSystem]
          rfl
        · simp only [hs]
          rfl
      rw [hmc]
      split_ifs
      · rw [clearBit_apply, hbit, ite_self]
      · exact hbit

omit [DecidableEq P] [DecidableEq T] in
lemma voteApproved_update {r r' : ApplyId} {i : Fin mcClientMax} {f : McReferee}
    (hbit : (w.mc.referee r).voteApproved i = false) (hf : r = r' → f.voteApproved i = false) :
    (Function.update w.mc.referee r' f r).voteApproved i = false := by
  by_cases hr : r = r'
  · subst hr
    rw [Function.update_self]
    exact hf rfl
  · rwa [Function.update_of_ne hr]

/-- **A vote against stays in force** until its subscriber leaves or a new round begins: a
registration sets the bit of another index, and a vote sets none. -/
lemma voteApproved_step {l : Op P T} {es : List (Event P T)} {p : P} {r : ApplyId} {s : McSubscriber}
    (hreg : Registry w) (hp : w.cookie p = some s)
    (hbit : (w.mc.referee r).voteApproved s.index = false) (hok : Joins r w l)
    (hstep : step w l = some (w', es)) : (w'.mc.referee r).voteApproved s.index = false := by
  cases l with
  | register q mask env =>
      obtain ⟨w₁, hw₁, heq⟩ := Option.map_eq_some_iff.mp hstep
      obtain ⟨rfl, -⟩ := Prod.mk.inj heq
      exact voteApproved_registered hreg hp hbit (registered_of_eq hw₁)
  | release q =>
      obtain ⟨rfl, -⟩ := Prod.mk.inj (Option.some.inj hstep)
      exact voteApproved_release q hbit
  | ack q x =>
      obtain ⟨rfl, -⟩ := Prod.mk.inj (Option.some.inj hstep)
      cases hq : sender q w with
      | none =>
          unfold mcdClientAckMsg
          rwa [hq]
      | some s' =>
          rw [mcdClientAckMsg_eq hq, mc_wakeIfFull]
          exact hbit
  | vote q r' a =>
      have heq : (mcdClientVoteMsg q r' a w).1 = w' := congrArg Prod.fst (Option.some.inj hstep)
      subst heq
      cases hq : sender q w with
      | none =>
          unfold mcdClientVoteMsg
          rwa [hq]
      | some s' =>
          rw [mcdClientVoteMsg_eq hq, mc_wakeIfFull]
          apply voteApproved_update hbit
          rintro rfl
          cases a with
          | true => exact hbit
          | false =>
              change clearBit s'.index _ s.index = false
              rw [clearBit_apply, hbit, ite_self]
  | close =>
      obtain ⟨rfl, -⟩ := Prod.mk.inj (Option.some.inj hstep)
      exact hbit
  | synchorWait t x =>
      obtain ⟨-, heq⟩ := step_synchorWait hstep
      obtain rfl : (mcSynchorWait t x w).1 = w' := congrArg Prod.fst heq
      obtain ⟨-, heq⟩ | ⟨-, heq⟩ := mcSynchorWait_cases t x w
      · rw [heq]
        exact hbit
      · rw [heq]
        exact hbit
  | refereeWait t r' =>
      obtain ⟨-, heq⟩ := step_refereeWait hstep
      obtain rfl : (mcRefereeWait t r' w).1 = w' := congrArg Prod.fst heq
      have hkept : r = r' →
          ((w.mc.referee r').begin w.mc.fullBitmap).voteApproved s.index = false := by
        rintro rfl
        have hsame : (w.mc.referee r).begin w.mc.fullBitmap = w.mc.referee r := if_pos (hok rfl)
        rwa [hsame]
      obtain ⟨-, heq⟩ | ⟨-, heq⟩ := mcRefereeWait_cases t r' w
      · rw [heq]
        exact voteApproved_update hbit hkept
      · rw [heq]
        exact voteApproved_update hbit hkept
  | timeout t =>
      obtain ⟨o, -, -, rfl⟩ := step_timeout hstep
      exact hbit
  | resume t =>
      obtain ⟨o, timedout, full, own, -, heq⟩ := step_resume hstep
      obtain rfl : (w.resume t o timedout full own).1 = w' := congrArg Prod.fst heq
      cases o with
      | sync x => exact hbit
      | vote r' =>
          apply voteApproved_update hbit
          rintro rfl
          exact hbit

lemma Rejected.step {l : Op P T} {es : List (Event P T)} {p : P} {r : ApplyId} {t : T}
    (h : Rejected p r t w) (hreg : Registry w) (hok : Joins r w l) (hstay : l ≠ .release p)
    (hin : l ≠ .resume t) (hstep : step w l = some (w', es)) : Rejected p r t w' := by
  obtain ⟨s, hp, hs, hbit⟩ := h.vote
  have hc := change_of_step hstep
  exact ⟨object_step h.call hin hc, s, cookie_step hp hstay hc, hs,
    voteApproved_step hreg hp hbit hok hstep⟩

/-- A vote against that was taken down is in force. -/
lemma rejected_of_voted {es : List (Event P T)} {p : P} {r : ApplyId} {t : T}
    (hcall : (w.thread t).object = some (.vote r))
    (hvote : step w (.vote p r false) = some (w', es)) (hcounted : .voted p r false ∈ es) :
    Rejected p r t w' := by
  have heq : mcdClientVoteMsg p r false w = (w', es) := Option.some.inj hvote
  cases hs : sender p w with
  | none =>
      unfold mcdClientVoteMsg at heq
      rw [hs] at heq
      obtain ⟨-, rfl⟩ := Prod.mk.inj heq
      cases hcounted
  | some s =>
      obtain ⟨hp, hsystem⟩ := sender_eq hs
      have hc := change_of_step hvote
      refine ⟨object_step hcall (by simp) hc, s, cookie_step hp (by simp) hc, hsystem, ?_⟩
      rw [mcdClientVoteMsg_eq hs] at heq
      obtain ⟨rfl, -⟩ := Prod.mk.inj heq
      rw [mc_wakeIfFull]
      change (Function.update w.mc.referee r _ r).voteApproved s.index = false
      rw [Function.update_self]
      change clearBit s.index _ s.index = false
      rw [clearBit_apply, if_pos rfl]

/-- **A vote against counts.**  A vote of `p` against is taken down while the thread `t` is in
`mc_referee_wait`; when the subscriber stays and no thread begins a new round on the referee before
`t` returns, the value of `mc_referee_wait` is `MC_APPLY_R_UNAPPROVED`. -/
theorem disapproval_reported {ls₁ ls₂ : List (Op P T)} {w₁ w₂ w₃ w₄ : World P T}
    {es₁ es₂ es₃ es₄ : List (Event P T)} {p : P} {r : ApplyId} {t : T}
    (hrun₁ : run step ls₁ World.init = some (w₁, es₁))
    (hcall : (w₁.thread t).object = some (.vote r))
    (hvote : step w₁ (.vote p r false) = some (w₂, es₂)) (hcounted : .voted p r false ∈ es₂)
    (hrun₂ : run step ls₂ w₂ = some (w₃, es₃)) (hstay : .release p ∉ ls₂) (hin : .resume t ∉ ls₂)
    (hok : Along step (Joins r) ls₂ w₂) (hret : step w₃ (.resume t) = some (w₄, es₄)) :
    es₄ = [.judged t r false] := by
  have hall : Along step (fun (_ : World P T) _ => True) ls₁ World.init :=
    along_of_forall (fun _ _ => trivial) _
  have hreg₁ : Registry w₁ :=
    run_invariant (fun h _ hstep => h.step (change_of_step hstep)) registry_init hall hrun₁
  have hreg₂ := hreg₁.step (change_of_step hvote)
  have hlabels : Along step (fun _ l => l ≠ .release p ∧ l ≠ .resume t) ls₂ w₂ :=
    along_of_forall (fun l hl =>
      ⟨fun he => hstay (by rwa [he] at hl), fun he => hin (by rwa [he] at hl)⟩) w₂
  obtain ⟨hreg, hrej⟩ := run_invariant (I := fun w => Registry w ∧ Rejected p r t w)
    (fun h hl hstep =>
      ⟨h.1.step (change_of_step hstep), h.2.step h.1 hl.1 hl.2.1 hl.2.2 hstep⟩)
    ⟨hreg₂, rejected_of_voted hcall hvote hcounted⟩ (hok.and hlabels) hrun₂
  have hcall₃ := hrej.call
  have hverdict := hrej.verdict hreg
  cases ht : w₃.thread t with
  | idle => simp [step, ht] at hret
  | blocked => simp [step, ht] at hret
  | woken o timedout full own =>
      rw [ht] at hcall₃
      obtain rfl : o = .vote r := Option.some.inj hcall₃
      simp only [step, ht] at hret
      have heq : (w₃.resume t (.vote r) timedout full own).2 = es₄ :=
        congrArg Prod.snd (Option.some.inj hret)
      rw [← heq, ← hverdict]
      rfl

/-- One client votes against and one for. -/
theorem disapproval_reported_sample :
    ∃ (w₁ w₂ w₃ w₄ : World (Fin 2) (Fin 3)) (es₁ es₂ es₃ es₄ : List (Event (Fin 2) (Fin 3))),
      run step [guardedSystem 0, guardedSystem 1, .refereeWait 0 .sleep] World.init =
        some (w₁, es₁) ∧
      step w₁ (.vote 0 .sleep false) = some (w₂, es₂) ∧
      run step [.vote 1 .sleep true] w₂ = some (w₃, es₃) ∧
      step w₃ (.resume 0) = some (w₄, es₄) ∧ es₄ = [.judged 0 .sleep false] := by
  have hall : ((run step [guardedSystem 0, guardedSystem 1, .refereeWait 0 .sleep]
      World.init).bind fun r₁ => (step r₁.1 (.vote 0 .sleep false)).bind fun r₂ =>
        (run step [.vote 1 .sleep true] r₂.1).bind fun r₃ => (step r₃.1 (.resume 0)).map fun _ =>
          ((r₁.1.thread 0).object, r₂.2)) =
      some (some (.vote .sleep), [.voted 0 .sleep false]) := by decide +kernel
  obtain ⟨⟨w₁, es₁⟩, h₁, hall⟩ := Option.bind_eq_some_iff.mp hall
  obtain ⟨⟨w₂, es₂⟩, h₂, hall⟩ := Option.bind_eq_some_iff.mp hall
  obtain ⟨⟨w₃, es₃⟩, h₃, hall⟩ := Option.bind_eq_some_iff.mp hall
  obtain ⟨⟨w₄, es₄⟩, h₄, heq⟩ := Option.map_eq_some_iff.mp hall
  obtain ⟨hcall, hes⟩ := Prod.mk.inj heq
  have hcounted : .voted 0 .sleep false ∈ es₂ := by
    change es₂ = _ at hes
    rw [hes]
    exact List.mem_singleton_self _
  exact ⟨w₁, w₂, w₃, w₄, es₁, es₂, es₃, es₄, h₁, h₂, h₃, h₄,
    disapproval_reported h₁ hcall h₂ hcounted h₃ (by simp) (by simp)
      ⟨trivial, fun _ _ _ => trivial⟩ h₄⟩

/-- **A vote against that is forgotten.**  Two threads wait; the time of the first is over, and it
clears `AF_WAIT`.  The client votes against.  A third thread begins a new round, for which the client
votes in favour; the second thread reports that the vote is approved. -/
theorem disapproval_lost :
    ¬ ∀ (ls₁ ls₂ : List (Op (Fin 2) (Fin 3))) (w₁ w₂ w₃ w₄ : World (Fin 2) (Fin 3))
      (es₁ es₂ es₃ es₄ : List (Event (Fin 2) (Fin 3))) (p : Fin 2) (r : ApplyId) (t : Fin 3),
      run step ls₁ World.init = some (w₁, es₁) → (w₁.thread t).object = some (.vote r) →
      step w₁ (.vote p r false) = some (w₂, es₂) → .voted p r false ∈ es₂ →
      run step ls₂ w₂ = some (w₃, es₃) → .release p ∉ ls₂ → .resume t ∉ ls₂ →
      step w₃ (.resume t) = some (w₄, es₄) → es₄ = [.judged t r false] := by
  intro h
  have hall : ((run step [guardedSystem 0, .refereeWait 0 .sleep, .refereeWait 1 .sleep,
      .timeout 0, .resume 0] World.init).bind fun r₁ =>
        (step r₁.1 (.vote 0 .sleep false)).bind fun r₂ =>
          (run step [.refereeWait 2 .sleep, .vote 0 .sleep true] r₂.1).bind fun r₃ =>
            (step r₃.1 (.resume 1)).map fun r₄ => ((r₁.1.thread 1).object, r₂.2, r₄.2)) =
      some (some (.vote .sleep), [.voted 0 .sleep false], [.judged 1 .sleep true]) := by
    decide +kernel
  obtain ⟨⟨w₁, es₁⟩, h₁, hall⟩ := Option.bind_eq_some_iff.mp hall
  obtain ⟨⟨w₂, es₂⟩, h₂, hall⟩ := Option.bind_eq_some_iff.mp hall
  obtain ⟨⟨w₃, es₃⟩, h₃, hall⟩ := Option.bind_eq_some_iff.mp hall
  obtain ⟨⟨w₄, es₄⟩, h₄, heq⟩ := Option.map_eq_some_iff.mp hall
  obtain ⟨hcall, heq⟩ := Prod.mk.inj heq
  obtain ⟨hes₂, hes₄⟩ := Prod.mk.inj heq
  have hcounted : .voted 0 .sleep false ∈ es₂ := by
    change es₂ = _ at hes₂
    rw [hes₂]
    exact List.mem_singleton_self _
  have hes := h _ _ w₁ w₂ w₃ w₄ es₁ es₂ es₃ es₄ 0 .sleep 1 h₁ hcall h₂ hcounted h₃ (by simp)
    (by simp) h₄
  change es₄ = _ at hes₄
  rw [hes₄] at hes
  simp at hes

end Votes

end LinuxC.Mcd
