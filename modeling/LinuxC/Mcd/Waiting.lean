import LinuxC.Mcd.Model

/-!
# The sections under `mc->mutex`

`Registry` relates the cookies of the handles to the bitmaps: the bits of `full_bitmap` are those of
the system subscribers, whose indices differ, and no object has a bit that `full_bitmap` has not.
Every step keeps it.

`Change` says what a step can do to the bitmaps, the flags and the threads: a thread `Entered` a wait
or has `Resumed`, a subscriber `Answered`, or it was `Registered` or released.  The threads of an
object are woken in one way only, `wakeIfFull`; `releaseSystem_cases` says what becomes of them when
`mc_ipc_release_process` makes its five tests.
-/

namespace LinuxC.Mcd

variable {P T : Type} [DecidableEq P] [DecidableEq T]

/-! ## What the sections change -/

section Reading

variable {mc : McStruct} {f : Bitmap → Bitmap} {x : SynId} {r : ApplyId} {s : McSynchor}
  {a : McReferee} {o : Obj} {i j : Fin mcClientMax} {b : Bitmap}

lemma setBit_apply : setBit i b j = if j = i then true else b j :=
  Function.update_apply b i true j

lemma clearBit_apply : clearBit i b j = if j = i then false else b j :=
  Function.update_apply b i false j

@[simp] lemma own_mapBits : (mc.mapBits f).own o = f (mc.own o) := by cases o <;> rfl

@[simp] lemma wait_mapBits : (mc.mapBits f).wait o = mc.wait o := by cases o <;> rfl

@[simp] lemma fullBitmap_mapBits : (mc.mapBits f).fullBitmap = f mc.fullBitmap := rfl

@[simp] lemma fullBitmap_setSynchor : (mc.setSynchor x s).fullBitmap = mc.fullBitmap := rfl

@[simp] lemma fullBitmap_setReferee : (mc.setReferee r a).fullBitmap = mc.fullBitmap := rfl

@[simp] lemma own_setSynchor :
    (mc.setSynchor x s).own o = if o = .sync x then s.ackBitmap else mc.own o := by
  cases o with
  | sync y =>
      by_cases h : y = x
      · subst h
        simp [McStruct.own, McStruct.setSynchor]
      · simp [McStruct.own, McStruct.setSynchor, h]
  | vote r => simp [McStruct.own, McStruct.setSynchor]

@[simp] lemma own_setReferee :
    (mc.setReferee r a).own o = if o = .vote r then a.voteBitmap else mc.own o := by
  cases o with
  | sync y => simp [McStruct.own, McStruct.setReferee]
  | vote q =>
      by_cases h : q = r
      · subst h
        simp [McStruct.own, McStruct.setReferee]
      · simp [McStruct.own, McStruct.setReferee, h]

@[simp] lemma wait_setSynchor :
    (mc.setSynchor x s).wait o = if o = .sync x then s.wait else mc.wait o := by
  cases o with
  | sync y =>
      by_cases h : y = x
      · subst h
        simp [McStruct.wait, McStruct.setSynchor]
      · simp [McStruct.wait, McStruct.setSynchor, h]
  | vote r => simp [McStruct.wait, McStruct.setSynchor]

@[simp] lemma wait_setReferee :
    (mc.setReferee r a).wait o = if o = .vote r then a.wait else mc.wait o := by
  cases o with
  | sync y => simp [McStruct.wait, McStruct.setReferee]
  | vote q =>
      by_cases h : q = r
      · subst h
        simp [McStruct.wait, McStruct.setReferee]
      · simp [McStruct.wait, McStruct.setReferee, h]

end Reading

section Broadcast

variable {w : World P T} {o x : Obj} {t : T}

omit [DecidableEq P] [DecidableEq T] in
@[simp] lemma mc_wakeIfFull : (wakeIfFull o x w).mc = w.mc := by
  unfold wakeIfFull
  split_ifs <;> rfl

omit [DecidableEq P] [DecidableEq T] in
@[simp] lemma cookie_wakeIfFull : (wakeIfFull o x w).cookie = w.cookie := by
  unfold wakeIfFull
  split_ifs <;> rfl

omit [DecidableEq P] [DecidableEq T] in
lemma thread_wakeIfFull (h : w.thread t = .blocked o) :
    (wakeIfFull o x w).thread t =
      if w.mc.wait o ∧ w.mc.isFull x then .woken o false w.mc.fullBitmap (w.mc.own o)
      else .blocked o := by
  unfold wakeIfFull
  split_ifs
  · simp [World.broadcast, h]
  · exact h

omit [DecidableEq P] [DecidableEq T] in
lemma thread_wakeIfFull_of_ne (h : w.thread t ≠ .blocked o) :
    (wakeIfFull o x w).thread t = w.thread t := by
  unfold wakeIfFull
  split_ifs
  · cases hw : w.thread t with
    | blocked o' =>
        have hne : o' ≠ o := fun he => h (by rw [hw, he])
        simp [World.broadcast, hw, hne]
    | idle => simp [World.broadcast, hw]
    | woken => simp [World.broadcast, hw]
  · rfl

omit [DecidableEq P] [DecidableEq T] in
/-- The end of the handlers is such a test. -/
lemma wakeAnswered_eq : w.wakeAnswered o = wakeIfFull o o w := by
  unfold World.wakeAnswered wakeIfFull
  simp only [and_comm]

/-- The bitmap that `mc_ipc_release_process` looks at before it wakes the threads of the object. -/
def tested : Obj → Obj
  | .sync .resume => .sync .reboot
  | o => o

omit [DecidableEq P] [DecidableEq T] in
@[simp] lemma mc_releaseSystem (i : Fin mcClientMax) :
    (releaseSystem i w).mc = w.mc.mapBits (clearBit i) := by
  simp [releaseSystem]

omit [DecidableEq P] [DecidableEq T] in
@[simp] lemma cookie_releaseSystem (i : Fin mcClientMax) :
    (releaseSystem i w).cookie = w.cookie := by
  simp [releaseSystem]

omit [DecidableEq P] [DecidableEq T] in
/-- **One test.** -/
lemma wakeIfFull_cases (o x : Obj) (w : World P T) (t : T) :
    ((wakeIfFull o x w).thread t = w.thread t ∧
      (w.thread t = .blocked o → ¬ (w.mc.wait o = true ∧ w.mc.isFull x))) ∨
    (w.thread t = .blocked o ∧ w.mc.isFull x ∧
      (wakeIfFull o x w).thread t = .woken o false w.mc.fullBitmap (w.mc.own o)) := by
  by_cases ho : w.thread t = .blocked o
  · have hthread := thread_wakeIfFull (x := x) ho
    split_ifs at hthread with htest
    · exact .inr ⟨ho, htest.2, hthread⟩
    · exact .inl ⟨hthread.trans ho.symm, fun _ => htest⟩
  · exact .inl ⟨thread_wakeIfFull_of_ne ho, fun hb => absurd hb ho⟩

/-- The tests for several objects, one after the other. -/
def wakeAll (x : Obj → Obj) (os : List Obj) (w : World P T) : World P T :=
  os.foldl (fun w o => wakeIfFull o (x o) w) w

omit [DecidableEq P] [DecidableEq T] in
lemma thread_wakeAll_of_ne {x : Obj → Obj} {os : List Obj} {w : World P T} {t : T}
    (h : ∀ o, w.thread t = .blocked o → ¬ (w.mc.wait o = true ∧ w.mc.isFull (x o))) :
    (wakeAll x os w).thread t = w.thread t := by
  induction os generalizing w with
  | nil => rfl
  | cons o os ih =>
      have hsame : (wakeIfFull o (x o) w).thread t = w.thread t := by
        by_cases ho : w.thread t = .blocked o
        · rw [thread_wakeIfFull ho, if_neg (h o ho), ho]
        · exact thread_wakeIfFull_of_ne ho
      refine (ih fun o' ho' => ?_).trans hsame
      rw [mc_wakeIfFull]
      exact h o' (hsame ▸ ho')

omit [DecidableEq P] [DecidableEq T] in
lemma thread_wakeAll {x : Obj → Obj} {os : List Obj} {w : World P T} {t : T}
    (h : w.thread t = .blocked o) (ho : o ∈ os) (htest : w.mc.wait o = true ∧ w.mc.isFull (x o)) :
    (wakeAll x os w).thread t = .woken o false w.mc.fullBitmap (w.mc.own o) := by
  induction os generalizing w with
  | nil => simp at ho
  | cons o' os ih =>
      by_cases he : o' = o
      · subst he
        have hwoken := thread_wakeIfFull (x := x o') h
        rw [if_pos htest] at hwoken
        refine (thread_wakeAll_of_ne (w := wakeIfFull o' (x o') w) fun o'' hb => ?_).trans hwoken
        rw [hwoken] at hb
        cases hb
      · have hsame : (wakeIfFull o' (x o') w).thread t = .blocked o := by
          rw [thread_wakeIfFull_of_ne, h]
          rw [h]
          simpa using Ne.symm he
        have hrest : o ∈ os := (List.mem_cons.mp ho).resolve_left (Ne.symm he)
        have := ih hsame hrest (by rwa [mc_wakeIfFull])
        rwa [mc_wakeIfFull] at this

omit [DecidableEq P] [DecidableEq T] in
/-- **The five tests** of `mc_ipc_release_process`. -/
lemma releaseSystem_cases (i : Fin mcClientMax) (w : World P T) (t : T) :
    ((releaseSystem i w).thread t = w.thread t ∧ ∀ o, w.thread t = .blocked o →
      ¬ (w.mc.wait o = true ∧ (w.mc.mapBits (clearBit i)).isFull (tested o))) ∨
    ∃ o, w.thread t = .blocked o ∧ w.mc.wait o = true ∧
      (w.mc.mapBits (clearBit i)).isFull (tested o) ∧
      (releaseSystem i w).thread t =
        .woken o false (clearBit i w.mc.fullBitmap) (clearBit i (w.mc.own o)) := by
  have heq : releaseSystem i w = wakeAll tested
      [.sync .sleep, .sync .resume, .sync .reboot, .vote .sleep, .vote .reboot]
      { w with mc := w.mc.mapBits (clearBit i) } := rfl
  rw [heq]
  by_cases h : ∃ o, w.thread t = .blocked o ∧ w.mc.wait o = true ∧
      (w.mc.mapBits (clearBit i)).isFull (tested o)
  · obtain ⟨o, ho, hwait, htest⟩ := h
    have hmem : o ∈ [.sync .sleep, .sync .resume, .sync .reboot, .vote .sleep, .vote .reboot] := by
      rcases o with (_ | _ | _) | (_ | _) <;> simp
    have hwoken := thread_wakeAll (x := tested) (w := { w with mc := w.mc.mapBits (clearBit i) })
      ho hmem ⟨by simpa using hwait, htest⟩
    rw [fullBitmap_mapBits, own_mapBits] at hwoken
    exact .inr ⟨o, ho, hwait, htest, hwoken⟩
  · have hnone : ∀ o, w.thread t = .blocked o →
        ¬ (w.mc.wait o = true ∧ (w.mc.mapBits (clearBit i)).isFull (tested o)) :=
      fun o ho htest => h ⟨o, ho, htest⟩
    refine .inl ⟨thread_wakeAll_of_ne fun o ho => ?_, hnone⟩
    rw [wait_mapBits]
    exact hnone o ho

end Broadcast

/-! ## The registered subscribers -/

/-- The cookies and the bitmaps agree. -/
structure Registry (w : World P T) : Prop where
  full : ∀ p s, w.cookie p = some s → s.system = true → w.mc.fullBitmap s.index = true
  owner : ∀ i, w.mc.fullBitmap i = true →
    ∃ p s, w.cookie p = some s ∧ s.system = true ∧ s.index = i
  stock : ∀ p s, w.cookie p = some s → w.mc.indexStock s.index = true
  apart : ∀ p q s s', w.cookie p = some s → w.cookie q = some s' → s.index = s'.index → p = q
  own : ∀ o i, w.mc.own o i = true → w.mc.fullBitmap i = true

section Registry

variable {w w' : World P T}

omit [DecidableEq P] [DecidableEq T] in
/-- The registry is about the cookies and the bitmaps. -/
lemma Registry.of_eq (h : Registry w) (hcookie : w'.cookie = w.cookie)
    (hfull : w'.mc.fullBitmap = w.mc.fullBitmap) (hstock : w'.mc.indexStock = w.mc.indexStock)
    (hown : ∀ o i, w'.mc.own o i = true → w.mc.fullBitmap i = true) : Registry w' where
  full := by
    rw [hcookie, hfull]
    exact h.full
  owner := by
    rw [hcookie, hfull]
    exact h.owner
  stock := by
    rw [hcookie, hstock]
    exact h.stock
  apart := by
    rw [hcookie]
    exact h.apart
  own := by
    rw [hfull]
    exact hown

omit [DecidableEq P] [DecidableEq T] in
lemma registry_init : Registry (World.init : World P T) where
  full := by simp [World.init]
  owner := by simp [World.init, mcInit, noBits]
  stock := by simp [World.init]
  apart := by simp [World.init]
  own := by
    intro o i h
    cases o <;> simp [World.init, mcInit, McStruct.own, noBits] at h

omit [DecidableEq P] [DecidableEq T] in
lemma Registry.fullBitmap_free (h : Registry w) {i : Fin mcClientMax}
    (hi : w.mc.indexStock i = false) : w.mc.fullBitmap i = false := by
  by_contra hfull
  obtain ⟨p, s, hp, -, rfl⟩ := h.owner i (by simpa using hfull)
  have := h.stock p s hp
  rw [hi] at this
  exact Bool.false_ne_true this

lemma firstBitZero_eq {b : Bitmap} {i : Fin mcClientMax} (h : firstBitZero b = some i) :
    b i = false := by
  have := List.find?_some h
  simpa using this

/-- What a registration does: nothing, an index is lost, or there is a new subscriber. -/
inductive Registered (p : P) (w : World P T) : World P T → Prop
  | refused : Registered p w w
  | leaked {i : Fin mcClientMax} : w.mc.indexStock i = false →
      Registered p w { w with mc := { w.mc with indexStock := setBit i w.mc.indexStock } }
  | accepted {s : McSubscriber} {mc : McStruct} : w.cookie p = none →
      w.mc.indexStock s.index = false →
      mc = (if s.system then w.mc.mapBits (setBit s.index) else w.mc) →
      Registered p w { w with
        mc := { mc with
          indexStock := setBit s.index w.mc.indexStock
          subscribers := w.mc.subscribers + 1 }
        cookie := Function.update w.cookie p (some s) }

omit [DecidableEq T] in
lemma registered_of_eq {p : P} {mask : UInt64} {env : RegisterEnv}
    (h : mcIpcRegisterProcess p mask env w = some w') : Registered p w w' := by
  unfold mcIpcRegisterProcess at h
  split_ifs at h with h1 h2 hp
  · obtain rfl : w = w' := by simpa using h
    exact .refused
  · obtain rfl : w = w' := by simpa using h
    exact .refused
  · obtain ⟨i, hi, rfl⟩ := Option.map_eq_some_iff.mp h
    exact .leaked (firstBitZero_eq hi)
  · obtain ⟨i, hi, rfl⟩ := Option.map_eq_some_iff.mp h
    exact .accepted (s := ⟨i, mask, decide (mask &&& mcGuardMask ≠ 0)⟩) (by simpa using hp)
      (firstBitZero_eq hi) rfl

omit [DecidableEq T] in
/-- **A registration keeps the registry**: the new bit is set everywhere at once. -/
lemma Registry.registered {p : P} (h : Registry w) (hr : Registered p w w') : Registry w' := by
  cases hr with
  | refused => exact h
  | @leaked i hi =>
      refine ⟨h.full, h.owner, fun q s hq => ?_, h.apart, h.own⟩
      change setBit i w.mc.indexStock s.index = true
      rw [setBit_apply]
      split_ifs
      · rfl
      · exact h.stock q s hq
  | @accepted s mc hp hi hmc =>
      have hfull : ∀ j, mc.fullBitmap j = true ↔
          (s.system = true ∧ j = s.index) ∨ w.mc.fullBitmap j = true := by
        intro j
        subst hmc
        split_ifs with hs
        · rw [fullBitmap_mapBits, setBit_apply]
          split_ifs with hj <;> simp [hs, hj]
        · simp [hs]
      have hold : ∀ q s', Function.update w.cookie p (some s) q = some s' →
          (q = p ∧ s' = s) ∨ (q ≠ p ∧ w.cookie q = some s') := by
        intro q s' hq
        by_cases hqp : q = p
        · subst hqp
          simp only [Function.update_self, Option.some.injEq] at hq
          exact .inl ⟨rfl, hq.symm⟩
        · rw [Function.update_of_ne hqp] at hq
          exact .inr ⟨hqp, hq⟩
      have hindex : ∀ q s', w.cookie q = some s' → s'.index ≠ s.index := by
        intro q s' hq he
        have := h.stock q s' hq
        rw [he, hi] at this
        exact Bool.false_ne_true this
      constructor
      · intro q s' hq hs
        rw [hfull]
        obtain ⟨-, rfl⟩ | ⟨-, hq⟩ := hold q s' hq
        · exact .inl ⟨hs, rfl⟩
        · exact .inr (h.full q s' hq hs)
      · intro j hj
        obtain ⟨hs, rfl⟩ | hj := (hfull j).mp hj
        · exact ⟨p, s, Function.update_self .., hs, rfl⟩
        · obtain ⟨q, s', hq, hs', rfl⟩ := h.owner j hj
          have hqp : q ≠ p := by
            rintro rfl
            rw [hp] at hq
            cases hq
          exact ⟨q, s', (Function.update_of_ne hqp ..).trans hq, hs', rfl⟩
      · intro q s' hq
        change setBit s.index w.mc.indexStock s'.index = true
        rw [setBit_apply]
        obtain ⟨-, rfl⟩ | ⟨-, hq⟩ := hold q s' hq
        · simp
        · rw [if_neg (hindex q s' hq)]
          exact h.stock q s' hq
      · intro q q' s₁ s₂ hq hq' he
        obtain ⟨rfl, rfl⟩ | ⟨-, hold₁⟩ := hold q s₁ hq
        · obtain ⟨rfl, -⟩ | ⟨-, hold₂⟩ := hold q' s₂ hq'
          · rfl
          · exact absurd he.symm (hindex q' s₂ hold₂)
        · obtain ⟨-, rfl⟩ | ⟨-, hold₂⟩ := hold q' s₂ hq'
          · exact absurd he (hindex q s₁ hold₁)
          · exact h.apart q q' s₁ s₂ hold₁ hold₂ he
      · intro o j hj
        rw [hfull]
        have hown : mc.own o j = true := by cases o <;> exact hj
        subst hmc
        split_ifs at hown with hs
        · rw [own_mapBits, setBit_apply] at hown
          split_ifs at hown with hj
          · exact .inl ⟨hs, hj⟩
          · exact .inr (h.own o j hown)
        · exact .inr (h.own o j hown)

omit [DecidableEq T] in
/-- What a release does to the daemon and the cookies. -/
lemma mcIpcReleaseProcess_eq {p : P} {s : McSubscriber} (hp : w.cookie p = some s) :
    (mcIpcReleaseProcess p w).cookie = Function.update w.cookie p none ∧
    (mcIpcReleaseProcess p w).mc.indexStock = clearBit s.index w.mc.indexStock ∧
    (mcIpcReleaseProcess p w).mc.fullBitmap =
      (if s.system then clearBit s.index w.mc.fullBitmap else w.mc.fullBitmap) ∧
    (∀ o, (mcIpcReleaseProcess p w).mc.own o =
      if s.system then clearBit s.index (w.mc.own o) else w.mc.own o) ∧
    (∀ o, (mcIpcReleaseProcess p w).mc.wait o = w.mc.wait o) ∧
    (mcIpcReleaseProcess p w).thread =
      (if s.system then (releaseSystem s.index w).thread else w.thread) := by
  unfold mcIpcReleaseProcess
  rw [hp]
  by_cases hs : s.system
  · simp only [hs, if_true]
    refine ⟨by simp, by simp [McStruct.mapBits], by simp, fun o => ?_, fun o => ?_, trivial⟩
    · rw [mc_releaseSystem]
      cases o <;> rfl
    · rw [mc_releaseSystem]
      cases o <;> rfl
  · simp only [hs]
    refine ⟨rfl, rfl, rfl, fun o => ?_, fun o => ?_, rfl⟩ <;> cases o <;> rfl

omit [DecidableEq T] in
/-- **A release keeps the registry.** -/
lemma Registry.released {p : P} (h : Registry w) : Registry (mcIpcReleaseProcess p w) := by
  cases hp : w.cookie p with
  | none =>
      unfold mcIpcReleaseProcess
      rw [hp]
      exact h
  | some s =>
      obtain ⟨hcookie, hstock, hfull, hown, -, -⟩ := mcIpcReleaseProcess_eq hp
      have hold : ∀ q s', Function.update w.cookie p none q = some s' →
          q ≠ p ∧ w.cookie q = some s' := by
        intro q s' hq
        by_cases hqp : q = p
        · subst hqp
          simp at hq
        · rw [Function.update_of_ne hqp] at hq
          exact ⟨hqp, hq⟩
      have hindex : ∀ q s', q ≠ p → w.cookie q = some s' → s'.index ≠ s.index :=
        fun q s' hqp hq he => hqp (h.apart q p s' s hq hp he)
      have hbit : ∀ j, (if s.system then clearBit s.index w.mc.fullBitmap else w.mc.fullBitmap) j
          = true ↔ w.mc.fullBitmap j = true ∧ ¬ (s.system = true ∧ j = s.index) := by
        intro j
        split_ifs with hs
        · rw [clearBit_apply]
          split_ifs with hj <;> simp [hs, hj]
        · simp [hs]
      constructor
      · intro q s' hq hs'
        rw [hcookie] at hq
        obtain ⟨hqp, hq⟩ := hold q s' hq
        rw [hfull, hbit]
        exact ⟨h.full q s' hq hs', fun he => hindex q s' hqp hq he.2⟩
      · intro j hj
        rw [hfull, hbit] at hj
        obtain ⟨q, s', hq, hs', rfl⟩ := h.owner j hj.1
        have hqp : q ≠ p := by
          rintro rfl
          obtain rfl : s = s' := by simpa [hp] using hq
          exact hj.2 ⟨hs', rfl⟩
        rw [hcookie]
        exact ⟨q, s', (Function.update_of_ne hqp ..).trans hq, hs', rfl⟩
      · intro q s' hq
        rw [hcookie] at hq
        obtain ⟨hqp, hq⟩ := hold q s' hq
        rw [hstock, clearBit_apply, if_neg (hindex q s' hqp hq)]
        exact h.stock q s' hq
      · intro q q' s₁ s₂ hq hq' he
        rw [hcookie] at hq hq'
        exact h.apart q q' s₁ s₂ (hold q s₁ hq).2 (hold q' s₂ hq').2 he
      · intro o j hj
        rw [hown] at hj
        rw [hfull, hbit]
        split_ifs at hj with hs
        · rw [clearBit_apply] at hj
          split_ifs at hj with he
          exact ⟨h.own o j hj, fun hc => he hc.2⟩
        · exact ⟨h.own o j hj, fun hc => hs hc.1⟩

omit [DecidableEq P] [DecidableEq T] in
lemma sender_eq {p : P} {s : McSubscriber} (h : sender p w = some s) :
    w.cookie p = some s ∧ s.system = true := by
  obtain ⟨hp, hs⟩ := Option.filter_eq_some_iff.mp h
  simp only [Bool.and_eq_true] at hs
  exact ⟨hp, hs.2⟩

/-- The synchor after an acknowledgement. -/
def McSynchor.take (i : Fin mcClientMax) (a : McSynchor) : McSynchor :=
  { a with ackBitmap := setBit i a.ackBitmap }

omit [DecidableEq P] [DecidableEq T] in
lemma mcdClientAckMsg_eq {p : P} {s : McSubscriber} (hs : sender p w = some s) (x : SynId) :
    mcdClientAckMsg p x w = wakeIfFull (.sync x) (.sync x)
      { w with mc := w.mc.setSynchor x ((w.mc.synchor x).take s.index) } := by
  unfold mcdClientAckMsg
  rw [hs, ← wakeAnswered_eq]
  rfl

/-- The referee after a vote. -/
def McReferee.take (i : Fin mcClientMax) (approved : Bool) (a : McReferee) : McReferee :=
  { a with
    voteBitmap := setBit i a.voteBitmap
    voteApproved := if approved then a.voteApproved else clearBit i a.voteApproved }

omit [DecidableEq P] [DecidableEq T] in
lemma mcdClientVoteMsg_eq {p : P} {s : McSubscriber} (hs : sender p w = some s) (r : ApplyId)
    (approved : Bool) :
    mcdClientVoteMsg p r approved w = (wakeIfFull (.vote r) (.vote r)
      { w with mc := w.mc.setReferee r ((w.mc.referee r).take s.index approved) },
        [.voted p r approved]) := by
  unfold mcdClientVoteMsg
  rw [hs, ← wakeAnswered_eq]
  cases approved <;> rfl

end Registry

/-! ## What a step does -/

/-- What the waits and the answers leave alone. -/
structure Frame (o : Obj) (w w' : World P T) : Prop where
  cookie : w'.cookie = w.cookie
  stock : w'.mc.indexStock = w.mc.indexStock
  full : w'.mc.fullBitmap = w.mc.fullBitmap
  own : ∀ o', o' ≠ o → w'.mc.own o' = w.mc.own o'
  wait : ∀ o', o' ≠ o → w'.mc.wait o' = w.mc.wait o'

/-- A subscriber with the index `i` has answered. -/
structure Answered (o : Obj) (i : Fin mcClientMax) (w w' : World P T) : Prop extends
    Frame o w w' where
  bits : w'.mc.own o = setBit i (w.mc.own o)
  flag : w'.mc.wait o = w.mc.wait o
  wakes : ∀ t, (w'.thread t = w.thread t ∧
      (w.thread t = .blocked o → ¬ (w'.mc.wait o = true ∧ w'.mc.isFull o))) ∨
    (w.thread t = .blocked o ∧ w'.mc.isFull o ∧
      w'.thread t = .woken o false w'.mc.fullBitmap (w'.mc.own o))

/-- A thread has begun to wait, or has seen that it need not. -/
structure Entered (t : T) (o : Obj) (w w' : World P T) : Prop extends Frame o w w' where
  bits : w'.mc.own o = if w.mc.wait o then w.mc.own o else noBits
  wakes : (w'.mc.isFull o ∧ w'.thread = w.thread ∧ w'.mc.wait o = w.mc.wait o) ∨
    (¬ w'.mc.isFull o ∧ w'.thread = Function.update w.thread t (.blocked o) ∧
      w'.mc.wait o = true)

/-- A thread has returned from its wait. -/
structure Resumed (t : T) (o : Obj) (w w' : World P T) : Prop extends Frame o w w' where
  bits : w'.mc.own o = w.mc.own o
  flag : w'.mc.wait o = false
  thread : w'.thread = Function.update w.thread t .idle

section Steps

variable {w w' : World P T} {t : T} {o : Obj} {x : SynId} {r : ApplyId}

omit [DecidableEq P] [DecidableEq T] in
lemma frame_setSynchor {a : McSynchor} (hcookie : w'.cookie = w.cookie)
    (hmc : w'.mc = w.mc.setSynchor x a) : Frame (.sync x) w w' where
  cookie := hcookie
  stock := by rw [hmc]; rfl
  full := by rw [hmc, fullBitmap_setSynchor]
  own := fun o' ho => by rw [hmc, own_setSynchor, if_neg ho]
  wait := fun o' ho => by rw [hmc, wait_setSynchor, if_neg ho]

omit [DecidableEq P] [DecidableEq T] in
lemma frame_setReferee {a : McReferee} (hcookie : w'.cookie = w.cookie)
    (hmc : w'.mc = w.mc.setReferee r a) : Frame (.vote r) w w' where
  cookie := hcookie
  stock := by rw [hmc]; rfl
  full := by rw [hmc, fullBitmap_setReferee]
  own := fun o' ho => by rw [hmc, own_setReferee, if_neg ho]
  wait := fun o' ho => by rw [hmc, wait_setReferee, if_neg ho]

omit [DecidableEq P] [DecidableEq T] in
lemma answered_ack {p : P} {s : McSubscriber} (hs : sender p w = some s) (x : SynId) :
    Answered (.sync x) s.index w (mcdClientAckMsg p x w) := by
  rw [mcdClientAckMsg_eq hs]
  refine ⟨frame_setSynchor cookie_wakeIfFull mc_wakeIfFull, ?_, ?_, fun t => ?_⟩
  · rw [mc_wakeIfFull, own_setSynchor, if_pos rfl]
    rfl
  · rw [mc_wakeIfFull, wait_setSynchor, if_pos rfl]
    rfl
  · rw [mc_wakeIfFull]
    exact wakeIfFull_cases ..

omit [DecidableEq P] [DecidableEq T] in
lemma answered_vote {p : P} {s : McSubscriber} (hs : sender p w = some s) (r : ApplyId)
    (approved : Bool) : Answered (.vote r) s.index w (mcdClientVoteMsg p r approved w).1 := by
  rw [mcdClientVoteMsg_eq hs]
  refine ⟨frame_setReferee cookie_wakeIfFull mc_wakeIfFull, ?_, ?_, fun t => ?_⟩
  · rw [mc_wakeIfFull, own_setReferee, if_pos rfl]
    rfl
  · rw [mc_wakeIfFull, wait_setReferee, if_pos rfl]
    rfl
  · rw [mc_wakeIfFull]
    exact wakeIfFull_cases ..

/-- The synchor on which a thread begins to wait. -/
def McSynchor.begin (s : McSynchor) : McSynchor :=
  if s.wait then s else { s with ackBitmap := noBits }

/-- The referee on which a thread begins to wait. -/
def McReferee.begin (full : Bitmap) (s : McReferee) : McReferee :=
  if s.wait then s else { s with voteApproved := full, voteBitmap := noBits }

lemma setSynchor_setSynchor (mc : McStruct) (a b : McSynchor) :
    (mc.setSynchor x a).setSynchor x b = mc.setSynchor x b := by
  simp [McStruct.setSynchor]

lemma setReferee_setReferee (mc : McStruct) (a b : McReferee) :
    (mc.setReferee r a).setReferee r b = mc.setReferee r b := by
  simp [McStruct.setReferee]

lemma ackBitmap_begin (mc : McStruct) (x : SynId) :
    (mc.synchor x).begin.ackBitmap = if mc.wait (.sync x) then mc.own (.sync x) else noBits := by
  unfold McSynchor.begin McStruct.wait McStruct.own
  split_ifs <;> rfl

lemma wait_begin (mc : McStruct) (x : SynId) :
    (mc.synchor x).begin.wait = mc.wait (.sync x) := by
  unfold McSynchor.begin McStruct.wait
  split_ifs <;> rfl

lemma voteBitmap_begin (mc : McStruct) (r : ApplyId) (full : Bitmap) :
    ((mc.referee r).begin full).voteBitmap =
      if mc.wait (.vote r) then mc.own (.vote r) else noBits := by
  unfold McReferee.begin McStruct.wait McStruct.own
  split_ifs <;> rfl

lemma wait_begin_referee (mc : McStruct) (r : ApplyId) (full : Bitmap) :
    ((mc.referee r).begin full).wait = mc.wait (.vote r) := by
  unfold McReferee.begin McStruct.wait
  split_ifs <;> rfl

omit [DecidableEq P] in
/-- `mc_synchor_wait` returns at once, or the thread is blocked. -/
lemma mcSynchorWait_cases (t : T) (x : SynId) (w : World P T) :
    let mc := w.mc.setSynchor x (w.mc.synchor x).begin
    (mc.isFull (.sync x) ∧ mcSynchorWait t x w =
      ({ w with mc := mc }, [.synced t x mc.fullBitmap (w.mc.synchor x).begin.ackBitmap])) ∨
    (¬ mc.isFull (.sync x) ∧ mcSynchorWait t x w =
      ({ w with
          mc := w.mc.setSynchor x { (w.mc.synchor x).begin with wait := true }
          thread := Function.update w.thread t (.blocked (.sync x)) }, [])) := by
  intro mc
  by_cases h : mc.isFull (.sync x)
  · exact .inl ⟨h, if_pos h⟩
  · refine .inr ⟨h, (if_neg h).trans ?_⟩
    rw [setSynchor_setSynchor]
    rfl

omit [DecidableEq P] in
/-- `mc_referee_wait` returns at once, or the thread is blocked. -/
lemma mcRefereeWait_cases (t : T) (r : ApplyId) (w : World P T) :
    let a := (w.mc.referee r).begin w.mc.fullBitmap
    let mc := w.mc.setReferee r a
    (mc.isFull (.vote r) ∧ mcRefereeWait t r w =
      ({ w with mc := mc }, [.judged t r (mc.verdict r)])) ∨
    (¬ mc.isFull (.vote r) ∧ mcRefereeWait t r w =
      ({ w with
          mc := w.mc.setReferee r { a with wait := true }
          thread := Function.update w.thread t (.blocked (.vote r)) }, [])) := by
  intro a mc
  by_cases h : mc.isFull (.vote r)
  · exact .inl ⟨h, if_pos h⟩
  · refine .inr ⟨h, (if_neg h).trans ?_⟩
    rw [setReferee_setReferee]
    rfl

omit [DecidableEq P] in
lemma entered_synchor (t : T) (x : SynId) : Entered t (.sync x) w (mcSynchorWait t x w).1 := by
  obtain ⟨h, heq⟩ | ⟨h, heq⟩ := mcSynchorWait_cases t x w
  · rw [heq]
    refine ⟨frame_setSynchor rfl rfl, ?_, .inl ⟨h, rfl, ?_⟩⟩
    · rw [own_setSynchor, if_pos rfl, ackBitmap_begin]
    · rw [wait_setSynchor, if_pos rfl, wait_begin]
  · rw [heq]
    refine ⟨frame_setSynchor rfl rfl, ?_, .inr ⟨fun hfull => h ?_, rfl, ?_⟩⟩
    · rw [own_setSynchor, if_pos rfl, ackBitmap_begin]
    · refine Eq.trans ?_ hfull
      rw [own_setSynchor, own_setSynchor, if_pos rfl]
    · rw [wait_setSynchor, if_pos rfl]

omit [DecidableEq P] in
lemma entered_referee (t : T) (r : ApplyId) : Entered t (.vote r) w (mcRefereeWait t r w).1 := by
  obtain ⟨h, heq⟩ | ⟨h, heq⟩ := mcRefereeWait_cases t r w
  · rw [heq]
    refine ⟨frame_setReferee rfl rfl, ?_, .inl ⟨h, rfl, ?_⟩⟩
    · rw [own_setReferee, if_pos rfl, voteBitmap_begin]
    · rw [wait_setReferee, if_pos rfl, wait_begin_referee]
  · rw [heq]
    refine ⟨frame_setReferee rfl rfl, ?_, .inr ⟨fun hfull => h ?_, rfl, ?_⟩⟩
    · rw [own_setReferee, if_pos rfl, voteBitmap_begin]
    · refine Eq.trans ?_ hfull
      rw [own_setReferee, own_setReferee, if_pos rfl]
    · rw [wait_setReferee, if_pos rfl]

omit [DecidableEq P] in
lemma resumed_of_eq (t : T) (o : Obj) (timedout : Bool) (full own : Bitmap) :
    Resumed t o w (w.resume t o timedout full own).1 := by
  cases o with
  | sync x =>
      refine ⟨frame_setSynchor rfl rfl, ?_, ?_, rfl⟩
      · exact own_setSynchor.trans (if_pos rfl)
      · exact wait_setSynchor.trans (if_pos rfl)
  | vote r =>
      refine ⟨frame_setReferee rfl rfl, ?_, ?_, rfl⟩
      · exact own_setReferee.trans (if_pos rfl)
      · exact wait_setReferee.trans (if_pos rfl)

/-- **The steps**, as the invariants see them. -/
inductive Change (w : World P T) : Op P T → World P T → Prop
  | register {p : P} {mask : UInt64} {env : RegisterEnv} {w' : World P T} :
      Registered p w w' → Change w (.register p mask env) w'
  | release {p : P} : Change w (.release p) (mcIpcReleaseProcess p w)
  | ignored {l : Op P T} : Change w l w
  | ack {p : P} {x : SynId} {s : McSubscriber} {w' : World P T} : sender p w = some s →
      Answered (.sync x) s.index w w' → Change w (.ack p x) w'
  | vote {p : P} {r : ApplyId} {a : Bool} {s : McSubscriber} {w' : World P T} :
      sender p w = some s → Answered (.vote r) s.index w w' → Change w (.vote p r a) w'
  | close : Change w .close { w with mc := { w.mc with closing := true } }
  | synchorWait {t : T} {x : SynId} {w' : World P T} : w.thread t = .idle →
      Entered t (.sync x) w w' → Change w (.synchorWait t x) w'
  | refereeWait {t : T} {r : ApplyId} {w' : World P T} : w.thread t = .idle →
      Entered t (.vote r) w w' → Change w (.refereeWait t r) w'
  | timeout {t : T} {o : Obj} : w.thread t = .blocked o →
      Change w (.timeout t) { w with
        thread := Function.update w.thread t (.woken o true w.mc.fullBitmap (w.mc.own o)) }
  | resume {t : T} {o : Obj} {timedout : Bool} {full own : Bitmap} {w' : World P T} :
      w.thread t = .woken o timedout full own → Resumed t o w w' → Change w (.resume t) w'

/-- A thread enters a wait only when it is idle. -/
lemma step_synchorWait {t : T} {x : SynId} {es : List (Event P T)}
    (h : step w (.synchorWait t x) = some (w', es)) :
    w.thread t = .idle ∧ mcSynchorWait t x w = (w', es) := by
  cases ht : w.thread t with
  | idle =>
      simp only [step, ht] at h
      exact ⟨rfl, Option.some.inj h⟩
  | blocked => simp [step, ht] at h
  | woken => simp [step, ht] at h

lemma step_refereeWait {t : T} {r : ApplyId} {es : List (Event P T)}
    (h : step w (.refereeWait t r) = some (w', es)) :
    w.thread t = .idle ∧ mcRefereeWait t r w = (w', es) := by
  cases ht : w.thread t with
  | idle =>
      simp only [step, ht] at h
      exact ⟨rfl, Option.some.inj h⟩
  | blocked => simp [step, ht] at h
  | woken => simp [step, ht] at h

lemma step_timeout {t : T} {es : List (Event P T)} (h : step w (.timeout t) = some (w', es)) :
    ∃ o, w.thread t = .blocked o ∧ es = [] ∧
      w' = { w with
        thread := Function.update w.thread t (.woken o true w.mc.fullBitmap (w.mc.own o)) } := by
  cases ht : w.thread t with
  | idle => simp [step, ht] at h
  | blocked o =>
      simp only [step, ht] at h
      obtain ⟨rfl, rfl⟩ := Prod.mk.inj (Option.some.inj h)
      exact ⟨o, rfl, rfl, rfl⟩
  | woken => simp [step, ht] at h

/-- Only a thread that was woken returns from its wait. -/
lemma step_resume {t : T} {es : List (Event P T)} (h : step w (.resume t) = some (w', es)) :
    ∃ o timedout full own, w.thread t = .woken o timedout full own ∧
      w.resume t o timedout full own = (w', es) := by
  cases ht : w.thread t with
  | idle => simp [step, ht] at h
  | blocked => simp [step, ht] at h
  | woken o timedout full own =>
      simp only [step, ht] at h
      exact ⟨o, timedout, full, own, rfl, Option.some.inj h⟩

lemma change_of_step {l : Op P T} {es : List (Event P T)} (h : step w l = some (w', es)) :
    Change w l w' := by
  cases l with
  | register p mask env =>
      obtain ⟨w₁, hw₁, heq⟩ := Option.map_eq_some_iff.mp h
      obtain ⟨rfl, -⟩ := Prod.mk.inj heq
      exact .register (registered_of_eq hw₁)
  | release p =>
      obtain ⟨rfl, -⟩ := Prod.mk.inj (Option.some.inj h)
      exact .release
  | ack p x =>
      obtain ⟨rfl, -⟩ := Prod.mk.inj (Option.some.inj h)
      cases hs : sender p w with
      | none =>
          have hsame : mcdClientAckMsg p x w = w := by
            unfold mcdClientAckMsg
            rw [hs]
          rw [hsame]
          exact .ignored
      | some s => exact .ack hs (answered_ack hs x)
  | vote p r a =>
      have heq : (mcdClientVoteMsg p r a w).1 = w' := congrArg Prod.fst (Option.some.inj h)
      subst heq
      cases hs : sender p w with
      | none =>
          have hsame : mcdClientVoteMsg p r a w = (w, []) := by
            unfold mcdClientVoteMsg
            rw [hs]
          rw [hsame]
          exact .ignored
      | some s => exact .vote hs (answered_vote hs r a)
  | close =>
      obtain ⟨rfl, -⟩ := Prod.mk.inj (Option.some.inj h)
      exact .close
  | synchorWait t x =>
      obtain ⟨ht, heq⟩ := step_synchorWait h
      obtain rfl : (mcSynchorWait t x w).1 = w' := congrArg Prod.fst heq
      exact .synchorWait ht (entered_synchor t x)
  | refereeWait t r =>
      obtain ⟨ht, heq⟩ := step_refereeWait h
      obtain rfl : (mcRefereeWait t r w).1 = w' := congrArg Prod.fst heq
      exact .refereeWait ht (entered_referee t r)
  | timeout t =>
      obtain ⟨o, ht, -, rfl⟩ := step_timeout h
      exact .timeout ht
  | resume t =>
      obtain ⟨o, timedout, full, own, ht, heq⟩ := step_resume h
      obtain rfl : (w.resume t o timedout full own).1 = w' := congrArg Prod.fst heq
      exact .resume ht (resumed_of_eq t o timedout full own)

omit [DecidableEq P] [DecidableEq T] in
lemma Registry.of_frame (h : Registry w) (hf : Frame o w w')
    (hbits : ∀ i, w'.mc.own o i = true → w.mc.fullBitmap i = true) : Registry w' := by
  apply h.of_eq hf.cookie hf.full hf.stock
  intro o' i hi
  by_cases ho : o' = o
  · subst ho
    exact hbits i hi
  · rw [hf.own o' ho] at hi
    exact h.own o' i hi

omit [DecidableEq P] [DecidableEq T] in
lemma Registry.of_answered (h : Registry w) {p : P} {s : McSubscriber} (hs : sender p w = some s)
    (ha : Answered o s.index w w') : Registry w' := by
  apply h.of_frame ha.toFrame
  intro i hi
  rw [ha.bits, setBit_apply] at hi
  split_ifs at hi with he
  · subst he
    exact h.full p s (sender_eq hs).1 (sender_eq hs).2
  · exact h.own o i hi

omit [DecidableEq P] in
lemma Registry.of_entered (h : Registry w) (he : Entered t o w w') : Registry w' := by
  apply h.of_frame he.toFrame
  intro i hi
  rw [he.bits] at hi
  split_ifs at hi
  · exact h.own o i hi
  · cases hi

/-- **Every step keeps the registry.** -/
lemma Registry.step {l : Op P T} (h : Registry w) (hc : Change w l w') : Registry w' := by
  cases hc with
  | register hr => exact h.registered hr
  | release => exact h.released
  | ignored => exact h
  | ack hs ha => exact h.of_answered hs ha
  | vote hs ha => exact h.of_answered hs ha
  | close =>
      refine h.of_eq rfl rfl rfl fun o i hi => h.own o i ?_
      cases o <;> exact hi
  | synchorWait _ he => exact h.of_entered he
  | refereeWait _ he => exact h.of_entered he
  | timeout => exact h.of_eq rfl rfl rfl h.own
  | @resume t o _ _ _ _ _ hr =>
      refine h.of_frame hr.toFrame fun i hi => h.own o i ?_
      rwa [← hr.bits]

end Steps

end LinuxC.Mcd
