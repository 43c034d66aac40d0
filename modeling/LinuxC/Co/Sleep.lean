import LinuxC.Co.SleepTree

/-!
# How long `co_sleep` sleeps

The expiry times are the keys of the sleep tree.  `co_sleep` sets the time and calls `rb_insert`
until that accepts the node, one microsecond later each time.  The purpose is to get past equal
times, but `expt_compare` calls every time equal that is not later: the node is only accepted behind
all nodes of the tree, and a short sleep takes as long as the longest one (`co_sleep_in_time_iff`).
-/

namespace LinuxC.Co

open Rb

variable {C : Type} [DecidableEq C]

/-! ## The loop -/

/-- The retry loop of `co_sleep`, for at most so many calls of `rb_insert`. -/
def sleepLoop (c : C) : ℕ → Scheduler C → Option (Scheduler C)
  | 0, _ => none
  | turns + 1, s => do
      let s ← tryInsert c .sleeping s
      if s.phase = .switched then pure s else sleepLoop c turns s

/-- `co_sleep` up to its switch, with the reading of the clock. -/
def sleepCall (c : C) (usec now : ℤ) (turns : ℕ) (s : Scheduler C) : Option (Scheduler C) :=
  let s := coSleep c usec now s
  if s.phase = .switched then some s else sleepLoop c turns s

/-! ## The property -/

/-- The time is one of an `int64_t`. -/
def InRange (x : ℤ) : Prop := -2 ^ 63 ≤ x ∧ x < 2 ^ 63

/-- **`co_sleep` sleeps for the time asked.**  The loop ends, and the coroutine is in the tree with a
time that is late by no more than one microsecond for each other node. -/
def SleepsInTime (c : C) (usec now : ℤ) (s : Scheduler C) : Prop :=
  ∃ turns s', sleepCall c usec now turns s = some s' ∧ InTree s'.sleepTree c ∧
    now + usec ≤ s'.sleepExpiredTime c ∧
    s'.sleepExpiredTime c ≤ now + usec + s.sleepTree.rbCount ∧
    ∀ d, d ≠ c → s'.sleepExpiredTime d = s.sleepExpiredTime d

lemma int64_range (x : ℤ) : InRange (int64 x) := by
  have hlow := Int.le_bmod (x := x) (m := 2 ^ 64) (by decide)
  have hhigh := Int.bmod_lt (x := x) (m := 2 ^ 64) (by decide)
  unfold InRange int64
  omega

lemma int64_of_range {x : ℤ} (h : InRange x) : int64 x = x := by
  obtain ⟨hlow, hhigh⟩ := h
  exact Int.bmod_eq_of_le (by omega) (by omega)

/-! ## One call of `rb_insert` -/

section Insert

variable {s s' : Scheduler C} {xs : List C} {c : C}

/-- The times of the nodes in the tree do not depend on that of `c`. -/
lemma isSet_update (h : IsSet (timeOrder s.sleepExpiredTime) s.sleepTree xs) (hc : c ∉ xs)
    (e : ℤ) :
    IsSet (timeOrder (Function.update s.sleepExpiredTime c e)) s.sleepTree xs :=
  isSet_congr h fun _ hm => Function.update_of_ne (ne_of_mem_of_not_mem hm hc) ..

/-- **The node is accepted** behind all others. -/
lemma tryInsert_last (h : IsSet (timeOrder s.sleepExpiredTime) s.sleepTree xs)
    (hlate : ∀ m ∈ xs, s.sleepExpiredTime m < s.sleepExpiredTime c) :
    ∃ s', tryInsert c .sleeping s = some s' ∧ s'.phase = .switched ∧ InTree s'.sleepTree c ∧
      s'.sleepExpiredTime = s.sleepExpiredTime := by
  obtain ⟨t, heval, hset⟩ := insert_last h hlate (Nat.lt_succ_self _)
  refine ⟨{ coTransfer c .sleeping { s with sleepTree := t } with phase := .switched }, ?_, rfl,
    hset.mem_members.mpr (by simp), rfl⟩
  have hinsert : rbInsert (exptCompare s.sleepExpiredTime) (fuelOf s.sleepTree) c s.sleepTree =
    some (t, c) := heval
  simp only [tryInsert, hinsert]
  exact if_pos rfl

/-- The state for the next turn. -/
def bumped (c : C) (s : Scheduler C) : Scheduler C :=
  { s with
    sleepExpiredTime :=
      Function.update s.sleepExpiredTime c (int64 (s.sleepExpiredTime c + 1)) }

/-- **The node is not accepted** while another one expires no earlier. -/
lemma tryInsert_early (h : IsSet (timeOrder s.sleepExpiredTime) s.sleepTree xs) (hc : c ∉ xs)
    (hearly : ∃ m ∈ xs, s.sleepExpiredTime c ≤ s.sleepExpiredTime m) :
    tryInsert c .sleeping s = some (bumped c s) := by
  obtain ⟨m, hm, hle⟩ := hearly
  obtain ⟨cur, hcur, heval⟩ := insert_early h hm hle (Nat.lt_succ_self _)
  have hinsert : rbInsert (exptCompare s.sleepExpiredTime) (fuelOf s.sleepTree) c s.sleepTree =
    some (s.sleepTree, cur) := heval
  simp only [tryInsert, hinsert]
  exact if_neg (ne_of_mem_of_not_mem hcur hc)

lemma sleepLoop_early (h : IsSet (timeOrder s.sleepExpiredTime) s.sleepTree xs) (hc : c ∉ xs)
    (hearly : ∃ m ∈ xs, s.sleepExpiredTime c ≤ s.sleepExpiredTime m) (hphase : s.phase ≠ .switched)
    (turns : ℕ) : sleepLoop c (turns + 1) s = sleepLoop c turns (bumped c s) := by
  rw [sleepLoop, tryInsert_early h hc hearly]
  exact if_neg hphase

end Insert

/-! ## The whole loop -/

section Loop

variable {s s' : Scheduler C} {xs : List C} {c : C} {turns : ℕ}

/-- **What the loop returns**: the node is behind all others. -/
lemma sleepLoop_ret (h : IsSet (timeOrder s.sleepExpiredTime) s.sleepTree xs) (hc : c ∉ xs)
    (hphase : s.phase ≠ .switched) (hrange : InRange (s.sleepExpiredTime c))
    (hret : sleepLoop c turns s = some s') :
    InRange (s'.sleepExpiredTime c) ∧
      ∀ m ∈ xs, s.sleepExpiredTime m < s'.sleepExpiredTime c := by
  induction turns generalizing s with
  | zero => cases hret
  | succ turns ih =>
      by_cases hlate : ∀ m ∈ xs, s.sleepExpiredTime m < s.sleepExpiredTime c
      · obtain ⟨s₁, htry, hswitched, -, htime⟩ := tryInsert_last h hlate
        rw [sleepLoop, htry] at hret
        change (if s₁.phase = .switched then some s₁ else _) = _ at hret
        rw [if_pos hswitched] at hret
        obtain rfl := Option.some.inj hret
        rw [htime]
        exact ⟨hrange, hlate⟩
      · push Not at hlate
        rw [sleepLoop_early h hc hlate hphase] at hret
        have hnext : (bumped c s).sleepExpiredTime c = int64 (s.sleepExpiredTime c + 1) :=
          Function.update_self ..
        obtain ⟨hrange', hlast⟩ := ih (s := bumped c s) (isSet_update h hc _) hphase
          (hnext ▸ int64_range _) hret
        refine ⟨hrange', fun m hm => ?_⟩
        have hsame : (bumped c s).sleepExpiredTime m = s.sleepExpiredTime m :=
          Function.update_of_ne (ne_of_mem_of_not_mem hm hc) ..
        exact hsame ▸ hlast m hm

/-- **The loop ends** when no time in the tree is the last one of an `int64_t`.  The time of the node
is as it was, or just behind that of another node. -/
lemma sleepLoop_ends (h : IsSet (timeOrder s.sleepExpiredTime) s.sleepTree xs) (hc : c ∉ xs)
    (hphase : s.phase ≠ .switched) (hrange : InRange (s.sleepExpiredTime c))
    (hroom : ∀ m ∈ xs, s.sleepExpiredTime m < 2 ^ 63 - 1)
    (hturns : ∀ m ∈ xs, s.sleepExpiredTime m < s.sleepExpiredTime c + turns) :
    ∃ s', sleepLoop c (turns + 1) s = some s' ∧ InTree s'.sleepTree c ∧
      s.sleepExpiredTime c ≤ s'.sleepExpiredTime c ∧
      (s'.sleepExpiredTime c = s.sleepExpiredTime c ∨
        ∃ m ∈ xs, s'.sleepExpiredTime c ≤ s.sleepExpiredTime m + 1) ∧
      ∀ d, d ≠ c → s'.sleepExpiredTime d = s.sleepExpiredTime d := by
  induction turns generalizing s with
  | zero =>
      have hlate : ∀ m ∈ xs, s.sleepExpiredTime m < s.sleepExpiredTime c := by simpa using hturns
      obtain ⟨s₁, htry, hswitched, hmem, htime⟩ := tryInsert_last h hlate
      refine ⟨s₁, ?_, hmem, htime ▸ le_rfl, .inl (by rw [htime]), fun d _ => by rw [htime]⟩
      rw [sleepLoop, htry]
      exact if_pos hswitched
  | succ turns ih =>
      by_cases hlate : ∀ m ∈ xs, s.sleepExpiredTime m < s.sleepExpiredTime c
      · obtain ⟨s₁, htry, hswitched, hmem, htime⟩ := tryInsert_last h hlate
        refine ⟨s₁, ?_, hmem, htime ▸ le_rfl, .inl (by rw [htime]), fun d _ => by rw [htime]⟩
        rw [sleepLoop, htry]
        exact if_pos hswitched
      · push Not at hlate
        obtain ⟨m₀, hm₀, hle⟩ := hlate
        have hless := hroom m₀ hm₀
        have hnext : (bumped c s).sleepExpiredTime c = s.sleepExpiredTime c + 1 := by
          refine (Function.update_self ..).trans (int64_of_range ⟨?_, ?_⟩)
          · have hlow := hrange.1
            omega
          · omega
        have hsame : ∀ m, m ≠ c → (bumped c s).sleepExpiredTime m = s.sleepExpiredTime m :=
          fun m hm => Function.update_of_ne hm ..
        have hmem : ∀ m ∈ xs, m ≠ c := fun m hm => ne_of_mem_of_not_mem hm hc
        have hlow := hrange.1
        obtain ⟨s', hret, htree, hge, hlast, hother⟩ := ih (s := bumped c s)
          (isSet_update h hc _) hphase (by rw [hnext]; exact ⟨by omega, by omega⟩)
          (fun m hm => by rw [hsame m (hmem m hm)]; exact hroom m hm)
          (fun m hm => by
            rw [hsame m (hmem m hm), hnext]
            have hlt := hturns m hm
            push_cast at hlt
            omega)
        rw [hnext] at hge hlast
        refine ⟨s', ?_, htree, by omega, .inr ?_, fun d hd => (hother d hd).trans (hsame d hd)⟩
        · rw [sleepLoop_early h hc ⟨m₀, hm₀, hle⟩ hphase]
          exact hret
        · rcases hlast with hlast | ⟨m, hm, hlast⟩
          · exact ⟨m₀, hm₀, by omega⟩
          · rw [hsame m (hmem m hm)] at hlast
            exact ⟨m, hm, hlast⟩

end Loop

/-! ## The result -/

section Result

variable {s : Scheduler C} {xs : List C} {c : C} {usec now : ℤ}

/-- The state before the first turn. -/
def begun (c : C) (usec now : ℤ) (s : Scheduler C) : Scheduler C :=
  { s with
    sleepExpiredTime := Function.update s.sleepExpiredTime c (int64 (now + usec))
    phase := .inserting c .sleeping }

lemma sleepCall_eq (husec : 0 < usec) (turns : ℕ) :
    sleepCall c usec now turns s = sleepLoop c turns (begun c usec now s) := by
  have hsame : coSleep c usec now s = begun c usec now s := if_pos husec
  rw [sleepCall, hsame]
  exact if_neg (by simp [begun])

/-- **When `co_sleep` sleeps for the time asked.**  With a tree of any coroutines: exactly if all of
them expire less than one microsecond for each of them behind the time asked, and nothing leaves the
`int64_t`. -/
theorem co_sleep_in_time_iff (h : IsSet (timeOrder s.sleepExpiredTime) s.sleepTree xs) (hc : c ∉ xs)
    (hnow : InRange now) (husec : 0 < usec) :
    SleepsInTime c usec now s ↔ now + usec < 2 ^ 63 ∧
      ∀ m ∈ xs, s.sleepExpiredTime m < now + usec + xs.length ∧
        s.sleepExpiredTime m < 2 ^ 63 - 1 := by
  have hset : IsSet (timeOrder (begun c usec now s).sleepExpiredTime) s.sleepTree xs :=
    isSet_update h hc _
  have hfirst : (begun c usec now s).sleepExpiredTime c = int64 (now + usec) :=
    Function.update_self ..
  have hsame : ∀ m, m ≠ c → (begun c usec now s).sleepExpiredTime m = s.sleepExpiredTime m :=
    fun m hm => Function.update_of_ne hm ..
  have hmem : ∀ m ∈ xs, m ≠ c := fun m hm => ne_of_mem_of_not_mem hm hc
  have hphase : (begun c usec now s).phase ≠ .switched := by simp [begun]
  have hrange : InRange ((begun c usec now s).sleepExpiredTime c) := hfirst ▸ int64_range _
  unfold SleepsInTime
  rw [h.count]
  constructor
  · rintro ⟨turns, s', hret, -, hge, hle, -⟩
    rw [sleepCall_eq husec] at hret
    obtain ⟨⟨-, hhigh⟩, hlast⟩ := sleepLoop_ret hset hc hphase hrange hret
    refine ⟨by omega, fun m hm => ?_⟩
    have hlt := hlast m hm
    rw [hsame m (hmem m hm)] at hlt
    omega
  · rintro ⟨hsum, hroom⟩
    have htime : int64 (now + usec) = now + usec :=
      int64_of_range ⟨by have hlow := hnow.1; omega, hsum⟩
    rw [htime] at hfirst
    -- as many turns as the latest node asks for
    obtain ⟨turns, hturns⟩ : ∃ turns : ℕ, ∀ m ∈ xs, (begun c usec now s).sleepExpiredTime m <
        (begun c usec now s).sleepExpiredTime c + turns := by
      refine ⟨xs.length, fun m hm => ?_⟩
      rw [hsame m (hmem m hm), hfirst]
      exact (hroom m hm).1
    obtain ⟨s', hret, htree, hge, hlast, hother⟩ := sleepLoop_ends hset hc hphase hrange
      (fun m hm => by rw [hsame m (hmem m hm)]; exact (hroom m hm).2) hturns
    rw [hfirst] at hge hlast
    refine ⟨turns + 1, s', (sleepCall_eq husec _).trans hret, htree, hge, ?_,
      fun d hd => (hother d hd).trans (hsame d hd)⟩
    rcases hlast with hlast | ⟨m, hm, hlast⟩
    · omega
    · have hless := (hroom m hm).1
      rw [hsame m (hmem m hm)] at hlast
      omega

end Result

/-- The coroutine `true` sleeps up to the time 100, and `false` runs. -/
def oneSleeper : Scheduler Bool where
  live _ := true
  state c := if c then .sleeping else .running
  sleepExpiredTime c := if c then 100 else 0
  list := ⟨id, id⟩
  sleepTree := ⟨some true, fun _ => ⟨none, none, none, .black⟩, 1⟩
  runningco := some false
  watched _ := false
  phase := .running false

lemma isSet_oneSleeper :
    IsSet (timeOrder oneSleeper.sleepExpiredTime) oneSleeper.sleepTree [true] := by
  refine ⟨⟨.node .black .nil true .nil, 1, ⟨rfl, ?_, ?_⟩, ?_, rfl, rfl⟩, ?_, rfl⟩
  · exact ⟨rfl, trivial, trivial⟩
  · simp
  · simp [RB]
  · exact List.pairwise_singleton _ _

/-- A sleep of 100 microseconds is late by one. -/
theorem co_sleep_in_time_iff_sample : SleepsInTime false 100 0 oneSleeper :=
  (co_sleep_in_time_iff isSet_oneSleeper (by decide) (by unfold InRange; decide)
    (by decide)).mpr (by decide)

/-- **A short sleep takes as long as the longest one.**  A sleep of one microsecond, while another
coroutine sleeps for 100, ends behind that one. -/
theorem short_sleep_late :
    ((sleepCall false 1 0 101 oneSleeper).map fun s => s.sleepExpiredTime false) = some 101 ∧
      ¬ SleepsInTime false 1 0 oneSleeper := by
  refine ⟨by decide +kernel, ?_⟩
  rintro ⟨turns, s', hret, -, -, hle, -⟩
  rw [sleepCall_eq (by decide)] at hret
  have hset : IsSet (timeOrder (begun false 1 0 oneSleeper).sleepExpiredTime)
      oneSleeper.sleepTree [true] := isSet_update isSet_oneSleeper (by decide) _
  obtain ⟨-, hlast⟩ := sleepLoop_ret hset (by decide) (by simp [begun])
    (by unfold InRange; decide) hret
  have hlt : 100 < s'.sleepExpiredTime false := hlast true (List.mem_singleton_self _)
  have hcount : (oneSleeper.sleepTree.rbCount : ℤ) = 1 := rfl
  omega

end LinuxC.Co
