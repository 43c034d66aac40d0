import LinuxC.Co.Sleepers
import LinuxC.Co.Sleep

/-!
# The loop of `expire`

`expire` walks through the sleep tree with `rb_next` and removes nodes on the way, and reads the
clock anew for each of them.  While the nodes have expired at the first reading, the loop stands on
the first node of the tree, and `rb_next` of that node leads to the new first one after its removal
too (`IsSet.next_first_removed`).  Later the clock may have moved on; the loop then removes a node
that is not the first one, and `rb_next` may lead back.  It comes to an end all the same: a turn
makes the tree smaller or goes on towards its end (`expire_wakes`).
-/

namespace LinuxC.Co

open Rb

variable {C : Type} [DecidableEq C]

/-! ## The loop -/

/-- The loop of `expire` from the node `n` on, for at most so many turns; `clock k` is the reading in
the turn `k`.  The coroutines that are woken are listed with the readings. -/
def expireFrom (clock : ℕ → ℤ) : ℕ → ℕ → Option C → Scheduler C →
    Option (List (C × ℤ) × Scheduler C)
  | _, _, none, s => some ([], s)
  | 0, _, some _, _ => none
  | turns + 1, k, some n, s => do
      let s' ← expireNode n (clock k) s
      match s'.phase with
      | .expiring next => do
          let (woken, s'') ← expireFrom clock turns (k + 1) next s'
          if int64 (s.sleepExpiredTime n - clock k) ≤ 0 then pure ((n, clock k) :: woken, s'')
          else pure (woken, s'')
      | _ => none

def expire (clock : ℕ → ℤ) (turns : ℕ) (s : Scheduler C) : Option (List (C × ℤ) × Scheduler C) := do
  let n ← rbFirst (fuelOf s.sleepTree) s.sleepTree
  expireFrom clock turns 0 n s

/-! ## One turn -/

/-- The queues are `q`, and the sleep tree has the coroutines `xs`, which are alive. -/
structure Asleep (s : Scheduler C) (q : Queue → List C) (xs : List C) : Prop where
  queues : Queues s.list s.live s.state q
  tree : IsSet (timeOrder s.sleepExpiredTime) s.sleepTree xs
  live : ∀ c ∈ xs, s.live c

omit [DecidableEq C] in
lemma Keeps.asleep {s : Scheduler C} {q : Queue → List C} {xs : List C} (h : Keeps s q xs) :
    Asleep s q xs where
  queues := h.queues
  tree := h.tree
  live c hc := ((h.places.timed c).mp hc).1

/-- The differences of the times of the coroutines and the readings of the clock are values of an
`int64_t`, as those of times and readings that are not negative are. -/
def Measured (clock : ℕ → ℤ) (time : C → ℤ) (xs : List C) : Prop :=
  ∀ c ∈ xs, ∀ k, InRange (time c - clock k)

section Turn

variable {s s' : Scheduler C} {q : Queue → List C} {xs ys zs : List C} {n : C} {now : ℤ}
  {clock : ℕ → ℤ} {time : C → ℤ} {k : ℕ}

omit [DecidableEq C] in
/-- The test of the loop is then that of the times. -/
lemma Measured.due_iff (h : Measured clock time xs) (hn : n ∈ xs) :
    int64 (time n - clock k) ≤ 0 ↔ time n ≤ clock k := by
  rw [int64_of_range (h n hn k)]
  omega

lemma Measured.erase (h : Measured clock time xs) : Measured clock time (xs.erase n) :=
  fun c hc => h c (List.mem_of_mem_erase hc)

/-- **A node that has expired** is removed, and its coroutine is the last one of the ready queue. -/
lemma Asleep.wake (h : Asleep s q xs) (hn : n ∈ xs) (hdue : int64 (s.sleepExpiredTime n - now) ≤ 0) :
    ∃ next s', expireNode n now s = some s' ∧ s'.phase = .expiring next ∧
      s'.sleepExpiredTime = s.sleepExpiredTime ∧ Asleep s' (moved q n .ready) (xs.erase n) ∧
      (∀ m, next = some m → m ∈ xs.erase n) ∧ (∀ zs, xs = n :: zs → next = zs.head?) := by
  have hfuel : s.sleepTree.rbCount < fuelOf s.sleepTree := Nat.lt_succ_self _
  obtain ⟨t, hremove, ht⟩ := h.tree.removed hn hfuel
  have hxs : ∀ m, m ∈ xs.erase n ↔ m ∈ xs ∧ m ≠ n := by
    intro m
    rw [h.tree.nodup.mem_erase_iff, and_comm]
  obtain ⟨r, hnext, hr⟩ := h.tree.next_removed hn hfuel hremove ht hxs
  refine ⟨r, { coTransfer n .ready { s with sleepTree := t } with phase := .expiring r }, ?_, rfl,
    rfl, ⟨h.queues.transfer (h.live n hn) .ready, ht, fun c hc => ?_⟩, hr, fun zs hzs => ?_⟩
  · simp [expireNode, hdue, hremove, hnext, coTransfer]
  · exact h.live c ((hxs c).mp hc).1
  · subst hzs
    rw [List.erase_cons_head] at ht
    exact Option.some.inj (hnext.symm.trans (h.tree.next_first_removed hfuel hremove ht))

/-- **A node that has not expired** is left behind. -/
lemma Asleep.pass (h : Asleep s q (ys ++ n :: zs))
    (hdue : ¬ int64 (s.sleepExpiredTime n - now) ≤ 0) :
    expireNode n now s = some { s with phase := .expiring zs.head? } := by
  have hnext : rbNext (fuelOf s.sleepTree) n s.sleepTree = some zs.head? :=
    h.tree.next (Nat.lt_succ_self s.sleepTree.rbCount)
  simp [expireNode, hdue, hnext]

end Turn

/-! ## The whole loop -/

/-- **What the loop does** with a tree of the coroutines `xs`: those in `woken` are removed, each of
them once and not before its time, and stand at the end of the ready queue in that order. -/
structure Wakes (clock : ℕ → ℤ) (s : Scheduler C) (q : Queue → List C) (xs : List C)
    (woken : List (C × ℤ)) (s' : Scheduler C) : Prop where
  nodup : (woken.map Prod.fst).Nodup
  mem : ∀ w ∈ woken, w.1 ∈ xs
  due : ∀ w ∈ woken, s.sleepExpiredTime w.1 ≤ w.2 ∧ ∃ k, w.2 = clock k
  times : s'.sleepExpiredTime = s.sleepExpiredTime
  rest : ∃ q', Asleep s' q' (xs.filter fun c => c ∉ woken.map Prod.fst) ∧
    q' .readyq = (q .readyq).filter (fun c => c ∉ woken.map Prod.fst) ++ woken.map Prod.fst

section Loop

variable {clock : ℕ → ℤ} {s s' s'' : Scheduler C} {q : Queue → List C} {xs : List C} {n : C}
  {woken : List (C × ℤ)} {k : ℕ}

lemma Asleep.done (h : Asleep s q xs) : Wakes clock s q xs [] s where
  nodup := List.nodup_nil
  mem := by simp
  due := by simp
  times := rfl
  rest := ⟨q, by simpa using h, by simp⟩

/-- What is left when `n` and the coroutines `woken` are gone. -/
lemma filter_woken (now : ℤ) (woken : List (C × ℤ)) (ys : List C) :
    (ys.filter (· != n)).filter (fun c => c ∉ woken.map Prod.fst) =
      ys.filter (fun c => c ∉ ((n, now) :: woken).map Prod.fst) := by
  rw [List.filter_filter]
  apply List.filter_congr
  intro c _
  simp only [List.map_cons, List.mem_cons, not_or, Bool.decide_and]
  by_cases hc : c = n
  · simp [hc]
  · simp [hc]

/-- A turn that wakes a coroutine, and the turns behind it. -/
lemma Wakes.cons (h : Asleep s q xs) (hn : n ∈ xs) (hdue : s.sleepExpiredTime n ≤ clock k)
    (htimes : s'.sleepExpiredTime = s.sleepExpiredTime)
    (hrest : Wakes clock s' (moved q n .ready) (xs.erase n) woken s'') :
    Wakes clock s q xs ((n, clock k) :: woken) s'' := by
  have hmem : ∀ w ∈ woken, w.1 ∈ xs ∧ w.1 ≠ n := by
    intro w hw
    have hin := hrest.mem w hw
    rw [h.tree.nodup.mem_erase_iff] at hin
    exact ⟨hin.2, hin.1⟩
  have hnot : n ∉ woken.map Prod.fst := by
    rintro hin
    obtain ⟨w, hw, rfl⟩ := List.mem_map.mp hin
    exact (hmem w hw).2 rfl
  obtain ⟨q', hasleep, hready⟩ := hrest.rest
  refine ⟨List.nodup_cons.mpr ⟨hnot, hrest.nodup⟩, fun w hw => ?_, fun w hw => ?_,
    hrest.times.trans htimes, q', ?_, ?_⟩
  · rcases List.mem_cons.mp hw with rfl | hw
    · exact hn
    · exact (hmem w hw).1
  · rcases List.mem_cons.mp hw with rfl | hw
    · exact ⟨hdue, k, rfl⟩
    · rw [← htimes]
      exact hrest.due w hw
  · rwa [h.tree.nodup.erase_eq_filter, filter_woken] at hasleep
  · have hfirst : moved q n .ready .readyq = (q .readyq).filter (· != n) ++ [n] := by
      have hqueue : queueOf .ready = some .readyq := rfl
      rw [moved, if_pos hqueue, (h.queues.nodup .readyq).erase_eq_filter]
    have hlast : [n].filter (fun c => c ∉ woken.map Prod.fst) = [n] :=
      List.filter_eq_self.mpr fun c hc => by simpa [List.mem_singleton.mp hc] using hnot
    rw [hready, hfirst, List.filter_append, filter_woken, hlast, List.append_assoc]
    rfl

/-- The first turn of the loop, when it wakes its coroutine. -/
lemma expireFrom_wake {turns : ℕ} {next : Option C} (hnode : expireNode n (clock k) s = some s')
    (hphase : s'.phase = .expiring next) (hdue : int64 (s.sleepExpiredTime n - clock k) ≤ 0)
    (hrest : expireFrom clock turns (k + 1) next s' = some (woken, s'')) :
    expireFrom clock (turns + 1) k (some n) s = some ((n, clock k) :: woken, s'') := by
  simp [expireFrom, hnode, hphase, hrest, hdue]

lemma expireFrom_pass {turns : ℕ} {next : Option C} (hnode : expireNode n (clock k) s = some s')
    (hphase : s'.phase = .expiring next) (hdue : ¬ int64 (s.sleepExpiredTime n - clock k) ≤ 0)
    (hrest : expireFrom clock turns (k + 1) next s' = some (woken, s'')) :
    expireFrom clock (turns + 1) k (some n) s = some (woken, s'') := by
  simp [expireFrom, hnode, hphase, hrest, hdue]

omit [DecidableEq C] in
lemma Asleep.goTo (h : Asleep s q xs) (p : Phase C) : Asleep { s with phase := p } q xs :=
  ⟨h.queues, h.tree, h.live⟩

lemma Wakes.of_goTo {p : Phase C} (h : Wakes clock { s with phase := p } q xs woken s') :
    Wakes clock s q xs woken s' := ⟨h.nodup, h.mem, h.due, h.times, h.rest⟩

/-- **The loop comes to an end** from every node of the tree.  A turn makes the tree smaller, or goes
on to the next node. -/
lemma Asleep.walk (h : Asleep s q xs) (hclock : Measured clock s.sleepExpiredTime xs) (k : ℕ)
    {next : Option C} (hnext : ∀ m, next = some m → m ∈ xs) :
    ∃ turns woken s', expireFrom clock turns k next s = some (woken, s') ∧
      Wakes clock s q xs woken s' := by
  induction hlen : xs.length using Nat.strong_induction_on generalizing s q xs next k with
  | _ size ih =>
      have hwake : ∀ {s xs n k}, Asleep s q xs → Measured clock s.sleepExpiredTime xs → n ∈ xs →
          xs.length = size → int64 (s.sleepExpiredTime n - clock k) ≤ 0 →
          ∃ turns woken s', expireFrom clock turns k (some n) s = some (woken, s') ∧
            Wakes clock s q xs woken s' := by
        intro s xs n k h hclock hn hsize hdue
        obtain ⟨r, s', hnode, hphase, htimes, hasleep, hr, -⟩ := h.wake hn hdue
        have hless : (xs.erase n).length < size := by
          have hpos := List.length_pos_of_mem hn
          rw [List.length_erase_of_mem hn]
          omega
        have hclock' : Measured clock s'.sleepExpiredTime (xs.erase n) := htimes ▸ hclock.erase
        obtain ⟨turns, woken, s'', hrest, hwakes⟩ := ih _ hless hasleep hclock' (k + 1) hr rfl
        exact ⟨turns + 1, _, s'', expireFrom_wake hnode hphase hdue hrest,
          Wakes.cons h hn ((hclock.due_iff hn).mp hdue) htimes hwakes⟩
      -- from a node, by induction on the nodes behind it
      have hfrom : ∀ zs {ys n s k}, Asleep s q (ys ++ n :: zs) →
          Measured clock s.sleepExpiredTime (ys ++ n :: zs) → (ys ++ n :: zs).length = size →
          ∃ turns woken s', expireFrom clock turns k (some n) s = some (woken, s') ∧
            Wakes clock s q (ys ++ n :: zs) woken s' := by
        intro zs
        induction zs with
        | nil =>
            intro ys n s k h hclock hsize
            by_cases hdue : int64 (s.sleepExpiredTime n - clock k) ≤ 0
            · exact hwake h hclock (by simp) hsize hdue
            · have hrest : expireFrom clock 0 (k + 1) none { s with phase := .expiring none } =
                some ([], { s with phase := .expiring none }) := by simp [expireFrom]
              exact ⟨1, [], _, expireFrom_pass (h.pass hdue) rfl hdue hrest, (h.goTo _).done.of_goTo⟩
        | cons m zs ihz =>
            intro ys n s k h hclock hsize
            by_cases hdue : int64 (s.sleepExpiredTime n - clock k) ≤ 0
            · exact hwake h hclock (by simp) hsize hdue
            · have hsplit : ys ++ n :: m :: zs = (ys ++ [n]) ++ m :: zs := by simp
              rw [hsplit] at hclock hsize
              have hnext :
                  Asleep { s with phase := .expiring (some m) } q ((ys ++ [n]) ++ m :: zs) :=
                hsplit ▸ h.goTo _
              obtain ⟨turns, woken, s', hrest, hwakes⟩ := ihz (k := k + 1) hnext hclock hsize
              rw [← hsplit] at hwakes
              exact ⟨turns + 1, woken, s', expireFrom_pass (h.pass hdue) rfl hdue hrest,
                hwakes.of_goTo⟩
      cases next with
      | none => exact ⟨0, [], s, by simp [expireFrom], h.done⟩
      | some n =>
          obtain ⟨ys, zs, rfl⟩ := List.append_of_mem (hnext n rfl)
          exact hfrom zs h hclock hlen

/-- **The nodes that have expired** are woken first, in the order of the tree: each of them is the
first node when its turn comes. -/
lemma Asleep.sweep {due late : List C} (h : Asleep s q (due ++ late)) (hmono : Monotone clock)
    (hclock : Measured clock s.sleepExpiredTime (due ++ late))
    (hdue : ∀ c ∈ due, s.sleepExpiredTime c ≤ clock k) :
    ∃ turns woken s', expireFrom clock turns k (due ++ late).head? s = some (woken, s') ∧
      Wakes clock s q (due ++ late) woken s' ∧ due <+: woken.map Prod.fst := by
  induction due generalizing s q k with
  | nil =>
      obtain ⟨turns, woken, s', hret, hwakes⟩ := h.walk hclock k fun m hm => List.mem_of_head? hm
      exact ⟨turns, woken, s', hret, hwakes, List.nil_prefix⟩
  | cons n due ih =>
      have hn : n ∈ n :: (due ++ late) := List.mem_cons_self ..
      have hle := hdue n (List.mem_cons_self ..)
      have hfirst := (hclock.due_iff (k := k) hn).mpr hle
      obtain ⟨r, s', hnode, hphase, htimes, hasleep, -, hr⟩ := h.wake hn hfirst
      obtain rfl := hr _ rfl
      rw [List.cons_append, List.erase_cons_head] at hasleep
      have hclock' : Measured clock s'.sleepExpiredTime (due ++ late) :=
        htimes ▸ fun c hc => hclock c (List.mem_cons_of_mem _ hc)
      have hlater : ∀ c ∈ due, s'.sleepExpiredTime c ≤ clock (k + 1) := fun c hc => by
        rw [htimes]
        exact (hdue c (List.mem_cons_of_mem _ hc)).trans (hmono (Nat.le_succ k))
      obtain ⟨turns, woken, s'', hrest, hwakes, hprefix⟩ := ih hasleep hclock' hlater
      refine ⟨turns + 1, (n, clock k) :: woken, s'',
        expireFrom_wake hnode hphase hfirst hrest, Wakes.cons h hn hle htimes ?_,
        List.prefix_cons_inj n |>.mpr hprefix⟩
      rw [List.cons_append, List.erase_cons_head]
      exact hwakes

end Loop

/-! ## The result -/

section Result

variable {s : Scheduler C} {q : Queue → List C} {xs : List C} {clock : ℕ → ℤ}

omit [DecidableEq C] in
/-- In the order of the times, those up to `now` come first. -/
lemma sorted_split {time : C → ℤ} (h : Sorted (timeOrder time) xs) (now : ℤ) :
    xs = xs.filter (fun c => time c ≤ now) ++ xs.filter (fun c => ¬ time c ≤ now) := by
  induction xs with
  | nil => rfl
  | cons n xs ih =>
      obtain ⟨hn, hxs⟩ := List.pairwise_cons.mp h
      by_cases hle : time n ≤ now
      · rw [List.filter_cons_of_pos (by simpa using hle),
          List.filter_cons_of_neg (by simpa using hle), List.cons_append, ← ih hxs]
      · have hlate : ∀ c ∈ n :: xs, ¬ time c ≤ now := by
          intro c hc
          rcases List.mem_cons.mp hc with rfl | hc
          · exact hle
          · have hlt := hn c hc
            unfold timeOrder at hlt
            omega
        have hnone : (n :: xs).filter (fun c => time c ≤ now) = [] :=
          List.filter_eq_nil_iff.mpr fun c hc => by simpa using hlate c hc
        have hall : (n :: xs).filter (fun c => ¬ time c ≤ now) = n :: xs :=
          List.filter_eq_self.mpr fun c hc => by simpa using hlate c hc
        rw [hnone, hall, List.nil_append]

end Result

/-- **`expire`.**  With clock readings that do not go back, the loop ends; every coroutine that has
expired at the first reading is woken, in the order of the times, and what is woken is described by
`Wakes`. -/
theorem expire_wakes {s : Scheduler C} {q : Queue → List C} {xs : List C} {clock : ℕ → ℤ}
    (h : Asleep s q xs) (hmono : Monotone clock) (hclock : Measured clock s.sleepExpiredTime xs) :
    ∃ turns woken s', expire clock turns s = some (woken, s') ∧ Wakes clock s q xs woken s' ∧
      xs.filter (fun c => s.sleepExpiredTime c ≤ clock 0) <+: woken.map Prod.fst := by
  have hsplit := sorted_split h.tree.sorted (clock 0)
  have h' := h
  have hclock' := hclock
  rw [hsplit] at h' hclock'
  obtain ⟨turns, woken, s', hret, hwakes, hprefix⟩ :=
    h'.sweep (k := 0) hmono hclock' fun c hc => by simpa using (List.mem_filter.mp hc).2
  rw [← hsplit] at hret hwakes
  refine ⟨turns, woken, s', ?_, hwakes, hprefix⟩
  have hfirst : rbFirst (fuelOf s.sleepTree) s.sleepTree = some xs.head? :=
    (h.tree.ends (Nat.lt_succ_self _)).1
  rw [expire, hfirst]
  exact hret

omit [DecidableEq C] in
lemma eq_of_isSet {time : C → ℤ} {t : RbTree C} {xs ys : List C} (h : IsSet (timeOrder time) t xs)
    (hys : Sorted (timeOrder time) ys) (hnodup : ys.Nodup) (hsub : ys ⊆ xs)
    (hcount : t.rbCount = ys.length) : xs = ys := by
  have hperm : ys.Perm xs := by
    refine (List.subperm_of_subset hnodup hsub).perm_of_length_le ?_
    rw [← h.count, hcount]
  exact (comparator_timeOrder time).eq_of_mem_iff h.sorted hys fun _ => hperm.symm.mem_iff

/-- Five coroutines sleep, the first for 100 microseconds, each other for 100 more than the one
before. -/
def sleepersRun : List (Label ℕ) :=
  [.init 0, .init 1, .init 2, .init 3, .init 4, .run, .go, .go,
    .go, .sleep 100 0, .insert, .go, .go, .sleep 200 0, .insert, .go,
    .go, .sleep 300 0, .insert, .go, .go, .sleep 400 0, .insert, .go,
    .go, .sleep 500 0, .insert, .go, .go, .events []]

/-- The first reading is 300, and the later ones 350. -/
def readings (k : ℕ) : ℤ := if k = 0 then 300 else 350

lemma readings_mono : Monotone readings := by
  intro j k hjk
  unfold readings
  split_ifs <;> omega

lemma asleep_sleepersRun : ∃ s q, run step sleepersRun (coSchedulerInit someMemory) =
    some (s, []) ∧ Asleep s q [0, 1, 2, 3, 4] ∧
    (∀ c ∈ [0, 1, 2, 3, 4], s.sleepExpiredTime c = 100 * c + 100) := by
  have hrun : (run step sleepersRun (coSchedulerInit someMemory)).map (fun r => (r.2,
      (List.range 5).map fun c => (r.1.live c, r.1.state c, r.1.sleepExpiredTime c),
      r.1.sleepTree.rbCount)) = some ([], [(true, .sleeping, 100), (true, .sleeping, 200),
        (true, .sleeping, 300), (true, .sleeping, 400), (true, .sleeping, 500)], 5) := by
    decide +kernel
  obtain ⟨⟨s, es⟩, hrun, hs⟩ := Option.map_eq_some_iff.mp hrun
  obtain ⟨q, xs, hkeeps⟩ := run_keeps (by decide) (by decide +kernel) hrun
  simp [List.range_succ] at hs
  obtain ⟨rfl, ⟨h0, h1, h2, h3, h4⟩, hcount⟩ := hs
  have hsub : [0, 1, 2, 3, 4] ⊆ xs := by
    intro c hc
    refine (hkeeps.places.timed c).mpr ?_
    fin_cases hc <;> simp [*, Timed]
  have hsorted : Sorted (timeOrder s.sleepExpiredTime) [0, 1, 2, 3, 4] := by
    simp [Sorted, timeOrder, *]
  obtain rfl := eq_of_isSet hkeeps.tree hsorted (by decide) hsub hcount
  exact ⟨s, q, hrun, hkeeps.asleep, by simp [*]⟩

/-- Three of them have expired at the first reading, and the removals rotate the tree: its root is
the second coroutine before, and the fourth one after. -/
theorem expire_wakes_sample : ∃ s q turns woken s',
    run step sleepersRun (coSchedulerInit someMemory) = some (s, []) ∧
    expire readings turns s = some (woken, s') ∧ Wakes readings s q [0, 1, 2, 3, 4] woken s' ∧
    [0, 1, 2] <+: woken.map Prod.fst ∧
    s.sleepTree.root = some 1 ∧ (expire readings 5 s).map (fun r => (r.1, r.2.sleepTree.root)) =
      some ([(0, 300), (1, 350), (2, 350)], some 3) := by
  obtain ⟨s, q, hrun, hasleep, htimes⟩ := asleep_sleepersRun
  have hclock : Measured readings s.sleepExpiredTime [0, 1, 2, 3, 4] := by
    intro c hc k
    have hle : c ≤ 4 := by fin_cases hc <;> simp
    rw [htimes c hc]
    unfold readings InRange
    split_ifs <;> omega
  have heval : (run step sleepersRun (coSchedulerInit someMemory)).map (fun r =>
      (r.1.sleepTree.root, (expire readings 5 r.1).map fun r => (r.1, r.2.sleepTree.root))) =
      some (some 1, some ([(0, 300), (1, 350), (2, 350)], some 3)) := by
    decide +kernel
  rw [hrun] at heval
  obtain ⟨hroot, hret⟩ := Prod.mk.inj (Option.some.inj heval)
  obtain ⟨turns, woken, s', hexpire, hwakes, hprefix⟩ := expire_wakes hasleep readings_mono hclock
  refine ⟨s, q, turns, woken, s', hrun, hexpire, hwakes, ?_, hroot, hret⟩
  simpa [htimes, readings] using hprefix

end LinuxC.Co
