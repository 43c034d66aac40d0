import Mathlib.Data.Int.Notation
import LinuxC.Framework.Threads
import LinuxC.Framework.Transition

/-!
# Worker pools

A pool of worker threads that serve a queue under one mutex: between a minimum and a maximum of
workers, the ones beyond the minimum linger for a while when there is nothing to do.  A worker
that finds the queue empty waits on a condition variable; who queues a job signals it if some
worker counts as idle and makes a worker otherwise.

A step is a section that runs under the mutex, or the end of a wait: a waiter is blocked, or it
has been woken by a signal, or its time is up, and the last two still have to get the mutex.  At
`loop` a worker holds the mutex and is about to start over.

`Pool.Ok` is the invariant.  Its heart is `signalled`: while a worker is blocked, there are at
least as many workers on their way to the queue as jobs in it.
-/

namespace LinuxC.WorkerPool

variable {J : Type}

/-! ## Workers -/

/-- How far the wait of an idle worker is. -/
inductive Wait
  | blocked
  | signalled
  | expired
  deriving DecidableEq, Repr

/-- Where a worker is, with its memory of a wait that timed out. -/
inductive Worker (J : Type)
  | dead
  | start
  | loop (timedout : Bool)
  | idle (wait : Wait) (deadline : Option ℤ) (timedout : Bool)
  | running (job : J) (timedout : Bool)
  deriving DecidableEq, Repr

namespace Worker

/-- The worker has not ended. -/
def live : Worker J → Bool
  | .dead => false
  | _ => true

/-- The worker counts as idle. -/
def isIdle : Worker J → Bool
  | .idle _ _ _ => true
  | _ => false

/-- The worker is blocked and nothing has woken it. -/
def isBlocked : Worker J → Bool
  | .idle wait _ _ => decide (wait = .blocked)
  | _ => false

/-- The wait of the worker is over. -/
def isReady : Worker J → Bool
  | .idle wait _ _ => decide (wait ≠ .blocked)
  | _ => false

/-- The worker holds the mutex. -/
def isLoop : Worker J → Bool
  | .loop _ => true
  | _ => false

/-- The worker is woken, if it is blocked. -/
def wake : Worker J → Worker J
  | .idle .blocked d b => .idle .signalled d b
  | w => w

end Worker

/-! ## Pools -/

/-- The pool: its bounds, its counters, the queue and the workers. -/
structure Pool (J : Type) where
  min : ℤ
  max : ℤ
  linger : ℤ
  nthreads : ℤ
  idlethreads : ℤ
  destroy : Bool
  queue : List J
  workers : List (Worker J)
  now : ℤ
  deriving DecidableEq, Repr

/-- A worker takes a job from the queue. -/
inductive Event (J : Type)
  | taken (i : ℕ) (job : J)
  deriving DecidableEq, Repr

namespace Pool

/-- The worker `i` moves. -/
def set (p : Pool J) (i : ℕ) (w : Worker J) : Pool J := { p with workers := p.workers.set i w }

/-- The number of idle workers is changed. -/
def addIdle (p : Pool J) (k : ℤ) : Pool J := { p with idlethreads := p.idlethreads + k }

/-- The worker ends. -/
def exit (i : ℕ) (p : Pool J) : Pool J := { p.set i .dead with nthreads := p.nthreads - 1 }

/-- The end of the body of the loop: a worker whose wait has timed out ends if there are others
enough. -/
def tail (i : ℕ) (timedout : Bool) (p : Pool J) : Pool J :=
  if timedout = true ∧ p.min < p.nthreads then exit i p else p.set i (.loop timedout)

/-- The worker does not wait any longer. -/
def leave (i : ℕ) (timedout : Bool) (p : Pool J) : Pool J × List (Event J) :=
  if p.destroy then (exit i (p.addIdle (-1)), [])
  else
    match p.queue with
    | j :: rest =>
        ({ (p.addIdle (-1)).set i (.running j timedout) with queue := rest }, [.taken i j])
    | [] => (tail i timedout (p.addIdle (-1)), [])

/-- The worker, which counts as idle, looks at the queue and waits if there is nothing in it. -/
def seek (i : ℕ) (timedout : Bool) (p : Pool J) : Pool J × List (Event J) :=
  if p.queue.isEmpty && !p.destroy then
    if p.nthreads ≤ p.min then (p.set i (.idle .blocked none timedout), [])
    else if 0 < p.linger then
      (p.set i (.idle .blocked (some (p.now + p.linger)) timedout), [])
    else leave i true p
  else leave i timedout p

/-- The wait is over and the worker has the mutex again. -/
def resume (i : ℕ) (expired timedout : Bool) (p : Pool J) : Pool J × List (Event J) :=
  if expired then leave i true p else seek i timedout p

/-- The first blocked worker is woken. -/
def signalFirst : List (Worker J) → List (Worker J)
  | [] => []
  | w :: ws => if w.isBlocked then w.wake :: ws else w :: signalFirst ws

/-- A signal wakes one blocked worker if there is one, the worker `i` if it is such. -/
def signal (i : ℕ) (ws : List (Worker J)) : List (Worker J) :=
  match ws[i]? with
  | some w => if w.isBlocked then ws.set i w.wake else signalFirst ws
  | none => signalFirst ws

/-- A job is queued, and a worker is woken or made for it. -/
def execute (job : J) (i : ℕ) (created : Bool) (p : Pool J) : Pool J :=
  if 0 < p.idlethreads then
    { p with queue := p.queue ++ [job], workers := signal i p.workers }
  else if p.nthreads < p.max ∧ created = true then
    { p with
      queue := p.queue ++ [job], workers := p.workers ++ [.start], nthreads := p.nthreads + 1 }
  else { p with queue := p.queue ++ [job] }

/-- The destruction begins: every blocked worker is woken. -/
def shutdown (p : Pool J) : Pool J :=
  if 0 < p.idlethreads then
    { p with destroy := true, workers := p.workers.map Worker.wake }
  else { p with destroy := true }

/-- A worker holds the mutex. -/
def locked (p : Pool J) : Bool := p.workers.any Worker.isLoop

end Pool

/-! ## Steps -/

/-- A step, with what the environment decides. -/
inductive Label (J : Type)
  | tick (now : ℤ)
  | execute (job : J) (i : ℕ) (created : Bool)
  | withdraw (job : J)
  | shutdown
  | start (i : ℕ)
  | loop (i : ℕ)
  | spurious (i : ℕ)
  | expire (i : ℕ)
  | resume (i : ℕ)
  | finish (i : ℕ)
  | cancel (i : ℕ)
  deriving DecidableEq, Repr

/-- `some` under a condition. -/
def allow {α : Type} (b : Bool) (x : α) : Option α := if b then some x else none

@[simp] lemma allow_eq_some {α : Type} {b : Bool} {x y : α} :
    allow b x = some y ↔ b = true ∧ x = y := by
  cases b <;> simp [allow]

/-- The step function.  A job that is still in the queue may be withdrawn, and a worker may be
cancelled in its job once the pool is being destroyed. -/
def step [DecidableEq J] (p : Pool J) : Label J → Option (Pool J × List (Event J))
  | .tick now => allow (decide (p.now ≤ now)) ({ p with now := now }, [])
  | .execute job i created => allow (!p.locked) (p.execute job i created, [])
  | .withdraw job => allow (!p.locked) ({ p with queue := p.queue.erase job }, [])
  | .shutdown => allow (!p.locked) (p.shutdown, [])
  | .start i =>
      match p.workers[i]? with
      | some .start => allow (!p.locked) (p.set i (.loop false), [])
      | _ => none
  | .loop i =>
      match p.workers[i]? with
      | some (.loop b) => some (Pool.seek i b (p.addIdle 1))
      | _ => none
  | .spurious i =>
      match p.workers[i]? with
      | some (.idle .blocked d b) => some (p.set i (.idle .signalled d b), [])
      | _ => none
  | .expire i =>
      match p.workers[i]? with
      | some (.idle _ (some d) b) =>
          allow (decide (d ≤ p.now)) (p.set i (.idle .expired (some d) b), [])
      | _ => none
  | .resume i =>
      match p.workers[i]? with
      | some (.idle .signalled _ b) => allow (!p.locked) (Pool.resume i false b p)
      | some (.idle .expired _ b) => allow (!p.locked) (Pool.resume i true b p)
      | _ => none
  | .finish i =>
      match p.workers[i]? with
      | some (.running _ b) => allow (!p.locked) (p.tail i b, [])
      | _ => none
  | .cancel i =>
      match p.workers[i]? with
      | some (.running _ _) => allow (!p.locked && p.destroy) (p.exit i, [])
      | _ => none

/-! ## What a step is -/

section Stepped

variable [DecidableEq J] {p p' : Pool J}

/-- The steps, with the worker that moves. -/
inductive Pool.Stepped (p : Pool J) : Label J → Pool J → List (Event J) → Prop
  | tick (now : ℤ) : Stepped p (.tick now) { p with now := now } []
  | execute (job : J) (i : ℕ) (created : Bool) :
      Stepped p (.execute job i created) (p.execute job i created) []
  | withdraw (job : J) : Stepped p (.withdraw job) { p with queue := p.queue.erase job } []
  | shutdown : Stepped p .shutdown p.shutdown []
  | start {i : ℕ} : p.workers[i]? = some .start →
      Stepped p (.start i) (p.set i (.loop false)) []
  | loop {i : ℕ} {t : Bool} : p.workers[i]? = some (.loop t) →
      Stepped p (.loop i) (Pool.seek i t (p.addIdle 1)).1 (Pool.seek i t (p.addIdle 1)).2
  | wait {l : Label J} {i : ℕ} {w w' : Wait} {d : Option ℤ} {t : Bool} :
      p.workers[i]? = some (.idle w d t) → w' ≠ .blocked → l = .spurious i ∨ l = .expire i →
      Stepped p l (p.set i (.idle w' d t)) []
  | signalled {i : ℕ} {d : Option ℤ} {t : Bool} : p.workers[i]? = some (.idle .signalled d t) →
      Stepped p (.resume i) (Pool.seek i t p).1 (Pool.seek i t p).2
  | expired {i : ℕ} {d : Option ℤ} {t : Bool} : p.workers[i]? = some (.idle .expired d t) →
      Stepped p (.resume i) (Pool.leave i true p).1 (Pool.leave i true p).2
  | finish {i : ℕ} {j : J} {t : Bool} : p.workers[i]? = some (.running j t) →
      Stepped p (.finish i) (p.tail i t) []
  | cancel {i : ℕ} {j : J} {t : Bool} : p.workers[i]? = some (.running j t) → p.destroy = true →
      Stepped p (.cancel i) (p.exit i) []

lemma stepped_of_step {l : Label J} {r : Pool J × List (Event J)} (h : step p l = some r) :
    p.Stepped l r.1 r.2 := by
  cases l with
  | tick now =>
      obtain ⟨-, rfl⟩ := allow_eq_some.mp h
      exact .tick now
  | execute job i created =>
      obtain ⟨-, rfl⟩ := allow_eq_some.mp h
      exact .execute job i created
  | withdraw job =>
      obtain ⟨-, rfl⟩ := allow_eq_some.mp h
      exact .withdraw job
  | shutdown =>
      obtain ⟨-, rfl⟩ := allow_eq_some.mp h
      exact .shutdown
  | start i =>
      simp only [step] at h
      split at h
      · obtain ⟨-, rfl⟩ := allow_eq_some.mp h
        exact .start ‹_›
      · cases h
  | loop i =>
      simp only [step] at h
      split at h
      · obtain rfl := Option.some.inj h
        exact .loop ‹_›
      · cases h
  | spurious i =>
      simp only [step] at h
      split at h
      · obtain rfl := Option.some.inj h
        exact .wait ‹_› (by simp) (.inl rfl)
      · cases h
  | expire i =>
      simp only [step] at h
      split at h
      · obtain ⟨-, rfl⟩ := allow_eq_some.mp h
        exact .wait ‹_› (by simp) (.inr rfl)
      · cases h
  | resume i =>
      simp only [step] at h
      split at h
      · obtain ⟨-, rfl⟩ := allow_eq_some.mp h
        exact .signalled ‹_›
      · obtain ⟨-, rfl⟩ := allow_eq_some.mp h
        exact .expired ‹_›
      · cases h
  | finish i =>
      simp only [step] at h
      split at h
      · obtain ⟨-, rfl⟩ := allow_eq_some.mp h
        exact .finish ‹_›
      · cases h
  | cancel i =>
      simp only [step] at h
      split at h
      · obtain ⟨hd, rfl⟩ := allow_eq_some.mp h
        simp only [Bool.and_eq_true] at hd
        exact .cancel ‹_› hd.2
      · cases h

end Stepped

/-! ## The counters -/

/-- The counters are right, and there are not too many workers. -/
structure Pool.Counted (p : Pool J) : Prop where
  threads : p.nthreads = (p.workers.countP Worker.live : ℕ)
  idle : p.idlethreads = (p.workers.countP Worker.isIdle : ℕ)
  bound : p.nthreads ≤ p.max

namespace Pool

variable {p p' : Pool J} {i : ℕ} {a b : Worker J}

/-- One worker moves from `a` to `b`, and the counters follow. -/
structure Shift (p p' : Pool J) (i : ℕ) (a b : Worker J) : Prop where
  pc : p.workers[i]? = some a
  workers : p'.workers = p.workers.set i b
  min : p'.min = p.min
  max : p'.max = p.max
  destroy : p'.destroy = p.destroy
  live : b.live = true → a.live = true
  threads : p'.nthreads + a.live.toNat = p.nthreads + b.live.toNat
  idle : p'.idlethreads + a.isIdle.toNat = p.idlethreads + b.isIdle.toNat

lemma Counted.shift (h : p.Counted) (m : Shift p p' i a b) : p'.Counted := by
  have hlive := countP_set_add (p := Worker.live) (b := b) m.pc
  have hidle := countP_set_add (p := Worker.isIdle) (b := b) m.pc
  rw [← m.workers] at hlive hidle
  have hthreads := h.threads
  have hcount := h.idle
  have hbound := h.bound
  have hmt := m.threads
  have hmi := m.idle
  have hle : b.live.toNat ≤ a.live.toNat := by
    have hl := m.live
    cases hb : b.live <;> simp_all
  exact ⟨by omega, by omega, by have := m.max; omega⟩

@[simp] lemma addIdle_zero (p : Pool J) : p.addIdle 0 = p := by simp [addIdle]

lemma shift_exit (hpc : p.workers[i]? = some a) (ha : a.live = true) {k : ℤ}
    (hk : k + a.isIdle.toNat = 0) : Shift p (Pool.exit i (p.addIdle k)) i a .dead := by
  refine ⟨hpc, rfl, rfl, rfl, rfl, fun hb => ?_, ?_, ?_⟩
  · cases hb
  · change p.nthreads - 1 + (a.live.toNat : ℤ) = p.nthreads + 0
    rw [ha, Bool.toNat_true]
    omega
  · change p.idlethreads + k + (a.isIdle.toNat : ℤ) = p.idlethreads + 0
    omega

lemma shift_set (hpc : p.workers[i]? = some a) (ha : a.live = true) (hb : b.live = true) {k : ℤ}
    (hk : k + a.isIdle.toNat = b.isIdle.toNat) : Shift p ((p.addIdle k).set i b) i a b := by
  refine ⟨hpc, rfl, rfl, rfl, rfl, fun _ => ha, ?_, ?_⟩
  · rw [ha, hb]
    rfl
  · change p.idlethreads + k + (a.isIdle.toNat : ℤ) = p.idlethreads + b.isIdle.toNat
    omega

lemma shift_tail (hpc : p.workers[i]? = some a) (ha : a.live = true) {k : ℤ}
    (hk : k + a.isIdle.toNat = 0) (t : Bool) :
    ∃ b, Shift p (Pool.tail i t (p.addIdle k)) i a b := by
  unfold Pool.tail
  split_ifs
  · exact ⟨_, shift_exit hpc ha hk⟩
  · exact ⟨_, shift_set hpc ha rfl hk⟩

lemma addIdle_addIdle (p : Pool J) (k : ℤ) :
    (p.addIdle k).addIdle (-1) = p.addIdle (k - 1) := by
  simp [addIdle]
  omega

lemma shift_leave (hpc : p.workers[i]? = some a) (ha : a.live = true) {k : ℤ}
    (hk : k + a.isIdle.toNat = 1) (t : Bool) :
    ∃ b, Shift p (Pool.leave i t (p.addIdle k)).1 i a b := by
  have hk' : k - 1 + a.isIdle.toNat = 0 := by omega
  unfold Pool.leave
  rw [addIdle_addIdle]
  split_ifs
  · exact ⟨_, shift_exit hpc ha hk'⟩
  · split
    · rename_i j rest hq
      obtain ⟨h1, h2, h3, h4, h5, h6, h7, h8⟩ := shift_set (b := .running j t) hpc ha rfl hk'
      exact ⟨_, h1, h2, h3, h4, h5, h6, h7, h8⟩
    · exact shift_tail hpc ha hk' t

lemma shift_seek (hpc : p.workers[i]? = some a) (ha : a.live = true) {k : ℤ}
    (hk : k + a.isIdle.toNat = 1) (t : Bool) :
    ∃ b, Shift p (Pool.seek i t (p.addIdle k)).1 i a b := by
  unfold Pool.seek
  split_ifs
  · exact ⟨_, shift_set hpc ha rfl hk⟩
  · exact ⟨_, shift_set hpc ha rfl hk⟩
  · exact shift_leave hpc ha hk true
  · exact shift_leave hpc ha hk t

/-- **A step is a move of one worker**, or one of the environment. -/
lemma Stepped.shift [DecidableEq J] {l : Label J} {es : List (Event J)} (h : p.Stepped l p' es) :
    (∃ i a b, Shift p p' i a b) ∨ (∃ now, p' = { p with now := now }) ∨
      (∃ job i created, p' = p.execute job i created) ∨
      (∃ job, p' = { p with queue := p.queue.erase job }) ∨ p' = p.shutdown := by
  cases h with
  | tick now => exact .inr (.inl ⟨now, rfl⟩)
  | execute job i created => exact .inr (.inr (.inl ⟨job, i, created, rfl⟩))
  | withdraw job => exact .inr (.inr (.inr (.inl ⟨job, rfl⟩)))
  | shutdown => exact .inr (.inr (.inr (.inr rfl)))
  | start hpc =>
      have hset := shift_set (b := .loop false) hpc rfl rfl (k := 0) rfl
      rw [addIdle_zero] at hset
      exact .inl ⟨_, _, _, hset⟩
  | loop hpc => exact .inl ⟨_, _, shift_seek hpc rfl rfl _⟩
  | @wait _ _ _ w' d t hpc _ _ =>
      have hset := shift_set (b := .idle w' d t) hpc rfl rfl (k := 0) rfl
      rw [addIdle_zero] at hset
      exact .inl ⟨_, _, _, hset⟩
  | @signalled _ _ t hpc =>
      have hseek := shift_seek hpc rfl (k := 0) rfl t
      rw [addIdle_zero] at hseek
      exact .inl ⟨_, _, hseek⟩
  | expired hpc =>
      have hleave := shift_leave hpc rfl (k := 0) rfl true
      rw [addIdle_zero] at hleave
      exact .inl ⟨_, _, hleave⟩
  | @finish _ _ t hpc =>
      have htail := shift_tail hpc rfl (k := 0) rfl t
      rw [addIdle_zero] at htail
      exact .inl ⟨_, _, htail⟩
  | cancel hpc _ =>
      have hexit := shift_exit hpc rfl (k := 0) rfl
      rw [addIdle_zero] at hexit
      exact .inl ⟨_, _, _, hexit⟩

end Pool

/-! ## The invariant -/

/-- The counters are right, a queued job has a worker, and while a worker is blocked there are at
least as many workers on their way to the queue as jobs in it. -/
structure Pool.Ok (p : Pool J) : Prop extends Pool.Counted p where
  pos : 1 ≤ p.max
  attended : p.destroy = false → p.queue ≠ [] → ∃ w ∈ p.workers, w.live = true
  signalled : p.destroy = false → 0 < p.workers.countP Worker.isBlocked →
    p.queue.length ≤ p.workers.countP Worker.isReady

namespace Pool

variable {p p' : Pool J} {i : ℕ} {a b : Worker J}

/-- **One worker moves** from `a` to `b`: the counters follow, a worker that ends leaves nothing
behind or is not the last, and a worker that was on its way to the queue has taken a job, unless
the queue is empty. -/
structure Move (p p' : Pool J) (i : ℕ) (a b : Worker J) : Prop extends Shift p p' i a b where
  attended : p.destroy = false → p'.queue ≠ [] → b.live = true ∨ 1 < p.nthreads
  signalled : p.destroy = false → p'.queue = [] ∨
    b.isBlocked = false ∧ p'.queue.length + a.isReady.toNat ≤ p.queue.length + b.isReady.toNat

lemma Ok.move (h : p.Ok) (m : Move p p' i a b) : p'.Ok := by
  have hlive := countP_set_add (p := Worker.live) (b := b) m.pc
  have hblocked := countP_set_add (p := Worker.isBlocked) (b := b) m.pc
  have hready := countP_set_add (p := Worker.isReady) (b := b) m.pc
  rw [← m.workers] at hlive hblocked hready
  have hthreads := h.threads
  refine ⟨h.toCounted.shift m.toShift, by rw [m.max]; exact h.pos, fun hd hq => ?_,
    fun hd hpos => ?_⟩
  · rcases m.attended (m.destroy ▸ hd) hq with hb | hn
    · refine ⟨b, ?_, hb⟩
      rw [m.workers]
      exact mem_set_self m.pc
    · apply List.countP_pos_iff.mp
      have := Bool.toNat_le a.live
      omega
  · rcases m.signalled (m.destroy ▸ hd) with hq | ⟨hb, hq⟩
    · simp [hq]
    · rw [hb, Bool.toNat_false] at hblocked
      have hold := h.signalled (m.destroy ▸ hd) (by omega)
      omega

/-- The worker ends while the queue is empty, the pool is being destroyed, or others are left. -/
lemma Ok.exit (h : p.Ok) (hpc : p.workers[i]? = some a) (ha : a.live = true) {k : ℤ}
    (hk : k + a.isIdle.toNat = 0)
    (hq : p.destroy = true ∨ p.queue = [] ∨ a.isReady = false ∧ 1 < p.nthreads) :
    (Pool.exit i (p.addIdle k)).Ok := by
  refine h.move (i := i) (a := a) (b := .dead) ⟨shift_exit hpc ha hk, fun hd hne => ?_,
    fun hd => ?_⟩
  · rcases hq with hq | hq | hq
    · simp [hq] at hd
    · exact absurd hq hne
    · exact .inr hq.2
  · rcases hq with hq | hq | hq
    · simp [hq] at hd
    · exact .inl hq
    · refine .inr ⟨rfl, ?_⟩
      rw [hq.1]
      exact Nat.le_refl _

/-- The worker starts over while the queue is empty, or was not on its way to the queue. -/
lemma Ok.again (h : p.Ok) (hpc : p.workers[i]? = some a) (ha : a.live = true) {k : ℤ}
    (hk : k + a.isIdle.toNat = 0) (t : Bool) (hq : p.queue = [] ∨ a.isReady = false) :
    ((p.addIdle k).set i (.loop t)).Ok := by
  refine h.move (i := i) (a := a) (b := .loop t) ⟨shift_set hpc ha rfl hk, fun _ _ => .inl rfl,
    fun _ => ?_⟩
  refine hq.imp id fun hq => ⟨rfl, ?_⟩
  rw [hq]
  exact Nat.le_refl _

lemma Ok.leave (h : p.Ok) (hpc : p.workers[i]? = some a) (ha : a.live = true) {k : ℤ}
    (hk : k + a.isIdle.toNat = 1) (t : Bool) : (Pool.leave i t (p.addIdle k)).1.Ok := by
  have hk' : k - 1 + a.isIdle.toNat = 0 := by omega
  unfold Pool.leave
  rw [addIdle_addIdle]
  split_ifs with hd
  · exact h.exit hpc ha hk' (.inl hd)
  · split
    · rename_i j rest hq
      have hq : p.queue = j :: rest := hq
      have hle := Bool.toNat_le a.isReady
      -- the job is taken
      obtain ⟨h1, h2, h3, h4, h5, h6, h7, h8⟩ := shift_set (b := .running j t) hpc ha rfl hk'
      refine h.move (i := i) (a := a) (b := .running j t) ⟨⟨h1, h2, h3, h4, h5, h6, h7, h8⟩,
        fun _ _ => .inl rfl, fun _ => .inr ⟨rfl, ?_⟩⟩
      change rest.length + a.isReady.toNat ≤ p.queue.length + 0
      rw [hq, List.length_cons]
      omega
    · rename_i hq
      unfold Pool.tail
      split_ifs
      · exact h.exit hpc ha hk' (.inr (.inl hq))
      · exact h.again hpc ha hk' t (.inl hq)

lemma Ok.block (h : p.Ok) (hpc : p.workers[i]? = some a) (ha : a.live = true) {k : ℤ}
    (hk : k + a.isIdle.toNat = 1) (hq : p.queue = []) (d : Option ℤ) (t : Bool) :
    ((p.addIdle k).set i (.idle .blocked d t)).Ok := by
  exact h.move (i := i) (a := a) (b := .idle .blocked d t) ⟨shift_set hpc ha rfl hk,
    fun _ _ => .inl rfl, fun _ => .inl hq⟩

lemma Ok.seek (h : p.Ok) (hpc : p.workers[i]? = some a) (ha : a.live = true) {k : ℤ}
    (hk : k + a.isIdle.toNat = 1) (t : Bool) : (Pool.seek i t (p.addIdle k)).1.Ok := by
  unfold Pool.seek
  split_ifs with hq hn hl
  · simp [addIdle] at hq
    exact h.block hpc ha hk hq.1 none t
  · simp [addIdle] at hq
    exact h.block hpc ha hk hq.1 _ t
  · exact h.leave hpc ha hk true
  · exact h.leave hpc ha hk t

/-! ### Signals -/

/-- A woken worker is ready, and idle and alive as it was. -/
lemma wake_of_blocked (hb : a.isBlocked = true) :
    a.wake.live = a.live ∧ a.wake.isIdle = a.isIdle ∧ a.wake.isBlocked = false ∧
      a.wake.isReady = true ∧ a.isReady = false := by
  cases a with
  | idle wait d t =>
      obtain rfl : wait = .blocked := by simpa [Worker.isBlocked] using hb
      exact ⟨rfl, rfl, rfl, rfl, rfl⟩
  | dead | start | loop | running => cases hb

lemma wake_of_not_blocked (hb : a.isBlocked = false) : a.wake = a := by
  cases a with
  | idle wait d t => cases wait <;> first | rfl | cases hb
  | dead | start | loop | running => rfl

/-- What a signal does to the workers. -/
structure Signalled (ws ws' : List (Worker J)) : Prop where
  live : ws'.countP Worker.live = ws.countP Worker.live
  idle : ws'.countP Worker.isIdle = ws.countP Worker.isIdle
  blocked : ws'.countP Worker.isBlocked ≤ ws.countP Worker.isBlocked
  ready : 0 < ws.countP Worker.isBlocked →
    ws'.countP Worker.isReady = ws.countP Worker.isReady + 1

lemma signalled_signalFirst (ws : List (Worker J)) : Signalled ws (signalFirst ws) := by
  induction ws with
  | nil => exact ⟨rfl, rfl, Nat.le_refl _, fun h => by simp at h⟩
  | cons w ws ih =>
      unfold signalFirst
      split_ifs with hb
      · obtain ⟨h1, h2, h3, h4, h5⟩ := wake_of_blocked hb
        refine ⟨?_, ?_, ?_, fun _ => ?_⟩
        · simp [List.countP_cons, h1]
        · simp [List.countP_cons, h2]
        · simp [List.countP_cons, h3]
        · simp [h4, h5]
      · have hb' : w.isBlocked = false := by simpa using hb
        refine ⟨?_, ?_, ?_, fun hpos => ?_⟩
        · simp [List.countP_cons, ih.live]
        · simp [List.countP_cons, ih.idle]
        · simpa [List.countP_cons, hb'] using ih.blocked
        · have := ih.ready (by simpa [List.countP_cons, hb'] using hpos)
          simp only [List.countP_cons, this]
          omega

lemma signalled_signal (i : ℕ) (ws : List (Worker J)) : Signalled ws (signal i ws) := by
  unfold signal
  split
  · rename_i w hw
    split_ifs with hb
    · obtain ⟨h1, h2, h3, h4, h5⟩ := wake_of_blocked hb
      have hblocked := countP_set_add (p := Worker.isBlocked) (b := w.wake) hw
      have hready := countP_set_add (p := Worker.isReady) (b := w.wake) hw
      rw [h3, Bool.toNat_false] at hblocked
      rw [h4, h5, Bool.toNat_true, Bool.toNat_false] at hready
      exact ⟨countP_set_eq hw h1, countP_set_eq hw h2, by omega, fun _ => by omega⟩
    · exact signalled_signalFirst ws
  · exact signalled_signalFirst ws

lemma blocked_le_idle (ws : List (Worker J)) :
    ws.countP Worker.isBlocked ≤ ws.countP Worker.isIdle := by
  apply List.countP_mono_left
  intro w _ hw
  cases w <;> first | rfl | cases hw

lemma Counted.execute (h : p.Counted) (job : J) (i : ℕ) (created : Bool) :
    (p.execute job i created).Counted := by
  have hthreads := h.threads
  have hidle := h.idle
  have hbound := h.bound
  unfold Pool.execute
  split_ifs with hi hn
  · have hs := signalled_signal i p.workers
    refine ⟨?_, ?_, hbound⟩
    · change p.nthreads = _
      rw [hs.live]
      exact hthreads
    · change p.idlethreads = _
      rw [hs.idle]
      exact hidle
  · refine ⟨?_, ?_, ?_⟩
    · have hl : (p.workers ++ [Worker.start]).countP Worker.live =
          p.workers.countP Worker.live + 1 := List.countP_append
      change p.nthreads + 1 = ((p.workers ++ [Worker.start]).countP Worker.live : ℕ)
      omega
    · have hl : (p.workers ++ [Worker.start]).countP Worker.isIdle =
          p.workers.countP Worker.isIdle := List.countP_append
      change p.idlethreads = ((p.workers ++ [Worker.start]).countP Worker.isIdle : ℕ)
      rw [hl]
      exact hidle
    · change p.nthreads + 1 ≤ p.max
      omega
  · exact ⟨hthreads, hidle, hbound⟩

/-- A job is queued.  Some worker is on its way to it, or busy. -/
lemma Ok.execute (h : p.Ok) (job : J) (i : ℕ) : (p.execute job i true).Ok := by
  have hthreads := h.threads
  have hidle := h.idle
  have hpos := h.pos
  have hcounted := h.toCounted.execute job i true
  unfold Pool.execute at hcounted ⊢
  split_ifs at hcounted ⊢ with hi hn
  · have hs := signalled_signal i p.workers
    refine ⟨hcounted, hpos, fun _ _ => ?_, fun hd hblocked => ?_⟩
    · apply List.countP_pos_iff.mp
      have hle : p.workers.countP Worker.isIdle ≤ p.workers.countP Worker.live := by
        apply List.countP_mono_left
        intro w _ hw
        cases w <;> first | rfl | cases hw
      rw [hs.live]
      omega
    · have hblocked : 0 < (signal i p.workers).countP Worker.isBlocked := hblocked
      have hle := hs.blocked
      have hold := h.signalled hd (by omega)
      change (p.queue ++ [job]).length ≤ (signal i p.workers).countP Worker.isReady
      rw [hs.ready (by omega), List.length_append, List.length_singleton]
      omega
  · refine ⟨hcounted, hpos, fun _ _ => ⟨.start, by simp, rfl⟩, fun _ hblocked => ?_⟩
    -- nobody is idle, so nobody is blocked
    have hl : (p.workers ++ [Worker.start]).countP Worker.isBlocked =
        p.workers.countP Worker.isBlocked := List.countP_append
    have hblocked : 0 < (p.workers ++ [Worker.start]).countP Worker.isBlocked := hblocked
    have hle := blocked_le_idle p.workers
    omega
  · refine ⟨hcounted, hpos, fun _ _ => ?_, fun _ hblocked => ?_⟩
    · have hfull : ¬ p.nthreads < p.max := fun hlt => hn ⟨hlt, rfl⟩
      have hlive : 0 < p.workers.countP Worker.live := by omega
      exact List.countP_pos_iff.mp hlive
    · have hblocked : 0 < p.workers.countP Worker.isBlocked := hblocked
      have hle := blocked_le_idle p.workers
      omega

lemma countP_map_wake {q : Worker J → Bool} (hq : ∀ w : Worker J, q w.wake = q w)
    (ws : List (Worker J)) : (ws.map Worker.wake).countP q = ws.countP q := by
  rw [List.countP_map]
  exact List.countP_congr fun w _ => by simp [hq]

lemma Counted.shutdown (h : p.Counted) : p.shutdown.Counted := by
  unfold Pool.shutdown
  split_ifs
  · refine ⟨?_, ?_, h.bound⟩
    · change p.nthreads = ((p.workers.map Worker.wake).countP Worker.live : ℕ)
      rw [countP_map_wake fun w => ?_]
      · exact h.threads
      · cases hb : w.isBlocked with
        | true => exact (wake_of_blocked hb).1
        | false => rw [wake_of_not_blocked hb]
    · change p.idlethreads = ((p.workers.map Worker.wake).countP Worker.isIdle : ℕ)
      rw [countP_map_wake fun w => ?_]
      · exact h.idle
      · cases hb : w.isBlocked with
        | true => exact (wake_of_blocked hb).2.1
        | false => rw [wake_of_not_blocked hb]
  · exact ⟨h.threads, h.idle, h.bound⟩

lemma Ok.shutdown (h : p.Ok) : p.shutdown.Ok := by
  have hcounted := h.toCounted.shutdown
  unfold Pool.shutdown at hcounted ⊢
  split_ifs at hcounted ⊢
  · exact ⟨hcounted, h.pos, fun hd => (by cases hd), fun hd => (by cases hd)⟩
  · exact ⟨hcounted, h.pos, fun hd => (by cases hd), fun hd => (by cases hd)⟩

/-! ### The end of a job -/

/-- The last worker of the pool, whose wait has timed out once, has done its job and ends although
jobs are queued. -/
def abandons (p : Pool J) : Label J → Bool
  | .finish i =>
      match p.workers[i]? with
      | some (.running _ true) =>
          decide (p.min < 1) && decide (p.nthreads ≤ 1) && !p.queue.isEmpty
      | _ => false
  | _ => false

lemma Ok.finish {j : J} {t : Bool} (h : p.Ok) (hpc : p.workers[i]? = some (.running j t))
    (hstay : p.abandons (.finish i) = false) : (p.tail i t).Ok := by
  unfold Pool.tail
  split_ifs with ht
  · have hexit := h.exit (k := 0) hpc rfl rfl
    rw [addIdle_zero] at hexit
    apply hexit
    by_cases hq : p.queue = []
    · exact .inr (.inl hq)
    · obtain ⟨rfl, hmin⟩ := ht
      have hsome : p.queue.isEmpty = false := by simpa using hq
      simp only [abandons, hpc, hsome, Bool.not_false, Bool.and_true, Bool.and_eq_false_iff,
        decide_eq_false_iff_not] at hstay
      exact .inr (.inr ⟨rfl, by omega⟩)
  · have hagain := h.again (k := 0) hpc rfl rfl t (.inr rfl)
    rwa [addIdle_zero] at hagain

lemma Ok.wait {w w' : Wait} {d d' : Option ℤ} {t : Bool} (h : p.Ok)
    (hpc : p.workers[i]? = some (.idle w d t)) (hw : w' ≠ .blocked) :
    (p.set i (.idle w' d' t)).Ok := by
  have hb : (Worker.idle w' d' t : Worker J).isBlocked = false := by
    simpa [Worker.isBlocked] using hw
  have hr : (Worker.idle w' d' t : Worker J).isReady = true := by simpa [Worker.isReady] using hw
  have hshift := shift_set (b := .idle w' d' t) hpc rfl rfl (k := 0) rfl
  rw [addIdle_zero] at hshift
  refine h.move (i := i) ⟨hshift, fun _ _ => .inl rfl, fun _ => .inr ⟨hb, ?_⟩⟩
  rw [hr]
  exact Nat.add_le_add_left (Bool.toNat_le _) _

lemma Ok.withdraw [DecidableEq J] (h : p.Ok) (job : J) :
    Ok { p with queue := p.queue.erase job } := by
  refine ⟨⟨h.threads, h.idle, h.bound⟩, h.pos, fun hd hq => h.attended hd ?_, fun hd hpos => ?_⟩
  · rintro hnil
    simp [hnil] at hq
  · exact Nat.le_trans List.erase_sublist.length_le (h.signalled hd hpos)

end Pool

/-- `pthread_create` succeeds in the step, if it is called. -/
def Label.created : Label J → Bool
  | .execute _ _ created => created
  | _ => true

variable {p p' : Pool J} {l : Label J} {es : List (Event J)}

/-- A pool that keeps a worker never abandons its queue. -/
lemma Pool.abandons_of_min (h : 1 ≤ p.min) (l : Label J) : p.abandons l = false := by
  cases l with
  | finish i =>
      simp only [Pool.abandons]
      split
      · have hmin : decide (p.min < 1) = false := by simpa using h
        simp [hmin]
      · rfl
  | tick | execute | withdraw | shutdown | start | loop | spurious | expire | resume | cancel => rfl

lemma Pool.execute_min (job : J) (i : ℕ) (created : Bool) (p : Pool J) :
    (p.execute job i created).min = p.min := by
  unfold Pool.execute
  split_ifs <;> rfl

lemma Pool.shutdown_min (p : Pool J) : p.shutdown.min = p.min := by
  unfold Pool.shutdown
  split_ifs <;> rfl

/-! ## No job is stranded -/

/-- Jobs are queued, and every worker that is left sleeps. -/
def Pool.Stranded (p : Pool J) : Prop :=
  p.queue ≠ [] ∧ ∀ w ∈ p.workers, w.live = true → w.isBlocked = true

lemma Pool.Ok.not_stranded (h : p.Ok) (hd : p.destroy = false) : ¬ p.Stranded := by
  rintro ⟨hq, hall⟩
  obtain ⟨w, hw, hlive⟩ := h.attended hd hq
  have hblocked := countP_pos_of_mem hw (hall w hw hlive)
  have hpos : 0 < p.queue.length := List.length_pos_iff.mpr hq
  have hle := h.signalled hd hblocked
  -- a worker on its way to the queue is not blocked
  have hsome : 0 < p.workers.countP Worker.isReady := by omega
  obtain ⟨v, hv, hready⟩ := List.countP_pos_iff.mp hsome
  cases v with
  | idle wait d t =>
      have hb := hall _ hv rfl
      simp [Worker.isBlocked, Worker.isReady] at hb hready
      exact hready hb
  | dead | start | loop | running => cases hready

/-! ## Who has which job -/

/-- The job that the worker runs. -/
def Worker.job : Worker J → Option J
  | .running j _ => some j
  | _ => none

/-- The job that the worker `i` runs. -/
def Pool.runs (p : Pool J) (i : ℕ) : Option J := (p.workers[i]?).bind Worker.job

lemma Pool.runs_set {i : ℕ} {a b : Worker J} (hpc : p.workers[i]? = some a)
    (hw : p'.workers = p.workers.set i b) : p'.runs = Function.update p.runs i b.job := by
  funext k
  unfold Pool.runs
  rw [hw]
  by_cases hk : k = i
  · obtain ⟨hlt, -⟩ := List.getElem?_eq_some_iff.mp hpc
    rw [hk, List.getElem?_set_self hlt, Function.update_self]
    rfl
  · rw [List.getElem?_set_ne (Ne.symm hk), Function.update_of_ne hk]

/-- A worker moves that runs nothing before or after. -/
lemma Pool.runs_set_of_none {i : ℕ} {a b : Worker J} (hpc : p.workers[i]? = some a)
    (hw : p'.workers = p.workers.set i b) (ha : a.job = none) (hb : b.job = none) :
    p'.runs = p.runs := by
  have hidle : p.runs i = none := by simp [Pool.runs, hpc, ha]
  rw [Pool.runs_set hpc hw, hb, ← hidle, Function.update_eq_self]

lemma Worker.job_wake (w : Worker J) : w.wake.job = w.job := by
  cases w with
  | idle wait d t => cases wait <;> rfl
  | dead | start | loop | running => rfl

lemma Pool.map_job_signal (i : ℕ) (ws : List (Worker J)) :
    (Pool.signal i ws).map Worker.job = ws.map Worker.job := by
  have hfirst : (Pool.signalFirst ws).map Worker.job = ws.map Worker.job := by
    induction ws with
    | nil => rfl
    | cons w ws ih =>
        unfold Pool.signalFirst
        split_ifs
        · simp only [List.map_cons, Worker.job_wake]
        · simp only [List.map_cons, ih]
  unfold Pool.signal
  split
  · rename_i w hw
    split_ifs
    · obtain ⟨hlt, rfl⟩ := List.getElem?_eq_some_iff.mp hw
      rw [List.map_set, Worker.job_wake, ← List.getElem_map Worker.job (h := by simpa using hlt)]
      exact List.set_getElem_self _
    · exact hfirst
  · exact hfirst

lemma Pool.runs_eq_of_map (h : p'.workers.map Worker.job = p.workers.map Worker.job) :
    p'.runs = p.runs := by
  funext k
  have hk : (p'.workers.map Worker.job)[k]? = (p.workers.map Worker.job)[k]? := by rw [h]
  simp only [List.getElem?_map] at hk
  unfold Pool.runs
  cases hw : p'.workers[k]? <;> cases hv : p.workers[k]? <;> simp_all

/-- Neither a signal nor a new worker takes a job. -/
lemma Pool.runs_execute (job : J) (i : ℕ) (created : Bool) (p : Pool J) :
    (p.execute job i created).runs = p.runs := by
  unfold Pool.execute
  split_ifs
  · exact Pool.runs_eq_of_map (Pool.map_job_signal i p.workers)
  · funext k
    unfold Pool.runs
    rcases Nat.lt_trichotomy k p.workers.length with hk | hk | hk
    · rw [List.getElem?_append_left hk]
    · subst hk
      simp [Worker.job]
    · rw [List.getElem?_eq_none (by simp; omega), List.getElem?_eq_none (by omega)]
  · rfl

lemma Pool.runs_shutdown (p : Pool J) : p.shutdown.runs = p.runs := by
  unfold Pool.shutdown
  split_ifs
  · apply Pool.runs_eq_of_map
    change (p.workers.map Worker.wake).map Worker.job = p.workers.map Worker.job
    rw [List.map_map]
    exact List.map_congr_left fun w _ => w.job_wake
  · rfl

/-- What a worker that looks for work has done: it has taken the first job, or it has moved
without one. -/
inductive Pool.Sought (i : ℕ) (p p' : Pool J) : List (Event J) → Prop
  | idle {w : Worker J} (hjob : w.job = none) (hqueue : p'.queue = p.queue)
      (hworkers : p'.workers = p.workers.set i w) : Sought i p p' []
  | taken {j : J} {t : Bool} (hd : p.destroy = false) (hqueue : p.queue = j :: p'.queue)
      (hworkers : p'.workers = p.workers.set i (.running j t)) : Sought i p p' [.taken i j]

lemma Pool.sought_tail (i : ℕ) (t : Bool) (p : Pool J) : Pool.Sought i p (p.tail i t) [] := by
  unfold Pool.tail
  split_ifs
  · exact .idle (w := .dead) rfl rfl rfl
  · exact .idle (w := .loop t) rfl rfl rfl

lemma Pool.sought_leave (i : ℕ) (t : Bool) (k : ℤ) (p : Pool J) :
    Pool.Sought i p (Pool.leave i t (p.addIdle k)).1 (Pool.leave i t (p.addIdle k)).2 := by
  unfold Pool.leave
  split_ifs with hd
  · exact .idle (w := .dead) rfl rfl rfl
  · split
    · rename_i j rest hq
      exact .taken (by simpa [addIdle] using hd) hq rfl
    · cases Pool.sought_tail i t ((p.addIdle k).addIdle (-1)) with
      | idle hjob hqueue hworkers => exact .idle hjob hqueue hworkers

lemma Pool.sought_seek (i : ℕ) (t : Bool) (k : ℤ) (p : Pool J) :
    Pool.Sought i p (Pool.seek i t (p.addIdle k)).1 (Pool.seek i t (p.addIdle k)).2 := by
  unfold Pool.seek
  split_ifs
  · exact .idle (w := .idle .blocked none t) rfl rfl rfl
  · exact .idle (w := .idle .blocked (some (p.now + p.linger)) t) rfl rfl rfl
  · exact Pool.sought_leave i true k p
  · exact Pool.sought_leave i t k p

lemma Pool.sought_resume (i : ℕ) (expired t : Bool) (p : Pool J) :
    Pool.Sought i p (Pool.resume i expired t p).1 (Pool.resume i expired t p).2 := by
  have hleave := Pool.sought_leave i true 0 p
  have hseek := Pool.sought_seek i t 0 p
  rw [Pool.addIdle_zero] at hleave hseek
  unfold Pool.resume
  split_ifs
  · exact hleave
  · exact hseek

lemma Pool.queue_execute (job : J) (i : ℕ) (created : Bool) (p : Pool J) :
    (p.execute job i created).queue = p.queue ++ [job] := by
  unfold Pool.execute
  split_ifs <;> rfl

lemma Pool.queue_shutdown (p : Pool J) : p.shutdown.queue = p.queue := by
  unfold Pool.shutdown
  split_ifs <;> rfl

/-- The number of workers that run the job. -/
def Pool.holders [DecidableEq J] (p : Pool J) (j : J) : ℕ :=
  p.workers.countP fun w => decide (w.job = some j)

/-! ## Steps of the system -/

variable [DecidableEq J]

lemma Pool.holders_set {i : ℕ} {a b : Worker J} (hpc : p.workers[i]? = some a)
    (hw : p'.workers = p.workers.set i b) (j : J) :
    p'.holders j + (decide (a.job = some j)).toNat =
      p.holders j + (decide (b.job = some j)).toNat := by
  unfold Pool.holders
  rw [hw]
  exact countP_set_add hpc

/-- The holders of a job depend on the jobs of the workers only. -/
lemma Pool.countP_job {ws ws' : List (Worker J)} (h : ws'.map Worker.job = ws.map Worker.job)
    (j : J) : (ws'.countP fun w => decide (w.job = some j)) =
      ws.countP fun w => decide (w.job = some j) := by
  have hcount (vs : List (Worker J)) : (vs.countP fun w => decide (w.job = some j)) =
      (vs.map Worker.job).countP fun o => decide (o = some j) := by
    rw [List.countP_map]
    rfl
  rw [hcount, hcount, h]

/-- Neither a signal nor a new worker takes a job. -/
lemma Pool.holders_execute (job : J) (i : ℕ) (created : Bool) (p : Pool J) (j : J) :
    (p.execute job i created).holders j = p.holders j := by
  unfold Pool.execute Pool.holders
  split_ifs
  · exact Pool.countP_job (Pool.map_job_signal i p.workers) j
  · simp [List.countP_append, Worker.job]
  · rfl

lemma Pool.holders_shutdown (p : Pool J) (j : J) : p.shutdown.holders j = p.holders j := by
  unfold Pool.shutdown Pool.holders
  split_ifs
  · exact Pool.countP_map_wake (fun w => by rw [w.job_wake]) p.workers
  · rfl

/-- **The counters** are right after every step. -/
lemma Pool.Counted.step (h : p.Counted) (hstep : step p l = some (p', es)) : p'.Counted := by
  rcases (stepped_of_step hstep).shift with
    ⟨i, a, b, hshift⟩ | ⟨now, rfl⟩ | ⟨job, i, created, rfl⟩ | ⟨job, rfl⟩ | rfl
  · exact h.shift hshift
  · exact ⟨h.threads, h.idle, h.bound⟩
  · exact h.execute job i created
  · exact ⟨h.threads, h.idle, h.bound⟩
  · exact h.shutdown

lemma Pool.Ok.step (h : p.Ok) (hl : l.created = true) (hstay : p.abandons l = false)
    (hstep : step p l = some (p', es)) : p'.Ok := by
  cases stepped_of_step hstep with
  | tick now => exact ⟨⟨h.threads, h.idle, h.bound⟩, h.pos, h.attended, h.signalled⟩
  | execute job i created =>
      obtain rfl : created = true := hl
      exact h.execute job i
  | withdraw job => exact h.withdraw job
  | shutdown => exact h.shutdown
  | start hpc =>
      have hagain := h.again (k := 0) hpc rfl rfl false (.inr rfl)
      rwa [Pool.addIdle_zero] at hagain
  | loop hpc => exact h.seek (k := 1) hpc rfl rfl _
  | wait hpc hw _ => exact h.wait hpc hw
  | signalled hpc =>
      have hseek := h.seek (k := 0) hpc rfl rfl ‹_›
      rwa [Pool.addIdle_zero] at hseek
  | expired hpc =>
      have hleave := h.leave (k := 0) hpc rfl rfl true
      rwa [Pool.addIdle_zero] at hleave
  | finish hpc => exact h.finish hpc hstay
  | cancel hpc hd =>
      have hexit := h.exit (k := 0) hpc rfl rfl (.inl hd)
      rwa [Pool.addIdle_zero] at hexit

lemma step_min (hstep : step p l = some (p', es)) : p'.min = p.min := by
  rcases (stepped_of_step hstep).shift with
    ⟨i, a, b, hshift⟩ | ⟨now, rfl⟩ | ⟨job, i, created, rfl⟩ | ⟨job, rfl⟩ | rfl
  · exact hshift.min
  · rfl
  · exact Pool.execute_min job i created p
  · rfl
  · exact Pool.shutdown_min p

lemma step_destroy (hstep : step p l = some (p', es)) (hd : p.destroy = true) :
    p'.destroy = true := by
  rcases (stepped_of_step hstep).shift with
    ⟨i, a, b, hshift⟩ | ⟨now, rfl⟩ | ⟨job, i, created, rfl⟩ | ⟨job, rfl⟩ | rfl
  · exact hshift.destroy.trans hd
  · exact hd
  · unfold Pool.execute
    split_ifs <;> exact hd
  · exact hd
  · unfold Pool.shutdown
    split_ifs <;> rfl

end LinuxC.WorkerPool
