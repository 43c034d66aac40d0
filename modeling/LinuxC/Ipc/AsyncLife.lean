import LinuxC.Ipc.Async

/-!
# The life of an asynchronous request

An `ipc_async` goes round: idle, pending in the queue of the pool, executing in a task, idle.  If
its handle is released, it is freed where it is idle or pending, and while it is executing it is
exited, and the task frees it.  `Phase` is this cycle.

The invariant `AsyncOk` says that the fields of every `ipc_async`, the queue and the tasks agree on
the phase (`InPhase`), that an `ipc_async` and its handle point at each other until the handle is
released (`Handles`), that what is gone was freed once (`Memory`), and that no two requests are
confused and the one an `ipc_async` works on has not been replied to (`Requests`).
-/

namespace LinuxC.Ipc.Async

open WorkerPool

/-! ## Phases -/

/-- Where an `ipc_async` is in its life. -/
inductive Phase
  | free
  | idle
  | pending
  | executing
  | exited
  deriving DecidableEq, Repr

namespace Phase

/-- The state that the memory shows. -/
def state : Phase → Option ℕ
  | .free => none
  | .idle => some asyncIdle
  | .pending => some asyncPending
  | .executing => some asyncExecuting
  | .exited => some (asyncExecuting ||| asyncExited)

/-- How often the `ipc_async` is in the queue. -/
def queued : Phase → ℕ
  | .pending => 1
  | _ => 0

/-- How many tasks hold the `ipc_async`. -/
def held : Phase → ℕ
  | .executing => 1
  | .exited => 1
  | _ => 0

lemma state_inj {φ ψ : Phase} (h : φ.state = ψ.state) : φ = ψ := by
  cases φ <;> cases ψ <;> first | rfl | exact absurd h (by decide)

end Phase

/-- The memory, the queue and the tasks agree that the `ipc_async` is in the phase. -/
structure InPhase (s : State) (a : Ptr) (φ : Phase) : Prop where
  state : (s.async a).map IpcAsync.state = φ.state
  msg : ∀ x, s.async a = some x → (x.msg = none ↔ φ = .idle)
  sevr : ∀ x, s.async a = some x → (x.sevr = none ↔ φ = .exited)
  queued : s.pool.queue.count a = φ.queued
  held : s.pool.holders a = φ.held

/-- The `ipc_async` points at the handle. -/
def Points (s : State) (a h : Ptr) : Prop := ∃ x, s.async a = some x ∧ x.sevr = some h

/-- The request on which an `ipc_async` works. -/
def Works (s : State) (a : Ptr) (r : ℕ) : Prop :=
  ∃ x, s.async a = some x ∧ x.state ≠ asyncIdle ∧ x.request = r

/-- An `ipc_async` and its handle point at each other until the handle is released. -/
structure Handles (s : State) : Prop where
  points : ∀ a h, Points s a h ↔ s.sevr h = some ⟨some a, false⟩
  fresh : ∀ h, s.sevrs ≤ h → s.sevr h = none

/-- What is gone was freed, once: behind `brk` nothing was ever allocated, and of what was allocated
either the memory is there or its address is in `freed`, never twice. -/
structure Memory (s : State) : Prop where
  brk : ∀ a, s.brk ≤ a → s.async a = none
  freed : ∀ a, a ∈ s.freed ↔ a < s.brk ∧ s.async a = none
  once : s.freed.Nodup

/-- Requests are not confused, and those that are worked on have not been replied to. -/
structure Requests (s : State) : Prop where
  works : ∀ a r, Works s a r → r < s.requests ∧ r ∉ s.replied
  distinct : ∀ a b r, Works s a r → Works s b r → a = b
  once : s.replied.Nodup
  accepted : ∀ r ∈ s.replied, r < s.requests

/-- **The invariant of the server and its pool**: nothing was used after it was freed, every
`ipc_async` is in one of the phases of its life, and the records of the handles, of the memory and
of the requests agree with that. -/
structure AsyncOk (s : State) : Prop where
  fault : s.fault = false
  phase : ∀ a, ∃ φ, InPhase s a φ
  handles : Handles s
  memory : Memory s
  requests : Requests s

variable {s s' : State} {a : Ptr} {φ ψ : Phase} {x : IpcAsync} {x' : Option IpcAsync}

/-! ## Rules for the parts -/

lemma AsyncOk.inPhase (h : AsyncOk s) (hstate : (s.async a).map IpcAsync.state = φ.state) :
    InPhase s a φ := by
  obtain ⟨ψ, hψ⟩ := h.phase a
  obtain rfl : ψ = φ := Phase.state_inj (hψ.state.symm.trans hstate)
  exact hψ

lemma InPhase.congr (h : InPhase s a φ) (hasync : s'.async a = s.async a)
    (hqueue : s'.pool.queue.count a = s.pool.queue.count a)
    (hheld : s'.pool.holders a = s.pool.holders a) : InPhase s' a φ := by
  refine ⟨?_, ?_, ?_, hqueue.trans h.queued, hheld.trans h.held⟩
  · rw [hasync]
    exact h.state
  · rw [hasync]
    exact h.msg
  · rw [hasync]
    exact h.sevr

lemma inPhase_free (hnone : s.async a = none) (hqueue : s.pool.queue.count a = 0)
    (hheld : s.pool.holders a = 0) : InPhase s a .free := by
  refine ⟨?_, ?_, ?_, hqueue, hheld⟩
  · rw [hnone]
    rfl
  · simp [hnone]
  · simp [hnone]

/-- The phases of all others stay when only the memory at `a` is written. -/
lemma phase_set (h : ∀ b, ∃ φ, InPhase s b φ)
    (hset : ∀ b, s'.async b = if b = a then x' else s.async b) (hself : InPhase s' a φ)
    (hqueue : ∀ b, b ≠ a → s'.pool.queue.count b = s.pool.queue.count b)
    (hheld : ∀ b, b ≠ a → s'.pool.holders b = s.pool.holders b) :
    ∀ b, ∃ φ, InPhase s' b φ := by
  intro b
  by_cases hb : b = a
  · subst hb
    exact ⟨φ, hself⟩
  · obtain ⟨ψ, hψ⟩ := h b
    have hsame : s'.async b = s.async b := by rw [hset, if_neg hb]
    exact ⟨ψ, hψ.congr hsame (hqueue b hb) (hheld b hb)⟩

/-- The memory at `a` is written, and what it says of the handle stays. -/
lemma points_set (hset : ∀ b, s'.async b = if b = a then x' else s.async b)
    (hsevr : x'.bind IpcAsync.sevr = (s.async a).bind IpcAsync.sevr) (b h : Ptr) :
    Points s' b h ↔ Points s b h := by
  have hiff : ∀ t : State, Points t b h ↔ (t.async b).bind IpcAsync.sevr = some h := by
    intro t
    simp [Points, Option.bind_eq_some_iff]
  rw [hiff, hiff, hset]
  split_ifs with hb
  · rw [hsevr, hb]
  · rfl

lemma Handles.congr (h : Handles s) (hpoints : ∀ b g, Points s' b g ↔ Points s b g)
    (hsevr : s'.sevr = s.sevr) (hsevrs : s'.sevrs = s.sevrs) : Handles s' := by
  refine ⟨fun b g => ?_, fun g hg => ?_⟩
  · rw [hpoints, hsevr]
    exact h.points b g
  · rw [hsevr]
    exact h.fresh g (hsevrs ▸ hg)

lemma Memory.congr (h : Memory s) (hnone : ∀ b, s'.async b = none ↔ s.async b = none)
    (hbrk : s'.brk = s.brk) (hfreed : s'.freed = s.freed) : Memory s' := by
  refine ⟨fun b hb => ?_, fun b => ?_, ?_⟩
  · rw [hnone]
    exact h.brk b (hbrk ▸ hb)
  · rw [hfreed, hbrk, hnone]
    exact h.freed b
  · rw [hfreed]
    exact h.once

lemma Memory.free (h : Memory s) (hx : s.async a = some x)
    (hset : ∀ b, s'.async b = if b = a then none else s.async b) (hbrk : s'.brk = s.brk)
    (hfreed : s'.freed = s.freed ++ [a]) : Memory s' := by
  have hnew : a ∉ s.freed := by
    intro hmem
    have hnone := ((h.freed a).mp hmem).2
    rw [hx] at hnone
    cases hnone
  have hlt : a < s.brk := by
    by_contra hge
    have hnone := h.brk a (Nat.le_of_not_lt hge)
    rw [hx] at hnone
    cases hnone
  refine ⟨fun b hb => ?_, fun b => ?_, ?_⟩
  · rw [hset]
    split_ifs
    · rfl
    · exact h.brk b (hbrk ▸ hb)
  · rw [hfreed, hbrk, hset, List.mem_append, List.mem_singleton, h.freed b]
    split_ifs with hb
    · simp [hb, hlt]
    · simp [hb]
  · rw [hfreed]
    refine List.nodup_append.mpr ⟨h.once, by simp, fun b hb c hc => ?_⟩
    rintro rfl
    exact hnew (List.mem_singleton.mp hc ▸ hb)

lemma none_iff_set (hx : s.async a = some x) {y : IpcAsync}
    (hset : ∀ b, s'.async b = if b = a then some y else s.async b) (b : Ptr) :
    s'.async b = none ↔ s.async b = none := by
  rw [hset]
  split_ifs with hb
  · simp [hb, hx]
  · rfl

lemma Requests.mono (h : Requests s) (hworks : ∀ b r, Works s' b r → Works s b r)
    (hrequests : s'.requests = s.requests) (hreplied : s'.replied = s.replied) :
    Requests s' := by
  refine ⟨fun b r hw => ?_, fun b c r hb hc => ?_, ?_, ?_⟩
  · rw [hrequests, hreplied]
    exact h.works b r (hworks b r hw)
  · exact h.distinct b c r (hworks b r hb) (hworks c r hc)
  · rw [hreplied]
    exact h.once
  · rw [hrequests, hreplied]
    exact h.accepted

lemma works_set (hset : ∀ b, s'.async b = if b = a then x' else s.async b) {b : Ptr} {r : ℕ}
    (h : Works s' b r) :
    (b = a ∧ ∃ y, x' = some y ∧ y.state ≠ asyncIdle ∧ y.request = r) ∨ b ≠ a ∧ Works s b r := by
  obtain ⟨y, hy, hstate, hr⟩ := h
  rw [hset] at hy
  split_ifs at hy with hb
  · exact .inl ⟨hb, y, hy, hstate, hr⟩
  · exact .inr ⟨hb, y, hy, hstate, hr⟩

lemma Requests.accept (h : Requests s) {y : IpcAsync}
    (hset : ∀ b, s'.async b = if b = a then some y else s.async b)
    (hy : y.request = s.requests) (hrequests : s'.requests = s.requests + 1)
    (hreplied : s'.replied = s.replied) : Requests s' := by
  have hnew : ∀ b r, Works s' b r → b = a ∧ r = s.requests ∨ Works s b r := by
    intro b r hw
    rcases works_set hset hw with ⟨hb, z, hz, -, hr⟩ | ⟨-, hw⟩
    · obtain rfl := Option.some.inj hz
      exact .inl ⟨hb, hr.symm.trans hy⟩
    · exact .inr hw
  have hlt : ∀ b r, Works s b r → r < s.requests := fun b r hw => (h.works b r hw).1
  refine ⟨fun b r hw => ?_, fun b c r hb hc => ?_, ?_, fun r hr => ?_⟩
  · rw [hrequests, hreplied]
    rcases hnew b r hw with ⟨-, rfl⟩ | hw
    · exact ⟨Nat.lt_succ_self _, fun hmem => absurd (h.accepted _ hmem) (Nat.lt_irrefl _)⟩
    · exact ⟨Nat.lt_succ_of_lt (hlt b r hw), (h.works b r hw).2⟩
  · rcases hnew b r hb with ⟨rfl, rfl⟩ | hb
    · rcases hnew c _ hc with ⟨rfl, -⟩ | hc
      · rfl
      · exact absurd (hlt c _ hc) (Nat.lt_irrefl _)
    · rcases hnew c r hc with ⟨-, rfl⟩ | hc
      · exact absurd (hlt b _ hb) (Nat.lt_irrefl _)
      · exact h.distinct b c r hb hc
  · rw [hreplied]
    exact h.once
  · rw [hrequests]
    exact Nat.lt_succ_of_lt (h.accepted r (hreplied ▸ hr))

/-- The request of `a` is replied to, and `a` works on nothing afterwards. -/
lemma Requests.reply (h : Requests s) (hx : s.async a = some x) (hbusy : x.state ≠ asyncIdle)
    {y : IpcAsync} (hset : ∀ b, s'.async b = if b = a then some y else s.async b)
    (hy : y.state = asyncIdle) (hrequests : s'.requests = s.requests)
    (hreplied : s'.replied = s.replied ++ [x.request]) : Requests s' := by
  have hwork : Works s a x.request := ⟨x, hx, hbusy, rfl⟩
  have hrest : ∀ b r, Works s' b r → b ≠ a ∧ Works s b r := by
    intro b r hw
    rcases works_set hset hw with ⟨-, z, hz, hz', -⟩ | hw
    · obtain rfl := Option.some.inj hz
      exact absurd hy hz'
    · exact hw
  refine ⟨fun b r hw => ?_, fun b c r hb hc => ?_, ?_, fun r hr => ?_⟩
  · obtain ⟨hb, hw⟩ := hrest b r hw
    obtain ⟨hlt, hnew⟩ := h.works b r hw
    rw [hrequests, hreplied, List.mem_append, List.mem_singleton]
    refine ⟨hlt, not_or.mpr ⟨hnew, ?_⟩⟩
    rintro rfl
    exact hb (h.distinct b a _ hw hwork)
  · exact h.distinct b c r (hrest b r hb).2 (hrest c r hc).2
  · rw [hreplied]
    refine List.nodup_append.mpr ⟨h.once, by simp, fun r hr c hc => ?_⟩
    rintro rfl
    rw [List.mem_singleton.mp hc] at hr
    exact (h.works a _ hwork).2 hr
  · rw [hreplied, List.mem_append, List.mem_singleton] at hr
    rw [hrequests]
    rcases hr with hr | rfl
    · exact h.accepted r hr
    · exact (h.works a _ hwork).1

/-! ## Changes of the pool alone -/

/-- The queue and the tasks hold the same, whatever else has changed in the pool. -/
structure SameJobs (p p' : Pool Ptr) : Prop where
  queue : p'.queue = p.queue
  held : ∀ a, p'.holders a = p.holders a

lemma AsyncOk.pool (h : AsyncOk s) {p : Pool Ptr} (hp : SameJobs s.pool p) :
    AsyncOk { s with pool := p } := by
  refine ⟨h.fault, fun a => ?_, h.handles.congr (fun _ _ => Iff.rfl) rfl rfl,
    h.memory.congr (fun _ => Iff.rfl) rfl rfl, h.requests.mono (fun _ _ hw => hw) rfl rfl⟩
  obtain ⟨φ, hφ⟩ := h.phase a
  refine ⟨φ, hφ.congr rfl ?_ (hp.held a)⟩
  change p.queue.count a = s.pool.queue.count a
  rw [hp.queue]

lemma sameJobs_set {p p' : Pool Ptr} {i : ℕ} {w w' : Worker Ptr} (hpc : p.workers[i]? = some w)
    (hqueue : p'.queue = p.queue) (hworkers : p'.workers = p.workers.set i w')
    (hjob : w'.job = w.job) : SameJobs p p' := by
  refine ⟨hqueue, fun a => ?_⟩
  have hset := Pool.holders_set hpc hworkers a
  rw [hjob] at hset
  omega

/-! ## The core thread -/

lemma AsyncOk.connect (h : AsyncOk s) : AsyncOk (ipcServerCreate s) := by
  have hfresh : s.sevr s.sevrs = none := h.handles.fresh _ (Nat.le_refl _)
  refine ⟨h.fault, fun b => (h.phase b).imp fun _ hφ => hφ.congr rfl rfl rfl,
    ⟨fun b g => ?_, fun g hg => ?_⟩, h.memory.congr (fun _ => Iff.rfl) rfl rfl,
    h.requests.mono (fun _ _ hw => hw) rfl rfl⟩
  · change Points s b g ↔ (if g = s.sevrs then _ else s.sevr g) = _
    rw [h.handles.points]
    split_ifs with hg
    · simp [hg, hfresh]
    · rfl
  · change s.sevrs + 1 ≤ g at hg
    change (if g = s.sevrs then _ else s.sevr g) = none
    rw [if_neg (by rintro rfl; exact absurd hg (Nat.not_succ_le_self _))]
    exact h.handles.fresh g (Nat.le_of_succ_le hg)

lemma AsyncOk.bind (h : AsyncOk s) {g : Ptr} (hg : s.sevr g = some ⟨none, false⟩) :
    AsyncOk ((ipcAsyncAlloc g s).setSevr g (some ⟨some s.brk, false⟩)) := by
  have hnone : s.async s.brk = none := h.memory.brk _ (Nat.le_refl _)
  have hfree : InPhase s s.brk .free := h.inPhase (by rw [hnone]; rfl)
  have hset : ∀ b, ((ipcAsyncAlloc g s).setSevr g (some ⟨some s.brk, false⟩)).async b =
      if b = s.brk then some ⟨0, none, none, asyncIdle, some g, none, 0⟩ else s.async b :=
    fun b => rfl
  refine ⟨h.fault, phase_set h.phase hset (φ := .idle) ?_ (fun _ _ => rfl) (fun _ _ => rfl),
    ⟨fun b k => ?_, fun k hk => ?_⟩, ⟨fun b hb => ?_, fun b => ?_, h.memory.once⟩,
    h.requests.mono (fun b r hw => ?_) rfl rfl⟩
  · refine ⟨?_, fun y hy => ?_, fun y hy => ?_, hfree.queued, hfree.held⟩
    · rw [hset, if_pos rfl]
      rfl
    · rw [hset, if_pos rfl] at hy
      obtain rfl := Option.some.inj hy
      simp
    · rw [hset, if_pos rfl] at hy
      obtain rfl := Option.some.inj hy
      simp
  · change (∃ y : IpcAsync, _ = some y ∧ y.sevr = some k) ↔ (if k = g then _ else s.sevr k) = _
    rw [hset]
    have hold := h.handles.points b k
    by_cases hb : b = s.brk
    · subst hb
      have hpoints : ¬ Points s s.brk k := by
        rintro ⟨y, hy, -⟩
        rw [hnone] at hy
        cases hy
      by_cases hk : k = g
      · simp [hk]
      · simp [hk, Ne.symm hk, ← hold, hpoints]
    · rw [if_neg hb]
      by_cases hk : k = g
      · subst hk
        simp only [if_true, Option.some.injEq, Requester.mk.injEq, and_true]
        refine ⟨fun hp => absurd (hold.mp hp) ?_, fun hp => absurd hp.symm hb⟩
        simp [hg]
      · rw [if_neg hk]
        exact hold
  · change (if k = g then _ else s.sevr k) = none
    rw [if_neg]
    · exact h.handles.fresh k hk
    · rintro rfl
      have hnone := h.handles.fresh k hk
      rw [hg] at hnone
      cases hnone
  · change s.brk + 1 ≤ b at hb
    rw [hset, if_neg (by rintro rfl; exact absurd hb (Nat.not_succ_le_self _))]
    exact h.memory.brk b (Nat.le_of_succ_le hb)
  · change b ∈ s.freed ↔ b < s.brk + 1 ∧ _
    rw [hset, h.memory.freed b]
    split_ifs with hb
    · simp [hb]
    · have hlt : b < s.brk + 1 ↔ b < s.brk := by
        rw [Nat.lt_succ_iff_lt_or_eq]
        simp [hb]
      rw [hlt]
  · rcases works_set hset hw with ⟨-, y, hy, hstate, -⟩ | ⟨-, hw⟩
    · obtain rfl := Option.some.inj hy
      exact absurd rfl hstate
    · exact hw

lemma AsyncOk.execute (h : AsyncOk s) {r : Request} (hx : s.async a = some x)
    (hidle : x.state = asyncIdle) (wake : ℕ) (created : Bool) :
    AsyncOk { s.setAsync a (some { x.fill r with msg := some r.msg, request := s.requests }) with
      pool := s.pool.execute a wake created
      requests := s.requests + 1 } := by
  have hphase : InPhase s a .idle := h.inPhase (by rw [hx, Option.map_some, hidle]; rfl)
  have hpoints : x.sevr ≠ none := by simp [(hphase.sevr x hx)]
  refine ⟨h.fault, phase_set (a := a) h.phase (fun _ => rfl) (φ := .pending) ?_ (fun b hb => ?_)
    (fun b _ => Pool.holders_execute a wake created s.pool b),
    h.handles.congr (points_set (a := a) (fun _ => rfl) ?_) rfl rfl,
    h.memory.congr (none_iff_set hx fun _ => rfl) rfl rfl, ?_⟩
  · refine ⟨?_, fun y hy => ?_, fun y hy => ?_, ?_, ?_⟩
    · simp [State.setAsync, IpcAsync.fill, Phase.state]
    · obtain rfl : _ = y := by simpa [State.setAsync] using hy
      simp
    · obtain rfl : _ = y := by simpa [State.setAsync] using hy
      simpa [IpcAsync.fill] using hpoints
    · change (s.pool.execute a wake created).queue.count a = 1
      rw [Pool.queue_execute, List.count_append, hphase.queued]
      simp [Phase.queued]
    · change (s.pool.execute a wake created).holders a = 0
      rw [Pool.holders_execute, hphase.held]
      rfl
  · change (s.pool.execute a wake created).queue.count b = _
    rw [Pool.queue_execute, List.count_append, List.count_singleton]
    simp [Ne.symm hb]
  · rw [hx]
    rfl
  · exact h.requests.accept (a := a) (fun _ => rfl) rfl rfl rfl

/-- The handle of `a` is released: nothing points at it from now on. -/
lemma Handles.release (h : Handles s) {g : Ptr} (hg : s.sevr g = some ⟨some a, false⟩)
    (hset : ∀ b, s'.async b = if b = a then x' else s.async b)
    (hnone : x'.bind IpcAsync.sevr = none)
    (hsevr : ∀ k, s'.sevr k = if k = g then some ⟨some a, true⟩ else s.sevr k)
    (hsevrs : s'.sevrs = s.sevrs) : Handles s' := by
  refine ⟨fun b k => ?_, fun k hk => ?_⟩
  · have hold := h.points b k
    rw [hsevr]
    constructor
    · rintro ⟨y, hy, hk⟩
      rw [hset] at hy
      split_ifs at hy with hb
      · rw [hy, Option.bind_some, hk] at hnone
        cases hnone
      · have hp := hold.mp ⟨y, hy, hk⟩
        rw [if_neg]
        · exact hp
        · rintro rfl
          rw [hg] at hp
          cases hp
          exact hb rfl
    · intro hp
      split_ifs at hp with hk
      · cases hp
      · obtain ⟨y, hy, hyk⟩ := hold.mpr hp
        refine ⟨y, ?_, hyk⟩
        rw [hset, if_neg]
        · exact hy
        · rintro rfl
          have hback := (h.points b g).mpr hg
          obtain ⟨z, hz, hzg⟩ := hback
          obtain rfl := Option.some.inj (hy.symm.trans hz)
          exact hk (Option.some.inj (hyk.symm.trans hzg))
  · rw [hsevr, if_neg]
    · exact h.fresh k (hsevrs ▸ hk)
    · rintro rfl
      have hfresh := h.fresh k (hsevrs ▸ hk)
      rw [hg] at hfresh
      cases hfresh

/-- A handle without an `ipc_async` is released, or a released one is closed. -/
lemma AsyncOk.setSevr (h : AsyncOk s) {g : Ptr} {r : Option Requester} (hnew : s.sevr g ≠ none)
    (hold : ∀ b, s.sevr g ≠ some ⟨some b, false⟩) (hr : ∀ b, r ≠ some ⟨some b, false⟩) :
    AsyncOk (s.setSevr g r) := by
  refine ⟨h.fault, fun b => (h.phase b).imp fun _ hφ => hφ.congr rfl rfl rfl,
    ⟨fun b k => ?_, fun k hk => ?_⟩, h.memory.congr (fun _ => Iff.rfl) rfl rfl,
    h.requests.mono (fun _ _ hw => hw) rfl rfl⟩
  · change Points s b k ↔ (if k = g then r else s.sevr k) = _
    rw [h.handles.points]
    split_ifs with hk
    · subst hk
      simp [hold b, hr b]
    · rfl
  · change (if k = g then r else s.sevr k) = none
    rw [if_neg]
    · exact h.handles.fresh k hk
    · rintro rfl
      exact hnew (h.handles.fresh k hk)

lemma Requests.drop (h : Requests s) (hset : ∀ b, s'.async b = if b = a then x' else s.async b)
    (hidle : ∀ y, x' = some y → y.state = asyncIdle) (hrequests : s'.requests = s.requests)
    (hreplied : s'.replied = s.replied) : Requests s' := by
  refine h.mono (fun b r hw => ?_) hrequests hreplied
  rcases works_set hset hw with ⟨-, y, hy, hstate, -⟩ | ⟨-, hw⟩
  · exact absurd (hidle y hy) hstate
  · exact hw

/-- What no task holds is taken out of the queue and freed, with the handle released. -/
lemma AsyncOk.freeAsync (h : AsyncOk s) {g : Ptr} (hx : s.async a = some x)
    (hg : s.sevr g = some ⟨some a, false⟩) (hheld : s.pool.holders a = 0) {q : List Ptr}
    (hself : q.count a = 0) (hqueue : ∀ b, b ≠ a → q.count b = s.pool.queue.count b) :
    AsyncOk ((({ s with pool := { s.pool with queue := q } }).freeAsync a).setSevr g
      (some ⟨some a, true⟩)) := by
  refine ⟨h.fault, phase_set (a := a) h.phase (fun _ => rfl) (φ := .free) ?_ hqueue
    (fun _ _ => rfl), h.handles.release hg (fun _ => rfl) rfl (fun _ => rfl) rfl,
    h.memory.free hx (fun _ => rfl) rfl rfl,
    h.requests.drop (a := a) (fun _ => rfl) (by simp) rfl rfl⟩
  exact inPhase_free (if_pos rfl) hself hheld

lemma AsyncOk.exitAsync (h : AsyncOk s) {g : Ptr} (hx : s.async a = some x)
    (hg : s.sevr g = some ⟨some a, false⟩) (hstate : x.state = asyncExecuting) :
    AsyncOk ((s.setAsync a (some { x with
      state := x.state ||| asyncExited, sevr := none })).setSevr g (some ⟨some a, true⟩)) := by
  have hphase : InPhase s a .executing := h.inPhase (by rw [hx, Option.map_some, hstate]; rfl)
  refine ⟨h.fault, phase_set (a := a) h.phase (fun _ => rfl) (φ := .exited) ?_ (fun _ _ => rfl)
    (fun _ _ => rfl), h.handles.release hg (fun _ => rfl) rfl (fun _ => rfl) rfl,
    h.memory.congr (none_iff_set hx fun _ => rfl) rfl rfl, h.requests.mono (fun b r hw => ?_)
    rfl rfl⟩
  · have hself : ((s.setAsync a (some { x with
        state := x.state ||| asyncExited, sevr := none })).setSevr g
        (some ⟨some a, true⟩)).async a = some { x with
          state := x.state ||| asyncExited, sevr := none } := if_pos rfl
    refine ⟨?_, fun y hy => ?_, fun y hy => ?_, hphase.queued, hphase.held⟩
    · rw [hself, Option.map_some, hstate]
      rfl
    · obtain rfl := Option.some.inj (hself.symm.trans hy)
      simpa using hphase.msg x hx
    · obtain rfl := Option.some.inj (hself.symm.trans hy)
      simp
  · rcases works_set (a := a) (fun _ => rfl) hw with ⟨rfl, y, hy, -, hr⟩ | ⟨-, hw⟩
    · obtain rfl := Option.some.inj hy
      refine ⟨x, hx, ?_, hr⟩
      rw [hstate]
      decide
    · exact hw

/-- **The core thread releases a handle**, whatever is going on with its request. -/
lemma AsyncOk.release (h : AsyncOk s) {g : Ptr} {c : Option Ptr}
    (hg : s.sevr g = some ⟨c, false⟩) : AsyncOk (ipcRelease g s).1 := by
  unfold ipcRelease
  rw [hg]
  cases c with
  | none =>
      refine h.setSevr ?_ (fun b => ?_) (fun b => ?_)
      · simp [hg]
      · simp [hg]
      · simp
  | some a =>
      obtain ⟨x, hx, -⟩ := (h.handles.points a g).mpr hg
      obtain ⟨φ, hφ⟩ := h.phase a
      have hstate := hφ.state
      rw [hx, Option.map_some] at hstate
      simp only [ipcAsyncRelease, hx]
      cases φ with
      | free => cases hstate
      | idle =>
          have hidle : x.state = asyncIdle := Option.some.inj hstate
          rw [if_neg (by rw [hidle]; decide), if_pos hidle]
          exact h.freeAsync hx hg hφ.held hφ.queued fun _ _ => rfl
      | pending =>
          have hpending : x.state = asyncPending := Option.some.inj hstate
          rw [if_pos hpending]
          refine h.freeAsync hx hg hφ.held ?_ fun b hb => List.count_erase_of_ne hb
          rw [List.count_erase_self, hφ.queued]
          rfl
      | executing =>
          have hexecuting : x.state = asyncExecuting := Option.some.inj hstate
          rw [if_neg (by rw [hexecuting]; decide), if_neg (by rw [hexecuting]; decide),
            if_pos hexecuting]
          exact h.exitAsync hx hg hexecuting
      | exited =>
          -- an exited `ipc_async` has no handle to be released
          obtain ⟨y, hy, hyg⟩ := (h.handles.points a g).mpr hg
          rw [(hφ.sevr y hy).mpr rfl] at hyg
          cases hyg

/-! ## The tasks -/

lemma AsyncOk.take (h : AsyncOk s) {i : ℕ} {w : Worker Ptr} {t : Bool} {p : Pool Ptr}
    (hpc : s.pool.workers[i]? = some w) (hw : w.job = none) (hqueue : s.pool.queue = a :: p.queue)
    (hworkers : p.workers = s.pool.workers.set i (.running a t)) :
    AsyncOk { takeAsync a s with pool := p } := by
  have hcount : s.pool.queue.count a = p.queue.count a + 1 := by
    rw [hqueue, List.count_cons_self]
  have hholders : ∀ b, p.holders b = s.pool.holders b + (decide (a = b)).toNat := by
    intro b
    have hset := Pool.holders_set hpc hworkers b
    rw [hw] at hset
    simpa [Worker.job] using hset
  obtain ⟨φ, hφ⟩ := h.phase a
  obtain rfl : φ = .pending := by
    have hqueued := hφ.queued
    rw [hcount] at hqueued
    cases φ with
    | pending => rfl
    | free | idle | executing | exited => cases hqueued
  obtain ⟨x, hx, hstate⟩ := Option.map_eq_some_iff.mp hφ.state
  have htake : takeAsync a s = s.setAsync a (some { x with state := asyncExecuting }) := by
    simp only [takeAsync, hx]
  rw [htake]
  refine ⟨h.fault, phase_set (a := a) h.phase (fun _ => rfl) (φ := .executing) ?_
    (fun b hb => ?_) (fun b hb => ?_),
    h.handles.congr (points_set (a := a) (fun _ => rfl) ?_) rfl rfl,
    h.memory.congr (none_iff_set hx fun _ => rfl) rfl rfl, h.requests.mono (fun b r hw => ?_)
    rfl rfl⟩
  · refine ⟨?_, fun y hy => ?_, fun y hy => ?_, ?_, ?_⟩
    · simp [State.setAsync, Phase.state]
    · obtain rfl : _ = y := by simpa [State.setAsync] using hy
      simpa using hφ.msg x hx
    · obtain rfl : _ = y := by simpa [State.setAsync] using hy
      simpa using hφ.sevr x hx
    · change p.queue.count a = 0
      have hqueued := hφ.queued
      rw [hcount] at hqueued
      exact Nat.succ.inj hqueued
    · change p.holders a = 1
      rw [hholders, hφ.held, decide_eq_true rfl]
      rfl
  · change p.queue.count b = s.pool.queue.count b
    rw [hqueue, List.count_cons_of_ne (Ne.symm hb)]
  · change p.holders b = s.pool.holders b
    rw [hholders, decide_eq_false (Ne.symm hb)]
    rfl
  · rw [hx]
    rfl
  · rcases works_set (a := a) (fun _ => rfl) hw with ⟨rfl, y, hy, -, hr⟩ | ⟨-, hw⟩
    · obtain rfl := Option.some.inj hy
      refine ⟨x, hx, ?_, hr⟩
      rw [hstate]
      decide
    · exact hw

lemma AsyncOk.serve (h : AsyncOk s) {i : ℕ} {w : Worker Ptr}
    (hpc : s.pool.workers[i]? = some w) (hw : w.job = none)
    {r : Pool Ptr × List (WorkerPool.Event Ptr)} (hr : Pool.Sought i s.pool r.1 r.2) :
    AsyncOk (s.serve r) := by
  obtain ⟨p, es⟩ := r
  cases hr with
  | idle hjob hqueue hworkers =>
      exact h.pool (sameJobs_set hpc hqueue hworkers (hjob.trans hw.symm))
  | taken _ hqueue hworkers => exact h.take hpc hw hqueue hworkers

/-- What a task holds is being executed, and may have been marked. -/
lemma AsyncOk.running (h : AsyncOk s) {i : ℕ} {t : Bool}
    (hpc : s.pool.workers[i]? = some (.running a t)) :
    InPhase s a .executing ∨ InPhase s a .exited := by
  have hpos : 0 < s.pool.holders a :=
    countP_pos_of_mem (List.mem_of_getElem? hpc) (decide_eq_true rfl)
  obtain ⟨φ, hφ⟩ := h.phase a
  rw [hφ.held] at hpos
  cases φ with
  | executing => exact .inl hφ
  | exited => exact .inr hφ
  | free | idle | pending => cases hpos

/-- `ipc_async_cleanup` for what has not been marked: there is a message and a handle. -/
lemma AsyncOk.cleanup_executing (h : AsyncOk s) (hphase : InPhase s a .executing) (msg : IpcMsg) :
    ∃ x g, s.async a = some x ∧ x.state = asyncExecuting ∧
      s.sevr g = some ⟨some a, false⟩ ∧
      ipcAsyncCleanup a msg s =
        if msg.flags &&& ipcFlagReply ≠ 0 then
          ({ s.setAsync a (some { x with
              msg := none, state := asyncIdle, func := none, release := none }) with
            replied := s.replied ++ [x.request] }, [.reply g x.request])
        else
          (s.setAsync a (some { x with
            msg := none, state := asyncIdle, func := none, release := none }), []) := by
  obtain ⟨x, hx, hstate⟩ := Option.map_eq_some_iff.mp hphase.state
  have hmsg : x.msg ≠ none := fun hnone => absurd ((hphase.msg x hx).mp hnone) (by decide)
  have hsevr : x.sevr ≠ none := fun hnone => absurd ((hphase.sevr x hx).mp hnone) (by decide)
  obtain ⟨m, hm⟩ := Option.ne_none_iff_exists'.mp hmsg
  obtain ⟨g, hg⟩ := Option.ne_none_iff_exists'.mp hsevr
  have hbit : ¬ x.state &&& asyncExited ≠ 0 := by
    rw [hstate]
    decide
  refine ⟨x, g, hx, hstate, (h.handles.points a g).mp ⟨x, hx, hg⟩, ?_⟩
  simp only [ipcAsyncCleanup, hx, if_neg hbit, hm, hg]
  rfl

lemma cleanup_exited (hphase : InPhase s a .exited) (msg : IpcMsg) :
    ipcAsyncCleanup a msg s = (s.freeAsync a, []) := by
  obtain ⟨x, hx, hstate⟩ := Option.map_eq_some_iff.mp hphase.state
  have hbit : x.state &&& asyncExited ≠ 0 := by
    rw [hstate]
    decide
  simp only [ipcAsyncCleanup, hx, if_pos hbit]

/-- **A task is done with an `ipc_async`**, whether or not the handle has been released. -/
lemma AsyncOk.cleanup (h : AsyncOk s) {i : ℕ} {t : Bool} {w : Worker Ptr} {p : Pool Ptr}
    (hpc : s.pool.workers[i]? = some (.running a t)) (hw : w.job = none)
    (hqueue : p.queue = s.pool.queue) (hworkers : p.workers = s.pool.workers.set i w)
    (msg : IpcMsg) : AsyncOk { (ipcAsyncCleanup a msg s).1 with pool := p } := by
  have hholders : ∀ b, p.holders b + (decide (a = b)).toNat = s.pool.holders b := by
    intro b
    have hset := Pool.holders_set hpc hworkers b
    rw [hw] at hset
    simpa [Worker.job] using hset
  have hothers : ∀ b, b ≠ a → p.holders b = s.pool.holders b := by
    intro b hb
    rw [← hholders b, decide_eq_false (Ne.symm hb)]
    rfl
  have hself : s.pool.holders a = 1 → p.holders a = 0 := by
    intro hone
    have hadd := hholders a
    rw [decide_eq_true rfl, hone] at hadd
    exact Nat.succ.inj hadd
  have hcount : ∀ b, p.queue.count b = s.pool.queue.count b := fun b => by rw [hqueue]
  rcases h.running hpc with hφ | hφ
  · obtain ⟨x, g, hx, hstate, hg, heq⟩ := h.cleanup_executing hφ msg
    have hbusy : x.state ≠ asyncIdle := by
      rw [hstate]
      decide
    have hphase : ∀ {s' : State}, (∀ b, s'.async b = if b = a then some { x with
        msg := none, state := asyncIdle, func := none, release := none } else s.async b) →
        s'.pool = p → InPhase s' a .idle := by
      intro s' hset hpool
      have hnew := (hset a).trans (if_pos rfl)
      refine ⟨by rw [hnew]; rfl, fun y hy => ?_, fun y hy => ?_, ?_, ?_⟩
      · obtain rfl := Option.some.inj (hnew.symm.trans hy)
        simp
      · obtain rfl := Option.some.inj (hnew.symm.trans hy)
        simpa using hφ.sevr x hx
      · rw [hpool, hcount, hφ.queued]
        rfl
      · rw [hpool]
        exact hself hφ.held
    rw [heq]
    split_ifs
    · refine ⟨h.fault, phase_set h.phase (fun _ => rfl) (hphase (fun _ => rfl) rfl)
        (fun b _ => hcount b) hothers,
        h.handles.congr (points_set (a := a) (fun _ => rfl) ?_) rfl rfl,
        h.memory.congr (none_iff_set hx fun _ => rfl) rfl rfl,
        h.requests.reply hx hbusy (fun _ => rfl) rfl rfl rfl⟩
      rw [hx]
      rfl
    · refine ⟨h.fault, phase_set h.phase (fun _ => rfl) (hphase (fun _ => rfl) rfl)
        (fun b _ => hcount b) hothers,
        h.handles.congr (points_set (a := a) (fun _ => rfl) ?_) rfl rfl,
        h.memory.congr (none_iff_set hx fun _ => rfl) rfl rfl,
        h.requests.drop (a := a) (fun _ => rfl) ?_ rfl rfl⟩
      · rw [hx]
        rfl
      · rintro y hy
        obtain rfl := Option.some.inj hy
        rfl
  · obtain ⟨x, hx, -⟩ := Option.map_eq_some_iff.mp hφ.state
    rw [cleanup_exited hφ]
    refine ⟨h.fault, phase_set (a := a) h.phase (fun _ => rfl) (φ := .free) ?_
      (fun b _ => hcount b) hothers,
      h.handles.congr (points_set (a := a) (fun _ => rfl) ?_) rfl rfl,
      h.memory.free hx (fun _ => rfl) rfl rfl,
      h.requests.drop (a := a) (fun _ => rfl) (by simp) rfl rfl⟩
    · exact inPhase_free (if_pos rfl) ((hcount a).trans hφ.queued) (hself hφ.held)
    · rw [hx, Option.bind_some, (hφ.sevr x hx).mpr rfl]
      rfl

/-! ## Steps -/

/-- The memory for the copy of the message is there. -/
def Label.alloc : Label → Bool
  | .execute _ r _ _ => r.alloc
  | _ => true

lemma AsyncOk.step {l : Label} {es : List Event} (h : AsyncOk s) (hl : l.alloc = true)
    (hstep : step s l = some (s', es)) : AsyncOk s' := by
  cases trans_of_step hstep with
  | connect => exact h.connect
  | @bind g c hg =>
      cases c with
      | none =>
          simp only [ipcServerBind, hg]
          exact h.bind hg
      | some a =>
          simp only [ipcServerBind, hg]
          exact h
  | @execute g a r wake created s' es hg hfree hexecute =>
      obtain ⟨x, hx, -⟩ := (h.handles.points a g).mpr hg
      have halloc : ¬ r.alloc = false := by
        rw [show r.alloc = true from hl]
        decide
      simp only [ipcAsyncExecute, hx] at hexecute
      split_ifs at hexecute with hbusy hmsg
      · obtain ⟨rfl, -⟩ := Prod.mk.inj hexecute
        exact h
      · have hidle : x.state = asyncIdle := by simpa using hbusy
        have hphase : InPhase s a .idle :=
          h.inPhase (by rw [hx, Option.map_some, hidle]; rfl)
        exact absurd ((hphase.msg x hx).mpr rfl) hmsg
      · obtain ⟨rfl, -⟩ := Prod.mk.inj hexecute
        exact h.execute hx (by simpa using hbusy) wake created
  | release hg hfree hrelease =>
      have hrel := h.release hg
      rwa [hrelease] at hrel
  | close hg =>
      refine h.setSevr ?_ (fun b => ?_) (fun b => ?_)
      · simp [hg]
      · simp [hg]
      · simp
  | exit => exact h.pool ⟨Pool.queue_shutdown s.pool, Pool.holders_shutdown s.pool⟩
  | tick => exact h.pool ⟨rfl, fun _ => rfl⟩
  | start hpc => exact h.pool (sameJobs_set hpc rfl rfl rfl)
  | @loop i t hpc => exact h.serve hpc rfl (Pool.sought_seek i t 1 s.pool)
  | spurious hpc => exact h.pool (sameJobs_set hpc rfl rfl rfl)
  | expire hpc => exact h.pool (sameJobs_set hpc rfl rfl rfl)
  | @signalled i d t hpc => exact h.serve hpc rfl (Pool.sought_resume i false t s.pool)
  | @expired i d t hpc => exact h.serve hpc rfl (Pool.sought_resume i true t s.pool)
  | @finish i a t msg s' es hpc hfree htask =>
      obtain ⟨rfl, -⟩ := Prod.mk.inj htask
      cases Pool.sought_tail i t s.pool with
      | idle hjob hqueue hworkers => exact h.cleanup hpc hjob hqueue hworkers msg
  | @cancel i a t msg s' es hpc hfree htask =>
      obtain ⟨rfl, -⟩ := Prod.mk.inj htask
      exact h.cleanup hpc (w := .dead) (p := s.pool.exit i) rfl rfl rfl msg

lemma AsyncOk.init {opts : Option IpcAopts} {now : ℤ} (h : setOptAsync opts now = some s) :
    AsyncOk s := by
  obtain ⟨b, -, rfl⟩ := Option.map_eq_some_iff.mp h
  have hnone : ∀ a : Ptr, (ipcAsyncSetup b.1 b.2.1 b.2.2 now).async a = none := fun _ => rfl
  refine ⟨rfl, fun a => ⟨.free, inPhase_free (hnone a) rfl rfl⟩, ⟨fun a h => ?_, fun _ _ => rfl⟩,
    ⟨fun _ _ => rfl, fun a => ?_, List.nodup_nil⟩, ⟨?_, ?_, List.nodup_nil, by
      intro r hr
      cases hr⟩⟩
  · constructor
    · rintro ⟨x, hx, -⟩
      cases hx
    · intro hsevr
      cases hsevr
  · constructor
    · intro ha
      cases ha
    · rintro ⟨ha, -⟩
      cases ha
  · rintro a r ⟨x, hx, -⟩
    cases hx
  · rintro a b r ⟨x, hx, -⟩
    cases hx

/-! ## What a run shows -/

/-- The requests that were replied to. -/
def replies (es : List Event) : List ℕ :=
  es.filterMap fun e => match e with
    | .reply _ r => some r
    | _ => none

/-- The requests that were accepted. -/
def acceptances (es : List Event) : List ℕ :=
  es.filterMap fun e => match e with
    | .accepted _ r => some r
    | _ => none

/-- What a step from `s` to `s'` shows. -/
inductive Shown (s s' : State) : List Event → Prop
  | quiet {es : List Event} (hdropped : ∀ e ∈ es, ∃ a, e = .dropped a)
      (hrequests : s'.requests = s.requests) (hreplied : s'.replied = s.replied) : Shown s s' es
  | accepted {a : Ptr} (hrequests : s'.requests = s.requests + 1)
      (hreplied : s'.replied = s.replied) : Shown s s' [.accepted a s.requests]
  | reply {g a : Ptr} {r : ℕ} (hlive : s.sevr g = some ⟨some a, false⟩)
      (hrequests : s'.requests = s.requests) (hreplied : s'.replied = s.replied ++ [r]) :
      Shown s s' [.reply g r]

lemma Shown.silent (hrequests : s'.requests = s.requests) (hreplied : s'.replied = s.replied) :
    Shown s s' [] := .quiet (by simp) hrequests hreplied

lemma shown_serve (s : State) (r : Pool Ptr × List (WorkerPool.Event Ptr)) :
    Shown s (s.serve r) [] := by
  unfold State.serve
  split
  · unfold takeAsync
    split
    · exact .silent rfl rfl
    · exact .silent rfl rfl
  · exact .silent rfl rfl

lemma shown_release (s : State) (g : Ptr) : Shown s (ipcRelease g s).1 (ipcRelease g s).2 := by
  have hdropped : ∀ (a : Ptr) (x : IpcAsync),
      ∀ e ∈ (x.release.map fun _ => Event.dropped a).toList, ∃ b, e = Event.dropped b := by
    intro a x e he
    simp only [Option.mem_toList, Option.map_eq_some_iff] at he
    obtain ⟨-, -, rfl⟩ := he
    exact ⟨a, rfl⟩
  unfold ipcRelease
  split
  · unfold ipcAsyncRelease
    split
    · exact .silent rfl rfl
    · dsimp only
      split_ifs
      · exact .quiet (hdropped _ _) rfl rfl
      · exact .quiet (hdropped _ _) rfl rfl
      · exact .silent rfl rfl
      · exact .silent rfl rfl
  · exact .silent rfl rfl
  · exact .silent rfl rfl

lemma AsyncOk.shown_cleanup (h : AsyncOk s) {i : ℕ} {t : Bool} {p : Pool Ptr}
    (hpc : s.pool.workers[i]? = some (.running a t)) (msg : IpcMsg) :
    Shown s { (ipcAsyncCleanup a msg s).1 with pool := p } (ipcAsyncCleanup a msg s).2 := by
  rcases h.running hpc with hφ | hφ
  · obtain ⟨x, g, -, -, hg, heq⟩ := h.cleanup_executing hφ msg
    rw [heq]
    split_ifs
    · exact .reply hg rfl rfl
    · exact .silent rfl rfl
  · rw [cleanup_exited hφ]
    exact .silent rfl rfl

lemma AsyncOk.shown {l : Label} {es : List Event} (h : AsyncOk s)
    (hstep : Async.step s l = some (s', es)) : Shown s s' es := by
  cases trans_of_step hstep with
  | connect => exact .silent rfl rfl
  | bind =>
      unfold ipcServerBind
      split
      · exact .silent rfl rfl
      · exact .silent rfl rfl
  | execute hg hfree hexecute =>
      unfold ipcAsyncExecute at hexecute
      split at hexecute
      · obtain ⟨rfl, rfl⟩ := Prod.mk.inj hexecute
        exact .silent rfl rfl
      · split_ifs at hexecute <;> obtain ⟨rfl, rfl⟩ := Prod.mk.inj hexecute
        · exact .silent rfl rfl
        · exact .silent rfl rfl
        · exact .silent rfl rfl
        · exact .accepted rfl rfl
  | @release g c s' es hg hfree hrelease =>
      have hshown := shown_release s g
      rwa [hrelease] at hshown
  | close => exact .silent rfl rfl
  | exit => exact .silent rfl rfl
  | tick => exact .silent rfl rfl
  | start => exact .silent rfl rfl
  | spurious => exact .silent rfl rfl
  | expire => exact .silent rfl rfl
  | loop => exact shown_serve s _
  | signalled => exact shown_serve s _
  | expired => exact shown_serve s _
  | @finish i a t msg s' es hpc hfree htask =>
      obtain ⟨rfl, rfl⟩ := Prod.mk.inj htask
      exact h.shown_cleanup hpc msg
  | @cancel i a t msg s' es hpc hfree htask =>
      obtain ⟨rfl, rfl⟩ := Prod.mk.inj htask
      exact h.shown_cleanup hpc msg

lemma Shown.record {es : List Event} (h : Shown s s' es) :
    s'.replied = s.replied ++ replies es ∧
      List.range s'.requests = List.range s.requests ++ acceptances es := by
  cases h with
  | quiet hdropped hrequests hreplied =>
      have hreplies : replies es = [] := by
        apply List.filterMap_eq_nil_iff.mpr
        intro e he
        obtain ⟨a, rfl⟩ := hdropped e he
        rfl
      have haccepted : acceptances es = [] := by
        apply List.filterMap_eq_nil_iff.mpr
        intro e he
        obtain ⟨a, rfl⟩ := hdropped e he
        rfl
      rw [hreplies, haccepted, List.append_nil, List.append_nil, hrequests, hreplied]
      exact ⟨rfl, rfl⟩
  | accepted hrequests hreplied =>
      rw [hrequests, hreplied, List.range_succ]
      exact ⟨(List.append_nil _).symm, rfl⟩
  | reply hlive hrequests hreplied =>
      rw [hrequests, hreplied]
      exact ⟨rfl, (List.append_nil _).symm⟩

lemma run_record {ls : List Label} {es : List Event} (h : AsyncOk s)
    (halloc : ∀ l ∈ ls, l.alloc = true) (hrun : run step ls s = some (s', es)) :
    s'.replied = s.replied ++ replies es ∧
      List.range s'.requests = List.range s.requests ++ acceptances es := by
  induction ls generalizing s es with
  | nil =>
      obtain ⟨rfl, rfl⟩ := Prod.mk.inj (Option.some.inj hrun)
      exact ⟨(List.append_nil _).symm, (List.append_nil _).symm⟩
  | cons l ls ih =>
      obtain ⟨s₁, es₁, es₂, hstep, hrest, rfl⟩ := run_cons.mp hrun
      obtain ⟨hl, hls⟩ := List.forall_mem_cons.mp halloc
      obtain ⟨h₁, h₂⟩ := (h.shown hstep).record
      obtain ⟨h₃, h₄⟩ := ih (h.step hl hstep) hls hrest
      have hreplies : replies (es₁ ++ es₂) = replies es₁ ++ replies es₂ := List.filterMap_append
      have haccepted : acceptances (es₁ ++ es₂) = acceptances es₁ ++ acceptances es₂ :=
        List.filterMap_append
      rw [hreplies, haccepted, ← List.append_assoc, ← List.append_assoc, ← h₁, ← h₂]
      exact ⟨h₃, h₄⟩

/-! ## The life cycle -/

/-- The life cycle of every `ipc_async`, read off a state. -/
structure LifeCycle (s : State) : Prop where
  /-- It is in `async_head` exactly when it is pending, and then once. -/
  queued : ∀ a x, s.async a = some x →
    s.pool.queue.count a = if x.state = asyncPending then 1 else 0
  /-- One task holds it exactly when `ASYNC_EXECUTING` is set, and no task otherwise. -/
  held : ∀ a x, s.async a = some x →
    s.pool.holders a = if x.state &&& asyncExecuting ≠ 0 then 1 else 0
  /-- It has a message exactly when it is not idle. -/
  msg : ∀ a x, s.async a = some x → (x.msg ≠ none ↔ x.state ≠ asyncIdle)
  /-- Until it is freed, a handle that has not been released refers to it, or it is left to the
  task. -/
  owned : ∀ a x, s.async a = some x →
    (∃ h, s.sevr h = some ⟨some a, false⟩) ∨ x.state = asyncExecuting ||| asyncExited
  /-- What is gone has been freed once, and neither the queue nor a task refers to it. -/
  freed : ∀ a, s.freed.count a = if a < s.brk ∧ s.async a = none then 1 else 0
  gone : ∀ a, s.async a = none → a ∉ s.pool.queue ∧ s.pool.holders a = 0
  /-- Nothing that was freed has been touched or freed again. -/
  fault : s.fault = false

lemma AsyncOk.lifeCycle (h : AsyncOk s) : LifeCycle s := by
  have hphase : ∀ a x, s.async a = some x →
      ∃ φ : Phase, InPhase s a φ ∧ some x.state = φ.state := by
    intro a x hx
    obtain ⟨φ, hφ⟩ := h.phase a
    have hstate := hφ.state
    rw [hx] at hstate
    exact ⟨φ, hφ, hstate⟩
  refine ⟨fun a x hx => ?_, fun a x hx => ?_, fun a x hx => ?_, fun a x hx => ?_, fun a => ?_,
    fun a ha => ?_, h.fault⟩
  · obtain ⟨φ, hφ, hstate⟩ := hphase a x hx
    rw [hφ.queued]
    cases φ with
    | free => cases hstate
    | idle | pending | executing | exited =>
        rw [Option.some.inj hstate]
        rfl
  · obtain ⟨φ, hφ, hstate⟩ := hphase a x hx
    rw [hφ.held]
    cases φ with
    | free => cases hstate
    | idle | pending | executing | exited =>
        rw [Option.some.inj hstate]
        rfl
  · obtain ⟨φ, hφ, hstate⟩ := hphase a x hx
    rw [Ne, hφ.msg x hx, Ne, not_iff_not]
    constructor
    · rintro rfl
      exact Option.some.inj hstate
    · intro hidle
      rw [hidle] at hstate
      exact Phase.state_inj hstate.symm
  · obtain ⟨φ, hφ, hstate⟩ := hphase a x hx
    by_cases hexited : φ = .exited
    · subst hexited
      exact .inr (Option.some.inj hstate)
    · obtain ⟨g, hg⟩ := Option.ne_none_iff_exists'.mp (mt (hφ.sevr x hx).mp hexited)
      exact .inl ⟨g, (h.handles.points a g).mp ⟨x, hx, hg⟩⟩
  · rw [h.memory.once.count]
    simp only [h.memory.freed a]
  · have hφ : InPhase s a .free := h.inPhase (by rw [ha]; rfl)
    exact ⟨List.count_eq_zero.mp hφ.queued, hφ.held⟩

/-- **The life cycle of asynchronous requests.**  In every run of a server whose allocations
succeed, every `ipc_async` follows its life cycle, a request is replied to at most once and only
if it was accepted, and whatever comes next, no reply is sent through a handle that has been
released. -/
theorem async_life_cycle {opts : Option IpcAopts} {now : ℤ} {s₀ s : State} {ls : List Label}
    {es : List Event} (hinit : setOptAsync opts now = some s₀)
    (hrun : run step ls s₀ = some (s, es)) (halloc : ∀ l ∈ ls, l.alloc = true) :
    LifeCycle s ∧ (acceptances es).Nodup ∧
      (∀ r, (replies es).count r ≤ (acceptances es).count r) ∧
      ∀ l s' es', step s l = some (s', es') → ∀ h r, .reply h r ∈ es' →
        ∃ a, s.sevr h = some ⟨some a, false⟩ := by
  have hok₀ := AsyncOk.init hinit
  have hok : AsyncOk s := run_invariant (I := AsyncOk) (fun h hl hstep => h.step hl hstep) hok₀
    (along_of_forall halloc s₀) hrun
  obtain ⟨hreplied, haccepted⟩ := run_record hok₀ halloc hrun
  have hempty : s₀.replied = [] ∧ s₀.requests = 0 := by
    obtain ⟨b, -, rfl⟩ := Option.map_eq_some_iff.mp hinit
    exact ⟨rfl, rfl⟩
  rw [hempty.1, List.nil_append] at hreplied
  rw [hempty.2, List.range_zero, List.nil_append] at haccepted
  rw [← hreplied, ← haccepted]
  refine ⟨hok.lifeCycle, List.nodup_range, fun r => ?_, fun l s' es' hstep h r hr => ?_⟩
  · rw [hok.requests.once.count, List.nodup_range.count]
    split_ifs with hmem hlt
    · exact Nat.le_refl _
    · exact absurd (List.mem_range.mpr (hok.requests.accepted r hmem)) hlt
    · exact Nat.zero_le _
    · exact Nat.le_refl _
  · cases hok.shown hstep with
    | quiet hdropped =>
        obtain ⟨a, ha⟩ := hdropped _ hr
        cases ha
    | accepted => cases List.mem_singleton.mp hr
    | reply hlive =>
        cases List.mem_singleton.mp hr
        exact ⟨_, hlive⟩

/-- A request for a reply. -/
def askMsg : IpcMsg := ⟨7, 300, ipcFlagReply, [], Nat.two_pow_pos 16⟩

/-- A client is served, asks again, and leaves while its second request is being executed. -/
def leaveRun : List Label :=
  [.connect, .bind 0, .execute 0 ⟨askMsg, 1, none, 0, true⟩ 0 true, .start 0, .loop 0,
    .finish 0 askMsg, .loop 0, .execute 0 ⟨askMsg, 1, none, 0, true⟩ 0 true, .resume 0, .release 0,
    .close 0, .finish 0 askMsg]

/-- The first request has its reply, the second one has none, and the `ipc_async` was freed. -/
theorem async_life_cycle_sample :
    ∃ s₀ s es, setOptAsync none 0 = some s₀ ∧ run step leaveRun s₀ = some (s, es) ∧
      acceptances es = [0, 1] ∧ replies es = [0] ∧ s.freed = [0] ∧ LifeCycle s := by
  obtain ⟨s₀, hinit, s, es, hrun, haccepted, hreplies, hfreed⟩ : ∃ s₀,
      setOptAsync none 0 = some s₀ ∧ ∃ s es, run step leaveRun s₀ = some (s, es) ∧
        acceptances es = [0, 1] ∧ replies es = [0] ∧ s.freed = [0] :=
    ⟨_, rfl, _, _, rfl, rfl, rfl, rfl⟩
  exact ⟨s₀, s, es, hinit, hrun, haccepted, hreplies, hfreed,
    (async_life_cycle hinit hrun (by decide)).1⟩

end LinuxC.Ipc.Async
