import LinuxC.Ipc.Async

/-!
# The task pool of the server

Every step of the server is one of the worker pool behind it, or leaves that pool alone
(`refines_step`): a request that is accepted is a job that is queued, and the release of a handle
whose request is still queued withdraws it.  `set_opt_async` keeps at least one task, so that no
task ever abandons the queue, and the invariant of worker pools holds in every run.
-/

namespace LinuxC.Ipc.Async

open WorkerPool

variable {s s' : State} {l : Label} {es : List Event}

/-- `pthread_create` succeeds in the step, if it is called. -/
def Label.created : Label → Bool
  | .execute _ _ _ created => created
  | _ => true

/-- What a step does to the pool. -/
def Pooled (created : Bool) (p p' : Pool Ptr) : Prop :=
  p' = p ∨ ∃ l es, WorkerPool.step p l = some (p', es) ∧ (created = true → l.created = true)

lemma pooled_serve (s : State) {p : Pool Ptr} {l : WorkerPool.Label Ptr}
    {r : Pool Ptr × List (WorkerPool.Event Ptr)} (hstep : WorkerPool.step p l = some r)
    (hl : l.created = true) : Pooled true p (s.serve r).pool := by
  refine .inr ⟨l, r.2, ?_, fun _ => hl⟩
  have hpool : (s.serve r).pool = r.1 := by
    unfold State.serve
    split <;> rfl
  rw [hpool]
  exact hstep

/-- The release of a handle may withdraw a request from the queue. -/
lemma pool_release (g : Ptr) (s : State) :
    (ipcRelease g s).1.pool = s.pool ∨
      ∃ a, (ipcRelease g s).1.pool = { s.pool with queue := s.pool.queue.erase a } := by
  unfold ipcRelease
  split
  · rename_i a _ _
    unfold ipcAsyncRelease
    split
    · exact .inl rfl
    · dsimp only
      split_ifs
      · exact .inr ⟨a, rfl⟩
      · exact .inl rfl
      · exact .inl rfl
      · exact .inl rfl
  · exact .inl rfl
  · exact .inl rfl

lemma pool_execute (a : Ptr) (r : Request) (wake : ℕ) (created : Bool) (s : State) :
    (ipcAsyncExecute a r wake created s).1.pool = s.pool ∨
      (ipcAsyncExecute a r wake created s).1.pool = s.pool.execute a wake created := by
  unfold ipcAsyncExecute
  split
  · exact .inl rfl
  · split_ifs
    · exact .inl rfl
    · exact .inl rfl
    · exact .inl rfl
    · exact .inr rfl

/-- **The server runs a worker pool.** -/
lemma refines_step (h : step s l = some (s', es)) : Pooled l.created s.pool s'.pool := by
  cases trans_of_step h with
  | connect => exact .inl rfl
  | bind =>
      unfold ipcServerBind
      split
      · exact .inl rfl
      · exact .inl rfl
  | @execute g a r wake created s' es hg hfree hexecute =>
      have hpool := pool_execute a r wake created s
      rw [hexecute] at hpool
      rcases hpool with hpool | hpool
      · exact .inl hpool
      · refine .inr ⟨.execute a wake created, [], allow_eq_some.mpr ⟨hfree, ?_⟩, fun hc => hc⟩
        rw [← hpool]
  | @release g c s' es hg hfree hrelease =>
      have hpool := pool_release g s
      rw [hrelease] at hpool
      rcases hpool with hpool | ⟨a, hpool⟩
      · exact .inl hpool
      · refine .inr ⟨.withdraw a, [], allow_eq_some.mpr ⟨hfree, ?_⟩, fun _ => rfl⟩
        rw [← hpool]
  | close => exact .inl rfl
  | exit hfree => exact .inr ⟨.shutdown, [], allow_eq_some.mpr ⟨hfree, rfl⟩, fun _ => rfl⟩
  | @tick now hnow => exact .inr ⟨.tick now, [], allow_eq_some.mpr ⟨hnow, rfl⟩, fun _ => rfl⟩
  | @start i hpc hfree =>
      refine .inr ⟨.start i, [], ?_, fun _ => rfl⟩
      simp only [WorkerPool.step, hpc]
      exact allow_eq_some.mpr ⟨hfree, rfl⟩
  | @loop i t hpc =>
      exact pooled_serve s (l := .loop i) (by simp only [WorkerPool.step, hpc]) rfl
  | @spurious i d b hpc =>
      exact .inr ⟨.spurious i, [], by simp only [WorkerPool.step, hpc], fun _ => rfl⟩
  | @expire i w d b hpc hnow =>
      refine .inr ⟨.expire i, [], ?_, fun _ => rfl⟩
      simp only [WorkerPool.step, hpc]
      exact allow_eq_some.mpr ⟨hnow, rfl⟩
  | @signalled i d t hpc hfree =>
      refine pooled_serve s (l := .resume i) ?_ rfl
      simp only [WorkerPool.step, hpc]
      exact allow_eq_some.mpr ⟨hfree, rfl⟩
  | @expired i d t hpc hfree =>
      refine pooled_serve s (l := .resume i) ?_ rfl
      simp only [WorkerPool.step, hpc]
      exact allow_eq_some.mpr ⟨hfree, rfl⟩
  | @finish i a t msg s' es hpc hfree htask =>
      obtain ⟨rfl, -⟩ := Prod.mk.inj htask
      refine .inr ⟨.finish i, [], ?_, fun _ => rfl⟩
      simp only [WorkerPool.step, hpc]
      exact allow_eq_some.mpr ⟨hfree, rfl⟩
  | @cancel i a t msg s' es hpc hfree htask =>
      obtain ⟨rfl, -⟩ := Prod.mk.inj htask
      refine .inr ⟨.cancel i, [], ?_, fun _ => rfl⟩
      simp only [WorkerPool.step, hpc]
      exact allow_eq_some.mpr ⟨hfree, rfl⟩

/-! ## No request is stranded -/

/-- The pool keeps a task, and is in order. -/
structure TasksOk (p : Pool Ptr) : Prop where
  min : 1 ≤ p.min
  ok : p.Ok

lemma TasksOk.step (h : TasksOk s.pool) (hl : l.created = true)
    (hstep : Async.step s l = some (s', es)) : TasksOk s'.pool := by
  rcases refines_step hstep with heq | ⟨l', es', hstep', hcreated⟩
  · rw [heq]
    exact h
  · refine ⟨?_, h.ok.step (hcreated hl) (Pool.abandons_of_min h.min l') hstep'⟩
    rw [step_min hstep']
    exact h.min

lemma asyncBounds_pos {opts : Option IpcAopts} {b : ℤ × ℤ × ℤ} (h : asyncBounds opts = some b) :
    1 ≤ b.1 ∧ b.1 ≤ b.2.1 := by
  cases opts with
  | none =>
      obtain rfl := Option.some.inj h
      decide
  | some opts =>
      simp only [asyncBounds] at h
      split at h
      · cases h
      · obtain rfl := Option.some.inj h
        dsimp only
        constructor
        · split_ifs <;> omega
        · split_ifs <;> omega

lemma TasksOk.init {opts : Option IpcAopts} {now : ℤ} (h : setOptAsync opts now = some s) :
    TasksOk s.pool := by
  obtain ⟨b, hb, rfl⟩ := Option.map_eq_some_iff.mp h
  obtain ⟨hmin, hmax⟩ := asyncBounds_pos hb
  refine ⟨hmin, ⟨rfl, rfl, ?_⟩, ?_, fun _ hq => absurd rfl hq, fun _ _ => Nat.zero_le _⟩
  · change (0 : ℤ) ≤ b.2.1
    omega
  · change (1 : ℤ) ≤ b.2.1
    omega

/-- **No request is stranded.**  In every run of a server that `set_opt_async` has configured and
in which the creation of tasks succeeds: as long as the pool is not being destroyed and
`async_head` is not empty, some task is not blocked, or has been woken; `ntasks` stays within
`maxtasks`; and `idletasks` is the number of tasks between their increment and decrement of it. -/
theorem no_request_stranded {opts : Option IpcAopts} {now : ℤ} {s₀ s : State} {ls : List Label}
    {es : List Event} (hinit : setOptAsync opts now = some s₀)
    (hrun : run step ls s₀ = some (s, es)) (hcreated : ∀ l ∈ ls, l.created = true) :
    (s.pool.destroy = false → s.pool.queue ≠ [] →
      ∃ w ∈ s.pool.workers, w.live = true ∧ w.isBlocked = false) ∧
      s.pool.nthreads ≤ s.pool.max ∧
      s.pool.idlethreads = (s.pool.workers.countP Worker.isIdle : ℕ) := by
  have hok : TasksOk s.pool := run_invariant (I := fun s => TasksOk s.pool)
    (fun h hl hstep => h.step hl hstep) (TasksOk.init hinit) (along_of_forall hcreated s₀) hrun
  refine ⟨fun hd hq => ?_, hok.ok.bound, hok.ok.idle⟩
  by_contra hno
  refine hok.ok.not_stranded hd ⟨hq, fun w hw hlive => ?_⟩
  by_contra hb
  exact hno ⟨w, hw, hlive, by simpa using hb⟩

/-- Two clients, and a pool of at most one task, which has waited for nothing. -/
def twoClientsRun (msg : IpcMsg) : List Label :=
  [.connect, .bind 0, .connect, .bind 1, .execute 0 ⟨msg, 1, none, 0, true⟩ 0 true, .start 0,
    .loop 0, .execute 1 ⟨msg, 1, none, 0, true⟩ 0 true]

/-- The request of the second client is queued while the task is busy. -/
theorem no_request_stranded_sample :
    ∃ s₀ s es, setOptAsync (some ⟨1, 1, 0⟩) 0 = some s₀ ∧
      run step (twoClientsRun ⟨7, 300, 0, [], by decide⟩) s₀ = some (s, es) ∧ s.pool.queue = [1] ∧
      ∃ w ∈ s.pool.workers, w.live = true ∧ w.isBlocked = false := by
  obtain ⟨s₀, hinit, s, es, hrun, hd, hq⟩ : ∃ s₀, setOptAsync (some ⟨1, 1, 0⟩) 0 = some s₀ ∧
      ∃ s es, run step (twoClientsRun ⟨7, 300, 0, [], by decide⟩) s₀ = some (s, es) ∧
        s.pool.destroy = false ∧ s.pool.queue = [1] :=
    ⟨_, rfl, _, _, rfl, rfl, rfl⟩
  refine ⟨s₀, s, es, hinit, hrun, hq, (no_request_stranded hinit hrun (by decide)).1 hd ?_⟩
  rw [hq]
  decide

end LinuxC.Ipc.Async
