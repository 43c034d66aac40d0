import LinuxC.ThreadPool.Sections

/-!
# The books of the thread pool

The counters and `active_thread_head` are kept by sections of different threads: who creates a
thread counts it, and the cleanup handlers of the thread uncount it, however it ends.

The ledger of a run has one entry for each job that `thread_pool_execute` has accepted, in this
order, with what has become of the job.  `Accounted` compares the ledger with the pool: the
entries of the jobs that have been started come first, the others are `job_head`, and the entry of
a job that runs is the one of its thread.
-/

namespace LinuxC.ThreadPool

open WorkerPool

variable {s s' : State} {l : Label} {es : List (Event Job)}

/-! ## The ledger -/

/-- What has become of a job that `thread_pool_execute` has accepted. -/
inductive Status
  | queued
  | running (i : ℕ)
  | finished
  | cancelled
  | discarded
  deriving DecidableEq, Repr

/-- A thread has taken the job. -/
def Status.started : Status → Bool
  | .running _ | .finished | .cancelled => true
  | .queued | .discarded => false

/-- The accepted jobs, in the order in which they were queued. -/
abbrev Ledger := List (Job × Status)

namespace Ledger

/-- The thread `i` takes the job `j`. -/
def start (i : ℕ) (j : Job) : Ledger → Ledger
  | [] => []
  | e :: g => if e = (j, .queued) then (j, .running i) :: g else e :: start i j g

/-- The job of the thread `i` ends. -/
def close (i : ℕ) (st : Status) (g : Ledger) : Ledger :=
  g.map fun e => if e.2 = .running i then (e.1, st) else e

/-- What is still queued is freed. -/
def discard (g : Ledger) : Ledger :=
  g.map fun e => if e.2 = .queued then (e.1, .discarded) else e

/-- The ledger after a step. -/
def record (g : Ledger) (l : Label) (es : List (Event Job)) (s' : State) : Ledger :=
  match l with
  | .execute func arg _ _ => g ++ [(⟨func, arg⟩, .queued)]
  | .finish i => g.close i .finished
  | .cancel i => g.close i .cancelled
  | .destroyWake => if s'.destroyed then g.discard else g
  | _ => es.foldl (fun g e => match e with | .taken i j => g.start i j) g

lemma record_quiet (g : Ledger) (hl : l.quiet = true) (s' : State) : g.record l [] s' = g := by
  cases l <;> first | rfl | cases hl

lemma record_taken (g : Ledger) (hl : l.quiet = true) (i : ℕ) (j : Job) (s' : State) :
    g.record l [.taken i j] s' = g.start i j := by
  cases l <;> first | rfl | cases hl

/-- The jobs of the thread `i`. -/
def runBy (i : ℕ) (g : Ledger) : List Job :=
  (g.filter fun e => decide (e.2 = .running i)).map Prod.fst

lemma runBy_append (i : ℕ) (g₁ g₂ : Ledger) : runBy i (g₁ ++ g₂) = runBy i g₁ ++ runBy i g₂ := by
  simp [runBy]

lemma runBy_cons (i : ℕ) (e : Job × Status) (g : Ledger) :
    runBy i (e :: g) = if e.2 = .running i then e.1 :: runBy i g else runBy i g := by
  unfold runBy
  rw [List.filter_cons]
  split_ifs with h₁ h₂ h₂ <;> simp_all

/-- The ledger fits the queue and the jobs of the threads. -/
structure Fits (g : Ledger) (queue : List Job) (runs : ℕ → Option Job) (gone : Bool) : Prop where
  /-- A thread that runs a job has one entry, and a thread that runs none has none. -/
  running : ∀ i, g.runBy i = (runs i).toList
  /-- The jobs that have been started come first, and the others are the queue. -/
  order : ∃ g₁ g₂ : Ledger, g = g₁ ++ g₂ ∧ (∀ e ∈ g₁, e.2.started = true) ∧
    g₂.map Prod.fst = queue ∧ ∀ e ∈ g₂, e.2 = if gone then .discarded else .queued

variable {g : Ledger} {queue : List Job} {runs : ℕ → Option Job} {gone : Bool}

lemma Fits.accept (h : g.Fits queue runs false) (j : Job) :
    Fits (g ++ [(j, .queued)]) (queue ++ [j]) runs false := by
  obtain ⟨g₁, g₂, rfl, hstarted, hqueue, hqueued⟩ := h.order
  refine ⟨fun i => ?_, g₁, g₂ ++ [(j, .queued)], List.append_assoc .., hstarted, ?_, ?_⟩
  · rw [runBy_append, h.running i]
    exact List.append_nil _
  · simp [hqueue]
  · intro e he
    rcases List.mem_append.mp he with he | he
    · exact hqueued e he
    · rw [List.mem_singleton.mp he]
      rfl

lemma start_append {g₁ : Ledger} (i : ℕ) (j : Job) (g₂ : Ledger) (h : (j, .queued) ∉ g₁) :
    start i j (g₁ ++ (j, .queued) :: g₂) = g₁ ++ (j, .running i) :: g₂ := by
  induction g₁ with
  | nil => simp [start]
  | cons e g₁ ih =>
      rw [List.mem_cons, not_or] at h
      obtain ⟨hne, hmem⟩ := h
      rw [List.cons_append, start, if_neg (Ne.symm hne), ih hmem]
      rfl

/-- A thread takes the first job of the queue. -/
lemma Fits.start {i : ℕ} {j : Job} (h : g.Fits (j :: queue) runs false) (hidle : runs i = none) :
    Fits (g.start i j) queue (Function.update runs i (some j)) false := by
  obtain ⟨g₁, g₂, rfl, hstarted, hqueue, hqueued⟩ := h.order
  obtain ⟨⟨j', st⟩, g₂, rfl, rfl, rfl⟩ := List.map_eq_cons_iff.mp hqueue
  obtain rfl : st = .queued := hqueued (j', st) (by simp)
  have hnew : (j', Status.queued) ∉ g₁ := fun hmem => by cases hstarted _ hmem
  rw [start_append i j' g₂ hnew]
  refine ⟨fun k => ?_, g₁ ++ [(j', .running i)], g₂, by simp, ?_, rfl, fun e he => ?_⟩
  · have hk := h.running k
    rw [runBy_append, runBy_cons, if_neg (by simp)] at hk
    rw [runBy_append, runBy_cons]
    by_cases hki : k = i
    · subst hki
      rw [hidle] at hk
      obtain ⟨hg₁, hg₂⟩ := List.append_eq_nil_iff.mp hk
      rw [if_pos rfl, hg₁, hg₂, Function.update_self]
      rfl
    · rw [if_neg fun he => hki (Status.running.inj he).symm, Function.update_of_ne hki, hk]
  · intro e he
    rcases List.mem_append.mp he with he | he
    · exact hstarted e he
    · rw [List.mem_singleton.mp he]
      rfl
  · exact hqueued e (by simp [he])


lemma runBy_close {i : ℕ} {st : Status} (hst : ∀ k, st ≠ .running k) (k : ℕ) (g : Ledger) :
    runBy k (g.close i st) = if k = i then [] else runBy k g := by
  induction g with
  | nil => simp [close, runBy]
  | cons e g ih =>
      change runBy k ((if e.2 = .running i then (e.1, st) else e) :: close i st g) = _
      rw [runBy_cons, ih, runBy_cons]
      split_ifs <;> simp_all

lemma Fits.close {i : ℕ} {st : Status} (h : g.Fits queue runs gone) (hst : st.started = true)
    (hend : ∀ k, st ≠ .running k) :
    Fits (g.close i st) queue (Function.update runs i none) gone := by
  obtain ⟨g₁, g₂, rfl, hstarted, hqueue, hqueued⟩ := h.order
  have hrest : close i st g₂ = g₂ := by
    refine (List.map_congr_left fun e he => if_neg ?_).trans (List.map_id g₂)
    rw [hqueued e he]
    split_ifs <;> simp
  refine ⟨fun k => ?_, close i st g₁, g₂, ?_, fun e he => ?_, hqueue, hqueued⟩
  · rw [runBy_close hend]
    split_ifs with hk
    · rw [hk, Function.update_self]
      rfl
    · rw [Function.update_of_ne hk, h.running k]
  · nth_rewrite 2 [← hrest]
    exact List.map_append
  · obtain ⟨e', he', rfl⟩ := List.mem_map.mp he
    split_ifs
    · exact hst
    · exact hstarted e' he'

lemma runBy_discard (k : ℕ) (g : Ledger) : runBy k g.discard = runBy k g := by
  induction g with
  | nil => rfl
  | cons e g ih =>
      change runBy k ((if e.2 = .queued then (e.1, .discarded) else e) :: discard g) = _
      rw [runBy_cons, ih, runBy_cons]
      split_ifs <;> simp_all

lemma Fits.discard (h : g.Fits queue runs gone) : Fits g.discard queue runs true := by
  obtain ⟨g₁, g₂, rfl, hstarted, hqueue, hqueued⟩ := h.order
  have hkept : Ledger.discard g₁ = g₁ := by
    refine (List.map_congr_left fun e he => if_neg fun hq => ?_).trans (List.map_id g₁)
    have hs := hstarted e he
    rw [hq] at hs
    cases hs
  refine ⟨fun k => ?_, g₁, Ledger.discard g₂, ?_, hstarted, ?_, fun e he => ?_⟩
  · rw [runBy_discard, h.running k]
  · nth_rewrite 2 [← hkept]
    exact List.map_append
  · rw [← hqueue]
    unfold Ledger.discard
    rw [List.map_map]
    apply List.map_congr_left
    intro e _
    change (if e.2 = .queued then (e.1, Status.discarded) else e).1 = e.1
    split_ifs <;> rfl
  · obtain ⟨e', he', rfl⟩ := List.mem_map.mp he
    have hold := hqueued e' he'
    cases gone with
    | true => simp_all
    | false => simp_all

end Ledger

/-! ## The books are right -/

/-- **The books of the pool.**  `nthreads` and `idlethreads` are what they count and `nthreads` is
not above `maxthreads`, `active_thread_head` has each thread that runs a job once, and the ledger
fits. -/
structure Accounted (s : State) (g : Ledger) : Prop where
  counted : s.pool.Counted
  nodup : s.active.Nodup
  active : ∀ i, i ∈ s.active ↔ ∃ j, s.pool.runs i = some j
  fits : g.Fits s.pool.queue s.pool.runs s.destroyed
  /-- The pool is gone only after `thread_pool_destroy` was called. -/
  gone : s.destroyed = true → s.pool.destroy = true

lemma threadJobCleanup_active (i : ℕ) (s : State) :
    (threadJobCleanup i s).active = s.active.erase i := by
  unfold threadJobCleanup threadPoolWakeup
  split_ifs <;> rfl

lemma threadJobCleanup_destroyed (i : ℕ) (s : State) :
    (threadJobCleanup i s).destroyed = s.destroyed := by
  unfold threadJobCleanup threadPoolWakeup
  split_ifs <;> rfl

lemma counted_step (h : s.pool.Counted) (hstep : step s l = some (s', es)) : s'.pool.Counted := by
  rcases refines_step hstep with ⟨-, heq⟩ | ⟨l', -, hstep'⟩
  · rw [heq]
    exact h
  · exact h.step hstep'

lemma destroy_step (hd : s.pool.destroy = true) (hstep : step s l = some (s', es)) :
    s'.pool.destroy = true := by
  rcases refines_step hstep with ⟨-, heq⟩ | ⟨l', -, hstep'⟩
  · rw [heq]
    exact hd
  · exact WorkerPool.step_destroy hstep' hd

lemma Accounted.step {g : Ledger} (h : Accounted s g) (hstep : step s l = some (s', es)) :
    Accounted s' (g.record l es s') := by
  have hcounted := counted_step h.counted hstep
  have hdestroy := fun hd => destroy_step hd hstep
  cases moved_of_step hstep with
  | quiet hl hqueue hruns =>
      rw [g.record_quiet hl]
      refine ⟨hcounted, h.nodup, ?_, ?_, fun hgone => hdestroy (h.gone hgone)⟩
      · simpa only [hruns] using h.active
      · simpa only [hqueue, hruns] using h.fits
  | @accepted func arg _ _ pool hqueue hruns hthere =>
      refine ⟨hcounted, h.nodup, ?_, ?_, fun hgone => hdestroy (h.gone hgone)⟩
      · simpa only [hruns] using h.active
      · have hfits := h.fits
        rw [hthere] at hfits
        have haccept := hfits.accept ⟨func, arg⟩
        rw [← hqueue, ← hruns, ← hthere] at haccept
        exact haccept
  | waits hl =>
      rw [g.record_quiet hl]
      exact ⟨h.counted, h.nodup, h.active, h.fits, h.gone⟩
  | returns hl =>
      rw [g.record_quiet hl]
      exact ⟨h.counted, h.nodup, h.active, h.fits, h.gone⟩
  | @taken _ i j pool hl hqueue hidle hruns hd =>
      rw [g.record_taken hl]
      have hthere : s.destroyed = false := by
        by_contra hgone
        simp [h.gone (by simpa using hgone)] at hd
      have hnew : i ∉ s.active := fun hi => by
        obtain ⟨j', hj'⟩ := (h.active i).mp hi
        simp [hidle] at hj'
      refine ⟨hcounted, ?_, fun k => ?_, ?_, fun hgone => hdestroy (h.gone hgone)⟩
      · refine List.nodup_append.mpr ⟨h.nodup, by simp, ?_⟩
        rintro a ha b hb rfl
        exact hnew (List.mem_singleton.mp hb ▸ ha)
      · change k ∈ s.active ++ [i] ↔ ∃ j', pool.runs k = some j'
        rw [List.mem_append, List.mem_singleton, h.active k, hruns]
        by_cases hk : k = i
        · simp [hk]
        · simp [hk]
      · have hfits := h.fits
        rw [hqueue, hthere] at hfits
        have hstart := hfits.start hidle
        rw [← hruns, ← hthere] at hstart
        exact hstart
  | @ended _ i j pool hl hqueue hbusy hruns =>
      have hrecord : ∃ st : Status, g.record l [] { threadJobCleanup i s with pool := pool } =
          g.close i st ∧ st.started = true ∧ ∀ k, st ≠ .running k := by
        rcases hl with rfl | rfl
        · exact ⟨.finished, rfl, rfl, fun _ hst => by cases hst⟩
        · exact ⟨.cancelled, rfl, rfl, fun _ hst => by cases hst⟩
      obtain ⟨st, hg, hst, hend⟩ := hrecord
      rw [hg]
      refine ⟨hcounted, ?_, fun k => ?_, ?_, fun hgone => ?_⟩
      · rw [threadJobCleanup_active]
        exact h.nodup.erase i
      · rw [threadJobCleanup_active, h.nodup.mem_erase_iff, h.active k, hruns]
        by_cases hk : k = i
        · simp [hk]
        · simp [hk]
      · rw [threadJobCleanup_destroyed, hqueue, hruns]
        exact h.fits.close hst hend
      · rw [threadJobCleanup_destroyed] at hgone
        exact hdestroy (h.gone hgone)
  | awaits hthere =>
      have hrecord : g.record .destroyWake [] s = g := if_neg (by simp [hthere])
      rw [hrecord]
      exact h
  | discarded hd =>
      exact ⟨h.counted, h.nodup, h.active, h.fits.discard, fun _ => hd⟩

/-! ## Runs -/

/-- The ledger after a run. -/
def ledger : List Label → State → Ledger → Ledger
  | [], _, g => g
  | l :: ls, s, g =>
      match ThreadPool.step s l with
      | some (s', es) => ledger ls s' (g.record l es s')
      | none => g

/-- The job that `thread_pool_execute` accepts in the step. -/
def Label.accepts : Label → Option Job
  | .execute func arg _ _ => some ⟨func, arg⟩
  | _ => none

/-- The job that a thread starts. -/
def startedJob : Event Job → Job
  | .taken _ j => j

lemma ledger_cons {ls : List Label} {g : Ledger} (h : step s l = some (s', es)) :
    ledger (l :: ls) s g = ledger ls s' (g.record l es s') := by
  simp [ledger, h]

lemma Accounted.run {ls : List Label} {g : Ledger} (h : Accounted s g)
    (hrun : run ThreadPool.step ls s = some (s', es)) : Accounted s' (ledger ls s g) := by
  induction ls generalizing s g es with
  | nil =>
      obtain ⟨rfl, -⟩ := Prod.mk.inj (Option.some.inj hrun)
      exact h
  | cons l ls ih =>
      obtain ⟨s₁, es₁, es₂, hstep, hrest, rfl⟩ := run_cons.mp hrun
      rw [ledger_cons hstep]
      exact ih (h.step hstep) hrest

/-- A step that is not `thread_pool_execute` changes what has become of the jobs and not the
jobs. -/
lemma Ledger.map_fst_map {f : Job × Status → Job × Status} (hf : ∀ e, (f e).1 = e.1)
    (g : Ledger) : (g.map f).map Prod.fst = g.map Prod.fst := by
  rw [List.map_map]
  exact List.map_congr_left fun e _ => hf e

lemma Ledger.map_fst_start (i : ℕ) (j : Job) (g : Ledger) :
    (g.start i j).map Prod.fst = g.map Prod.fst := by
  induction g with
  | nil => rfl
  | cons e g ih =>
      rw [Ledger.start]
      split_ifs with he
      · rw [he]
        rfl
      · rw [List.map_cons, List.map_cons, ih]

lemma Ledger.map_fst_starts (es : List (Event Job)) (g : Ledger) :
    (es.foldl (fun g e => match e with | .taken i j => Ledger.start i j g) g).map Prod.fst =
      g.map Prod.fst := by
  induction es generalizing g with
  | nil => rfl
  | cons e es ih =>
      obtain ⟨i, j⟩ := e
      exact (ih (g.start i j)).trans (g.map_fst_start i j)

/-- The ledger has one more entry for a job that is accepted, and the old ones. -/
lemma Ledger.map_fst_record (g : Ledger) (l : Label) (es : List (Event Job)) (s' : State) :
    (g.record l es s').map Prod.fst = g.map Prod.fst ++ l.accepts.toList := by
  cases l with
  | execute func arg wake created => exact List.map_append
  | finish i | cancel i =>
      refine (Ledger.map_fst_map (fun e => ?_) g).trans (List.append_nil _).symm
      split_ifs <;> rfl
  | destroyWake =>
      refine Eq.trans ?_ (List.append_nil _).symm
      unfold Ledger.record
      split_ifs
      · refine Ledger.map_fst_map (fun e => ?_) g
        split_ifs <;> rfl
      · rfl
  | tick | wait | waitWake | destroy | start | loop | spurious | expire | resume =>
      exact (Ledger.map_fst_starts es g).trans (List.append_nil _).symm

lemma Label.accepts_quiet (hl : l.quiet = true) : l.accepts = none := by
  cases l <;> first | rfl | cases hl

/-- What a step starts is the head of the queue, and what it accepts is the end. -/
lemma queue_step (h : step s l = some (s', es)) :
    es.map startedJob ++ s'.pool.queue = s.pool.queue ++ l.accepts.toList := by
  cases moved_of_step h with
  | quiet hl hqueue => simp [hqueue, Label.accepts_quiet hl]
  | accepted hqueue => simp [hqueue, Label.accepts]
  | waits hl | returns hl => simp [Label.accepts_quiet hl]
  | taken hl hqueue => simp [hqueue, startedJob, Label.accepts_quiet hl]
  | ended hl hqueue => rcases hl with rfl | rfl <;> simp [hqueue, Label.accepts]
  | awaits | discarded => simp [Label.accepts]

lemma filterMap_accepts_cons (l : Label) (ls : List Label) :
    (l :: ls).filterMap Label.accepts = l.accepts.toList ++ ls.filterMap Label.accepts := by
  rw [List.filterMap_cons]
  cases l.accepts <;> rfl

/-- **Order of start.**  What a run has started, in the order of the starts, and then the queue,
are the old queue and then what the run has accepted. -/
lemma queue_run {ls : List Label} (hrun : run step ls s = some (s', es)) :
    es.map startedJob ++ s'.pool.queue = s.pool.queue ++ ls.filterMap Label.accepts := by
  induction ls generalizing s es with
  | nil =>
      obtain ⟨rfl, rfl⟩ := Prod.mk.inj (Option.some.inj hrun)
      simp
  | cons l ls ih =>
      obtain ⟨s₁, es₁, es₂, hstep, hrest, rfl⟩ := run_cons.mp hrun
      rw [List.map_append, List.append_assoc, ih hrest, ← List.append_assoc, queue_step hstep,
        filterMap_accepts_cons, List.append_assoc]

lemma map_fst_ledger {ls : List Label} {g : Ledger} (hrun : run step ls s = some (s', es)) :
    (ledger ls s g).map Prod.fst = g.map Prod.fst ++ ls.filterMap Label.accepts := by
  induction ls generalizing s g es with
  | nil => simp [ledger]
  | cons l ls ih =>
      obtain ⟨s₁, es₁, es₂, hstep, hrest, rfl⟩ := run_cons.mp hrun
      rw [ledger_cons hstep, ih hrest, g.map_fst_record, filterMap_accepts_cons,
        List.append_assoc]

lemma accounted_init {keepalive minthreads maxthreads now : ℤ}
    (h : threadPoolInit keepalive minthreads maxthreads now = some s) : Accounted s [] := by
  have hcounted := counted_init h
  obtain ⟨-, rfl⟩ := threadPoolInit_eq h
  refine ⟨hcounted, List.nodup_nil, fun i => ?_, ⟨fun i => rfl, [], [], rfl, ?_, rfl, ?_⟩, ?_⟩
  · simp [Pool.runs]
  · simp
  · simp
  · simp

/-- **The books are right.**  In every state that a pool accepted by `thread_pool_init` reaches by
sections of `thread_pool_execute`, of its threads, of `thread_pool_wait` and of
`thread_pool_destroy`: the counters, `active_thread_head` and the ledger of the run are right, the
ledger has one entry for each accepted job, and the jobs that were started, in the order of the
starts, are the first of the accepted ones. -/
theorem jobs_accounted {keepalive minthreads maxthreads now : ℤ} {s₀ s : State}
    {ls : List Label} {es : List (Event Job)}
    (hinit : threadPoolInit keepalive minthreads maxthreads now = some s₀)
    (hrun : run step ls s₀ = some (s, es)) :
    Accounted s (ledger ls s₀ []) ∧
      (ledger ls s₀ []).map Prod.fst = ls.filterMap Label.accepts ∧
      es.map startedJob ++ s.pool.queue = ls.filterMap Label.accepts := by
  have hempty : s₀.pool.queue = [] := by
    rw [(threadPoolInit_eq hinit).2]
  refine ⟨(accounted_init hinit).run hrun, map_fst_ledger hrun, ?_⟩
  rw [queue_run hrun, hempty]
  rfl

/-- Three jobs for one thread: the first is done when the pool is destroyed, the second is
cancelled and the third is not started. -/
def destroyRun : List Label :=
  [.execute 1 0 0 true, .execute 2 0 0 true, .execute 3 0 0 true, .start 0, .loop 0, .finish 0,
    .loop 0, .destroy false, .cancel 0, .destroyWake]

theorem jobs_accounted_sample : ∃ s₀ s es, threadPoolInit 1 0 1 0 = some s₀ ∧
    run step destroyRun s₀ = some (s, es) ∧
    ledger destroyRun s₀ [] =
      [(⟨1, 0⟩, .finished), (⟨2, 0⟩, .cancelled), (⟨3, 0⟩, .discarded)] ∧
    Accounted s (ledger destroyRun s₀ []) := by
  obtain ⟨s₀, hinit, s, es, hrun, hledger⟩ : ∃ s₀, threadPoolInit 1 0 1 0 = some s₀ ∧
      ∃ s es, run step destroyRun s₀ = some (s, es) ∧ ledger destroyRun s₀ [] =
        [(⟨1, 0⟩, .finished), (⟨2, 0⟩, .cancelled), (⟨3, 0⟩, .discarded)] :=
    ⟨_, rfl, _, _, rfl, rfl⟩
  exact ⟨s₀, s, es, hinit, hrun, hledger, (jobs_accounted hinit hrun).1⟩

end LinuxC.ThreadPool
