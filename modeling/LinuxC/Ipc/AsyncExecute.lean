import LinuxC.Ipc.Async

/-!
# What `ipc_async_execute` returns

The whole function: the tests in front of the section under the mutex, that section, the value that
is returned and the message of the caller, whose flags get the bit `IPC_BIT_ASYNC`.  There is no
result where the code does not return: an assertion fails, or the cookie is a wild pointer.

The section is the one that the runs of the pool are made of (`executeLocked_agrees`).  It fills in
the `ipc_async` before it asks for the memory of the copy.
`failed_execute_iff` says that this is the only failure that leaves a trace, and
`execute_after_failure` that after it the handle is busy for ever.
-/

namespace LinuxC.Ipc.Async

def ipcCookieNone : ℤ := 0x8001

def ipcCookieAsync : ℤ := 0x8002

/-- What the cookie of a handle points at. -/
inductive Cookie
  | null
  /-- A cookie of the user, with its `type`. -/
  | user (type : ℤ)
  | async (a : Ptr)
  deriving DecidableEq

def ipcCookieType : Cookie → ℤ
  | .null => ipcCookieNone
  | .user type => type
  | .async _ => ipcCookieAsync

/-- The parts of `struct ipc_core` that `ipc_async_execute` looks at. -/
structure AsyncCore where
  /-- `ipc_core_running`. -/
  running : Bool
  /-- `core->pool`, with what its mutex protects. -/
  pool : Option State

/-- `ipc_async_execute` behind `pthread_mutex_lock`. -/
def executeLocked (a : Ptr) (r : Request) (wake : ℕ) (created : Bool) (s : State) :
    Option (ℤ × IpcMsg × State) :=
  match s.async a with
  | none => none
  | some x =>
      if x.state ≠ asyncIdle then some (-1, r.msg, s)
      else if x.msg ≠ none then none
      else if r.alloc = false then some (-1, r.msg, s.setAsync a (some (x.fill r)))
      else
        some (0, { r.msg with flags := r.msg.flags ||| ipcFlagAsync },
          { s.setAsync a (some { x.fill r with msg := some r.msg, request := s.requests }) with
            pool := s.pool.execute a wake created
            requests := s.requests + 1 })

/-- `ipc_async_execute`: the value, the message of the caller and the core afterwards. -/
def ipcAsyncExecuteCall (cookie : Cookie) (r : Request) (wake : ℕ) (created : Bool)
    (core : AsyncCore) : Option (ℤ × IpcMsg × AsyncCore) :=
  if !core.running then some (-1, r.msg, core)
  else
    match core.pool with
    | none => some (-1, r.msg, core)
    | some s =>
        if ipcCookieType cookie ≠ ipcCookieAsync then some (-1, r.msg, core)
        else
          match cookie with
          | .async a =>
              (executeLocked a r wake created s).map fun x =>
                (x.1, x.2.1, { core with pool := some x.2.2 })
          | _ => none

variable {cookie : Cookie} {a : Ptr} {r : Request} {wake : ℕ} {created : Bool} {s : State}
  {core : AsyncCore}

/-- The section is the one that the runs of the pool are made of. -/
lemma executeLocked_agrees {code : ℤ} {msg : IpcMsg} {s' : State}
    (h : executeLocked a r wake created s = some (code, msg, s')) :
    (ipcAsyncExecute a r wake created s).1 = s' ∧
      (code = 0 ↔ (ipcAsyncExecute a r wake created s).2 ≠ []) := by
  unfold executeLocked at h
  split at h
  · cases h
  · rename_i x hx
    unfold ipcAsyncExecute
    rw [hx]
    dsimp only
    split_ifs at h ⊢
    · cases h
      exact ⟨rfl, by simp⟩
    · cases h
      exact ⟨rfl, by simp⟩
    · cases h
      exact ⟨rfl, by simp⟩

/-- An idle `ipc_async` for whose next message there is no memory. -/
def ClonesInVain (a : Ptr) (r : Request) (s : State) : Prop :=
  r.alloc = false ∧ ∃ x, s.async a = some x ∧ x.state = asyncIdle ∧ x.msg = none

lemma executeLocked_failed {msg : IpcMsg} {s' : State}
    (h : executeLocked a r wake created s = some (-1, msg, s')) :
    msg = r.msg ∧ (¬ ClonesInVain a r s → s' = s) ∧
      (ClonesInVain a r s → ∃ x, s'.async a = some x ∧ x.state = asyncPending) := by
  unfold executeLocked at h
  split at h
  · cases h
  · rename_i x hx
    split_ifs at h with hbusy hmsg halloc
    · cases h
      refine ⟨rfl, fun _ => rfl, ?_⟩
      rintro ⟨-, y, hy, hidle, -⟩
      obtain rfl := Option.some.inj (hx.symm.trans hy)
      exact absurd hidle hbusy
    · cases h
      refine ⟨rfl, fun hnot => absurd ⟨halloc, x, hx, not_not.mp hbusy, not_not.mp hmsg⟩ hnot,
        fun _ => ⟨x.fill r, ?_, rfl⟩⟩
      simp [State.setAsync]
    · cases h

lemma executeLocked_vain (wake : ℕ) (created : Bool) (h : ClonesInVain a r s) :
    ∃ s', executeLocked a r wake created s = some (-1, r.msg, s') := by
  obtain ⟨halloc, x, hx, hidle, hmsg⟩ := h
  refine ⟨s.setAsync a (some (x.fill r)), ?_⟩
  rw [executeLocked, hx]
  dsimp only
  rw [if_neg (not_not.mpr hidle), if_neg (not_not.mpr hmsg), if_pos halloc]

/-- **After a failure without memory** the handle is busy: every later call fails as well, with
memory or without. -/
lemma execute_after_failure (hvain : ClonesInVain a r s) {msg : IpcMsg} {s' : State}
    (h : executeLocked a r wake created s = some (-1, msg, s')) (r' : Request) (wake' : ℕ)
    (created' : Bool) : executeLocked a r' wake' created' s' = some (-1, r'.msg, s') := by
  obtain ⟨x, hx, hpending⟩ := (executeLocked_failed h).2.2 hvain
  have hbusy : x.state ≠ asyncIdle := by
    rw [hpending]
    decide
  rw [executeLocked, hx]
  exact if_pos hbusy

/-- **When a failed `ipc_async_execute` changes nothing.**  Whenever the call returns -1, the core
and the message are what they were, if and only if it is not the case that the server runs with a
pool, the `ipc_async` of the handle is idle, and there is no memory for the copy of the message. -/
theorem failed_execute_iff (cookie : Cookie) (r : Request) (wake : ℕ) (created : Bool)
    (core : AsyncCore) :
    (∀ msg core', ipcAsyncExecuteCall cookie r wake created core = some (-1, msg, core') →
        msg = r.msg ∧ core' = core) ↔
      ¬ (core.running = true ∧ ∃ s a, core.pool = some s ∧ cookie = .async a ∧
        ClonesInVain a r s) := by
  constructor
  · rintro hsame ⟨hrunning, s, a, hpool, rfl, hvain⟩
    obtain ⟨s', hs'⟩ := executeLocked_vain wake created hvain
    have hcall : ipcAsyncExecuteCall (.async a) r wake created core =
        some (-1, r.msg, { core with pool := some s' }) := by
      unfold ipcAsyncExecuteCall
      simp [hrunning, hpool, ipcCookieType, hs']
    have hcore := (hsame _ _ hcall).2
    have hss : s' = s := Option.some.inj ((congrArg AsyncCore.pool hcore).trans hpool)
    obtain ⟨x, hx, hpending⟩ := (executeLocked_failed hs').2.2 hvain
    obtain ⟨-, y, hy, hidle, -⟩ := hvain
    rw [hss] at hx
    obtain rfl := Option.some.inj (hx.symm.trans hy)
    exact absurd (hpending.symm.trans hidle) (by decide)
  · intro hnot msg core' hcall
    unfold ipcAsyncExecuteCall at hcall
    by_cases hrunning : core.running = true
    · rw [if_neg (by simp [hrunning])] at hcall
      cases hpool : core.pool with
      | none =>
          rw [hpool] at hcall
          cases hcall
          exact ⟨rfl, rfl⟩
      | some s =>
          rw [hpool] at hcall
          dsimp only at hcall
          by_cases htype : ipcCookieType cookie ≠ ipcCookieAsync
          · rw [if_pos htype] at hcall
            cases hcall
            exact ⟨rfl, rfl⟩
          · rw [if_neg htype] at hcall
            cases cookie with
            | null => cases hcall
            | user type => cases hcall
            | async a =>
                obtain ⟨⟨code, msg', s'⟩, hs', heq⟩ := Option.map_eq_some_iff.mp hcall
                cases heq
                obtain ⟨hmsg, hkeep, -⟩ := executeLocked_failed hs'
                have hvain : ¬ ClonesInVain a r s := fun hvain =>
                  hnot ⟨hrunning, s, a, hpool, rfl, hvain⟩
                rw [hkeep hvain, ← hpool]
                exact ⟨hmsg, rfl⟩
    · rw [if_pos (by simpa using hrunning)] at hcall
      cases hcall
      exact ⟨rfl, rfl⟩

/-- A pool with one handle, which is bound and idle. -/
def boundPool : State :=
  ipcServerBind 0 (ipcServerCreate (ipcAsyncSetup 1 1 0 0))

/-- A request for whose copy there is no memory. -/
def vainRequest : Request := ⟨⟨7, 300, ipcFlagReply, [], length_nil_lt⟩, 5, none, 0, false⟩

/-- **A failed call that changes something.**  The handle is idle before the call and pending
after it, without a message and not in the queue. -/
theorem failed_execute_pending :
    ¬ ∀ (cookie : Cookie) (r : Request) (wake : ℕ) (created : Bool) (core : AsyncCore) msg core',
      ipcAsyncExecuteCall cookie r wake created core = some (-1, msg, core') →
        msg = r.msg ∧ core' = core := by
  intro h
  have hcall : ipcAsyncExecuteCall (.async 0) vainRequest 0 true ⟨true, some boundPool⟩ =
      some (-1, vainRequest.msg, ⟨true, some (boundPool.setAsync 0
        (some (IpcAsync.fill ⟨0, none, none, asyncIdle, some 0, none, 0⟩ vainRequest)))⟩) := rfl
  have hcore := (h _ _ _ _ _ _ _ hcall).2
  have hstate := congrArg (fun core : AsyncCore =>
    core.pool.map fun s => (s.async 0).map IpcAsync.state) hcore
  revert hstate
  decide

end LinuxC.Ipc.Async
