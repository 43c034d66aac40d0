import LinuxC.Ipc.Async

/-!
# Asynchronous requests of subscribers

`ipc_server_bind` gives an `ipc_async` to requesters and to subscribers.  `ipc_release` releases the
one of a requester; its branch for subscribers frees the handle and leaves the `ipc_async` as it is.

The runs here are those of `Async` with handles of both classes.  `MemStep` says what a step does to
the memory; from it the invariant `Bindings` follows, and that an `ipc_async` whose handle is gone
without it is never freed and goes on pointing at the handle (`Alive`, `Orphan`).
-/

namespace LinuxC.Ipc.Async

/-! ## Handles of both classes -/

/-- The server of the asynchronous requests, with the classes of the handles. -/
structure Clients where
  state : State
  clazz : Ptr → IpcClass

/-- A new handle of a class. -/
def newClient (clazz : IpcClass) (s : Clients) : Clients where
  state := ipcServerCreate s.state
  clazz := Function.update s.clazz s.state.sevrs clazz

/-- `ipc_release` for a subscriber, up to where it closes the handle: the cookie is not looked
at. -/
def ipcReleasePeer (h : Ptr) (s : State) : State :=
  match s.sevr h with
  | some ⟨c, _⟩ => s.setSevr h (some ⟨c, true⟩)
  | none => s.fail

/-- A step: a subscriber registers, or one of the steps of `Async`. -/
inductive ClientLabel
  | register
  | server (l : Label)
  deriving DecidableEq

/-- The step function.  `ipc_release` branches by the class of the handle. -/
def clientStep (s : Clients) : ClientLabel → Option (Clients × List Event)
  | .register => some (newClient .subscriber s, [])
  | .server .connect => some (newClient .requester s, [])
  | .server (.release h) =>
      if s.clazz h = .subscriber then
        match s.state.sevr h with
        | some ⟨_, false⟩ => some ({ s with state := ipcReleasePeer h s.state }, [])
        | _ => none
      else (step s.state (.release h)).map fun r => ({ s with state := r.1 }, r.2)
  | .server l => (step s.state l).map fun r => ({ s with state := r.1 }, r.2)

/-! ## What a step does to the memory -/

/-- The handles and the `ipc_async`s are the same. -/
structure SameMemory (s s' : State) : Prop where
  async : s'.async = s.async
  brk : s'.brk = s.brk
  sevr : s'.sevr = s.sevr
  sevrs : s'.sevrs = s.sevrs
  freed : s'.freed = s.freed

lemma SameMemory.refl (s : State) : SameMemory s s := ⟨rfl, rfl, rfl, rfl, rfl⟩

/-- **The cases of a step**, for the memory. -/
inductive MemStep (s s' : State) : Label → Prop
  | same {l : Label} (hl : ∀ g, l ≠ .release g) (h : SameMemory s s') : MemStep s s' l
  | connect (h : SameMemory (ipcServerCreate s) s') : MemStep s s' .connect
  | bind (g : Ptr) (hg : s.sevr g = some ⟨none, false⟩)
      (h : SameMemory ((ipcAsyncAlloc g s).setSevr g (some ⟨some s.brk, false⟩)) s') :
      MemStep s s' (.bind g)
  | write {l : Label} (hl : ∀ g, l ≠ .release g) (b : Ptr) (x y : IpcAsync)
      (hx : s.async b = some x) (hsevr : y.sevr = x.sevr)
      (hstate : y.state = asyncIdle ∨ y.state = asyncPending ∨ y.state = asyncExecuting)
      (h : SameMemory (s.setAsync b (some y)) s') : MemStep s s' l
  | free {l : Label} (hl : ∀ g, l ≠ .release g) (b : Ptr) (x : IpcAsync)
      (hx : s.async b = some x) (hexited : x.state &&& asyncExited ≠ 0)
      (h : SameMemory (s.freeAsync b) s') : MemStep s s' l
  | release (g : Ptr) (c : Option Ptr) (hg : s.sevr g = some ⟨c, false⟩)
      (h : SameMemory (ipcRelease g s).1 s') : MemStep s s' (.release g)
  | peer (g : Ptr) (c : Option Ptr) (hg : s.sevr g = some ⟨c, false⟩)
      (h : SameMemory (s.setSevr g (some ⟨c, true⟩)) s') : MemStep s s' (.release g)
  | close (g : Ptr) (c : Option Ptr) (hg : s.sevr g = some ⟨c, true⟩)
      (h : SameMemory (s.setSevr g none) s') : MemStep s s' (.close g)

variable {s s' : State} {l : Label} {es : List Event} {a : Ptr}

lemma memStep_serve (hl : ∀ g, l ≠ .release g) (s : State)
    (r : WorkerPool.Pool Ptr × List (WorkerPool.Event Ptr)) :
    MemStep s (s.serve r) l := by
  unfold State.serve
  split
  · rename_i a _
    unfold takeAsync
    split
    · exact .same hl ⟨rfl, rfl, rfl, rfl, rfl⟩
    · rename_i x hx
      exact .write hl a x { x with state := asyncExecuting } hx rfl (.inr (.inr rfl))
        ⟨rfl, rfl, rfl, rfl, rfl⟩
  · exact .same hl ⟨rfl, rfl, rfl, rfl, rfl⟩

lemma memStep_cleanup (hl : ∀ g, l ≠ .release g) (a : Ptr) (msg : IpcMsg) (s : State)
    (p : WorkerPool.Pool Ptr) :
    MemStep s { (ipcAsyncCleanup a msg s).1 with pool := p } l := by
  unfold ipcAsyncCleanup
  split
  · exact .same hl ⟨rfl, rfl, rfl, rfl, rfl⟩
  · rename_i x hx
    by_cases hexited : x.state &&& asyncExited ≠ 0
    · rw [if_pos hexited]
      exact .free hl a x hx hexited ⟨rfl, rfl, rfl, rfl, rfl⟩
    · rw [if_neg hexited]
      have hwrite : ∀ s' : State, SameMemory (s.setAsync a (some { x with
          msg := none, state := asyncIdle, func := none, release := none })) s' → MemStep s s' l :=
        fun s' h => .write hl a x { x with
          msg := none, state := asyncIdle, func := none, release := none } hx rfl (.inl rfl) h
      split
      · dsimp only
        split_ifs
        · exact hwrite _ ⟨rfl, rfl, rfl, rfl, rfl⟩
        · exact hwrite _ ⟨rfl, rfl, rfl, rfl, rfl⟩
      · exact .same hl ⟨rfl, rfl, rfl, rfl, rfl⟩

lemma memStep_of_step (h : step s l = some (s', es)) : MemStep s s' l := by
  cases trans_of_step h with
  | connect => exact .connect (.refl _)
  | @bind g c hg =>
      unfold ipcServerBind
      split
      · rename_i released hnone
        obtain ⟨rfl, rfl⟩ : c = none ∧ released = false := by
          rw [hg] at hnone
          simpa using hnone
        exact .bind g hg (.refl _)
      · exact .same (by simp) (.refl _)
  | @execute g b r wake created s' es hg hfree hexecute =>
      unfold ipcAsyncExecute at hexecute
      split at hexecute
      · obtain ⟨rfl, -⟩ := Prod.mk.inj hexecute
        exact .same (by simp) ⟨rfl, rfl, rfl, rfl, rfl⟩
      · rename_i x hx
        split_ifs at hexecute
        · obtain ⟨rfl, -⟩ := Prod.mk.inj hexecute
          exact .same (by simp) (.refl _)
        · obtain ⟨rfl, -⟩ := Prod.mk.inj hexecute
          exact .same (by simp) ⟨rfl, rfl, rfl, rfl, rfl⟩
        · obtain ⟨rfl, -⟩ := Prod.mk.inj hexecute
          exact .write (by simp) b x (x.fill r) hx rfl (.inr (.inl rfl)) (.refl _)
        · obtain ⟨rfl, -⟩ := Prod.mk.inj hexecute
          exact .write (by simp) b x { x.fill r with msg := some r.msg, request := s.requests } hx
            rfl (.inr (.inl rfl)) ⟨rfl, rfl, rfl, rfl, rfl⟩
  | @release g c s' es hg hfree hrelease =>
      refine .release g c hg ?_
      rw [hrelease]
      exact .refl _
  | @close g c hg => exact .close g c hg (.refl _)
  | exit => exact .same (by simp) ⟨rfl, rfl, rfl, rfl, rfl⟩
  | tick => exact .same (by simp) ⟨rfl, rfl, rfl, rfl, rfl⟩
  | start => exact .same (by simp) ⟨rfl, rfl, rfl, rfl, rfl⟩
  | loop => exact memStep_serve (by simp) s _
  | spurious => exact .same (by simp) ⟨rfl, rfl, rfl, rfl, rfl⟩
  | expire => exact .same (by simp) ⟨rfl, rfl, rfl, rfl, rfl⟩
  | signalled => exact memStep_serve (by simp) s _
  | expired => exact memStep_serve (by simp) s _
  | finish hpc hfree htask =>
      obtain ⟨rfl, -⟩ := Prod.mk.inj htask
      exact memStep_cleanup (by simp) _ _ s _
  | cancel hpc hfree htask =>
      obtain ⟨rfl, -⟩ := Prod.mk.inj htask
      exact memStep_cleanup (by simp) _ _ s _

/-! ## The invariant -/

/-- The `ipc_async` is there and points at the handle, and no task will free it. -/
structure Alive (s : State) (a h : Ptr) : Prop where
  points : ∃ x, s.async a = some x ∧ x.sevr = some h ∧ x.state &&& asyncExited = 0
  kept : a ∉ s.freed

/-- What is behind `brk` is new, no two handles have the same cookie, and the cookie of a handle
that has not been released is there. -/
structure Bindings (s : State) : Prop where
  brk : ∀ b, s.brk ≤ b → s.async b = none ∧ b ∉ s.freed ∧ ∀ g r, s.sevr g ≠ some ⟨some b, r⟩
  fresh : ∀ g, s.sevrs ≤ g → s.sevr g = none
  single : ∀ g g' b r r', s.sevr g = some ⟨some b, r⟩ → s.sevr g' = some ⟨some b, r'⟩ → g = g'
  live : ∀ g b, s.sevr g = some ⟨some b, false⟩ → Alive s b g

lemma SameMemory.alive (hs : SameMemory s s') {h : Ptr} (ha : Alive s a h) : Alive s' a h := by
  refine ⟨?_, ?_⟩
  · rw [hs.async]
    exact ha.points
  · rw [hs.freed]
    exact ha.kept

/-- `ipc_async_release` writes to its `ipc_async` or frees it, and does nothing else. -/
lemma asyncRelease_away (b : Ptr) (s : State) :
    (∀ c, c ≠ b → (ipcAsyncRelease b s).1.async c = s.async c ∧
        (c ∈ (ipcAsyncRelease b s).1.freed ↔ c ∈ s.freed)) ∧
      (ipcAsyncRelease b s).1.sevr = s.sevr ∧ (ipcAsyncRelease b s).1.brk = s.brk ∧
      (ipcAsyncRelease b s).1.sevrs = s.sevrs := by
  unfold ipcAsyncRelease
  split
  · exact ⟨fun _ _ => ⟨rfl, Iff.rfl⟩, rfl, rfl, rfl⟩
  · dsimp only
    split_ifs
    · refine ⟨fun c hc => ⟨if_neg hc, ?_⟩, rfl, rfl, rfl⟩
      simp [State.freeAsync, State.setAsync, hc]
    · refine ⟨fun c hc => ⟨if_neg hc, ?_⟩, rfl, rfl, rfl⟩
      simp [State.freeAsync, State.setAsync, hc]
    · exact ⟨fun c hc => ⟨if_neg hc, Iff.rfl⟩, rfl, rfl, rfl⟩
    · exact ⟨fun _ _ => ⟨rfl, Iff.rfl⟩, rfl, rfl, rfl⟩

lemma release_handles {g : Ptr} {c : Option Ptr} {r : Bool} (hg : s.sevr g = some ⟨c, r⟩) :
    (∀ f, (ipcRelease g s).1.sevr f = if f = g then some ⟨c, true⟩ else s.sevr f) ∧
      (ipcRelease g s).1.brk = s.brk ∧ (ipcRelease g s).1.sevrs = s.sevrs := by
  unfold ipcRelease
  rw [hg]
  cases c with
  | none => exact ⟨fun _ => rfl, rfl, rfl⟩
  | some b =>
      obtain ⟨-, hsevr, hbrk, hsevrs⟩ := asyncRelease_away b s
      refine ⟨fun f => ?_, hbrk, hsevrs⟩
      simp only [State.setSevr, hsevr]

lemma release_away {g b : Ptr} {c : Option Ptr} {r : Bool} (hg : s.sevr g = some ⟨c, r⟩)
    (hbc : c ≠ some b) :
    (ipcRelease g s).1.async b = s.async b ∧ (b ∈ (ipcRelease g s).1.freed ↔ b ∈ s.freed) := by
  unfold ipcRelease
  rw [hg]
  cases c with
  | none => exact ⟨rfl, Iff.rfl⟩
  | some d => exact (asyncRelease_away d s).1 b fun heq => hbc (congrArg some heq.symm)

/-- **An `ipc_async` stays alive** unless a requester with it as its cookie is released. -/
lemma Alive.step {h : Ptr} (ha : Alive s a h) (hb : Bindings s) (hstep : MemStep s s' l)
    (hother : ∀ g, l = .release g → s.sevr g ≠ some ⟨some a, false⟩) : Alive s' a h := by
  obtain ⟨⟨x, hx, hsevr, hstate⟩, hkept⟩ := ha
  have hlt : a < s.brk := by
    by_contra hge
    rw [(hb.brk a (not_lt.mp hge)).1] at hx
    cases hx
  cases hstep with
  | same hl hs => exact hs.alive ⟨⟨x, hx, hsevr, hstate⟩, hkept⟩
  | connect hs => exact hs.alive ⟨⟨x, hx, hsevr, hstate⟩, hkept⟩
  | bind g hg hs =>
      refine hs.alive ⟨⟨x, ?_, hsevr, hstate⟩, hkept⟩
      simp only [State.setSevr, ipcAsyncAlloc, State.setAsync, if_neg (Nat.ne_of_lt hlt), hx]
  | write hl b y z hy hzsevr hzstate hs =>
      refine hs.alive ⟨?_, hkept⟩
      rcases eq_or_ne a b with rfl | hab
      · obtain rfl := Option.some.inj (hx.symm.trans hy)
        refine ⟨z, if_pos rfl, hzsevr.trans hsevr, ?_⟩
        rcases hzstate with hz | hz | hz <;> rw [hz] <;> decide
      · exact ⟨x, (if_neg hab).trans hx, hsevr, hstate⟩
  | free hl b y hy hexited hs =>
      have hab : a ≠ b := by
        rintro rfl
        obtain rfl := Option.some.inj (hx.symm.trans hy)
        exact hexited hstate
      refine hs.alive ⟨⟨x, (if_neg hab).trans hx, hsevr, hstate⟩, ?_⟩
      simp [State.freeAsync, State.setAsync, hkept, hab]
  | release g c hg hs =>
      have hac : c ≠ some a := by
        rintro rfl
        exact hother g rfl hg
      obtain ⟨hasync, hfreed⟩ := release_away hg hac
      exact hs.alive ⟨⟨x, hasync.trans hx, hsevr, hstate⟩, fun hmem => hkept (hfreed.mp hmem)⟩
  | peer g c hg hs => exact hs.alive ⟨⟨x, hx, hsevr, hstate⟩, hkept⟩
  | close g c hg hs => exact hs.alive ⟨⟨x, hx, hsevr, hstate⟩, hkept⟩

lemma cookie_before_release {g g' b : Ptr} {c : Option Ptr} {r : Bool}
    (hg' : s.sevr g' = some ⟨c, false⟩)
    (hg : (if g = g' then some ⟨c, true⟩ else s.sevr g) = some (⟨some b, r⟩ : Requester)) :
    ∃ r₀, s.sevr g = some ⟨some b, r₀⟩ ∧ (r = false → r₀ = false ∧ g ≠ g') := by
  split_ifs at hg with heq
  · obtain ⟨rfl, rfl⟩ : c = some b ∧ true = r := by simpa using hg
    subst heq
    exact ⟨false, hg', by simp⟩
  · exact ⟨r, hg, fun hr => ⟨hr, heq⟩⟩

/-- **How a cookie comes to a handle**: it was there, or it is being bound. -/
lemma MemStep.cookie (hb : Bindings s) {g b : Ptr} {r : Bool} (hstep : MemStep s s' l)
    (hg : s'.sevr g = some ⟨some b, r⟩) :
    (∃ r₀, s.sevr g = some ⟨some b, r₀⟩ ∧ (r = false → r₀ = false ∧ l ≠ .release g)) ∨
      l = .bind g ∧ b = s.brk ∧ b < s'.brk ∧ Alive s' b g := by
  cases hstep with
  | same hl hs =>
      rw [hs.sevr] at hg
      exact .inl ⟨r, hg, fun hr => ⟨hr, hl g⟩⟩
  | connect hs =>
      rw [hs.sevr] at hg
      simp only [ipcServerCreate, State.setSevr] at hg
      split_ifs at hg
      · cases hg
      · exact .inl ⟨r, hg, fun hr => ⟨hr, by simp⟩⟩
  | bind g' hg' hs =>
      rw [hs.sevr] at hg
      simp only [State.setSevr, ipcAsyncAlloc, State.setAsync] at hg
      split_ifs at hg with heq
      · obtain ⟨rfl, rfl⟩ : s.brk = b ∧ false = r := by simpa using hg
        subst heq
        have halive : Alive s' s.brk g := by
          have hidle : asyncIdle &&& asyncExited = 0 := by decide
          exact hs.alive ⟨⟨_, if_pos rfl, rfl, hidle⟩, (hb.brk s.brk (le_refl _)).2.1⟩
        refine .inr ⟨rfl, rfl, ?_, halive⟩
        rw [hs.brk]
        exact Nat.lt_succ_self s.brk
      · exact .inl ⟨r, hg, fun hr => ⟨hr, by simp⟩⟩
  | write hl b' x y hx hsevr hstate hs =>
      rw [hs.sevr] at hg
      exact .inl ⟨r, hg, fun hr => ⟨hr, hl g⟩⟩
  | free hl b' x hx hexited hs =>
      rw [hs.sevr] at hg
      exact .inl ⟨r, hg, fun hr => ⟨hr, hl g⟩⟩
  | release g' c hg' hs =>
      rw [hs.sevr, (release_handles hg').1] at hg
      obtain ⟨r₀, hbefore, hnot⟩ := cookie_before_release hg' hg
      exact .inl ⟨r₀, hbefore, fun hr => ⟨(hnot hr).1, fun hl =>
        (hnot hr).2 (Label.release.inj hl).symm⟩⟩
  | peer g' c hg' hs =>
      rw [hs.sevr] at hg
      simp only [State.setSevr] at hg
      obtain ⟨r₀, hbefore, hnot⟩ := cookie_before_release hg' hg
      exact .inl ⟨r₀, hbefore, fun hr => ⟨(hnot hr).1, fun hl =>
        (hnot hr).2 (Label.release.inj hl).symm⟩⟩
  | close g' c hg' hs =>
      rw [hs.sevr] at hg
      simp only [State.setSevr] at hg
      split_ifs at hg
      exact .inl ⟨r, hg, fun hr => ⟨hr, by simp⟩⟩

/-- A handle that is there is none of the new ones. -/
lemma Bindings.ne_of_sevr (hb : Bindings s) {g g' : Ptr} {r : Requester} (hg : s.sevrs ≤ g)
    (hg' : s.sevr g' = some r) : g ≠ g' := by
  rintro rfl
  rw [hb.fresh g hg] at hg'
  cases hg'

lemma Bindings.ne_of_async (hb : Bindings s) {b b' : Ptr} {x : IpcAsync} (hb' : s.brk ≤ b)
    (hx : s.async b' = some x) : b ≠ b' := by
  rintro rfl
  rw [(hb.brk b hb').1] at hx
  cases hx

lemma MemStep.fresh (hb : Bindings s) (hstep : MemStep s s' l) :
    s.brk ≤ s'.brk ∧ (∀ b, s'.brk ≤ b → s'.async b = none ∧ b ∉ s'.freed) ∧
      ∀ g, s'.sevrs ≤ g → s'.sevr g = none := by
  have hnew : ∀ b, s.brk ≤ b → s.async b = none ∧ b ∉ s.freed := fun b hge =>
    ⟨(hb.brk b hge).1, (hb.brk b hge).2.1⟩
  cases hstep with
  | same hl hs =>
      rw [hs.brk, hs.async, hs.freed, hs.sevrs, hs.sevr]
      exact ⟨le_refl _, hnew, hb.fresh⟩
  | connect hs =>
      rw [hs.brk, hs.async, hs.freed, hs.sevrs, hs.sevr]
      refine ⟨le_refl _, hnew, fun g hg => ?_⟩
      have hlt : s.sevrs < g := hg
      exact (if_neg (Nat.ne_of_gt hlt)).trans (hb.fresh g hlt.le)
  | bind g' hg' hs =>
      rw [hs.brk, hs.async, hs.freed, hs.sevrs, hs.sevr]
      refine ⟨Nat.le_succ _, fun b hge => ?_, fun g hg => ?_⟩
      · have hlt : s.brk < b := hge
        exact ⟨(if_neg (Nat.ne_of_gt hlt)).trans (hnew b hlt.le).1, (hnew b hlt.le).2⟩
      · have hgg := hb.ne_of_sevr hg hg'
        exact (if_neg hgg).trans (hb.fresh g hg)
  | write hl b' x y hx hsevr hstate hs =>
      rw [hs.brk, hs.async, hs.freed, hs.sevrs, hs.sevr]
      refine ⟨le_refl _, fun b hge => ⟨?_, (hnew b hge).2⟩, hb.fresh⟩
      have hbb := hb.ne_of_async hge hx
      exact (if_neg hbb).trans (hnew b hge).1
  | free hl b' x hx hexited hs =>
      rw [hs.brk, hs.async, hs.freed, hs.sevrs, hs.sevr]
      refine ⟨le_refl _, fun b hge => ?_, hb.fresh⟩
      have hbb := hb.ne_of_async hge hx
      refine ⟨(if_neg hbb).trans (hnew b hge).1, ?_⟩
      simp [State.freeAsync, State.setAsync, (hnew b hge).2, hbb]
  | release g' c hg' hs =>
      obtain ⟨hsevr, hbrk, hsevrs⟩ := release_handles hg'
      rw [hs.brk, hs.async, hs.freed, hs.sevrs, hs.sevr, hbrk, hsevrs]
      refine ⟨le_refl _, fun b hge => ?_, fun g hg => ?_⟩
      · have hbc : c ≠ some b := by
          rintro rfl
          exact (hb.brk b hge).2.2 g' false hg'
        obtain ⟨hasync, hfreed⟩ := release_away hg' hbc
        exact ⟨hasync.trans (hnew b hge).1, fun hmem => (hnew b hge).2 (hfreed.mp hmem)⟩
      · have hgg := hb.ne_of_sevr hg hg'
        rw [hsevr, if_neg hgg]
        exact hb.fresh g hg
  | peer g' c hg' hs =>
      rw [hs.brk, hs.async, hs.freed, hs.sevrs, hs.sevr]
      refine ⟨le_refl _, hnew, fun g hg => ?_⟩
      have hgg := hb.ne_of_sevr hg hg'
      exact (if_neg hgg).trans (hb.fresh g hg)
  | close g' c hg' hs =>
      rw [hs.brk, hs.async, hs.freed, hs.sevrs, hs.sevr]
      refine ⟨le_refl _, hnew, fun g hg => ?_⟩
      simp only [State.setSevr]
      split_ifs
      · rfl
      · exact hb.fresh g hg

lemma Bindings.step (h : Bindings s) (hstep : MemStep s s' l) : Bindings s' := by
  obtain ⟨hle, hnew, hfresh⟩ := hstep.fresh h
  have hold : ∀ g b r, s.sevr g = some ⟨some b, r⟩ → b < s.brk := fun g b r hg => by
    by_contra hge
    exact (h.brk b (not_lt.mp hge)).2.2 g r hg
  refine ⟨fun b hge => ⟨(hnew b hge).1, (hnew b hge).2, fun g r hg => ?_⟩, hfresh,
    fun g g' b r r' hg hg' => ?_, fun g b hg => ?_⟩
  · rcases hstep.cookie h hg with ⟨r₀, hg₀, -⟩ | ⟨-, -, hlt, -⟩
    · exact absurd (hold g b r₀ hg₀) (not_lt.mpr (hle.trans hge))
    · exact absurd hlt (not_lt.mpr hge)
  · rcases hstep.cookie h hg with ⟨r₀, hg₀, -⟩ | ⟨hbind, heq, -, -⟩
    · rcases hstep.cookie h hg' with ⟨r₀', hg₀', -⟩ | ⟨-, heq', -, -⟩
      · exact h.single g g' b r₀ r₀' hg₀ hg₀'
      · exact absurd (hold g b r₀ hg₀) (heq' ▸ lt_irrefl _)
    · rcases hstep.cookie h hg' with ⟨r₀', hg₀', -⟩ | ⟨hbind', -, -, -⟩
      · exact absurd (hold g' b r₀' hg₀') (heq ▸ lt_irrefl _)
      · exact Label.bind.inj (hbind.symm.trans hbind')
  · rcases hstep.cookie h hg with ⟨r₀, hg₀, hr₀⟩ | ⟨-, -, -, halive⟩
    · obtain ⟨rfl, hne⟩ := hr₀ rfl
      refine (h.live g b hg₀).step h hstep fun g' hl hg' => hne ?_
      rw [hl, h.single g g' b false false hg₀ hg']
    · exact halive

/-! ## An `ipc_async` without a handle -/

/-- The handle has been closed, and the `ipc_async` that it had is the cookie of no handle that can
still be released. -/
structure Orphan (s : State) (a h : Ptr) : Prop where
  alive : Alive s a h
  lost : ∀ g, s.sevr g ≠ some ⟨some a, false⟩
  closed : s.sevr h = none
  old : h < s.sevrs

lemma MemStep.closed {h : Ptr} (hstep : MemStep s s' l) (hh : s.sevr h = none)
    (hold : h < s.sevrs) : s'.sevr h = none ∧ h < s'.sevrs := by
  have hne : ∀ g r, s.sevr g = some r → h ≠ g := by
    rintro g r hg rfl
    rw [hh] at hg
    cases hg
  cases hstep with
  | same hl hs => exact ⟨hs.sevr ▸ hh, hs.sevrs ▸ hold⟩
  | connect hs =>
      rw [hs.sevr, hs.sevrs]
      exact ⟨(if_neg (Nat.ne_of_lt hold)).trans hh, Nat.lt_succ_of_lt hold⟩
  | bind g hg hs =>
      rw [hs.sevr, hs.sevrs]
      exact ⟨(if_neg (hne g _ hg)).trans hh, hold⟩
  | write hl b x y hx hsevr hstate hs => exact ⟨hs.sevr ▸ hh, hs.sevrs ▸ hold⟩
  | free hl b x hx hexited hs => exact ⟨hs.sevr ▸ hh, hs.sevrs ▸ hold⟩
  | release g c hg hs =>
      obtain ⟨hsevr, -, hsevrs⟩ := release_handles hg
      rw [hs.sevr, hs.sevrs, hsevr, hsevrs, if_neg (hne g _ hg)]
      exact ⟨hh, hold⟩
  | peer g c hg hs =>
      rw [hs.sevr, hs.sevrs]
      exact ⟨(if_neg (hne g _ hg)).trans hh, hold⟩
  | close g c hg hs =>
      rw [hs.sevr, hs.sevrs]
      exact ⟨(if_neg (hne g _ hg)).trans hh, hold⟩

lemma Orphan.step {h : Ptr} (ho : Orphan s a h) (hb : Bindings s) (hstep : MemStep s s' l) :
    Orphan s' a h := by
  obtain ⟨hclosed, hold⟩ := hstep.closed ho.closed ho.old
  refine ⟨ho.alive.step hb hstep fun g _ => ho.lost g, fun g hg => ?_, hclosed, hold⟩
  rcases hstep.cookie hb hg with ⟨r₀, hg₀, hr₀⟩ | ⟨-, rfl, -, -⟩
  · obtain ⟨rfl, -⟩ := hr₀ rfl
    exact ho.lost g hg₀
  · obtain ⟨x, hx, -⟩ := ho.alive.points
    rw [(hb.brk s.brk (le_refl _)).1] at hx
    cases hx

/-! ## Runs with both classes -/

section Clients

variable {c c' : Clients} {cl : ClientLabel}

lemma memStep_of_clientStep (h : clientStep c cl = some (c', es)) :
    ∃ l, MemStep c.state c'.state l := by
  cases cl with
  | register =>
      obtain ⟨rfl, -⟩ := Prod.mk.inj (Option.some.inj h)
      exact ⟨.connect, .connect (.refl _)⟩
  | server l =>
      have hbase : ∀ r, step c.state l = some r → c' = { c with state := r.1 } →
          ∃ l, MemStep c.state c'.state l := by
        rintro ⟨s', es'⟩ hstep rfl
        exact ⟨l, memStep_of_step hstep⟩
      have hmap : (step c.state l).map (fun r => ({ c with state := r.1 }, r.2)) = some (c', es) →
          ∃ l, MemStep c.state c'.state l := by
        intro hmap
        obtain ⟨r, hr, heq⟩ := Option.map_eq_some_iff.mp hmap
        exact hbase r hr (Prod.mk.inj heq).1.symm
      cases l with
      | connect =>
          obtain ⟨rfl, -⟩ := Prod.mk.inj (Option.some.inj h)
          exact ⟨.connect, .connect (.refl _)⟩
      | release g =>
          simp only [clientStep] at h
          split_ifs at h with hclass
          · split at h
            · rename_i k hg
              obtain ⟨rfl, -⟩ := Prod.mk.inj (Option.some.inj h)
              refine ⟨.release g, .peer g k hg ?_⟩
              simp only [ipcReleasePeer, hg]
              exact .refl _
            · cases h
          · exact hmap h
      | bind g => exact hmap h
      | execute g r wake created => exact hmap h
      | close g => exact hmap h
      | exit => exact hmap h
      | tick now => exact hmap h
      | start i => exact hmap h
      | loop i => exact hmap h
      | spurious i => exact hmap h
      | expire i => exact hmap h
      | resume i => exact hmap h
      | finish i msg => exact hmap h
      | cancel i msg => exact hmap h

/-- The server before its first client. -/
def Clients.start (s : State) : Clients := ⟨s, fun _ => .dummy⟩

lemma bindings_start {opts : Option IpcAopts} {now : ℤ} {s : State}
    (h : setOptAsync opts now = some s) : Bindings s := by
  obtain ⟨b, -, rfl⟩ := Option.map_eq_some_iff.mp h
  refine ⟨fun _ _ => ⟨rfl, List.not_mem_nil, fun _ _ hg => ?_⟩, fun _ _ => rfl,
    fun _ _ _ _ _ hg => ?_, fun _ _ hg => ?_⟩
  · cases hg
  · cases hg
  · cases hg

lemma Bindings.run {ls : List ClientLabel} (h : Bindings c.state)
    (hrun : LinuxC.run clientStep ls c = some (c', es)) : Bindings c'.state :=
  run_invariant (I := fun c => Bindings c.state) (fun h _ hstep => by
    obtain ⟨l, hmem⟩ := memStep_of_clientStep hstep
    exact h.step hmem) h (along_of_forall (P := fun _ => True) (fun _ _ => trivial) c) hrun

lemma Orphan.run {ls : List ClientLabel} {h : Ptr} (ho : Orphan c.state a h)
    (hb : Bindings c.state) (hrun : LinuxC.run clientStep ls c = some (c', es)) :
    Orphan c'.state a h :=
  (run_invariant (I := fun c => Bindings c.state ∧ Orphan c.state a h) (fun h _ hstep => by
    obtain ⟨l, hmem⟩ := memStep_of_clientStep hstep
    exact ⟨h.1.step hmem, h.2.step h.1 hmem⟩) ⟨hb, ho⟩
    (along_of_forall (P := fun _ => True) (fun _ _ => trivial) c) hrun).2

end Clients

/-- No `ipc_async` that is queued or executed refers to the handle, and the one that was bound to it
can be freed once. -/
def Detached (c : Clients) (a h : Ptr) : Prop :=
  (∀ b x, c.state.async b = some x → x.state = asyncPending ∨ x.state = asyncExecuting →
    x.sevr ≠ some h) ∧
  ∃ ls c' es, run clientStep ls c = some (c', es) ∧ c'.state.freed.count a = 1

lemma orphan_of_peer {h : Ptr} (hb : Bindings s) (hbound : s.sevr h = some ⟨some a, false⟩) :
    Orphan ((ipcReleasePeer h s).setSevr h none) a h := by
  have halive := hb.live h a hbound
  have hpeer : ipcReleasePeer h s = s.setSevr h (some ⟨some a, true⟩) := by
    rw [ipcReleasePeer, hbound]
  have hsevr : ∀ g, ((ipcReleasePeer h s).setSevr h none).sevr g =
      if g = h then none else s.sevr g := by
    intro g
    rw [hpeer]
    simp only [State.setSevr]
    split_ifs <;> rfl
  have hold : h < s.sevrs := by
    by_contra hge
    rw [hb.fresh h (not_lt.mp hge)] at hbound
    cases hbound
  refine ⟨?_, fun g => ?_, ?_, ?_⟩
  · rw [hpeer]
    exact ⟨halive.points, halive.kept⟩
  · rw [hsevr]
    split_ifs with hg
    · simp
    · exact fun hcookie => hg (hb.single g h a false false hcookie hbound)
  · rw [hsevr, if_pos rfl]
  · rw [hpeer]
    exact hold

/-- **The release of a subscriber detaches nothing.**  After the release of a subscriber with an
`ipc_async`, whatever that is doing, the `ipc_async` is as it was and refers to the handle; it does
so in all runs from there, in which it is never freed. -/
theorem subscriber_release_leaks {opts : Option IpcAopts} {now : ℤ} {s₀ : State}
    {ls : List ClientLabel} {c : Clients} {es : List Event} {h a : Ptr}
    (h₀ : setOptAsync opts now = some s₀)
    (hrun : run clientStep ls (Clients.start s₀) = some (c, es))
    (hclass : c.clazz h = .subscriber) (hbound : c.state.sevr h = some ⟨some a, false⟩) :
    ∃ c', run clientStep [.server (.release h), .server (.close h)] c = some (c', []) ∧
      ¬ Detached c' a h ∧ c'.state.async = c.state.async ∧
      ∀ ls' c'' es', run clientStep ls' c' = some (c'', es') → Orphan c''.state a h := by
  have hb : Bindings c.state := (bindings_start h₀).run hrun
  set released : Clients := { c with state := ipcReleasePeer h c.state } with hreleased
  set closed : Clients := { released with state := released.state.setSevr h none } with hclosed
  have hrelease : clientStep c (.server (.release h)) = some (released, []) := by
    simp only [clientStep, hclass, if_true, hbound]
    rfl
  have hpeer : released.state = c.state.setSevr h (some ⟨some a, true⟩) := by
    rw [hreleased]
    dsimp only
    rw [ipcReleasePeer, hbound]
  have hclose : clientStep released (.server (.close h)) = some (closed, []) := by
    have hh : released.state.sevr h = some ⟨some a, true⟩ := by
      rw [hpeer]
      exact if_pos rfl
    simp only [clientStep, step, hh, Option.map_some]
    rfl
  have hdone : run clientStep [.server (.release h), .server (.close h)] c = some (closed, []) :=
    run_cons.mpr ⟨released, [], [], hrelease, run_cons.mpr ⟨closed, [], [], hclose, rfl, rfl⟩, rfl⟩
  have hlater : ∀ ls' c'' es', run clientStep ls' closed = some (c'', es') →
      Orphan c''.state a h :=
    fun ls' c'' es' hrun' => (orphan_of_peer hb hbound).run (hb.run hdone) hrun'
  refine ⟨closed, hdone, ?_, ?_, hlater⟩
  · rintro ⟨-, ls', c', es', hrun', hcount⟩
    have hmem : a ∈ c'.state.freed := List.count_pos_iff.mp (by omega)
    exact (hlater ls' c' es' hrun').alive.kept hmem
  · rw [hclosed]
    dsimp only
    rw [hpeer]
    rfl

/-- A message that asks for a reply. -/
def replyMsg : IpcMsg := ⟨8, 301, ipcFlagReply, [], length_nil_lt⟩

/-- A subscriber is bound, and its request is queued. -/
def boundRun : List ClientLabel :=
  [.register, .server (.bind 0), .server (.execute 0 ⟨replyMsg, 1, none, 0, true⟩ 0 true)]

theorem subscriber_release_leaks_sample :
    ∃ s₀ c es, setOptAsync none 0 = some s₀ ∧
      run clientStep boundRun (Clients.start s₀) = some (c, es) ∧
      ∃ c', run clientStep [.server (.release 0), .server (.close 0)] c = some (c', []) ∧
        ¬ Detached c' 0 0 ∧ (c'.state.async 0).map IpcAsync.state = some asyncPending := by
  obtain ⟨s₀, hinit, c, es, hrun, hclass, hbound, hstate⟩ : ∃ s₀, setOptAsync none 0 = some s₀ ∧
      ∃ c es, run clientStep boundRun (Clients.start s₀) = some (c, es) ∧
        c.clazz 0 = .subscriber ∧ c.state.sevr 0 = some ⟨some 0, false⟩ ∧
        (c.state.async 0).map IpcAsync.state = some asyncPending :=
    ⟨_, rfl, _, _, rfl, rfl, rfl, rfl⟩
  obtain ⟨c', hrelease, hnot, hasync, -⟩ := subscriber_release_leaks hinit hrun hclass hbound
  refine ⟨s₀, c, es, hinit, hrun, c', hrelease, hnot, ?_⟩
  rw [hasync]
  exact hstate

/-- The subscriber is released, and then a task takes the request and finishes it. -/
def orphanRun : List ClientLabel :=
  boundRun ++ [.server (.release 0), .server (.close 0), .server (.start 0), .server (.loop 0),
    .server (.finish 0 replyMsg)]

/-- **A reply through a freed handle.**  The last step sends a reply through the handle 0, which has
been closed, and the `ipc_async` was not freed. -/
theorem subscriber_reply_after_release :
    ∃ s₀ c es, setOptAsync none 0 = some s₀ ∧
      run clientStep orphanRun (Clients.start s₀) = some (c, es) ∧
      es.getLast? = some (.reply 0 0) ∧ c.state.sevr 0 = none ∧ c.state.freed = [] :=
  ⟨_, _, _, rfl, rfl, rfl, rfl, rfl⟩

end LinuxC.Ipc.Async
