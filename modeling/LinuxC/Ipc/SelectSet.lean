import LinuxC.Framework.Transition
import LinuxC.Ipc.Handles
import Mathlib.Data.Finset.Lattice.Fold
import Mathlib.Order.Lattice.Nat

/-!
# The set for `select` (`ipc/ipc_server.c`)

`ipc_loop` waits for the sockets of all handles.  Built with `IPC_PERF`, the core keeps the set and
its maximum: `sevr_init` adds a socket and `ipc_release` takes it out, which recomputes the maximum
from the list of handles if the socket was the maximum.  Without it `ipc_loop` builds both anew on
every turn.

An `fd_set` has `FD_SETSIZE` bits, and nobody asks whether a socket is below that.  `FD_SET` on a
greater one writes behind the set, and what lies there is `core->head`, the list of the handles.  A
history ends at such a write: nothing is said of what follows it.  `select_args_agree_iff` says that
the kept set is the recomputed one exactly as long as no live socket is too large for it.
-/

namespace LinuxC.Ipc

/-! ## `fd_set` -/

def fdSetsize : ℕ := 1024

/-- An `fd_set`: the bits that are set, and the descriptors whose bits were written behind it. -/
structure FdSet where
  bits : Finset ℕ
  behind : Finset ℕ
  deriving DecidableEq

namespace FdSet

/-- `FD_ZERO`. -/
def zero : FdSet := ⟨∅, ∅⟩

/-- `FD_SET`. -/
def set (fd : ℕ) (s : FdSet) : FdSet :=
  if fd < fdSetsize then { s with bits := insert fd s.bits }
  else { s with behind := insert fd s.behind }

/-- `FD_CLR`. -/
def clr (fd : ℕ) (s : FdSet) : FdSet :=
  if fd < fdSetsize then { s with bits := s.bits.erase fd }
  else { s with behind := insert fd s.behind }

lemma set_of_lt {fd : ℕ} (h : fd < fdSetsize) (s : FdSet) :
    s.set fd = ⟨insert fd s.bits, s.behind⟩ := if_pos h

lemma set_of_le {fd : ℕ} (h : fdSetsize ≤ fd) (s : FdSet) :
    s.set fd = ⟨s.bits, insert fd s.behind⟩ := if_neg (Nat.not_lt.mpr h)

lemma clr_of_lt {fd : ℕ} (h : fd < fdSetsize) (s : FdSet) :
    s.clr fd = ⟨s.bits.erase fd, s.behind⟩ := if_pos h

end FdSet

/-- `struct ipc_core` with the fields of the `IPC_PERF` branch. -/
structure SelectCore where
  core : IpcCore
  rfds : FdSet
  nfds : ℕ

/-- The socket of a handle. -/
def sockOf (core : IpcCore) (p : Ptr) : ℕ := (core.handle p).elim 0 IpcServer.sock

/-! ## The two branches -/

def fdsAdd (sock : ℕ) (c : SelectCore) : SelectCore :=
  { c with rfds := c.rfds.set sock, nfds := if c.nfds < sock then sock else c.nfds }

/-- The loop over the handles that finds the maximum. -/
def maxSock (core : IpcCore) : ℕ :=
  core.head.foldl (fun n p => if n < sockOf core p then sockOf core p else n) 0

def fdsDel (sock : ℕ) (c : SelectCore) : SelectCore :=
  { c with
    rfds := c.rfds.clr sock
    nfds := if c.nfds = sock then maxSock c.core else c.nfds }

/-- `malloc` for a handle and `sevr_init`, with `fds_add`. -/
def sevrInitFds (s : IpcServer) (c : SelectCore) : SelectCore :=
  fdsAdd s.sock { c with core := sevrInit s c.core }

/-- `ipc_release`, with `fds_del` where the handle has left the list. -/
def ipcReleaseFds (p : Ptr) (c : SelectCore) : SelectCore :=
  match c.core.handle p with
  | none => { c with core := ipcRelease p c.core }
  | some s =>
      if s.clazz = .dummy then { c with core := ipcRelease p c.core }
      else fdsDel s.sock { c with core := ipcRelease p c.core }

/-- The arguments `nfds` and `readfds` of `select` in the `IPC_PERF` branch of `ipc_loop`. -/
def perfArgs (c : SelectCore) : ℕ × FdSet := (c.nfds + 1, c.rfds)

/-- The arguments in the other branch. -/
def rebuiltArgs (core : IpcCore) : ℕ × FdSet :=
  let r := core.head.foldl (fun (r : ℕ × FdSet) p =>
    (if r.1 < sockOf core p then sockOf core p else r.1, r.2.set (sockOf core p))) (0, .zero)
  (r.1 + 1, r.2)

/-! ## Histories -/

inductive HandleLabel
  | create (s : IpcServer)
  | release (p : Ptr)

/-- No live handle has the socket. -/
def SockFree (core : IpcCore) (sock : ℕ) : Prop := ∀ p ∈ core.head, sockOf core p ≠ sock

instance (core : IpcCore) (sock : ℕ) : Decidable (SockFree core sock) :=
  inferInstanceAs (Decidable (∀ p ∈ core.head, _))

/-- A step.  A new handle has a socket of its own; it is no dummy, and a subscriber has its nodes.
There is no step once `core->head` was written to. -/
def handleStep (c : SelectCore) : HandleLabel → Option (SelectCore × List Empty)
  | .create s =>
      if c.rfds.behind = ∅ ∧ SockFree c.core s.sock ∧ s.clazz ≠ .dummy ∧
          (s.clazz = .subscriber → s.node ≠ []) then
        some (sevrInitFds s c, [])
      else none
  | .release p =>
      if c.rfds.behind = ∅ ∧ p ∈ c.core.head then some (ipcReleaseFds p c, []) else none

/-- The core that `ipc_server_init` sets up, before it creates the master. -/
def SelectCore.init : SelectCore where
  core := { IpcCore.boot 0 with head := [], handle := fun _ => none, brk := 0 }
  rfds := .zero
  nfds := 0

/-- **The kept set is the recomputed one**: `core->rfds` is the set of the sockets of the handles in
the list, `core->nfds` is the greatest of them or 0, and both branches of `ipc_loop` call `select`
with the same arguments. -/
structure SelectAgrees (c : SelectCore) : Prop where
  rfds : ∀ fd, fd ∈ c.rfds.bits ↔ ∃ p ∈ c.core.head, ∃ s, c.core.handle p = some s ∧ s.sock = fd
  upper : ∀ p ∈ c.core.head, ∀ s, c.core.handle p = some s → s.sock ≤ c.nfds
  empty : c.core.head = [] → c.nfds = 0
  reached : c.core.head ≠ [] →
    ∃ p ∈ c.core.head, ∃ s, c.core.handle p = some s ∧ s.sock = c.nfds
  args : perfArgs c = rebuiltArgs c.core

/-- Every live socket has a bit in an `fd_set`. -/
def SocketsFit (core : IpcCore) : Prop :=
  ∀ p ∈ core.head, ∀ s, core.handle p = some s → s.sock < fdSetsize

/-! ## The invariant -/

/-- The set of the sockets of the live handles, found from their list. -/
def headSocks (core : IpcCore) : Finset ℕ := (core.head.map (sockOf core)).toFinset

/-- The core has exactly the sockets of the live handles, and their maximum. -/
structure SelectOk (c : SelectCore) : Prop where
  formed : Formed c.core
  apart : (c.core.head.map (sockOf c.core)).Nodup
  rfds : c.rfds = ⟨headSocks c.core, ∅⟩
  nfds : c.nfds = (headSocks c.core).sup id
  fit : ∀ p ∈ c.core.head, sockOf c.core p < fdSetsize

/-- The last socket had no bit in the set. -/
structure Spilled (c : SelectCore) : Prop where
  behind : c.rfds.behind ≠ ∅
  bits : ∀ fd ∈ c.rfds.bits, fd < fdSetsize
  large : ∃ p ∈ c.core.head, ∃ s, c.core.handle p = some s ∧ fdSetsize ≤ s.sock

lemma ite_lt_eq_max (n k : ℕ) : (if n < k then k else n) = max n k := by
  split_ifs with h
  · exact (max_eq_right h.le).symm
  · exact (max_eq_left (Nat.le_of_not_lt h)).symm

lemma foldl_max (f : Ptr → ℕ) (ps : List Ptr) (n : ℕ) :
    ps.foldl (fun n p => if n < f p then f p else n) n = max n ((ps.map f).toFinset.sup id) := by
  induction ps generalizing n with
  | nil => simp
  | cons p ps ih =>
      rw [List.foldl_cons, ih, ite_lt_eq_max, List.map_cons, List.toFinset_cons,
        Finset.sup_insert, max_assoc]
      rfl

lemma maxSock_eq (core : IpcCore) : maxSock core = (headSocks core).sup id := by
  rw [maxSock, foldl_max, headSocks]
  exact Nat.max_eq_right (Nat.zero_le _)

/-- The other branch computes the set and its maximum, if the sockets have bits. -/
lemma rebuiltArgs_eq {core : IpcCore} (hfit : ∀ p ∈ core.head, sockOf core p < fdSetsize) :
    rebuiltArgs core = ((headSocks core).sup id + 1, ⟨headSocks core, ∅⟩) := by
  have hloop : ∀ (f : Ptr → ℕ) (ps : List Ptr) (r : ℕ × FdSet), (∀ p ∈ ps, f p < fdSetsize) →
      ps.foldl (fun (r : ℕ × FdSet) p =>
          (if r.1 < f p then f p else r.1, r.2.set (f p))) r =
        (ps.foldl (fun n p => if n < f p then f p else n) r.1,
          ⟨(ps.map f).toFinset ∪ r.2.bits, r.2.behind⟩) := by
    intro f ps
    induction ps with
    | nil =>
        intro r _
        simp
    | cons p ps ih =>
        intro r hlt
        rw [List.forall_mem_cons] at hlt
        rw [List.foldl_cons, ih _ hlt.2, FdSet.set_of_lt hlt.1, List.foldl_cons, List.map_cons,
          List.toFinset_cons, Finset.union_insert, Finset.insert_union]
  have hmax := maxSock_eq core
  rw [maxSock] at hmax
  rw [rebuiltArgs, hloop _ _ _ hfit, hmax, FdSet.zero, Finset.union_empty, headSocks]

lemma sup_erase {s : Finset ℕ} {a : ℕ} (h : s.sup id ≠ a) : (s.erase a).sup id = s.sup id := by
  refine le_antisymm (Finset.sup_mono (Finset.erase_subset a s)) (Finset.sup_le fun b hb => ?_)
  rcases eq_or_ne b a with rfl | hba
  · have hle : b ≤ s.sup id := Finset.le_sup (f := id) hb
    have hlt : b < s.sup id := lt_of_le_of_ne hle (Ne.symm h)
    -- the maximum is another element
    obtain ⟨m, hm, hmax⟩ := Finset.exists_mem_eq_sup s ⟨b, hb⟩ id
    have hmb : m ≠ b := by
      rintro rfl
      exact h hmax
    calc id b ≤ s.sup id := hle
      _ = id m := hmax
      _ ≤ (s.erase b).sup id := Finset.le_sup (f := id) (Finset.mem_erase.mpr ⟨hmb, hm⟩)
  · exact Finset.le_sup (f := id) (Finset.mem_erase.mpr ⟨hba, hb⟩)

/-- An element is erased from a list and from its values. -/
lemma map_erase_of_nodup {f g : Ptr → ℕ} {xs : List Ptr} {a : Ptr} (hnodup : xs.Nodup)
    (hf : (xs.map f).Nodup) (ha : a ∈ xs) (hfg : ∀ x ∈ xs, x ≠ a → g x = f x) :
    (xs.erase a).map g = (xs.map f).erase (f a) := by
  induction xs with
  | nil => cases ha
  | cons x xs ih =>
      obtain ⟨hx, hnodup⟩ := List.nodup_cons.mp hnodup
      obtain ⟨hfx, hf⟩ := List.nodup_cons.mp hf
      rcases eq_or_ne x a with rfl | hxa
      · rw [List.erase_cons_head, List.map_cons, List.erase_cons_head]
        exact List.map_congr_left fun y hy => hfg y (List.mem_cons_of_mem _ hy) fun h => hx (h ▸ hy)
      · have hmem : a ∈ xs := (List.mem_cons.mp ha).resolve_left (Ne.symm hxa)
        have hne : f x ≠ f a := fun h => hfx (h ▸ List.mem_map_of_mem hmem)
        rw [List.erase_cons_tail (by simpa using hxa), List.map_cons, List.map_cons,
          List.erase_cons_tail (by simpa using hne), hfg x (List.mem_cons_self ..) hxa,
          ih hnodup hf hmem fun y hy => hfg y (List.mem_cons_of_mem _ hy)]

variable {c c' : SelectCore} {p : Ptr} {s : IpcServer}

lemma map_sockOf_sevrInit {core : IpcCore} (h : Formed core) (s : IpcServer) :
    (sevrInit s core).head.map (sockOf (sevrInit s core)) =
      core.head.map (sockOf core) ++ [s.sock] := by
  have hold : ∀ q ∈ core.head, sockOf (sevrInit s core) q = sockOf core q := by
    intro q hq
    have hqb : q ≠ core.brk := by
      rintro rfl
      exact (h.listed _).mp hq (h.fresh _ (Nat.le_refl _))
    simp [sockOf, sevrInit, IpcCore.setHandle, hqb]
  have hself : sockOf (sevrInit s core) core.brk = s.sock := by
    simp [sockOf, sevrInit, IpcCore.setHandle]
  have hhead : (sevrInit s core).head = core.head ++ [core.brk] := rfl
  rw [hhead, List.map_append, List.map_congr_left hold, List.map_singleton, hself]

lemma SelectOk.create (h : SelectOk c) (hfree : SockFree c.core s.sock)
    (hclazz : s.clazz ≠ .dummy) (hnode : s.clazz = .subscriber → s.node ≠ [])
    (hlt : s.sock < fdSetsize) : SelectOk (sevrInitFds s c) := by
  have hsocks := map_sockOf_sevrInit h.formed s
  have hheads : headSocks (sevrInit s c.core) = insert s.sock (headSocks c.core) := by
    rw [headSocks, hsocks, headSocks]
    ext fd
    simp
  refine ⟨h.formed.sevrInit hclazz hnode, ?_, ?_, ?_, fun p hp => ?_⟩
  · change ((sevrInit s c.core).head.map (sockOf (sevrInit s c.core))).Nodup
    rw [hsocks]
    refine List.nodup_append.mpr ⟨h.apart, by simp, fun a ha b hb => ?_⟩
    obtain ⟨q, hq, rfl⟩ := List.mem_map.mp ha
    rw [List.mem_singleton.mp hb]
    exact hfree q hq
  · change c.rfds.set s.sock = ⟨headSocks (sevrInit s c.core), ∅⟩
    rw [FdSet.set_of_lt hlt, h.rfds, hheads]
  · change (if c.nfds < s.sock then s.sock else c.nfds) = (headSocks (sevrInit s c.core)).sup id
    rw [ite_lt_eq_max, hheads, Finset.sup_insert, h.nfds, max_comm]
    rfl
  · change sockOf (sevrInit s c.core) p < fdSetsize
    have hmem : sockOf (sevrInit s c.core) p ∈ c.core.head.map (sockOf c.core) ++ [s.sock] := by
      rw [← hsocks]
      exact List.mem_map_of_mem hp
    rcases List.mem_append.mp hmem with hold | hnew
    · obtain ⟨q, hq, heq⟩ := List.mem_map.mp hold
      rw [← heq]
      exact h.fit q hq
    · rwa [List.mem_singleton.mp hnew]

/-- **A new handle whose socket is too large.** -/
lemma SelectOk.spill (h : SelectOk c) (hle : fdSetsize ≤ s.sock) : Spilled (sevrInitFds s c) := by
  have hrfds : (sevrInitFds s c).rfds = ⟨headSocks c.core, {s.sock}⟩ := by
    change c.rfds.set s.sock = _
    rw [FdSet.set_of_le hle, h.rfds]
    rfl
  refine ⟨?_, fun fd hfd => ?_, c.core.brk, ?_, s, ?_, hle⟩
  · rw [hrfds]
    exact Finset.singleton_ne_empty _
  · rw [hrfds] at hfd
    obtain ⟨q, hq, rfl⟩ := List.mem_map.mp (List.mem_toFinset.mp hfd)
    exact h.fit q hq
  · change c.core.brk ∈ c.core.head ++ [c.core.brk]
    simp
  · simp [sevrInitFds, fdsAdd, sevrInit, IpcCore.setHandle]

lemma SelectOk.released (h : SelectOk c) (hs : c.core.handle p = some s) :
    headSocks (ipcRelease p c.core) = (headSocks c.core).erase s.sock ∧
      ((ipcRelease p c.core).head.map (sockOf (ipcRelease p c.core))).Nodup := by
  have hmem : p ∈ c.core.head := by
    rw [h.formed.listed, hs]
    simp
  have hsock : sockOf c.core p = s.sock := by simp [sockOf, hs]
  have hold : ∀ q ∈ c.core.head, q ≠ p → sockOf (ipcRelease p c.core) q = sockOf c.core q := by
    intro q _ hq
    rw [sockOf, handle_ipcRelease_of_ne hq, sockOf]
  have hmap : (ipcRelease p c.core).head.map (sockOf (ipcRelease p c.core)) =
      (c.core.head.map (sockOf c.core)).erase s.sock := by
    rw [h.formed.head_release hs, ← hsock]
    exact map_erase_of_nodup h.formed.nodup h.apart hmem hold
  constructor
  · rw [headSocks, hmap, headSocks]
    ext fd
    rw [List.mem_toFinset, Finset.mem_erase, List.mem_toFinset, h.apart.mem_erase_iff]
  · rw [hmap]
    exact h.apart.erase _

lemma SelectOk.release (h : SelectOk c) (hmem : p ∈ c.core.head) :
    SelectOk (ipcReleaseFds p c) := by
  obtain ⟨s, hs⟩ := Option.ne_none_iff_exists'.mp ((h.formed.listed p).mp hmem)
  have hclazz := h.formed.clazz p s hs
  have hsock : sockOf c.core p = s.sock := by simp [sockOf, hs]
  have hlt : s.sock < fdSetsize := hsock ▸ h.fit p hmem
  obtain ⟨hsocks, hapart⟩ := h.released hs
  have heq : ipcReleaseFds p c = fdsDel s.sock { c with core := ipcRelease p c.core } := by
    rw [ipcReleaseFds, hs]
    exact if_neg hclazz
  rw [heq]
  refine ⟨h.formed.release p, hapart, ?_, ?_, fun q hq => ?_⟩
  · change c.rfds.clr s.sock = ⟨headSocks (ipcRelease p c.core), ∅⟩
    rw [FdSet.clr_of_lt hlt, h.rfds, hsocks]
  · change (if c.nfds = s.sock then maxSock (ipcRelease p c.core) else c.nfds) =
      (headSocks (ipcRelease p c.core)).sup id
    split_ifs with hmax
    · rw [maxSock_eq]
    · rw [hsocks, sup_erase (by rw [← h.nfds]; exact hmax), h.nfds]
  · have hold : sockOf (ipcRelease p c.core) q ∈ headSocks (ipcRelease p c.core) :=
      List.mem_toFinset.mpr (List.mem_map_of_mem hq)
    rw [hsocks] at hold
    obtain ⟨r, hr, hrq⟩ := List.mem_map.mp (List.mem_toFinset.mp (Finset.mem_of_mem_erase hold))
    change sockOf (ipcRelease p c.core) q < fdSetsize
    rw [← hrq]
    exact h.fit r hr

lemma selectOk_init : SelectOk SelectCore.init := by
  refine ⟨⟨?_, ?_, ?_, ?_, ?_⟩, ?_, ?_, ?_, ?_⟩
  · simp [SelectCore.init]
  · simp [SelectCore.init]
  · simp [SelectCore.init]
  · simp [SelectCore.init]
  · exact List.nodup_nil
  · exact List.nodup_nil
  · rfl
  · rfl
  · simp [SelectCore.init]

/-- Every step keeps the set and its maximum, or is the last one. -/
lemma SelectOk.step {l : HandleLabel} {es : List Empty} (h : SelectOk c ∨ Spilled c)
    (hstep : handleStep c l = some (c', es)) : SelectOk c' ∨ Spilled c' := by
  cases l with
  | create s =>
      simp only [handleStep] at hstep
      split_ifs at hstep with hs
      obtain ⟨rfl, -⟩ := Prod.mk.inj (Option.some.inj hstep)
      have hok : SelectOk c := h.resolve_right fun hspilled => hspilled.behind hs.1
      rcases Nat.lt_or_ge s.sock fdSetsize with hlt | hle
      · exact .inl (hok.create hs.2.1 hs.2.2.1 hs.2.2.2 hlt)
      · exact .inr (hok.spill hle)
  | release p =>
      simp only [handleStep] at hstep
      split_ifs at hstep with hp
      obtain ⟨rfl, -⟩ := Prod.mk.inj (Option.some.inj hstep)
      have hok : SelectOk c := h.resolve_right fun hspilled => hspilled.behind hp.1
      exact .inl (hok.release hp.2)

lemma SelectOk.agrees (h : SelectOk c) : SelectAgrees c := by
  have hmem : ∀ fd, fd ∈ headSocks c.core ↔
      ∃ p ∈ c.core.head, ∃ s, c.core.handle p = some s ∧ s.sock = fd := by
    intro fd
    rw [headSocks, List.mem_toFinset, List.mem_map]
    refine exists_congr fun p => and_congr_right fun hp => ?_
    obtain ⟨s, hs⟩ := Option.ne_none_iff_exists'.mp ((h.formed.listed p).mp hp)
    simp [sockOf, hs]
  refine ⟨fun fd => ?_, fun p hp s hs => ?_, fun hnil => ?_, fun hne => ?_, ?_⟩
  · rw [h.rfds]
    exact hmem fd
  · rw [h.nfds]
    exact Finset.le_sup (f := id) ((hmem s.sock).mpr ⟨p, hp, s, hs, rfl⟩)
  · rw [h.nfds, headSocks, hnil]
    rfl
  · have hpos : (headSocks c.core).Nonempty := by
      obtain ⟨p, ps, hhead⟩ := List.exists_cons_of_ne_nil hne
      rw [headSocks, hhead, List.map_cons, List.toFinset_cons]
      exact Finset.insert_nonempty _ _
    obtain ⟨m, hm, hmax⟩ := Finset.exists_mem_eq_sup _ hpos id
    rw [h.nfds, hmax]
    exact (hmem m).mp hm
  · rw [rebuiltArgs_eq h.fit, perfArgs, h.nfds, h.rfds]

/-- **When the kept set is the recomputed one.**  After every history of creations and releases the
two agree exactly if the `fd_set` has a bit for every live socket. -/
theorem select_args_agree_iff {ls : List HandleLabel} {es : List Empty}
    (hrun : run handleStep ls SelectCore.init = some (c, es)) :
    SelectAgrees c ↔ SocketsFit c.core := by
  have hok : Along handleStep (fun _ _ => True) ls SelectCore.init :=
    along_of_forall (fun _ _ => trivial) _
  have h : SelectOk c ∨ Spilled c :=
    run_invariant (fun h _ hstep => SelectOk.step h hstep) (.inl selectOk_init) hok hrun
  rcases h with h | h
  · refine iff_of_true h.agrees fun p hp s hs => ?_
    have hfit := h.fit p hp
    rwa [sockOf, hs] at hfit
  · obtain ⟨p, hp, s, hs, hle⟩ := h.large
    refine iff_of_false (fun hagrees => ?_) fun hfit => Nat.not_lt.mpr hle (hfit p hp s hs)
    exact Nat.not_lt.mpr hle (h.bits _ ((hagrees.rfds _).mpr ⟨p, hp, s, hs, rfl⟩))

/-- The master and two requesters, of which the one with the greatest socket leaves. -/
theorem select_args_agree_sample :
    ∃ c es, run handleStep [.create ⟨.master, 0, 3, 0, []⟩, .create ⟨.requester, 41, 9, 0, []⟩,
        .create ⟨.requester, 42, 5, 0, []⟩, .release 1] SelectCore.init = some (c, es) ∧
      c.nfds = 5 ∧ SelectAgrees c := by
  obtain ⟨c, es, hrun, hnfds, hhead, hfit⟩ : ∃ c es,
      run handleStep [.create ⟨.master, 0, 3, 0, []⟩, .create ⟨.requester, 41, 9, 0, []⟩,
        .create ⟨.requester, 42, 5, 0, []⟩, .release 1] SelectCore.init = some (c, es) ∧
      c.nfds = 5 ∧ c.core.head = [0, 2] ∧ ∀ p ∈ [0, 2], (c.core.handle p).any fun s =>
        decide (s.sock < fdSetsize) := ⟨_, _, rfl, rfl, rfl, by decide⟩
  refine ⟨c, es, hrun, hnfds, (select_args_agree_iff hrun).mpr fun p hp s hs => ?_⟩
  rw [hhead] at hp
  have hany := hfit p hp
  rwa [hs, Option.any_some, decide_eq_true_iff] at hany

/-- **A socket behind the set**: the master has the socket 3, and the requester that comes when the
process has many files open has 1024, which has no bit in `core->rfds`. -/
theorem select_args_differ :
    ¬ ∀ (ls : List HandleLabel) (c : SelectCore) (es : List Empty),
      run handleStep ls SelectCore.init = some (c, es) → SelectAgrees c := by
  intro hall
  have hagrees := hall [.create ⟨.master, 0, 3, 0, []⟩, .create ⟨.requester, 41, 1024, 0, []⟩] _ _
    rfl
  have hmem := (hagrees.rfds 1024).mpr ⟨1, by decide, ⟨.requester, 41, 1024, 0, []⟩, by decide, rfl⟩
  revert hmem
  decide

end LinuxC.Ipc
