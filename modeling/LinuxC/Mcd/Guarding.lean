import LinuxC.Framework.Transition
import LinuxC.Mcd.Guard

/-!
# What the guard achieves

A turn of `mcd_guard` leaves a program as it is, or starts it when no process goes by its name
(`Turned`).  Two things follow.  Whatever happens, mcd does not start a program a second time while
its process is there (`single_instance`).  And when nothing happens from outside, two calls of
`mcd_guard` are enough, whatever the state of its list was: every program that is not detached runs,
mcd knows its process, and the further calls do nothing (`guards_settle`).
-/

namespace LinuxC.Mcd.Guards

open GenericProc
open Clients (GuardState)

variable {W : Type} {host : Host W} {names : List (List UInt8)} {g g' : McGuard} {w w' : W}

/-- A program that can be guarded. -/
def CanGuard (names : List (List UInt8)) (g : McGuard) : Prop :=
  ∃ early c cs x, Guardable names g early c cs x

/-- The fields that do not change. -/
structure Same (g g' : McGuard) : Prop where
  name : g'.name = g.name
  cmdline : g'.cmdline = g.cmdline
  pidfile : g'.pidfile = g.pidfile
  dynamic : g'.dynamic = g.dynamic

lemma Same.refl (g : McGuard) : Same g g := ⟨rfl, rfl, rfl, rfl⟩

lemma Same.canGuard (h : Same g g') (hg : CanGuard names g) : CanGuard names g' := by
  obtain ⟨early, c, cs, x, hg⟩ := hg
  refine ⟨early, c, cs, x, ?_⟩
  exact { hg with
    mem := h.name ▸ hg.mem, short := h.name ▸ hg.short, cmdline := h.cmdline ▸ hg.cmdline
    name := h.name ▸ hg.name }

lemma CanGuard.update (hg : CanGuard names g) (pid : ℤ) (state : GuardState) :
    CanGuard names { g with pid := pid, state := state } :=
  Same.canGuard (g := g) ⟨rfl, rfl, rfl, rfl⟩ hg

/-! ## One turn -/

/-- The system is as before, except that no process goes by the name. -/
structure Without (host : Host W) (name : List UInt8) (w w' : W) : Prop where
  count : ∀ n, instances host n w' = if n = name then 0 else instances host n w
  alive : ∀ n pid, n ≠ name → Alive host w n pid → Alive host w' n pid

/-- What a turn does: nothing to the system, so that the process that is known afterwards was there,
or the program is started while no process goes by its name. -/
inductive Turned (host : Host W) (names : List (List UInt8)) (g : McGuard) (w : W) :
    McGuard × W → Prop
  | kept (g' : McGuard) (same : Same g g') (detach : g'.state = .detach ↔ g.state = .detach)
      (known : g'.state = .detach ∨ Alive host w g.name g'.pid) : Turned host names g w (g', w)
  | started (w₀ : W) (r : ℤ × W) (without : Without host g.name w w₀)
      (started : Started host names g.name w₀ r) (detach : g.state ≠ .detach) :
      Turned host names g w ({ g with pid := r.1, state := .new }, r.2)

lemma without_killAll (K : Kernel host) (name : List UInt8) (w : W) :
    Without host name w (killAll host name w) :=
  ⟨fun n => instances_killAll K name n w, fun _ _ hn h => alive_killAll K hn h⟩

lemma without_of_count {name : List UInt8} (h : instances host name w = 0) :
    Without host name w w := by
  refine ⟨fun n => ?_, fun _ _ _ h => h⟩
  split_ifs with hn
  · rw [hn, h]
  · rfl

lemma mcGuardFind_cases (K : Kernel host) (hshort : g.name.length + 1 < processNameMax) (w : W) :
    (∃ pid, mcGuardFind host g w = (1, { g with pid := pid }) ∧ Alive host w g.name pid) ∨
      (mcGuardFind host g w = (0, g) ∧ instances host g.name w = 0) := by
  unfold mcGuardFind
  cases hfile : findByFile host g w with
  | some pid =>
      refine .inl ⟨pid, rfl, ?_⟩
      obtain ⟨file, -, hpid⟩ := Option.bind_eq_some_iff.mp hfile
      dsimp only at hpid
      split_ifs at hpid with hvalid
      rw [← Option.some.inj hpid]
      exact (validate_iff K hshort).mp hvalid.2
  | none =>
      dsimp only
      rw [if_pos (K.opendir w)]
      rcases processFind_cases K g.name w with ⟨hpos, halive⟩ | ⟨hzero, hcount⟩
      · rw [if_pos hpos]
        exact .inl ⟨_, rfl, halive⟩
      · rw [hzero]
        exact .inr ⟨rfl, hcount⟩

/-- **One turn.** -/
lemma guardTurn_turned (K : Kernel host) (hg : CanGuard names g) (w : W) :
    Turned host names g w (guardTurn host g w) := by
  obtain ⟨early, c, cs, x, hg⟩ := hg
  unfold guardTurn
  cases hstate : g.state with
  | detach => exact .kept g (Same.refl g) Iff.rfl (.inl hstate)
  | run =>
      dsimp only
      split_ifs with hvalid
      · exact .kept g (Same.refl g) Iff.rfl (.inr ((validate_iff K hg.short).mp hvalid))
      · exact .started _ _ (without_killAll K g.name w) (processLatch_started K hg _)
          (by simp [hstate])
  | new =>
      dsimp only
      split_ifs with hvalid hfound
      · refine .kept { g with state := .run } ⟨rfl, rfl, rfl, rfl⟩ (by simp [hstate]) (.inr ?_)
        exact (validate_iff K hg.short).mp hvalid.2
      · rcases mcGuardFind_cases K hg.short w with ⟨pid, hfind, -⟩ | ⟨hfind, hcount⟩
        · rw [hfind] at hfound
          cases hfound
        · rw [hfind]
          exact .started w _ (without_of_count hcount) (processLatch_started K hg w)
            (by simp [hstate])
      · rcases mcGuardFind_cases K hg.short w with ⟨pid, hfind, halive⟩ | ⟨hfind, -⟩
        · rw [hfind]
          exact .kept { g with pid := pid } ⟨rfl, rfl, rfl, rfl⟩ Iff.rfl (.inr halive)
        · rw [hfind] at hfound
          exact absurd rfl hfound

/-! ### What a turn does to the other programs -/

/-- A program that is started while no process goes by its name has one process. -/
lemma Started.instances_eq {name : List UInt8} {w₀ : W} {r : ℤ × W}
    (h : Started host names name w₀ r) (hw : Without host name w w₀) {n : List UInt8}
    (hn : n ∈ names) (hshort : n.length + 1 < processNameMax) :
    instances host n r.2 = if n = name then 1 else instances host n w := by
  rw [h.count n hn hshort, hw.count n]
  split_ifs <;> omega

lemma Turned.same {r : McGuard × W} (h : Turned host names g w r) : Same g r.1 := by
  cases h with
  | kept g' same => exact same
  | started => exact ⟨rfl, rfl, rfl, rfl⟩

lemma Turned.detach {r : McGuard × W} (h : Turned host names g w r) :
    r.1.state = .detach ↔ g.state = .detach := by
  cases h with
  | kept g' _ detach => exact detach
  | started w₀ r _ _ detach => simpa using detach

lemma Turned.count_le {r : McGuard × W} (h : Turned host names g w r) {n : List UInt8}
    (hn : n ∈ names) (hshort : n.length + 1 < processNameMax) :
    instances host n r.2 ≤ max 1 (instances host n w) := by
  cases h with
  | kept => exact le_max_right _ _
  | started w₀ r without started =>
      rw [started.instances_eq without hn hshort]
      split_ifs
      · exact le_max_left _ _
      · exact le_max_right _ _

lemma Turned.alive {r : McGuard × W} (h : Turned host names g w r) {n : List UInt8} {pid : ℤ}
    (hn : n ≠ g.name) (halive : Alive host w n pid) : Alive host r.2 n pid := by
  cases h with
  | kept => exact halive
  | started w₀ r without started =>
      obtain ⟨p, hp, hpid⟩ := without.alive n pid hn halive
      exact ⟨p, started.mono p hp, hpid⟩

/-- A program that is detached, or whose process mcd knows. -/
def Settled (host : Host W) (w : W) (g : McGuard) : Prop :=
  g.state = .detach ∨ Alive host w g.name g.pid

lemma Turned.settled {r : McGuard × W} (h : Turned host names g w r) : Settled host r.2 r.1 := by
  cases h with
  | kept g' same _ known => exact known.imp id fun h => same.name ▸ h
  | started w₀ r without started => exact .inr started.alive

/-! ## The loop -/

/-- What a call of `mcd_guard` does. -/
structure Looped (host : Host W) (names : List (List UInt8)) (gs : List McGuard) (w : W)
    (r : List McGuard × W) : Prop where
  same : List.Forall₂ (fun g g' => Same g g' ∧ (g'.state = .detach ↔ g.state = .detach)) gs r.1
  guards : ∀ g ∈ r.1, CanGuard names g
  count : ∀ n ∈ names, n.length + 1 < processNameMax →
    instances host n r.2 ≤ max 1 (instances host n w)
  alive : ∀ n pid, (∀ g ∈ gs, n ≠ g.name) → Alive host w n pid → Alive host r.2 n pid

lemma guardLoop_looped (K : Kernel host) {gs : List McGuard} (hgs : ∀ g ∈ gs, CanGuard names g)
    (w : W) : Looped host names gs w (guardLoop host gs w) := by
  induction gs generalizing w with
  | nil => exact ⟨.nil, by simp [guardLoop], fun n _ _ => le_max_right _ _, fun _ _ _ h => h⟩
  | cons g gs ih =>
      have hturn := guardTurn_turned K (hgs g List.mem_cons_self) w
      have hrest := ih (fun h hh => hgs h (List.mem_cons_of_mem _ hh)) (guardTurn host g w).2
      refine ⟨.cons ⟨hturn.same, hturn.detach⟩ hrest.same, ?_, fun n hn hshort => ?_,
        fun n pid hn halive => ?_⟩
      · rintro h (_ | ⟨_, hh⟩)
        · exact hturn.same.canGuard (hgs g List.mem_cons_self)
        · exact hrest.guards h hh
      · have hle := hturn.count_le hn hshort
        have hle' := hrest.count n hn hshort
        exact hle'.trans (max_le (le_max_left _ _) hle)
      · refine hrest.alive n pid (fun h hh => hn h (List.mem_cons_of_mem _ hh)) ?_
        exact hturn.alive (hn g List.mem_cons_self) halive

/-- **All programs are settled** after a call, when they have different names. -/
lemma guardLoop_settled (K : Kernel host) {gs : List McGuard} (hgs : ∀ g ∈ gs, CanGuard names g)
    (hnames : gs.Pairwise fun g h => g.name ≠ h.name) (w : W) :
    ∀ g ∈ (guardLoop host gs w).1, Settled host (guardLoop host gs w).2 g := by
  induction gs generalizing w with
  | nil => simp [guardLoop]
  | cons g gs ih =>
      obtain ⟨hname, hnames⟩ := List.pairwise_cons.mp hnames
      have hrest : ∀ h ∈ gs, CanGuard names h := fun h hh => hgs h (List.mem_cons_of_mem _ hh)
      have hturn := guardTurn_turned K (hgs g List.mem_cons_self) w
      have hloop := guardLoop_looped K hrest (guardTurn host g w).2
      intro h hh
      rcases List.mem_cons.mp hh with rfl | hh
      · refine hturn.settled.imp id fun halive => hloop.alive _ _ (fun k hk => ?_) halive
        rw [hturn.same.name]
        exact hname k hk
      · exact ih hrest hnames _ h hh

/-! ## Settled programs -/

/-- A program that runs, unless it is detached. -/
def McGuard.running (g : McGuard) : McGuard :=
  if g.state = .detach then g else { g with state := .run }

@[simp] lemma McGuard.running_name (g : McGuard) : g.running.name = g.name := by
  unfold McGuard.running
  split_ifs <;> rfl

lemma guardTurn_settled (K : Kernel host) (hshort : g.name.length + 1 < processNameMax)
    (h : Settled host w g) : guardTurn host g w = (g.running, w) := by
  unfold guardTurn McGuard.running
  rcases h with hdetach | halive
  · rw [hdetach]
    rfl
  · have hvalid := (validate_iff K hshort).mpr halive
    obtain ⟨p, hp, hpid, -⟩ := halive
    have hpos : 0 < g.pid := hpid ▸ (K.pids w).2 p hp
    cases hstate : g.state with
    | detach => rfl
    | run => simp [hvalid, ← hstate]
    | new => simp [hvalid, hpos]

lemma guardLoop_running (K : Kernel host) {gs : List McGuard}
    (hshort : ∀ g ∈ gs, g.name.length + 1 < processNameMax) (h : ∀ g ∈ gs, Settled host w g) :
    guardLoop host gs w = (gs.map McGuard.running, w) := by
  induction gs with
  | nil => rfl
  | cons g gs ih =>
      rw [guardLoop, guardTurn_settled K (hshort g List.mem_cons_self) (h g List.mem_cons_self),
        ih (fun k hk => hshort k (List.mem_cons_of_mem _ hk))
          fun k hk => h k (List.mem_cons_of_mem _ hk)]
      rfl

lemma McGuard.running_running (g : McGuard) : g.running.running = g.running := by
  unfold McGuard.running
  split_ifs with hstate <;> simp_all

lemma Settled.running (h : Settled host w g) :
    Settled host w g.running := by
  unfold McGuard.running
  split_ifs with hstate
  · exact h
  · exact .inr (h.resolve_left hstate)

/-- A list of programs with different names. -/
structure GuardList (names : List (List UInt8)) (gs : List McGuard) : Prop where
  guards : ∀ g ∈ gs, CanGuard names g
  distinct : gs.Pairwise fun g h => g.name ≠ h.name

/-- **Two calls of `mcd_guard` are enough**, from any state of the list and of the system, when
nothing happens from outside: every program that is not detached runs, mcd knows its process, and
further calls change nothing. -/
theorem guards_settle (K : Kernel host) {gs : List McGuard} (hgs : GuardList names gs) (w : W) :
    let s := mcdGuard host false (mcdGuard host false (gs, w))
    List.Forall₂ (fun g g' => Same g g' ∧ if g.state = .detach then g'.state = .detach
      else g'.state = .run ∧ Alive host s.2 g.name g'.pid) gs s.1 ∧
    ∀ k, (mcdGuard host false)^[k] s = s := by
  have hloop := guardLoop_looped K hgs.guards w
  have hsettled := guardLoop_settled K hgs.guards hgs.distinct w
  set r := guardLoop host gs w with hr
  have hshort : ∀ g' ∈ r.1, g'.name.length + 1 < processNameMax := fun g' hg' => by
    obtain ⟨early, c, cs, x, hg⟩ := hloop.guards g' hg'
    exact hg.short
  have hsecond : mcdGuard host false (mcdGuard host false (gs, w)) =
      (r.1.map McGuard.running, r.2) := guardLoop_running K hshort hsettled
  have hfixed : mcdGuard host false (r.1.map McGuard.running, r.2) =
      (r.1.map McGuard.running, r.2) := by
    have hstable : (McGuard.running ∘ McGuard.running) = McGuard.running :=
      funext McGuard.running_running
    have hshort' : ∀ g ∈ r.1.map McGuard.running, g.name.length + 1 < processNameMax := by
      simpa using hshort
    have hagain := guardLoop_running K hshort'
      (List.forall_mem_map.mpr fun g hg => (hsettled g hg).running)
    rwa [List.map_map, hstable] at hagain
  intro s
  have hs : s = (r.1.map McGuard.running, r.2) := hsecond
  rw [hs]
  refine ⟨?_, fun k => Function.iterate_fixed hfixed k⟩
  rw [List.forall₂_map_right_iff]
  have hboth := ((List.forall₂_and_left ..).mpr ⟨hsettled, hloop.same.flip⟩).flip
  refine hboth.imp fun g g' hg => ?_
  obtain ⟨hsettled, hsame, hdetach⟩ := hg
  unfold McGuard.running
  by_cases hstate : g.state = .detach
  · rw [if_pos hstate, if_pos (hdetach.mpr hstate)]
    exact ⟨hsame, hdetach.mpr hstate⟩
  · have hstate' : g'.state ≠ .detach := fun h => hstate (hdetach.mp h)
    rw [if_neg hstate, if_neg hstate']
    exact ⟨⟨hsame.name, hsame.cmdline, hsame.pidfile, hsame.dynamic⟩, rfl,
      hsame.name ▸ hsettled.resolve_left hstate'⟩

/-! ## Runs -/

/-- What happens: a call of `mcd_guard`, a message about a program, or something outside of mcd. -/
inductive Op (W : Type)
  | guard (closing : Bool)
  | attach (name : List UInt8)
  | detach (name : List UInt8) (exit : Bool)
  | restart (name : List UInt8)
  | change (w : W)

/-- One step. -/
def step (host : Host W) (s : List McGuard × W) : Op W → Option ((List McGuard × W) × List Unit)
  | .guard closing => some (mcdGuard host closing s, [])
  | .attach name => some (guardAttach name s, [])
  | .detach name exit => some (guardDetach host name exit s, [])
  | .restart name => some (guardRestart host name s, [])
  | .change w => some ((s.1, w), [])

/-- Outside of mcd nobody starts a process. -/
def Op.Fits (host : Host W) (s : List McGuard × W) : Op W → Prop
  | .change w => (host.procs w).Subperm (host.procs s.2)
  | _ => True

/-- The list can be guarded, and no program has a second process that it had not before. -/
structure Single (host : Host W) (names : List (List UInt8)) (w : W) (s : List McGuard × W) :
    Prop where
  guards : ∀ g ∈ s.1, CanGuard names g
  le : ∀ n ∈ names, n.length + 1 < processNameMax →
    instances host n s.2 ≤ max 1 (instances host n w)

lemma Single.trans {s s' : List McGuard × W} (h : Single host names w s)
    (h' : Single host names s.2 s') : Single host names w s' :=
  ⟨h'.guards, fun n hn hshort =>
    (h'.le n hn hshort).trans (max_le (le_max_left _ _) (h.le n hn hshort))⟩

lemma instances_le_of_subperm {n : List UInt8} (h : (host.procs w').Subperm (host.procs w)) :
    instances host n w' ≤ max 1 (instances host n w) := by
  rw [instances_eq, instances_eq]
  exact (h.filter _).length_le.trans (le_max_right _ _)

lemma forFirst_single {p : McGuard → Bool} {f : McGuard → W → McGuard × W} {gs : List McGuard}
    (hgs : ∀ g ∈ gs, CanGuard names g)
    (hf : ∀ g w, CanGuard names g → Single host names w ([(f g w).1], (f g w).2)) (w : W) :
    Single host names w (forFirst p f w gs) := by
  induction gs with
  | nil => exact ⟨by simp [forFirst], fun n _ _ => le_max_right _ _⟩
  | cons g gs ih =>
      have hrest : ∀ h ∈ gs, CanGuard names h := fun h hh => hgs h (List.mem_cons_of_mem _ hh)
      unfold forFirst
      dsimp only
      split_ifs
      · have hturn := hf g w (hgs g List.mem_cons_self)
        have hfirst := hturn.guards _ (List.mem_singleton_self _)
        exact ⟨List.forall_mem_cons.mpr ⟨hfirst, hrest⟩, hturn.le⟩
      · have hloop := ih hrest
        exact ⟨List.forall_mem_cons.mpr ⟨hgs g List.mem_cons_self, hloop.guards⟩, hloop.le⟩

/-- **One step.** -/
lemma step_single (K : Kernel host) {s s' : List McGuard × W} {op : Op W} {es : List Unit}
    (hgs : ∀ g ∈ s.1, CanGuard names g) (hfits : op.Fits host s)
    (hstep : step host s op = some (s', es)) : Single host names s.2 s' := by
  cases op with
  | guard closing =>
      cases hstep
      unfold mcdGuard
      split_ifs
      · exact ⟨hgs, fun n _ _ => le_max_right _ _⟩
      · have hloop := guardLoop_looped K hgs s.2
        exact ⟨hloop.guards, hloop.count⟩
  | attach name =>
      cases hstep
      refine forFirst_single hgs (fun g w hg => ⟨?_, fun n _ _ => le_max_right _ _⟩) s.2
      exact List.forall_mem_singleton.mpr (hg.update g.pid .new)
  | detach name exit =>
      cases hstep
      refine forFirst_single hgs (fun g w hg => ⟨?_, fun n _ _ => ?_⟩) s.2
      · exact List.forall_mem_singleton.mpr (hg.update g.pid .detach)
      · refine instances_le_of_subperm ?_
        dsimp only
        split_ifs
        · exact (K.signal .kill g.pid w).subperm
        · exact List.Subperm.refl _
  | restart name =>
      cases hstep
      refine forFirst_single hgs (fun g w hg => ⟨?_, fun n hn hshort => ?_⟩) s.2
      · exact List.forall_mem_singleton.mpr (hg.update _ .new)
      · obtain ⟨early, c, cs, x, hg⟩ := hg
        dsimp only
        set w₁ := if mcProcessValidate host w g.name g.pid then (host.kill .term g.pid w).2 else w
          with hw₁
        have hle : instances host n w₁ ≤ max 1 (instances host n w) := by
          refine instances_le_of_subperm ?_
          rw [hw₁]
          split_ifs
          · exact (K.signal .term g.pid w).subperm
          · exact List.Subperm.refl _
        have hstarted := processLatch_started K hg (killAll host g.name w₁)
        rw [mcProcessRestart, hstarted.instances_eq (without_killAll K g.name w₁) hn hshort]
        split_ifs
        · exact le_max_left _ _
        · exact hle
  | change w' =>
      cases hstep
      exact ⟨hgs, fun n _ _ => instances_le_of_subperm hfits⟩

/-- **mcd does not start a program a second time** while its process is there: in every run,
whatever messages come and whatever processes end, a program that had no process or one has one at
most. -/
theorem single_instance (K : Kernel host) {gs gs' : List McGuard} {ls : List (Op W)}
    {es : List Unit} (hgs : ∀ g ∈ gs, CanGuard names g)
    (hfits : Along (step host) (Op.Fits host) ls (gs, w))
    (hrun : run (step host) ls (gs, w) = some ((gs', w'), es)) {n : List UInt8} (hn : n ∈ names)
    (hshort : n.length + 1 < processNameMax) :
    instances host n w' ≤ max 1 (instances host n w) := by
  have hstart : Single host names w (gs, w) := ⟨hgs, fun n _ _ => le_max_right _ _⟩
  have hend := run_invariant (I := Single host names w)
    (fun h hok hstep => h.trans (step_single K h.guards hok hstep)) hstart hfits hrun
  exact hend.le n hn hshort

/-! ## A system -/

/-- The processes of a system. -/
def Processes : Type :=
  { ps : List Process // (ps.map Process.pid).Nodup ∧ ∀ p ∈ ps, 0 < p.pid }

namespace Processes

/-- A pid that no process has. -/
def fresh (ps : Processes) : ℤ := (ps.1.map Process.pid).foldr max 0 + 1

lemma le_foldr_max {xs : List ℤ} {x : ℤ} (hx : x ∈ xs) : x ≤ xs.foldr max 0 := by
  induction xs with
  | nil => cases hx
  | cons y ys ih =>
      rcases List.mem_cons.mp hx with rfl | hx
      · exact le_max_left _ _
      · exact (ih hx).trans (le_max_right _ _)

lemma lt_fresh (ps : Processes) {pid : ℤ} (hp : pid ∈ ps.1.map Process.pid) : pid < ps.fresh :=
  Int.lt_add_one_of_le (le_foldr_max hp)

lemma fresh_pos (ps : Processes) : 0 < ps.fresh := by
  have hnonneg : ∀ xs : List ℤ, 0 ≤ xs.foldr max 0 := by
    intro xs
    induction xs with
    | nil => exact le_refl 0
    | cons y ys ih => exact ih.trans (le_max_right _ _)
  exact Int.lt_add_one_of_le (hnonneg _)

/-- A process ends. -/
def ends (ps : Processes) (pid : ℤ) : Processes :=
  ⟨ps.1.filter fun p => p.pid ≠ pid, ps.2.1.sublist (List.filter_sublist.map _),
    fun p hp => ps.2.2 p (List.mem_of_mem_filter hp)⟩

/-- A process starts. -/
def starts (ps : Processes) (cmdline : List UInt8) : Processes :=
  ⟨⟨ps.fresh, some cmdline, none, none, by simp⟩ :: ps.1,
    List.nodup_cons.mpr ⟨fun h => lt_irrefl _ (ps.lt_fresh h), ps.2.1⟩,
    List.forall_mem_cons.mpr ⟨ps.fresh_pos, ps.2.2⟩⟩

end Processes

/-- A system with processes only. -/
def plainHost : Host Processes where
  procs ps := ps.1
  opendir _ := true
  readInteger _ _ := 0
  kill _ pid ps := (0, ps.ends pid)
  exec x ps :=
    match x.argv with
    | [] => (0, ps)
    | command :: args =>
        if x.wait then (0, ps)
        else (ps.fresh, ps.starts (command ++ 0 :: args.flatMap fun a => a ++ [0]))
  stack _ := 0

lemma plainKernel : Kernel plainHost where
  opendir _ := rfl
  pids ps := ps.2
  kill _ _ _ := ⟨rfl, rfl⟩
  signal _ _ _ := List.filter_sublist
  wait x ps hwait := by
    unfold plainHost
    dsimp only
    split
    · exact List.Perm.refl _
    · rw [if_pos hwait]
  start command args redirect append ps := ⟨_, rfl, rfl, List.Perm.refl _⟩

/-- A command of one letter, such as `d -x`. -/
def plainCommand (b : UInt8) : Command := ⟨0, [b], [(0, .plain [45, 120])], none, 0⟩

/-- The program of the command. -/
def plainGuard (b : UInt8) (pid : ℤ) (state : GuardState) : McGuard :=
  ⟨true, [b], (plainCommand b).text, none, pid, state⟩

/-- The process of the command. -/
def plainProcess (b : UInt8) (pid : ℤ) : Process :=
  ⟨pid, some [b, 0, 45, 120, 0], none, none, by simp⟩

/-- Of the programs `d` and `e` mcd guards the first, and the second is detached. -/
def twoGuards : List McGuard := [plainGuard 100 5 .run, plainGuard 101 7 .detach]

/-- Both programs run. -/
def twoProcesses : Processes := ⟨[plainProcess 101 7, plainProcess 100 5], by decide, by decide⟩

lemma plainGuard_canGuard {b : UInt8} (hb : b = 100 ∨ b = 101) (pid : ℤ) (state : GuardState) :
    CanGuard [[100], [101]] (plainGuard b pid state) := by
  have hlatchable : Latchable (plainCommand b) := by
    refine ⟨⟨?_, by simp [plainCommand, Word.Ok], by simp [plainCommand]⟩, ?_, ?_⟩
    · rcases hb with rfl | rfl <;> decide
    · rcases hb with rfl | rfl <;> decide
    · rcases hb with rfl | rfl <;> decide +kernel
  have hname : commandName ((plainCommand b).exec false) = [b] := by
    rcases hb with rfl | rfl <;> decide
  refine ⟨false, plainCommand b, [], (plainCommand b).exec false, ?_⟩
  exact {
    mem := by rcases hb with rfl | rfl <;> simp [plainGuard]
    short := by simp [plainGuard, processNameMax]
    cmdline := rfl
    latchable := ⟨hlatchable, by simp⟩
    length := by simp [plainCommand]
    name := hname
    wait := rfl
    place := rfl
    others := by rcases hb with rfl | rfl <;> decide }

lemma twoGuards_guardList : GuardList [[100], [101]] twoGuards where
  guards := List.forall_mem_cons.mpr ⟨plainGuard_canGuard (.inl rfl) _ _,
    List.forall_mem_singleton.mpr (plainGuard_canGuard (.inr rfl) _ _)⟩
  distinct := by simp [twoGuards, plainGuard]

/-- The process of `d` has ended, and `d` is started again; `e` is left alone. -/
theorem guards_settle_sample :
    let s := mcdGuard plainHost false (mcdGuard plainHost false (twoGuards, twoProcesses.ends 5))
    List.Forall₂ (fun g g' => Same g g' ∧ if g.state = .detach then g'.state = .detach
      else g'.state = .run ∧ Alive plainHost s.2 g.name g'.pid) twoGuards s.1 ∧
    ∀ k, (mcdGuard plainHost false)^[k] s = s :=
  guards_settle plainKernel twoGuards_guardList _

/-- `d` ends and is started again, `e` is attached while it runs, then `d` is restarted and `e`
detached for good. -/
def guardingRun : List (Op Processes) :=
  [.change (twoProcesses.ends 5), .guard false, .attach [101], .guard false, .restart [100],
    .detach [101] true, .guard false]

/-- After `guardingRun` there is one process of `d` at most. -/
theorem single_instance_sample :
    ∃ gs' w' es,
      run (step plainHost) guardingRun (twoGuards, twoProcesses) = some ((gs', w'), es) ∧
      instances plainHost [100] w' ≤ max 1 (instances plainHost [100] twoProcesses) := by
  have hsome : (run (step plainHost) guardingRun (twoGuards, twoProcesses)).isSome := rfl
  obtain ⟨⟨⟨gs', w'⟩, es⟩, hrun⟩ := Option.isSome_iff_exists.mp hsome
  have hfits : Along (step plainHost) (Op.Fits plainHost) guardingRun (twoGuards, twoProcesses) :=
    ⟨List.filter_sublist.subperm, fun _ _ _ => ⟨trivial, fun _ _ _ => ⟨trivial, fun _ _ _ =>
      ⟨trivial, fun _ _ _ => ⟨trivial, fun _ _ _ => ⟨trivial, fun _ _ _ => ⟨trivial,
        fun _ _ _ => trivial⟩⟩⟩⟩⟩⟩⟩
  exact ⟨gs', w', es, hrun, single_instance plainKernel twoGuards_guardList.guards hfits hrun
    List.mem_cons_self (by decide)⟩

end LinuxC.Mcd.Guards
