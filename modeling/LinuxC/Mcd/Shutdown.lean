import LinuxC.Mcd.Guarding

/-!
# The end of the guarded programs (`sample/mc-daemon/mc_core.c`)

`mc_shutdown` sends `SIGTERM` to the programs that mcd knows and sets a timer.  Until the timer
expires mcd goes on: messages are handled, and a program can even be restarted.  Then
`mc_shutdown_fn` sends `SIGKILL`, and mcd exits.

What makes this work is that mcd knows every process of a guarded program (`Known`), which all its
steps keep: a program is started only when no process goes by its name, and its pid is remembered.
-/

namespace LinuxC.Mcd.Guards

open GenericProc
open Clients (GuardState)

/-! ## The code -/

def mcKillGuard {W : Type} (host : Host W) (sig : Signal) : List McGuard → W → W
  | [], w => w
  | g :: gs, w =>
      mcKillGuard host sig gs
        (if mcProcessValidate host w g.name g.pid then (host.kill sig g.pid w).2 else w)

/-- mcd with its guarded programs; `shutdown` also says that the timer of `mc_shutdown_fn` is set. -/
structure Daemon (W : Type) where
  guards : List McGuard
  world : W
  /-- `MC_F_REBOOT`. -/
  reboot : Bool
  /-- `MC_F_SHUTDOWN`. -/
  shutdown : Bool
  exited : Bool

section Code

variable {W : Type} (host : Host W)

/-- mcd after its start. -/
def Daemon.start (guards : List McGuard) (w : W) : Daemon W := ⟨guards, w, false, false, false⟩

def mcShutdown (d : Daemon W) : Daemon W :=
  { d with shutdown := true, world := mcKillGuard host .term d.guards d.world }

/-- `mc_shutdown_fn`, without `mc_reboot`. -/
def mcShutdownFn (d : Daemon W) : Daemon W :=
  { d with
    world := if d.shutdown then mcKillGuard host .kill d.guards d.world else d.world
    exited := true }

/-- What happens: something about the programs, `MC_EVENT_REBOOT`, `MC_EVENT_SHUTDOWN`, or the timer
of `mc_shutdown` expires. -/
inductive Act (W : Type)
  | event (op : Op W)
  | reboot
  | shutdown
  | expire

/-- `mcd_guard` looks at the flags, and after `exit` only others do something. -/
def Daemon.allows (d : Daemon W) : Op W → Bool
  | .guard closing => !d.exited && closing == (d.reboot || d.shutdown)
  | .change _ => true
  | _ => !d.exited

/-- One step. -/
def daemonStep (d : Daemon W) : Act W → Option (Daemon W × List Unit)
  | .event op =>
      if d.allows op then
        (step host (d.guards, d.world) op).map fun r =>
          ({ d with guards := r.1.1, world := r.1.2 }, [])
      else none
  | .reboot => if d.exited then none else some ({ d with reboot := true }, [])
  | .shutdown => if d.exited then none else some (mcShutdown host d, [])
  | .expire => if d.exited || !d.shutdown then none else some (mcShutdownFn host d, [])

/-- Outside of mcd nobody starts a process. -/
def Act.Fits (d : Daemon W) : Act W → Prop
  | .event op => op.Fits host (d.guards, d.world)
  | _ => True

end Code

variable {W : Type} {host : Host W} {names : List (List UInt8)} {g g' h : McGuard} {w w' : W}

/-! ## What mcd knows -/

/-- Every process that goes by the name has the pid that mcd knows. -/
def Known (host : Host W) (w : W) (g : McGuard) : Prop :=
  ∀ p ∈ host.procs w, Goes g.name p → p.pid = g.pid

lemma Known.of_subset (hg : Known host w g) (hsub : host.procs w' ⊆ host.procs w) :
    Known host w' g :=
  fun p hp => hg p (hsub hp)

lemma instances_eq_zero {name : List UInt8} :
    instances host name w = 0 ↔ ∀ p ∈ host.procs w, ¬ Goes name p := by
  rw [instances_eq, List.length_eq_zero_iff, List.filter_eq_nil_iff]
  simp

/-- A process that is the only one of its name. -/
lemma pid_eq_of_instances {name : List UInt8} {pid : ℤ} (hone : instances host name w = 1)
    (halive : Alive host w name pid) : ∀ p ∈ host.procs w, Goes name p → p.pid = pid := by
  rw [instances_eq] at hone
  obtain ⟨q, hq⟩ := List.length_eq_one_iff.mp hone
  have honly : ∀ p ∈ host.procs w, Goes name p → p = q := by
    intro p hp hgoes
    have hmem : p ∈ (host.procs w).filter fun p => decide (Goes name p) :=
      List.mem_filter.mpr ⟨hp, decide_eq_true hgoes⟩
    rwa [hq, List.mem_singleton] at hmem
  obtain ⟨p, hp, rfl, hgoes⟩ := halive
  intro p' hp' hgoes'
  rw [honly p hp hgoes, honly p' hp' hgoes']

/-- mcd knows all processes of a program when there is none, or one whose pid it has. -/
lemma known_iff (K : Kernel host) :
    Known host w g ↔ instances host g.name w = 0 ∨
      instances host g.name w = 1 ∧ Alive host w g.name g.pid := by
  constructor
  · intro hg
    by_cases hnone : instances host g.name w = 0
    · exact .inl hnone
    · rw [instances_eq_zero] at hnone
      push Not at hnone
      obtain ⟨p, hp, hgoes⟩ := hnone
      refine .inr ⟨?_, p, hp, hg p hp hgoes, hgoes⟩
      have hsame : ∀ q ∈ (host.procs w).filter fun q => decide (Goes g.name q), q = p := by
        intro q hq
        obtain ⟨hq, hqgoes⟩ := List.mem_filter.mp hq
        refine eq_of_pid K hq hp ?_
        rw [hg q hq (of_decide_eq_true hqgoes), hg p hp hgoes]
      have hnodup : ((host.procs w).filter fun q => decide (Goes g.name q)).Nodup :=
        (K.pids w).1.of_map.filter _
      have hmem : p ∈ (host.procs w).filter fun q => decide (Goes g.name q) :=
        List.mem_filter.mpr ⟨hp, decide_eq_true hgoes⟩
      rw [List.eq_replicate_of_mem hsame, List.nodup_replicate] at hnodup
      rw [instances_eq]
      exact le_antisymm hnodup (List.length_pos_of_mem hmem)
  · rintro (hnone | ⟨hone, halive⟩)
    · exact fun p hp hgoes => absurd hgoes (instances_eq_zero.mp hnone p hp)
    · exact pid_eq_of_instances hone halive

/-! ## What one program's turn keeps -/

/-- A change of one program keeps what mcd knows, of it and of the others. -/
structure Keeps (host : Host W) (names : List (List UInt8)) (g : McGuard) (w : W)
    (r : McGuard × W) : Prop where
  same : Same g r.1
  own : Known host w g → Known host r.2 r.1
  others : ∀ h, CanGuard names h → h.name ≠ g.name → Known host w h → Known host r.2 h

lemma Keeps.of_subset (hsame : Same g g') (hpid : g'.pid = g.pid)
    (hsub : host.procs w' ⊆ host.procs w) : Keeps host names g w (g', w') where
  same := hsame
  own hg p hp hgoes := by
    rw [hpid]
    exact hg p (hsub hp) (hsame.name ▸ hgoes)
  others _ _ _ hh := hh.of_subset hsub

/-- A program is started while no process goes by its name. -/
lemma Keeps.of_started (K : Kernel host) (hg : CanGuard names g) {w₀ : W} {r : ℤ × W}
    (hwithout : Without host g.name w w₀) (hstarted : Started host names g.name w₀ r) :
    Keeps host names g w ({ g with pid := r.1, state := .new }, r.2) := by
  obtain ⟨early, c, cs, x, hg⟩ := hg
  refine ⟨⟨rfl, rfl, rfl, rfl⟩, fun _ => ?_, ?_⟩
  · rw [known_iff K]
    refine .inr ⟨?_, hstarted.alive⟩
    rw [hstarted.instances_eq hwithout hg.mem hg.short, if_pos rfl]
  · rintro h ⟨early', c', cs', x', hh⟩ hne hknown
    have hcount : instances host h.name r.2 = instances host h.name w := by
      rw [hstarted.instances_eq hwithout hh.mem hh.short, if_neg hne]
    rw [known_iff K] at hknown ⊢
    rw [hcount]
    refine hknown.imp id fun ⟨hone, halive⟩ => ⟨hone, ?_⟩
    obtain ⟨p, hp, hpid⟩ := hwithout.alive _ _ hne halive
    exact ⟨p, hstarted.mono p hp, hpid⟩

/-- **A turn of `mcd_guard`.** -/
lemma guardTurn_keeps (K : Kernel host) (hg : CanGuard names g) (w : W) :
    Keeps host names g w (guardTurn host g w) := by
  by_cases hstate : g.state = .detach
  · have hturn : guardTurn host g w = (g, w) := by
      unfold guardTurn
      rw [hstate]
    rw [hturn]
    exact Keeps.of_subset (Same.refl g) rfl (List.Subset.refl _)
  · have hturned := guardTurn_turned K hg w
    generalize guardTurn host g w = r at hturned
    cases hturned with
    | kept g' same detach known =>
        -- the process that is found is the one that mcd knows
        refine ⟨same, fun hg p hp hgoes => ?_, fun _ _ _ hh => hh⟩
        rw [same.name] at hgoes
        obtain ⟨q, hq, hpid, hqgoes⟩ := known.resolve_left (mt detach.mp hstate)
        rw [hg p hp hgoes, ← hg q hq hqgoes, hpid]
    | started w₀ r without started => exact Keeps.of_started K hg without started

/-! ## The list -/

/-- A change of the list keeps what mcd knows. -/
structure KeepsAll (host : Host W) (names : List (List UInt8)) (gs : List McGuard) (w : W)
    (r : List McGuard × W) : Prop where
  list : r.1.map McGuard.name = gs.map McGuard.name
  guards : (∀ g ∈ gs, CanGuard names g) → ∀ g ∈ r.1, CanGuard names g
  own : (∀ g ∈ gs, CanGuard names g) → (gs.map McGuard.name).Nodup →
    (∀ g ∈ gs, Known host w g) → ∀ g ∈ r.1, Known host r.2 g
  others : ∀ h, CanGuard names h → h.name ∉ gs.map McGuard.name → Known host w h →
    Known host r.2 h

lemma KeepsAll.of_subset (gs : List McGuard) (hsub : host.procs w' ⊆ host.procs w) :
    KeepsAll host names gs w (gs, w') where
  list := rfl
  guards hgs := hgs
  own _ _ hknown g hg := (hknown g hg).of_subset hsub
  others _ _ _ hh := hh.of_subset hsub

/-- **One program after the other.** -/
lemma Keeps.cons {gs : List McGuard} {r : McGuard × W} {rs : List McGuard × W}
    (hturn : Keeps host names g w r) (hrest : KeepsAll host names gs r.2 rs) :
    KeepsAll host names (g :: gs) w (r.1 :: rs.1, rs.2) where
  list := by rw [List.map_cons, List.map_cons, hturn.same.name, hrest.list]
  guards hgs := by
    rw [List.forall_mem_cons] at hgs ⊢
    exact ⟨hturn.same.canGuard hgs.1, hrest.guards hgs.2⟩
  own hgs hnodup hknown := by
    rw [List.map_cons, List.nodup_cons] at hnodup
    rw [List.forall_mem_cons] at hgs hknown ⊢
    constructor
    · refine hrest.others r.1 (hturn.same.canGuard hgs.1) ?_ (hturn.own hknown.1)
      rw [hturn.same.name]
      exact hnodup.1
    · refine hrest.own hgs.2 hnodup.2 fun k hk => ?_
      have hne : k.name ≠ g.name := fun heq => hnodup.1 (heq ▸ List.mem_map_of_mem hk)
      exact hturn.others k (hgs.2 k hk) hne (hknown.2 k hk)
  others h hh hnot hknown := by
    rw [List.map_cons, List.mem_cons, not_or] at hnot
    exact hrest.others h hh hnot.2 (hturn.others h hh hnot.1 hknown)

lemma guardLoop_keeps (K : Kernel host) {gs : List McGuard} (hgs : ∀ g ∈ gs, CanGuard names g)
    (w : W) : KeepsAll host names gs w (guardLoop host gs w) := by
  induction gs generalizing w with
  | nil => exact KeepsAll.of_subset [] (List.Subset.refl _)
  | cons g gs ih =>
      rw [List.forall_mem_cons] at hgs
      exact (guardTurn_keeps K hgs.1 w).cons (ih hgs.2 _)

lemma forFirst_keeps {p : McGuard → Bool} {f : McGuard → W → McGuard × W} {gs : List McGuard}
    (hgs : ∀ g ∈ gs, CanGuard names g)
    (hf : ∀ g w, CanGuard names g → Keeps host names g w (f g w)) (w : W) :
    KeepsAll host names gs w (forFirst p f w gs) := by
  induction gs with
  | nil => exact KeepsAll.of_subset [] (List.Subset.refl _)
  | cons g gs ih =>
      rw [List.forall_mem_cons] at hgs
      unfold forFirst
      dsimp only
      split_ifs
      · exact (hf g w hgs.1).cons (KeepsAll.of_subset gs (List.Subset.refl _))
      · exact (Keeps.of_subset (Same.refl g) rfl (List.Subset.refl _)).cons (ih hgs.2)

/-- **One step** of what happens to the programs. -/
lemma step_keeps (K : Kernel host) {s s' : List McGuard × W} {op : Op W} {es : List Unit}
    (hgs : ∀ g ∈ s.1, CanGuard names g) (hfits : op.Fits host s)
    (hstep : step host s op = some (s', es)) : KeepsAll host names s.1 s.2 s' := by
  cases op with
  | guard closing =>
      cases hstep
      unfold mcdGuard
      split_ifs
      · exact KeepsAll.of_subset s.1 (List.Subset.refl _)
      · exact guardLoop_keeps K hgs s.2
  | attach name =>
      cases hstep
      refine forFirst_keeps hgs (fun g w _ => ?_) s.2
      exact Keeps.of_subset ⟨rfl, rfl, rfl, rfl⟩ rfl (List.Subset.refl _)
  | detach name exit =>
      cases hstep
      refine forFirst_keeps hgs (fun g w _ => ?_) s.2
      refine Keeps.of_subset ⟨rfl, rfl, rfl, rfl⟩ rfl ?_
      split_ifs
      · exact (K.signal .kill g.pid w).subset
      · exact List.Subset.refl _
  | restart name =>
      cases hstep
      refine forFirst_keeps hgs (fun g w hg => ?_) s.2
      obtain ⟨early, c, cs, x, hguard⟩ := id hg
      dsimp only
      set w₁ := if mcProcessValidate host w g.name g.pid then (host.kill .term g.pid w).2 else w
        with hw₁
      have hsub : host.procs w₁ ⊆ host.procs w := by
        rw [hw₁]
        split_ifs
        · exact (K.signal .term g.pid w).subset
        · exact List.Subset.refl _
      have hkept : Keeps host names g w (g, w₁) := Keeps.of_subset (Same.refl g) rfl hsub
      have hstart : Keeps host names g w₁ _ :=
        Keeps.of_started K hg (without_killAll K g.name w₁)
          (processLatch_started K hguard (killAll host g.name w₁))
      exact ⟨hstart.same, fun hknown => hstart.own (hkept.own hknown),
        fun h hh hne hknown => hstart.others h hh hne (hkept.others h hh hne hknown)⟩
  | change w' =>
      cases hstep
      exact KeepsAll.of_subset s.1 (List.Subperm.subset hfits)

/-! ## The signals -/

lemma mcKillGuard_sublist (K : Kernel host) (sig : Signal) (gs : List McGuard) (w : W) :
    (host.procs (mcKillGuard host sig gs w)).Sublist (host.procs w) := by
  induction gs generalizing w with
  | nil => exact List.Sublist.refl _
  | cons g gs ih =>
      refine (ih _).trans ?_
      split_ifs
      · exact K.signal sig g.pid w
      · exact List.Sublist.refl _

lemma procs_kill_known (K : Kernel host) (hshort : g.name.length + 1 < processNameMax)
    (hg : Known host w g) :
    host.procs (if mcProcessValidate host w g.name g.pid then (host.kill .kill g.pid w).2 else w) =
      (host.procs w).filter fun p => !decide (Goes g.name p) := by
  by_cases hvalid : mcProcessValidate host w g.name g.pid = true
  · rw [if_pos hvalid]
    obtain ⟨q, hq, hpid, hgoes⟩ := (validate_iff K hshort).mp hvalid
    rw [← hpid, (K.kill w q hq).2]
    refine List.filter_congr fun p hp => ?_
    have hiff : p.pid = q.pid ↔ Goes g.name p :=
      ⟨fun heq => eq_of_pid K hp hq heq ▸ hgoes, fun hp' => (hg p hp hp').trans hpid.symm⟩
    simp [hiff]
  · rw [if_neg hvalid]
    refine (List.filter_eq_self.mpr fun p hp => ?_).symm
    have hnot : ¬ Goes g.name p := fun hgoes =>
      hvalid ((validate_iff K hshort).mpr ⟨p, hp, hg p hp hgoes, hgoes⟩)
    simp [hnot]

/-- **`SIGKILL` ends exactly the processes that go by a name of the list.** -/
lemma procs_mcKillGuard (K : Kernel host) {gs : List McGuard} (hgs : ∀ g ∈ gs, CanGuard names g)
    (hknown : ∀ g ∈ gs, Known host w g) :
    host.procs (mcKillGuard host .kill gs w) =
      (host.procs w).filter fun p => !gs.any fun g => decide (Goes g.name p) := by
  induction gs generalizing w with
  | nil => simp [mcKillGuard]
  | cons g gs ih =>
      rw [List.forall_mem_cons] at hgs hknown
      obtain ⟨⟨early, c, cs, x, hg⟩, hgs⟩ := hgs
      have hprocs := procs_kill_known K hg.short hknown.1
      have hrest : ∀ h ∈ gs, Known host
          (if mcProcessValidate host w g.name g.pid then (host.kill .kill g.pid w).2 else w) h := by
        intro h hh
        refine (hknown.2 h hh).of_subset ?_
        rw [hprocs]
        exact List.filter_subset_self _
      rw [mcKillGuard, ih hgs hrest, hprocs, List.filter_filter]
      refine List.filter_congr fun p _ => ?_
      rw [List.any_cons, Bool.not_or, Bool.and_comm]

/-! ## Runs -/

/-- mcd knows the programs with the names `ns`, and after its end none of them has a process. -/
structure Daemon.Ok (host : Host W) (names ns : List (List UInt8)) (d : Daemon W) : Prop where
  guards : ∀ g ∈ d.guards, CanGuard names g
  list : d.guards.map McGuard.name = ns
  known : ∀ g ∈ d.guards, Known host d.world g
  ended : d.exited = true → ∀ n ∈ ns, instances host n d.world = 0

/-- **One step.** -/
lemma Daemon.Ok.step (K : Kernel host) {ns : List (List UInt8)} (hns : ns.Nodup) {d d' : Daemon W}
    {act : Act W} {es : List Unit} (hd : d.Ok host names ns) (hfits : act.Fits host d)
    (hstep : daemonStep host d act = some (d', es)) : d'.Ok host names ns := by
  cases act with
  | event op =>
      unfold daemonStep at hstep
      dsimp only at hstep
      split_ifs at hstep with hallows
      obtain ⟨r, hr, heq⟩ := Option.map_eq_some_iff.mp hstep
      obtain ⟨rfl, -⟩ := Prod.mk.inj heq
      have hkeeps := step_keeps K hd.guards hfits hr
      refine ⟨hkeeps.guards hd.guards, hkeeps.list.trans hd.list,
        hkeeps.own hd.guards (hd.list ▸ hns) hd.known, fun hexit n hn => ?_⟩
      -- after the end only the outside does something
      cases op with
      | change w' =>
          cases hr
          have hnone := instances_eq_zero.mp (hd.ended hexit n hn)
          exact instances_eq_zero.mpr fun p hp => hnone p (List.Subperm.subset hfits hp)
      | guard | attach | detach | restart =>
          simp [Daemon.allows, show d.exited = true from hexit] at hallows
  | reboot =>
      unfold daemonStep at hstep
      dsimp only at hstep
      split_ifs at hstep with hexit
      obtain ⟨rfl, -⟩ := Prod.mk.inj (Option.some.inj hstep)
      exact ⟨hd.guards, hd.list, hd.known, fun he => absurd he hexit⟩
  | shutdown =>
      unfold daemonStep at hstep
      dsimp only at hstep
      split_ifs at hstep with hexit
      obtain ⟨rfl, -⟩ := Prod.mk.inj (Option.some.inj hstep)
      refine ⟨hd.guards, hd.list, fun g hg => ?_, fun he => absurd he hexit⟩
      exact (hd.known g hg).of_subset (mcKillGuard_sublist K .term d.guards d.world).subset
  | expire =>
      unfold daemonStep at hstep
      dsimp only at hstep
      split_ifs at hstep with hexit
      obtain ⟨rfl, -⟩ := Prod.mk.inj (Option.some.inj hstep)
      have hshutdown : d.shutdown = true := by
        simp only [Bool.or_eq_true, Bool.not_eq_true', not_or, Bool.not_eq_false] at hexit
        exact hexit.2
      have hworld : (mcShutdownFn host d).world = mcKillGuard host .kill d.guards d.world :=
        if_pos hshutdown
      have hprocs := procs_mcKillGuard K hd.guards hd.known
      refine ⟨hd.guards, hd.list, fun g hg => ?_, fun _ n hn => ?_⟩
      · rw [hworld]
        exact (hd.known g hg).of_subset (mcKillGuard_sublist K .kill d.guards d.world).subset
      · rw [hworld, instances_eq_zero, hprocs]
        intro p hp hgoes
        rw [← hd.list] at hn
        obtain ⟨g, hg, rfl⟩ := List.mem_map.mp hn
        have hnot := (List.mem_filter.mp hp).2
        simp only [Bool.not_eq_true', List.any_eq_false, decide_eq_true_eq] at hnot
        exact hnot g hg hgoes

/-- **No guarded program survives mcd**: whatever messages come before and after `mc_shutdown`, and
whatever processes end, when mcd has exited no process goes by the name of a program of its list. -/
theorem shutdown_ends_guards (K : Kernel host) {gs : List McGuard} (hgs : GuardList names gs)
    (hknown : ∀ g ∈ gs, Known host w g) {ls : List (Act W)} {d : Daemon W} {es : List Unit}
    (hfits : Along (daemonStep host) (fun d act => act.Fits host d) ls (Daemon.start gs w))
    (hrun : run (daemonStep host) ls (Daemon.start gs w) = some (d, es))
    (hexit : d.exited = true) : ∀ g ∈ gs, instances host g.name d.world = 0 := by
  have hnodup : (gs.map McGuard.name).Nodup := List.pairwise_map.mpr hgs.distinct
  have hstart : (Daemon.start gs w).Ok host names (gs.map McGuard.name) :=
    ⟨hgs.guards, rfl, hknown, fun he => nomatch he⟩
  have hend := run_invariant (I := Daemon.Ok host names (gs.map McGuard.name))
    (fun hd hok hstep => hd.step K hnodup hok hstep) hstart hfits hrun
  exact fun g hg => hend.ended hexit g.name (List.mem_map_of_mem hg)

/-- The process of `d` ends, and mcd starts `d` again, also while it shuts down; then both programs
are killed, `d` with the process that mcd has started and `e` with its old one. -/
def endingRun : List (Act Processes) :=
  [.event (.change (twoProcesses.ends 5)), .event (.guard false), .shutdown,
    .event (.restart [100]), .expire]

/-- After `endingRun` neither program has a process. -/
theorem shutdown_ends_guards_sample :
    ∃ d es, run (daemonStep plainHost) endingRun (Daemon.start twoGuards twoProcesses) =
        some (d, es) ∧ d.exited = true ∧
      ∀ g ∈ twoGuards, instances plainHost g.name d.world = 0 := by
  have hexited : (run (daemonStep plainHost) endingRun (Daemon.start twoGuards twoProcesses)).map
      (fun r => r.1.exited) = some true := rfl
  obtain ⟨⟨d, es⟩, hrun, hexit⟩ := Option.map_eq_some_iff.mp hexited
  have hfits : Along (daemonStep plainHost) (fun d act => act.Fits plainHost d) endingRun
      (Daemon.start twoGuards twoProcesses) :=
    ⟨List.filter_sublist.subperm, fun _ _ _ => ⟨trivial, fun _ _ _ => ⟨trivial, fun _ _ _ =>
      ⟨trivial, fun _ _ _ => ⟨trivial, fun _ _ _ => trivial⟩⟩⟩⟩⟩
  have hknown : ∀ g ∈ twoGuards, Known plainHost twoProcesses g := by
    unfold Known
    decide +kernel
  exact ⟨d, es, hrun, hexit,
    shutdown_ends_guards plainKernel twoGuards_guardList hknown hfits hrun hexit⟩

end LinuxC.Mcd.Guards
