import LinuxC.Common.GenericProc
import LinuxC.Mcd.Clients
import LinuxC.Mcd.Latch
import Mathlib.Data.List.Perm.Basic

/-!
# Guarded programs (`sample/mc-daemon/mc_guard.c`)

`mcd_guard` is called again and again.  It looks at each program of its list: in the state `NEW` it
checks the process that it knows, or looks for one, and starts the program when there is none; in
the state `RUN` it checks the process, and kills and starts the program when it is gone.

The system is a parameter (`Host`): the processes, the files with their numbers, and what `kill` and
`exec` do.  `Kernel` says what is relied on.
-/

namespace LinuxC.Mcd.Guards

open GenericProc
open Clients (GuardState)

/-! ## The code -/

structure McGuard where
  /-- The identity is `MC_IDENTITY_DYNAMIC`. -/
  dynamic : Bool
  name : List UInt8
  cmdline : List UInt8
  pidfile : Option (List UInt8)
  pid : ℤ
  state : GuardState

/-- The signals that are sent. -/
inductive Signal
  | kill
  | term

/-- The system. -/
structure Host (W : Type) where
  /-- What `/proc` shows, in the order of `readdir`. -/
  procs : W → List Process
  /-- `opendir("/proc")` succeeds. -/
  opendir : W → Bool
  /-- `sys_file_read_integer`, with the default 0. -/
  readInteger : List UInt8 → W → ℤ
  kill : Signal → ℤ → W → ℤ × W
  /-- `mc_exec`. -/
  exec : Exec → W → ℤ × W
  /-- What an entry of an array holds that nobody has written. -/
  stack : W → ℤ

def mcClientCmdlineLen : ℕ := 127

section Code

variable {W : Type} (host : Host W)

def mcProcessValidate (w : W) (name : List UInt8) (pid : ℤ) : Bool :=
  match (host.procs w).find? fun p => p.pid = pid with
  | none => false
  | some p => processName (mcClientCmdlineLen + 1) p = some name

/-- `mc_process_latch`: its result. -/
def processLatch (cmdline : List UInt8) (w : W) : ℤ × W :=
  let l := mcProcessLatch host.exec cmdline w
  (l.result.getD (host.stack w), l.world)

/-- `process_kill` with `SIGKILL`. -/
def killAll (name : List UInt8) (w : W) : W :=
  if host.opendir w then (processKill (host.kill .kill) name (host.procs w) w).2 else w

def mcProcessRestart (name cmdline : List UInt8) (w : W) : ℤ × W :=
  processLatch host cmdline (killAll host name w)

/-- `mc_guard_find`: the pid from the file, if it is that of the program. -/
def findByFile (g : McGuard) (w : W) : Option ℤ :=
  g.pidfile.bind fun file =>
    let pid := host.readInteger file w
    if 0 < pid ∧ mcProcessValidate host w g.name pid then some pid else none

def mcGuardFind (g : McGuard) (w : W) : ℤ × McGuard :=
  match findByFile host g w with
  | some pid => (1, { g with pid := pid })
  | none =>
      let pid := if host.opendir w then processFind g.name (host.procs w) else -1
      if 0 < pid then (1, { g with pid := pid }) else if pid = 0 then (0, g) else (-1, g)

/-- The body of the loop of `mcd_guard`. -/
def guardTurn (g : McGuard) (w : W) : McGuard × W :=
  match g.state with
  | .detach => (g, w)
  | .run =>
      if mcProcessValidate host w g.name g.pid then (g, w)
      else
        let r := mcProcessRestart host g.name g.cmdline w
        ({ g with pid := r.1, state := .new }, r.2)
  | .new =>
      if 0 < g.pid ∧ mcProcessValidate host w g.name g.pid then ({ g with state := .run }, w)
      else
        let found := mcGuardFind host g w
        if found.1 = 0 then
          let r := processLatch host g.cmdline w
          ({ found.2 with pid := r.1, state := .new }, r.2)
        else (found.2, w)

/-- The loop of `mcd_guard`. -/
def guardLoop : List McGuard → W → List McGuard × W
  | [], w => ([], w)
  | g :: gs, w =>
      let r := guardTurn host g w
      let rs := guardLoop gs r.2
      (r.1 :: rs.1, rs.2)

/-- `mcd_guard`; `closing` are the flags `MC_F_REBOOT` and `MC_F_SHUTDOWN`. -/
def mcdGuard (closing : Bool) (s : List McGuard × W) : List McGuard × W :=
  if closing then s else guardLoop host s.1 s.2

/-- A loop over the list that ends with the first program that is looked for. -/
def forFirst (p : McGuard → Bool) (f : McGuard → W → McGuard × W) (w : W) :
    List McGuard → List McGuard × W
  | [] => ([], w)
  | g :: gs =>
      if p g then
        let r := f g w
        (r.1 :: gs, r.2)
      else
        let r := forFirst p f w gs
        (g :: r.1, r.2)

/-- `mcd_client_attach`, where no client has the name. -/
def guardAttach (name : List UInt8) (s : List McGuard × W) : List McGuard × W :=
  forFirst (fun g => g.state = .detach ∧ g.name = name) (fun g w => ({ g with state := .new }, w))
    s.2 s.1

/-- `mcd_client_detach`, where no client has the name. -/
def guardDetach (name : List UInt8) (exit : Bool) (s : List McGuard × W) : List McGuard × W :=
  forFirst (fun g => g.state ≠ .detach ∧ g.name = name)
    (fun g w => ({ g with state := .detach }, if exit then (host.kill .kill g.pid w).2 else w))
    s.2 s.1

/-- `mcd_client_restart_msg`, where no client has the name. -/
def guardRestart (name : List UInt8) (s : List McGuard × W) : List McGuard × W :=
  forFirst (fun g => g.state ≠ .detach ∧ g.name = name)
    (fun g w =>
      let w := if mcProcessValidate host w g.name g.pid then (host.kill .term g.pid w).2 else w
      let r := mcProcessRestart host g.name g.cmdline w
      ({ g with pid := r.1, state := .new }, r.2))
    s.2 s.1

end Code

/-! ## What is relied on -/

/-- The name that the process of a command goes by. -/
def commandName (x : Exec) : List UInt8 := fileName (x.argv.headD [])

/-- A kernel in which nothing goes wrong and nothing takes time.  An `exec` never fails: a command
that is not waited for becomes a new process, and one that is waited for leaves none behind.
`SIGKILL` acts at once: the process is gone when `/proc` is read again, without a zombie that stays
until mcd waits for its children, which it only does in its event loop.  No signal makes a process,
and nothing happens between two calls of the system unless a step says so. -/
structure Kernel {W : Type} (host : Host W) : Prop where
  opendir : ∀ w, host.opendir w = true
  pids : ∀ w, ((host.procs w).map Process.pid).Nodup ∧ ∀ p ∈ host.procs w, 0 < p.pid
  kill : ∀ w p, p ∈ host.procs w → (host.kill .kill p.pid w).1 = 0 ∧
    host.procs (host.kill .kill p.pid w).2 = (host.procs w).filter fun q => q.pid ≠ p.pid
  signal : ∀ sig pid w, (host.procs (host.kill sig pid w).2).Sublist (host.procs w)
  wait : ∀ x w, x.wait = true → (host.procs (host.exec x w).2).Perm (host.procs w)
  start : ∀ command args redirect append w,
    ∃ p : Process, p.pid = (host.exec ⟨command :: args, redirect, append, false⟩ w).1 ∧
      p.cmdline = some (command ++ 0 :: args.flatMap fun a => a ++ [0]) ∧
      (host.procs (host.exec ⟨command :: args, redirect, append, false⟩ w).2).Perm
        (p :: host.procs w)

/-- A program that can be guarded beside others with these names: its line holds commands, and of
those that mcd does not wait for only the one that matters has a name of the list, its own. -/
structure Guardable (names : List (List UInt8)) (g : McGuard) (early : Bool) (c : Command)
    (cs : List (Bool × Command)) (x : Exec) : Prop where
  mem : g.name ∈ names
  short : g.name.length + 1 < processNameMax
  cmdline : g.cmdline = (if early then [59] else []) ++ commandsText c cs
  latchable : Latchable c ∧ ∀ d ∈ cs, Latchable d.2
  length : ∀ d ∈ c :: cs.map Prod.snd, d.name.length ≤ 1022
  name : commandName x = g.name
  wait : x.wait = false
  place : ((commandsExec c cs).take (if early then 2 else 3))[mainPlace early cs]? = some x
  others : ((commandsExec c cs).take (if early then 2 else 3)).filter
    (fun y => !y.wait && names.contains (commandName y)) = [x]

/-! ## What the system does for mcd -/

section Facts

variable {W : Type} {host : Host W} {w : W} {name : List UInt8} {pid : ℤ}

/-- The processes that go by a name. -/
def instances (host : Host W) (name : List UInt8) (w : W) : ℕ := processCount name (host.procs w)

/-- A process with this pid that goes by the name. -/
def Alive (host : Host W) (w : W) (name : List UInt8) (pid : ℤ) : Prop :=
  ∃ p ∈ host.procs w, p.pid = pid ∧ Goes name p

lemma instances_eq (host : Host W) (name : List UInt8) (w : W) :
    instances host name w = ((host.procs w).filter fun p => decide (Goes name p)).length :=
  processCount_eq

lemma eq_of_pid (K : Kernel host) {p q : Process} (hp : p ∈ host.procs w) (hq : q ∈ host.procs w)
    (h : p.pid = q.pid) : p = q :=
  List.inj_on_of_nodup_map (K.pids w).1 hp hq h

/-- The two sizes of buffers agree on the name of a program. -/
lemma validate_iff (K : Kernel host) (hname : name.length + 1 < processNameMax) :
    mcProcessValidate host w name pid = true ↔ Alive host w name pid := by
  have hagree : ∀ p : Process,
      processName (mcClientCmdlineLen + 1) p = some name ↔ Goes name p := fun p =>
    ⟨processName_agree (by decide) (by decide) (hname.trans (by decide)) hname,
      processName_agree (by decide) (by decide) hname (hname.trans (by decide))⟩
  unfold mcProcessValidate
  cases hfind : (host.procs w).find? fun p => p.pid = pid with
  | none =>
      rw [List.find?_eq_none] at hfind
      refine ⟨fun h => Bool.noConfusion h, ?_⟩
      rintro ⟨p, hp, hpid, -⟩
      exact absurd hpid (by simpa using hfind p hp)
  | some p =>
      have hpid : p.pid = pid := by simpa using List.find?_some hfind
      have hp := List.mem_of_find?_eq_some hfind
      simp only [decide_eq_true_eq, hagree]
      refine ⟨fun h => ⟨p, hp, hpid, h⟩, fun ⟨q, hq, hqpid, hgoes⟩ => ?_⟩
      rwa [eq_of_pid K hp hq (hpid.trans hqpid.symm)]

lemma processFind_cases (K : Kernel host) (name : List UInt8) (w : W) :
    (0 < processFind name (host.procs w) ∧ Alive host w name (processFind name (host.procs w))) ∨
      (processFind name (host.procs w) = 0 ∧ instances host name w = 0) := by
  have hpos := (K.pids w).2
  rw [instances_eq, processFind_eq fun p hp => (hpos p hp).ne']
  cases hgoing : (host.procs w).filter fun p => decide (Goes name p) with
  | nil => exact .inr ⟨rfl, rfl⟩
  | cons p ps =>
      obtain ⟨hp, hgoes⟩ := List.mem_filter.mp (hgoing ▸ List.mem_cons_self (a := p) (l := ps))
      exact .inl ⟨hpos p hp, p, hp, rfl, by simpa using hgoes⟩

lemma procs_foldl_kill (K : Kernel host) {ps : List Process} (hps : ∀ p ∈ ps, p ∈ host.procs w)
    (hnodup : (ps.map Process.pid).Nodup) :
    host.procs (ps.foldl (fun w p => (host.kill .kill p.pid w).2) w) =
      (host.procs w).filter fun p => !(ps.map Process.pid).contains p.pid := by
  induction ps generalizing w with
  | nil => simp
  | cons q ps ih =>
      rw [List.map_cons, List.nodup_cons] at hnodup
      rw [List.forall_mem_cons] at hps
      have hprocs := (K.kill w q hps.1).2
      have hrest : ∀ p ∈ ps, p ∈ host.procs (host.kill .kill q.pid w).2 := by
        intro p hp
        have hne : p.pid ≠ q.pid := fun heq => hnodup.1 (heq ▸ List.mem_map_of_mem hp)
        rw [hprocs]
        exact List.mem_filter.mpr ⟨hps.2 p hp, by simpa using hne⟩
      rw [List.foldl_cons, ih hrest hnodup.2, hprocs, List.filter_filter]
      refine List.filter_congr fun p _ => ?_
      rw [List.map_cons, List.contains_cons, Bool.not_or, Bool.and_comm]
      congr 1
      rw [Bool.eq_iff_iff]
      simp

/-- **All are killed**, and no other process is. -/
lemma procs_killAll (K : Kernel host) (name : List UInt8) (w : W) :
    host.procs (killAll host name w) = (host.procs w).filter fun p => !decide (Goes name p) := by
  have hmem : ∀ p ∈ (host.procs w).filter fun p => decide (Goes name p), p ∈ host.procs w :=
    fun p hp => List.mem_of_mem_filter hp
  have hnodup : (((host.procs w).filter fun p => decide (Goes name p)).map Process.pid).Nodup :=
    (K.pids w).1.sublist (List.filter_sublist.map _)
  have hkill : ∀ pre p post,
      ((host.procs w).filter fun p => decide (Goes name p)) = pre ++ p :: post →
      (host.kill .kill p.pid (pre.foldl (fun w p => (host.kill .kill p.pid w).2) w)).1 = 0 := by
    -- a process that has not been killed yet is still there
    intro pre p post heq
    rw [heq] at hmem hnodup
    rw [List.map_append, List.map_cons] at hnodup
    have hpre := procs_foldl_kill K (fun q hq => hmem q (List.mem_append_left _ hq))
      hnodup.of_append_left
    have hnot : p.pid ∉ pre.map Process.pid := fun hin =>
      List.disjoint_of_nodup_append hnodup hin List.mem_cons_self
    refine (K.kill _ p ?_).1
    rw [hpre]
    exact List.mem_filter.mpr
      ⟨hmem p (List.mem_append_right _ List.mem_cons_self), by simpa using hnot⟩
  rw [killAll, if_pos (K.opendir w), processKill_eq w hkill, procs_foldl_kill K hmem hnodup]
  refine List.filter_congr fun p hp => ?_
  rw [Bool.not_inj_iff, Bool.eq_iff_iff, List.contains_iff_mem, List.mem_map, decide_eq_true_eq]
  constructor
  · rintro ⟨q, hq, hpid⟩
    obtain ⟨hmem, hgoes⟩ := List.mem_filter.mp hq
    rw [← eq_of_pid K hmem hp hpid]
    simpa using hgoes
  · exact fun hgoes => ⟨p, List.mem_filter.mpr ⟨hp, by simpa using hgoes⟩, rfl⟩

lemma goes_ne {n : List UInt8} {p : Process} (hp : Goes n p) (hn : n ≠ name) : ¬ Goes name p :=
  fun h => hn (Option.some.inj (hp.symm.trans h))

lemma instances_killAll (K : Kernel host) (name n : List UInt8) (w : W) :
    instances host n (killAll host name w) = if n = name then 0 else instances host n w := by
  rw [instances_eq, instances_eq, procs_killAll K, List.filter_filter]
  split_ifs with hn
  · rw [List.length_eq_zero_iff, List.filter_eq_nil_iff]
    intro p _
    simp [hn]
  · congr 1
    refine List.filter_congr fun p _ => ?_
    by_cases hp : Goes n p
    · simp [hp, goes_ne hp hn]
    · simp [hp]

lemma alive_killAll (K : Kernel host) {n : List UInt8} (hn : n ≠ name) (h : Alive host w n pid) :
    Alive host (killAll host name w) n pid := by
  obtain ⟨p, hp, hpid, hgoes⟩ := h
  refine ⟨p, ?_, hpid, hgoes⟩
  rw [procs_killAll K]
  exact List.mem_filter.mpr ⟨hp, by simpa using goes_ne hgoes hn⟩

/-! ### Commands -/

/-- An execution that stands for a command of a line. -/
def FromCommand (x : Exec) : Prop :=
  ∃ command args, x.argv = command :: args ∧ 0 ∉ command ∧ 32 ∉ command ∧ command.length ≤ 1022

/-- The process that an execution leaves behind goes by this name. -/
def leaves (n : List UInt8) (x : Exec) : Bool := !x.wait && commandName x = n

/-- A process with this command line goes by the name of the command. -/
lemma goes_iff {p : Process} {command args n : List UInt8}
    (hp : p.cmdline = some (command ++ 0 :: args)) (hlen : command.length ≤ 1022)
    (hzero : 0 ∉ command) (hblank : 32 ∉ command) (hn : n.length + 1 < processNameMax) :
    Goes n p ↔ fileName command = n := by
  rw [Goes, processName_cmdline hp hlen hzero hblank]
  split_ifs with hlong
  · refine ⟨False.elim, ?_⟩
    rintro rfl
    omega
  · rw [Option.some.injEq]

/-- **One command**: it leaves a process behind, or none. -/
lemma exec_procs (K : Kernel host) {x : Exec} (hx : FromCommand x) (w : W) :
    ∃ new : List Process, (host.procs (host.exec x w).2).Perm (new ++ host.procs w) ∧
      (∀ n : List UInt8, n.length + 1 < processNameMax →
        (new.filter fun p => decide (Goes n p)).length = if leaves n x then 1 else 0) ∧
      (x.wait = false → (commandName x).length + 1 < processNameMax →
        ∃ p ∈ new, p.pid = (host.exec x w).1 ∧ Goes (commandName x) p) := by
  obtain ⟨command, args, hargv, hzero, hblank, hlen⟩ := hx
  cases hwait : x.wait with
  | true => exact ⟨[], by simpa using K.wait x w hwait, by simp [leaves, hwait], by simp⟩
  | false =>
      obtain ⟨argv, redirect, append, wait⟩ := x
      subst hargv hwait
      obtain ⟨p, hpid, hcmdline, hperm⟩ := K.start command args redirect append w
      refine ⟨[p], hperm, fun n hn => ?_, fun _ hname => ⟨p, List.mem_singleton_self p, hpid, ?_⟩⟩
      · have hgoes := goes_iff hcmdline hlen hzero hblank hn
        by_cases hname : fileName command = n <;> simp [leaves, commandName, hgoes, hname]
      · exact (goes_iff hcmdline hlen hzero hblank hname).mpr rfl

/-- **Some commands**, one after the other. -/
lemma execAll_procs (K : Kernel host) {xs : List Exec} (hxs : ∀ x ∈ xs, FromCommand x) (w : W) :
    ∃ new : List Process, (host.procs (execAll host.exec xs w).2).Perm (new ++ host.procs w) ∧
      (∀ n : List UInt8, n.length + 1 < processNameMax →
        (new.filter fun p => decide (Goes n p)).length = (xs.filter (leaves n)).length) ∧
      ∀ (i : ℕ) (x : Exec), xs[i]? = some x → x.wait = false →
        (commandName x).length + 1 < processNameMax →
        ∃ p ∈ new, (execAll host.exec xs w).1[i]? = some p.pid ∧ Goes (commandName x) p := by
  induction xs generalizing w with
  | nil => exact ⟨[], List.Perm.refl _, fun n _ => rfl, fun i x hx => by simp at hx⟩
  | cons x xs ih =>
      obtain ⟨first, hfirst, hcount, hpid⟩ := exec_procs K (hxs x List.mem_cons_self) w
      obtain ⟨new, hnew, hcount', hpid'⟩ :=
        ih (fun y hy => hxs y (List.mem_cons_of_mem _ hy)) (host.exec x w).2
      refine ⟨new ++ first, ?_, fun n hn => ?_, fun i y hy hwait hname => ?_⟩
      · rw [List.append_assoc]
        exact hnew.trans (hfirst.append_left new)
      · rw [List.filter_append, List.length_append, hcount' n hn, hcount n hn, List.filter_cons]
        split_ifs <;> simp
      · cases i with
        | zero =>
            obtain rfl : x = y := by simpa using hy
            obtain ⟨p, hp, heq, hgoes⟩ := hpid hwait hname
            exact ⟨p, List.mem_append_right _ hp, by simp [execAll, heq], hgoes⟩
        | succ i =>
            obtain ⟨p, hp, heq, hgoes⟩ := hpid' i y hy hwait hname
            exact ⟨p, List.mem_append_left _ hp, by simpa [execAll] using heq, hgoes⟩

/-- What starting a program does: its process is there, and the other programs are as before. -/
structure Started (host : Host W) (names : List (List UInt8)) (name : List UInt8) (w : W)
    (r : ℤ × W) : Prop where
  alive : Alive host r.2 name r.1
  mono : ∀ p ∈ host.procs w, p ∈ host.procs r.2
  count : ∀ n ∈ names, n.length + 1 < processNameMax →
    instances host n r.2 = instances host n w + if n = name then 1 else 0

/-- What is executed for a line stands for its commands. -/
lemma mem_commandsExec {c : Command} {cs : List (Bool × Command)} {y : Exec}
    (hy : y ∈ commandsExec c cs) : ∃ d ∈ c :: cs.map Prod.snd, ∃ wait, y = d.exec wait := by
  induction cs generalizing c with
  | nil => exact ⟨c, List.mem_cons_self, false, List.mem_singleton.mp hy⟩
  | cons e es ih =>
      rcases List.mem_cons.mp hy with rfl | hy
      · exact ⟨c, List.mem_cons_self, e.1, rfl⟩
      · obtain ⟨d, hd, hwait⟩ := ih hy
        exact ⟨d, List.mem_cons_of_mem _ hd, hwait⟩

/-- **The program is started.** -/
lemma processLatch_started (K : Kernel host) {names : List (List UInt8)} {g : McGuard}
    {early : Bool} {c : Command} {cs : List (Bool × Command)} {x : Exec}
    (hg : Guardable names g early c cs x) (w : W) :
    Started host names g.name w (processLatch host g.cmdline w) := by
  set xs := (commandsExec c cs).take (if early then 2 else 3) with hxs
  have hlatch : mcProcessLatch host.exec g.cmdline w =
      Latch.after host.exec ⟨if early then [-2] else [], [], w⟩ xs := by
    rw [hg.cmdline]
    exact mcProcessLatch_commands w hg.latchable.1 hg.latchable.2
  have hresult := latch_result host.exec early c cs w
  simp only [← hxs, ← hlatch] at hresult
  have hworld : (mcProcessLatch host.exec g.cmdline w).world = (execAll host.exec xs w).2 := by
    rw [hlatch, Latch.after]
  have hfrom : ∀ y ∈ xs, FromCommand y := by
    intro y hy
    obtain ⟨d, hd, wait, rfl⟩ := mem_commandsExec (List.mem_of_mem_take hy)
    have hok : d.Ok := by
      rcases List.mem_cons.mp hd with rfl | hd
      · exact hg.latchable.1.ok
      · obtain ⟨e, he, rfl⟩ := List.mem_map.mp hd
        exact (hg.latchable.2 e he).ok
    exact ⟨d.name, _, rfl, hok.name.2.2, hok.name.2.1, hg.length d hd⟩
  obtain ⟨new, hnew, hcount, hpid⟩ := execAll_procs K hfrom w
  have hshort : (commandName x).length + 1 < processNameMax := by
    rw [hg.name]
    exact hg.short
  obtain ⟨p, hp, heq, hgoes⟩ := hpid _ x hg.place hg.wait hshort
  have hr : processLatch host g.cmdline w = (p.pid, (execAll host.exec xs w).2) := by
    rw [processLatch, hresult, heq, hworld]
    rfl
  rw [hr]
  refine ⟨⟨p, hnew.symm.subset (List.mem_append_left _ hp), rfl, hg.name ▸ hgoes⟩,
    fun q hq => hnew.symm.subset (List.mem_append_right _ hq), fun n hn hname => ?_⟩
  have hleaves : (xs.filter (leaves n)).length = if n = g.name then 1 else 0 := by
    have hsub : xs.filter (leaves n) = [x].filter (leaves n) := by
      rw [← hg.others, ← hxs, List.filter_filter]
      refine List.filter_congr fun y _ => ?_
      by_cases hy : commandName y = n <;> simp [leaves, hy, hn]
    rw [hsub]
    by_cases hname : n = g.name
    · simp [leaves, hg.wait, hg.name, hname]
    · simp [leaves, hg.name, hname, Ne.symm hname]
  rw [instances_eq, instances_eq, (hnew.filter _).length_eq, List.filter_append, List.length_append,
    hcount n hname, hleaves, Nat.add_comm]

end Facts

end LinuxC.Mcd.Guards
