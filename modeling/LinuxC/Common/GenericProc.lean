import LinuxC.Common.CString
import Mathlib.Algebra.Order.Group.Nat
import Mathlib.Algebra.Order.Ring.Int
import Mathlib.Data.List.TakeWhile

/-!
# Processes by name (`common/generic_proc.c`)

`process_name` reads the name of a process from `/proc`: the file name of its command, or, when
there is no command line, the name of the task, which the kernel cuts at 15 bytes, so that a longer
name is read from the link to the executable.  `for_each_process` goes through `/proc` and stops at
the first action with a result.

The name is shown in a buffer whose size the caller gives; `processName_agree` says when the size
does not matter.
-/

namespace LinuxC.GenericProc

/-! ## The files of a process -/

/-- What `/proc` shows of a process. -/
structure Process where
  pid : ℤ
  /-- `/proc/<pid>/cmdline`, if it can be read. -/
  cmdline : Option (List UInt8)
  /-- `/proc/<pid>/comm`, if it can be read, without the newline that the kernel puts behind it. -/
  comm : Option (List UInt8)
  /-- Where the link `/proc/<pid>/exe` leads, if it can be read. -/
  exe : Option (List UInt8)
  /-- `TASK_COMM_LEN`. -/
  comm_le : ∀ c, comm = some c → c.length ≤ 15

def processNameMax : ℕ := 64

/-- What stands behind the last `/`. -/
def fileName (path : List UInt8) : List UInt8 := (path.reverse.takeWhile (· ≠ 47)).reverse

/-- The name that `process_exename` copies.  Without a `/` the first byte is lost. -/
def exeName (exe : List UInt8) : List UInt8 := if 47 ∈ exe then fileName exe else exe.drop 1

/-- `process_name`: the string in the buffer; `none` is the result `-1`. -/
def processName (size : ℕ) (p : Process) : Option (List UInt8) :=
  match p.cmdline with
  | none => none
  | some content =>
      let temp := content.take 1023
      if temp ≠ [] then
        let s := fileName ((cString temp).takeWhile (· ≠ 32))
        if size ≤ s.length then none else some s
      else
        match p.comm with
        | none => none
        | some comm =>
            if size ≤ comm.length then none
            else if 0 < comm.length ∧ comm.length < 15 then some (cString comm)
            else
              match p.exe with
              | none => some (cString comm)
              -- a name that is too long is cut in the buffer
              | some exe => some ((exeName exe).take (size - 1))

/-! ## Going through the processes -/

/-- `for_each_process`: `ret`, and what the actions have done. -/
def forEachProcess {σ : Type} (action : List UInt8 → ℤ → σ → ℤ × σ) : List Process → σ → ℤ × σ
  | [], s => (0, s)
  | p :: ps, s =>
      match processName processNameMax p with
      | none => forEachProcess action ps s
      | some name =>
          let r := action name p.pid s
          if r.1 = 0 then forEachProcess action ps r.2 else r

def processFind (name : List UInt8) (ps : List Process) : ℤ :=
  (forEachProcess (fun comm pid _ => (if comm = name then pid else 0, ())) ps ()).1

def processKill {W : Type} (kill : ℤ → W → ℤ × W) (name : List UInt8) (ps : List Process) (w : W) :
    ℤ × W :=
  forEachProcess (fun comm pid w => if comm = name then kill pid w else (0, w)) ps w

def processCount (name : List UInt8) (ps : List Process) : ℕ :=
  (forEachProcess (fun comm _ n => (0, if comm = name then n + 1 else n)) ps 0).2

/-! ## What is found -/

section Proofs

variable {p : Process} {ps : List Process} {name : List UInt8} {σ : Type}

/-- A process that goes by a name. -/
def Goes (name : List UInt8) (p : Process) : Prop := processName processNameMax p = some name

instance (name : List UInt8) (p : Process) : Decidable (Goes name p) :=
  inferInstanceAs (Decidable (processName processNameMax p = some name))

/-- A process with a command line goes by the file name of its command. -/
lemma processName_cmdline {size : ℕ} {command args : List UInt8}
    (hp : p.cmdline = some (command ++ 0 :: args)) (hlen : command.length ≤ 1022)
    (hzero : 0 ∉ command) (hblank : 32 ∉ command) :
    processName size p =
      if size ≤ (fileName command).length then none else some (fileName command) := by
  have htemp : (command ++ 0 :: args).take 1023 =
      command ++ 0 :: args.take (1022 - command.length) := by
    rw [List.take_append, List.take_of_length_le (by omega),
      show 1023 - command.length = (1022 - command.length) + 1 by omega, List.take_succ_cons]
  have hword : command.takeWhile (· ≠ 32) = command := by
    refine List.takeWhile_eq_self_iff.mpr fun b hb => ?_
    rw [decide_eq_true_eq]
    rintro rfl
    exact hblank hb
  unfold processName
  rw [hp]
  dsimp only
  rw [htemp, if_pos (by simp), cString_append hzero, hword]

lemma take_eq_of_short {xs ys : List UInt8} {n : ℕ} (h : xs.take n = ys) (hlen : ys.length < n) :
    xs = ys := by
  have hxs : xs.length < n := by
    by_contra hnot
    rw [← h, List.length_take, Nat.min_eq_left (not_lt.mp hnot)] at hlen
    exact lt_irrefl n hlen
  rwa [List.take_of_length_le hxs.le] at h

/-- **The size of the buffer does not matter** for a name that fits into the smaller one with a byte
to spare. -/
lemma processName_agree {size size' : ℕ} (hsize : 16 ≤ size) (hsize' : 16 ≤ size')
    (hlen : name.length + 1 < size) (hlen' : name.length + 1 < size')
    (h : processName size p = some name) : processName size' p = some name := by
  unfold processName at h ⊢
  cases hcmdline : p.cmdline with
  | none => rw [hcmdline] at h; cases h
  | some content =>
      rw [hcmdline] at h
      dsimp only at h ⊢
      by_cases htemp : content.take 1023 ≠ []
      · rw [if_pos htemp] at h ⊢
        split_ifs at h with hlong
        rw [Option.some.inj h, if_neg (by omega)]
      · rw [if_neg htemp] at h ⊢
        cases hcomm : p.comm with
        | none => rw [hcomm] at h; cases h
        | some comm =>
            have hle := p.comm_le comm hcomm
            rw [hcomm] at h
            dsimp only at h ⊢
            rw [if_neg (by omega)] at h ⊢
            split_ifs at h ⊢ with hshort
            · exact h
            · cases hexe : p.exe with
              | none => rw [hexe] at h; exact h
              | some exe =>
                  rw [hexe] at h
                  have hname := take_eq_of_short (Option.some.inj h) (by omega)
                  dsimp only
                  rw [hname, List.take_of_length_le (by omega)]

lemma forEachProcess_none {action : List UInt8 → ℤ → σ → ℤ × σ}
    (hp : processName processNameMax p = none) (s : σ) :
    forEachProcess action (p :: ps) s = forEachProcess action ps s := by
  rw [forEachProcess, hp]

lemma forEachProcess_some {action : List UInt8 → ℤ → σ → ℤ × σ} (hp : Goes name p) (s : σ) :
    forEachProcess action (p :: ps) s =
      if (action name p.pid s).1 = 0 then forEachProcess action ps (action name p.pid s).2
      else action name p.pid s := by
  have hname : processName processNameMax p = some name := hp
  rw [forEachProcess, hname]

/-- An action that has no result for other names is done for the processes that go by the name. -/
lemma forEachProcess_named {action : List UInt8 → ℤ → σ → ℤ × σ}
    (h : ∀ comm pid s, comm ≠ name → action comm pid s = (0, s)) (s : σ) :
    forEachProcess action ps s =
      forEachProcess action (ps.filter fun p => decide (Goes name p)) s := by
  induction ps generalizing s with
  | nil => rfl
  | cons p ps ih =>
      by_cases hp : Goes name p
      · rw [List.filter_cons_of_pos (by simpa using hp), forEachProcess_some hp,
          forEachProcess_some hp, ih]
      · rw [List.filter_cons_of_neg (by simpa using hp), ← ih]
        cases hcomm : processName processNameMax p with
        | none => exact forEachProcess_none hcomm s
        | some comm =>
            have hne : comm ≠ name := by
              rintro rfl
              exact hp hcomm
            rw [forEachProcess_some hcomm, h comm p.pid s hne, if_pos rfl]

/-- **What `process_find` finds**: the first process that goes by the name. -/
lemma processFind_eq (hpid : ∀ p ∈ ps, p.pid ≠ 0) :
    processFind name ps =
      (((ps.filter fun p => decide (Goes name p)).head?.map Process.pid).getD 0) := by
  rw [processFind, @forEachProcess_named _ name _ _ (fun comm pid s h => by rw [if_neg h])]
  cases hfound : ps.filter fun p => decide (Goes name p) with
  | nil => rfl
  | cons p qs =>
      have hp : p ∈ ps.filter fun p => decide (Goes name p) := by simp [hfound]
      obtain ⟨hmem, hgoes⟩ := List.mem_filter.mp hp
      rw [forEachProcess_some (by simpa using hgoes), if_pos rfl, if_neg (hpid p hmem)]
      rfl

/-- `process_count` counts the processes that go by the name. -/
lemma processCount_eq :
    processCount name ps = (ps.filter fun p => decide (Goes name p)).length := by
  have hcount : ∀ n, (forEachProcess
      (fun comm _ n => ((0 : ℤ), if comm = name then n + 1 else n)) ps n).2 =
        n + (ps.filter fun p => decide (Goes name p)).length := by
    intro n
    rw [@forEachProcess_named _ name _ _ (fun comm pid s h => by rw [if_neg h])]
    have hall : ∀ p ∈ ps.filter fun p => decide (Goes name p), Goes name p := fun p hp => by
      simpa using (List.mem_filter.mp hp).2
    generalize (ps.filter fun p => decide (Goes name p)) = qs at hall ⊢
    induction qs generalizing n with
    | nil => rfl
    | cons p qs ih =>
        rw [forEachProcess_some (hall p List.mem_cons_self), if_pos rfl, if_pos rfl,
          ih (n + 1) fun q hq => hall q (List.mem_cons_of_mem _ hq), List.length_cons]
        omega
  simpa [processCount] using hcount 0

/-- `process_kill`, when no call of `kill` fails: every process that goes by the name is killed. -/
lemma processKill_eq {W : Type} {kill : ℤ → W → ℤ × W} (w : W)
    (hkill : ∀ pre p post, (ps.filter fun p => decide (Goes name p)) = pre ++ p :: post →
      (kill p.pid (pre.foldl (fun w p => (kill p.pid w).2) w)).1 = 0) :
    processKill kill name ps w =
      (0, (ps.filter fun p => decide (Goes name p)).foldl (fun w p => (kill p.pid w).2) w) := by
  rw [processKill, @forEachProcess_named _ name _ _ (fun comm pid s h => by rw [if_neg h])]
  have hall : ∀ p ∈ ps.filter fun p => decide (Goes name p), Goes name p := fun p hp => by
    simpa using (List.mem_filter.mp hp).2
  generalize (ps.filter fun p => decide (Goes name p)) = qs at hall hkill ⊢
  induction qs generalizing w with
  | nil => rfl
  | cons p qs ih =>
      have hfirst : (kill p.pid w).1 = 0 := hkill [] p qs rfl
      have hrest := ih (kill p.pid w).2 (fun q hq => hall q (List.mem_cons_of_mem _ hq))
        fun pre q post h => hkill (p :: pre) q post (by rw [h, List.cons_append])
      rw [forEachProcess_some (hall p List.mem_cons_self), if_pos rfl, if_pos hfirst,
        hrest, List.foldl_cons]

end Proofs

end LinuxC.GenericProc
