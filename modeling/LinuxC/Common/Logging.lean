import LinuxC.Common.LogBackup
import LinuxC.Framework.Transition
import Mathlib.Data.List.ModifyLast
import Mathlib.Data.List.Nodup
import Mathlib.Data.List.Range

/-!
# Tasks that log at the same time (`common/generic_log.c`, `ipc/ipc_log.c`)

Many tasks write to one log file, and whoever sees that it has become too long renames the
generations.  The semaphore keeps two of them from renaming at the same time; the comparison of the
link of the descriptor with the path keeps the second one from renaming what the first one has
renamed already.  Nothing keeps the others from opening, writing and creating files meanwhile.

A step of the system is one call of the kernel by one task.  A file is known by its number in the
order of the creations, so that the history of the log is the list of the numbers.  A task may fail,
and it may end at any time; the semaphore is given back then (`SEM_UNDO`).

`rotation_alone` says that a task that nobody disturbs does what `rotate` does.  `log_kept` says what
the names hold, from `path` on: the newest files without one missing.
-/

namespace LinuxC.LogBackup

/-- What the log functions do not share. -/
structure Setup where
  path : Name
  fileSize : ℕ
  fileBakup : ℕ
  lineMax : ℕ
  /-- Whether `log_backup` goes on when it does not get the lock. -/
  unlocked : Bool

/-- `GENERIC_LOG`, after `GENERIC_LOG_INIT`. -/
def genericLog (filePath : Name) (fileSize fileCount : ℕ) : Setup :=
  ⟨filePath, fileSize, fileCount - 1, 1024, true⟩

def simpleLog (filePath : Name) (fileSize : ℕ) : Setup := ⟨filePath, fileSize, 1, 1024, true⟩

def ipcLog : Setup := ⟨ipcLogFile, 128 * 1024, ipcLogNum, 256, false⟩

/-- `log_format`: the text is cut to the size of the buffer and ends with a newline then. -/
def logFormat (lineMax : ℕ) (text : List UInt8) : List UInt8 :=
  if lineMax ≤ text.length then text.take (lineMax - 1) ++ [10] else text

/-- The local variables `file` and `n` of `log_backup`. -/
structure Buffers where
  file : Bool → Name
  n : Bool

/-- Where a task is in `log_print` and `log_backup`.  `io` is the file that it has open, and `held`
says whether it has the lock. -/
inductive Task
  | idle
  | opened (io : ℕ) (line : List UInt8)
  | truncating (io : ℕ)
  | locking (io : ℕ)
  | linking (io : ℕ) (held : Bool)
  | resolving (io : ℕ) (held : Bool) (link : Name)
  | moving (io : ℕ) (held : Bool) (i : ℕ) (b : Buffers)
  | found (io : ℕ) (held : Bool) (i : ℕ) (b : Buffers)
  | unlocking (held : Bool)

/-- The names, the files in the order of their creation, who has the semaphore, and the tasks. -/
structure System (T : Type) where
  fs : FileSystem ℕ
  files : List (List UInt8)
  owner : Option T
  task : T → Task

/-- What a task does next: it logs a text, makes its next call, has its next call fail, or ends. -/
inductive Move (T : Type)
  | log (t : T) (text : List UInt8)
  | go (t : T)
  | fail (t : T)
  | die (t : T)

/-- What can be seen of it. -/
inductive LogEvent (T : Type)
  | opened (t : T) (io : ℕ)
  | wrote (t : T) (io : ℕ) (line : List UInt8)

/-- The names of the log. -/
def logNames (path : Name) (k : ℕ) : List Name := path :: (List.range k).map (backupName path)

/-- The link of a descriptor: the name that the file has now. -/
def linkOf (c : Setup) (fs : FileSystem ℕ) (io : ℕ) : Name :=
  ((logNames c.path c.fileBakup).find? fun x => fs x = some io).getD
    (c.path ++ " (deleted)".toList)

variable {T : Type}

/-- `fopen` with `"a+"`: the file, with the system in which it is there. -/
def System.fopen (path : Name) (s : System T) : ℕ × System T :=
  match s.fs path with
  | some io => (io, s)
  | none =>
      (s.files.length,
        { s with fs := Function.update s.fs path (some s.files.length), files := s.files ++ [[]] })

def System.rename (src dst : Name) (s : System T) : System T :=
  if (s.fs src).isSome then { s with fs := FileSystem.move src dst s.fs } else s

section Steps

variable [DecidableEq T]

/-- The task `t` is at another place. -/
def System.at (s : System T) (t : T) (p : Task) : System T :=
  { s with task := Function.update s.task t p }

/-- The semaphore is given back, if the task has it. -/
def System.release (t : T) (s : System T) : System T :=
  if s.owner = some t then { s with owner := none } else s

/-- The next call of a task that succeeds. -/
def logGo (c : Setup) (s : System T) (t : T) : Option (System T × List (LogEvent T)) :=
  match s.task t with
  | .idle => none
  | .opened io line =>
      let text := s.files.getD io [] ++ line
      let next : Task :=
        if c.fileSize < text.length then
          if 0 < c.fileBakup then .locking io else .truncating io
        else .idle
      some ({ s with files := s.files.set io text }.at t next, [.wrote t io line])
  | .truncating io => some ({ s with files := s.files.set io [] }.at t .idle, [])
  | .locking io =>
      if s.owner = none then some ({ s with owner := some t }.at t (.linking io true), []) else none
  | .linking io held => some (s.at t (.resolving io held (linkOf c s.fs io)), [])
  | .resolving io held link =>
      if link ≠ c.path then some (s.at t (.unlocking held), [])
      else
        let i := c.fileBakup - 1
        let n := lowBit i
        let file := fun b => if b then c.path else link
        some (s.at t (.moving io held i ⟨Function.update file n (backupName c.path i), n⟩), [])
  | .moving io held (i + 1) b =>
      let n := lowBit i
      let b : Buffers := ⟨Function.update b.file n (backupName c.path i), n⟩
      let next : Task :=
        if (s.fs (b.file n)).isSome then .found io held i b else .moving io held i b
      some (s.at t next, [])
  | .found io held i b =>
      some ((s.rename (b.file b.n) (b.file !b.n)).at t (.moving io held i b), [])
  | .moving _ held 0 b => some ((s.rename c.path (b.file b.n)).at t (.unlocking held), [])
  | .unlocking held => some ((if held then s.release t else s).at t .idle, [])

/-- The calls that may fail: `semop` and `rename`. -/
def logFail (c : Setup) (s : System T) (t : T) : Option (System T × List (LogEvent T)) :=
  match s.task t with
  | .locking io => some (s.at t (if c.unlocked then .linking io false else .idle), [])
  | .found io held i b => some (s.at t (.moving io held i b), [])
  | .moving _ held 0 _ => some (s.at t (.unlocking held), [])
  | _ => none

/-- A step of the system. -/
def logStep (c : Setup) (s : System T) : Move T → Option (System T × List (LogEvent T))
  | .log t text =>
      match s.task t with
      | .idle =>
          let r := s.fopen c.path
          some (r.2.at t (.opened r.1 (logFormat c.lineMax text)), [.opened t r.1])
      | _ => none
  | .go t => logGo c s t
  | .fail t => logFail c s t
  | .die t => some ((s.release t).at t .idle, [])

variable {s : System T} {t u : T} {p : Task}

@[simp] lemma System.at_fs : (s.at t p).fs = s.fs := rfl

@[simp] lemma System.at_files : (s.at t p).files = s.files := rfl

@[simp] lemma System.at_owner : (s.at t p).owner = s.owner := rfl

@[simp] lemma System.at_task_self : (s.at t p).task t = p := Function.update_self ..

lemma System.at_task_of_ne (h : u ≠ t) : (s.at t p).task u = s.task u := Function.update_of_ne h ..

end Steps

/-! ## The names of the log -/

section Names

variable {path : Name} {k i : ℕ} {fs : FileSystem ℕ}

/-- The numbers of the files, from `path` to the oldest generation. -/
def numbers (path : Name) (k : ℕ) (fs : FileSystem ℕ) : List ℕ := (logNames path k).filterMap fs

lemma nodup_logNames (path : Name) (k : ℕ) : (logNames path k).Nodup := by
  refine List.nodup_cons.mpr ⟨fun h => ?_, List.nodup_range.map (backupName_injective path)⟩
  obtain ⟨i, -, hi⟩ := List.mem_map.mp h
  exact path_ne_backupName hi.symm

/-- The numbers do not depend on the other names. -/
lemma filterMap_move {names : List Name} {src dst : Name} (hsrc : src ∉ names) (hdst : dst ∉ names) :
    names.filterMap (FileSystem.move src dst fs) = names.filterMap fs := by
  refine List.filterMap_congr fun x hx => ?_
  rw [FileSystem.move, if_neg (ne_of_mem_of_not_mem hx hdst), if_neg (ne_of_mem_of_not_mem hx hsrc)]

/-- **A file moves to the next name**, which is free or the last one: the numbers stay, or the last
one is gone. -/
lemma numbers_move_prefix {pre post : List Name} {src dst : Name}
    (hnames : logNames path k = pre ++ src :: dst :: post) (hfree : fs dst = none ∨ post = []) :
    numbers path k (FileSystem.move src dst fs) <+: numbers path k fs := by
  have hnodup := nodup_logNames path k
  rw [hnames, List.nodup_append] at hnodup
  obtain ⟨-, hnodup, hpre⟩ := hnodup
  obtain ⟨hsrc, hnodup⟩ := List.nodup_cons.mp hnodup
  obtain ⟨hdst, -⟩ := List.nodup_cons.mp hnodup
  have hne : src ≠ dst := fun h => hsrc (h ▸ List.mem_cons_self)
  have hmove : numbers path k (FileSystem.move src dst fs) =
      pre.filterMap fs ++ ((fs src).toList ++ post.filterMap fs) := by
    rw [numbers, hnames, List.filterMap_append,
      filterMap_move (fun h => hpre src h src List.mem_cons_self rfl)
        (fun h => hpre dst h dst (List.mem_cons_of_mem _ List.mem_cons_self) rfl)]
    have hold : FileSystem.move src dst fs src = none := by
      rw [FileSystem.move, if_neg hne, if_pos rfl]
    have hnew : FileSystem.move src dst fs dst = fs src := if_pos rfl
    have hpost : post.filterMap (FileSystem.move src dst fs) = post.filterMap fs :=
      filterMap_move (fun h => hsrc (List.mem_cons_of_mem _ h)) hdst
    rw [List.filterMap_cons_none hold]
    cases hsome : fs src with
    | none => rw [List.filterMap_cons_none (hnew.trans hsome), hpost]; rfl
    | some n => rw [List.filterMap_cons_some (hnew.trans hsome), hpost]; rfl
  have hkeep : numbers path k fs =
      pre.filterMap fs ++ ((fs src).toList ++ ((fs dst).toList ++ post.filterMap fs)) := by
    rw [numbers, hnames, List.filterMap_append]
    cases hsrc' : fs src <;> cases hdst' : fs dst <;> simp [hsrc', hdst']
  rw [hmove, hkeep]
  rcases hfree with hnone | rfl
  · rw [hnone]
    exact List.prefix_rfl
  · simp

lemma logNames_split_path (hk : 0 < k) :
    logNames path k =
      [] ++ path :: backupName path 0 :: ((List.range k).drop 1).map (backupName path) := by
  obtain ⟨k, rfl⟩ := Nat.exists_eq_add_of_le' hk
  rw [logNames, List.range_succ_eq_map]
  rfl

lemma logNames_split (hi : i + 1 < k) :
    logNames path k = (path :: (List.range i).map (backupName path)) ++
      backupName path i :: backupName path (i + 1) ::
        ((List.range k).drop (i + 2)).map (backupName path) := by
  have hsplit : List.range k = List.range i ++ i :: (i + 1) :: (List.range k).drop (i + 2) := by
    conv_lhs => rw [← List.take_append_drop i (List.range k)]
    rw [List.take_range, min_eq_left (by omega), List.drop_eq_getElem_cons (by simp; omega),
      List.drop_eq_getElem_cons (by simp; omega), List.getElem_range, List.getElem_range]
  rw [logNames]
  conv_lhs => rw [hsplit]
  rw [List.map_append]
  rfl

end Names

/-! ## A task that is alone -/

section Alone

variable [DecidableEq T] {c : Setup} {s : System T} {t : T} {io : ℕ} {held : Bool}

lemma System.at_at (s : System T) (t : T) (p q : Task) : (s.at t p).at t q = s.at t q := by
  simp [System.at]

lemma System.rename_at (src dst : Name) (s : System T) (t : T) (p : Task) :
    (s.at t p).rename src dst = (s.rename src dst).at t p := by
  unfold System.rename
  rw [System.at_fs]
  split_ifs <;> rfl

omit [DecidableEq T] in
lemma System.rename_withFs (src dst : Name) (s : System T) (fs : FileSystem ℕ) :
    { s.rename src dst with fs := fs } = { s with fs := fs } := by
  unfold System.rename
  split_ifs <;> rfl

lemma go_moving (s : System T) (i : ℕ) (b : Buffers) :
    let n := lowBit i
    let b' : Buffers := ⟨Function.update b.file n (backupName c.path i), n⟩
    logStep c (s.at t (.moving io held (i + 1) b)) (.go t) =
      some (s.at t (if (s.fs (b'.file n)).isSome then .found io held i b' else .moving io held i b'),
        []) := by
  simp only [logStep, logGo, System.at_task_self, System.at_fs, System.at_at]
  rfl

lemma go_found (s : System T) (i : ℕ) (b : Buffers) :
    logStep c (s.at t (.found io held i b)) (.go t) =
      some ((s.rename (b.file b.n) (b.file !b.n)).at t (.moving io held i b), []) := by
  simp only [logStep, logGo, System.at_task_self, System.rename_at, System.at_at]

/-- The loop of a task that is alone is the loop of `log_backup`, by induction on the generation. -/
lemma moving_alone (s : System T) (link : Name) (i : ℕ) (b : Buffers) (results : List Bool) :
    let r := backupLoop ⟨true, link, c.path, fun _ _ => false⟩ c.path i ⟨s.fs, b.file, b.n, results⟩
    ∃ n, run (logStep c) (List.replicate n (.go t)) (s.at t (.moving io held i b)) =
      some ({ s with fs := r.fs }.at t (.moving io held 0 ⟨r.file, r.n⟩), []) := by
  induction i generalizing s b results with
  | zero => exact ⟨0, rfl⟩
  | succ i ih =>
      have hgo := @go_moving T _ c t io held s i b
      dsimp only at hgo
      set n := lowBit i with hn
      set file := Function.update b.file n (backupName c.path i) with hfile
      by_cases hfound : (s.fs (file n)).isSome
      · obtain ⟨m, hm⟩ := ih (s.rename (file n) (file !n)) ⟨file, n⟩ (results ++ [true])
        have hfs : (s.rename (file n) (file !n)).fs =
            FileSystem.move (file n) (file !n) s.fs := by
          rw [System.rename, if_pos hfound]
        have hloop : backupLoop ⟨true, link, c.path, fun _ _ => false⟩ c.path (i + 1)
              ⟨s.fs, b.file, b.n, results⟩ =
            backupLoop ⟨true, link, c.path, fun _ _ => false⟩ c.path i
              ⟨(s.rename (file n) (file !n)).fs, file, n, results ++ [true]⟩ := by
          rw [backupLoop, hfs]
          simp only [← hn, ← hfile]
          rw [if_pos hfound, Backup.rename]
          simp [hfound]
        rw [System.rename_withFs] at hm
        rw [hloop]
        rw [if_pos hfound] at hgo
        exact ⟨m + 2, run_cons.mpr ⟨_, [], [], hgo,
          run_cons.mpr ⟨_, [], [], go_found s i ⟨file, n⟩, hm, rfl⟩, rfl⟩⟩
      · obtain ⟨m, hm⟩ := ih s ⟨file, n⟩ results
        have hloop : backupLoop ⟨true, link, c.path, fun _ _ => false⟩ c.path (i + 1)
              ⟨s.fs, b.file, b.n, results⟩ =
            backupLoop ⟨true, link, c.path, fun _ _ => false⟩ c.path i
              ⟨s.fs, file, n, results⟩ := by
          rw [backupLoop]
          simp only [← hn, ← hfile]
          rw [if_neg hfound]
        rw [hloop]
        rw [if_neg hfound] at hgo
        exact ⟨m + 1, run_cons.mpr ⟨_, [], [], hgo, hm, rfl⟩⟩

/-- **A task that is alone does what `log_backup` does**, from its look at the link on. -/
theorem rotation_alone (s : System T) (t : T) (io : ℕ) (held : Bool) (link : Name) :
    ∃ n, run (logStep c) (List.replicate n (.go t)) (s.at t (.resolving io held link)) =
      some ({ s with fs := (rotate ⟨true, link, c.path, fun _ _ => false⟩ c.fileBakup c.path
        s.fs).1 }.at t (.unlocking held), []) := by
  by_cases hlink : link = c.path
  · set file := Function.update (fun b => if b then c.path else link) (lowBit (c.fileBakup - 1))
      (backupName c.path (c.fileBakup - 1)) with hfile
    have hgo : logStep c (s.at t (.resolving io held link)) (.go t) =
        some (s.at t (.moving io held (c.fileBakup - 1) ⟨file, lowBit (c.fileBakup - 1)⟩), []) := by
      simp only [logStep, logGo, System.at_task_self, System.at_at, ne_eq, hlink, not_true_eq_false,
        if_false, hfile]
    obtain ⟨n, hn⟩ := @moving_alone T _ c t io held s link (c.fileBakup - 1)
      ⟨file, lowBit (c.fileBakup - 1)⟩ []
    set r := backupLoop ⟨true, link, c.path, fun _ _ => false⟩ c.path (c.fileBakup - 1)
      ⟨s.fs, file, lowBit (c.fileBakup - 1), []⟩ with hr
    have hlast : logStep c ({ s with fs := r.fs }.at t (.moving io held 0 ⟨r.file, r.n⟩)) (.go t) =
        some (({ s with fs := r.fs }.rename c.path (r.file r.n)).at t (.unlocking held), []) := by
      simp only [logStep, logGo, System.at_task_self, System.rename_at, System.at_at]
    have hend : ({ s with fs := r.fs } : System T).rename c.path (r.file r.n) =
        { s with fs := (rotate ⟨true, link, c.path, fun _ _ => false⟩ c.fileBakup c.path
          s.fs).1 } := by
      rw [rotate, if_neg (not_not.mpr hlink)]
      simp only [← hfile, ← hr]
      rw [System.rename, Backup.rename]
      by_cases hpath : (r.fs c.path).isSome <;> simp [hpath]
    rw [hend] at hlast
    exact ⟨n + 1 + 1, run_cons.mpr ⟨_, [], [], hgo, by
      rw [List.replicate_succ', run_append]
      exact ⟨_, [], [], hn, run_cons.mpr ⟨_, [], [], hlast, rfl, rfl⟩, rfl⟩, rfl⟩⟩
  · have hgo : logStep c (s.at t (.resolving io held link)) (.go t) =
        some (s.at t (.unlocking held), []) := by
      simp only [logStep, logGo, System.at_task_self, System.at_at, ne_eq, hlink, not_false_eq_true,
        if_true]
    rw [rotate, if_pos hlink]
    exact ⟨1, run_cons.mpr ⟨_, [], [], hgo, rfl, rfl⟩⟩

end Alone

/-! ## The newest files are kept -/

/-- The place in the names at which the loop is is free, or the last one. -/
def Free (c : Setup) (fs : FileSystem ℕ) (i : ℕ) : Prop :=
  fs (backupName c.path i) = none ∨ i + 1 = c.fileBakup

/-- The loop is about to look for the generation below `i`. -/
structure Looks (c : Setup) (fs : FileSystem ℕ) (i : ℕ) (b : Buffers) : Prop where
  low : i < c.fileBakup
  n : b.n = lowBit i
  name : b.file b.n = backupName c.path i
  free : Free c fs i
  path : (fs c.path).isSome

/-- The loop has found the generation `i`. -/
structure Finds (c : Setup) (fs : FileSystem ℕ) (i : ℕ) (b : Buffers) : Prop where
  low : i + 1 < c.fileBakup
  n : b.n = lowBit i
  src : b.file b.n = backupName c.path i
  dst : (b.file !b.n) = backupName c.path (i + 1)
  free : Free c fs (i + 1)
  path : (fs c.path).isSome

/-- What is true of a task at a place. -/
def Task.Ok (c : Setup) (s : System T) (t : T) : Task → Prop
  | .idle => True
  | .opened io _ => io < s.files.length
  | .truncating _ => c.fileBakup = 0
  | .locking _ => 0 < c.fileBakup
  | .linking _ held => (held = true ∧ s.owner = some t) ∧ 0 < c.fileBakup
  | .resolving _ held link =>
      (held = true ∧ s.owner = some t) ∧ 0 < c.fileBakup ∧ (link = c.path → (s.fs c.path).isSome)
  | .moving _ held i b => (held = true ∧ s.owner = some t) ∧ Looks c s.fs i b
  | .found _ held i b => (held = true ∧ s.owner = some t) ∧ Finds c s.fs i b
  | .unlocking held => held = true ∧ s.owner = some t

/-- **The names hold the newest files**, in the descending order of their numbers and without a
gap, and whoever is in `log_backup` has the lock. -/
structure Kept (c : Setup) (s : System T) : Prop where
  names : numbers c.path c.fileBakup s.fs <+: (List.range s.files.length).reverse
  tasks : ∀ t, Task.Ok c s t (s.task t)

/-- No `rename` fails, and `log_backup` does not go on without the lock. -/
def Move.Fits (c : Setup) (s : System T) : Move T → Prop
  | .fail t => c.unlocked = false ∧ ∃ io, s.task t = .locking io
  | _ => True

section Kept

variable {c : Setup} {s s' : System T} {t u : T} {p : Task} {es es' : List (LogEvent T)}
  {fs : FileSystem ℕ} {io : ℕ}

lemma System.rename_eq (src dst : Name) (s : System T) :
    (s.rename src dst).files = s.files ∧ (s.rename src dst).owner = s.owner ∧
      (s.rename src dst).task = s.task := by
  unfold System.rename
  split_ifs <;> exact ⟨rfl, rfl, rfl⟩

/-- The link of a descriptor is the path if the file has this name. -/
lemma linkOf_eq_path : linkOf c fs io = c.path ↔ fs c.path = some io := by
  unfold linkOf logNames
  by_cases hpath : fs c.path = some io
  · rw [List.find?_cons_of_pos (by simpa using hpath)]
    simp [hpath]
  · rw [List.find?_cons_of_neg (by simpa using hpath)]
    refine iff_of_false (fun h => ?_) hpath
    cases hfind : ((List.range c.fileBakup).map (backupName c.path)).find?
        fun x => fs x = some io with
    | none =>
        rw [hfind, Option.getD_none] at h
        have hlen := congrArg List.length h
        simp at hlen
    | some x =>
        rw [hfind, Option.getD_some] at h
        obtain ⟨i, -, hi⟩ := List.mem_map.mp (List.mem_of_find?_eq_some hfind)
        exact path_ne_backupName (h.symm.trans hi.symm)

/-- What the steps of another task leave as it is. -/
structure Undisturbed (c : Setup) (s s' : System T) (t : T) : Prop where
  files : s.files.length ≤ s'.files.length
  owner : s.owner = some t → s'.owner = some t
  generations : s.owner = some t → ∀ i, s'.fs (backupName c.path i) = s.fs (backupName c.path i)
  path : s.owner = some t → (s.fs c.path).isSome → (s'.fs c.path).isSome

lemma Task.Ok.frame (h : Task.Ok c s t p) (hf : Undisturbed c s s' t) : Task.Ok c s' t p := by
  cases p with
  | idle => exact h
  | opened io line => exact lt_of_lt_of_le h hf.files
  | truncating io => exact h
  | locking io => exact h
  | linking io held => exact ⟨⟨h.1.1, hf.owner h.1.2⟩, h.2⟩
  | resolving io held link =>
      exact ⟨⟨h.1.1, hf.owner h.1.2⟩, h.2.1, fun hl => hf.path h.1.2 (h.2.2 hl)⟩
  | moving io held i b =>
      obtain ⟨⟨hheld, howner⟩, hlooks⟩ := h
      refine ⟨⟨hheld, hf.owner howner⟩, hlooks.low, hlooks.n, hlooks.name, ?_,
        hf.path howner hlooks.path⟩
      rw [Free, hf.generations howner]
      exact hlooks.free
  | found io held i b =>
      obtain ⟨⟨hheld, howner⟩, hfinds⟩ := h
      refine ⟨⟨hheld, hf.owner howner⟩, hfinds.low, hfinds.n, hfinds.src, hfinds.dst, ?_,
        hf.path howner hfinds.path⟩
      rw [Free, hf.generations howner]
      exact hfinds.free
  | unlocking held => exact ⟨h.1, hf.owner h.2⟩

/-- The file that a call opens. -/
def LogEvent.file : LogEvent T → Option ℕ
  | .opened _ io => some io
  | .wrote _ _ _ => none

/-- The line that is written to the file `i`. -/
def LogEvent.line (i : ℕ) : LogEvent T → Option (List UInt8)
  | .opened _ _ => none
  | .wrote _ io line => if io = i then some line else none

/-- What is in a file. -/
def System.content (s : System T) (i : ℕ) : List UInt8 := s.files.getD i []

/-- What happens to the files between two states: lines are added, and the files that are opened are
the newest ones. -/
structure Logged (s s' : System T) (es : List (LogEvent T)) : Prop where
  files : s.files.length ≤ s'.files.length
  content : ∀ i, s'.content i = s.content i ++ (es.filterMap (LogEvent.line i)).flatten
  newest : ∀ io ∈ es.filterMap LogEvent.file, s.files.length ≤ io + 1 ∧ io < s'.files.length
  order : (es.filterMap LogEvent.file).Pairwise (· ≤ ·)

lemma logged_of_files (h : s'.files = s.files) : Logged s s' [] where
  files := h ▸ le_rfl
  content i := by simp [System.content, h]
  newest := by simp
  order := List.Pairwise.nil

lemma Logged.trans {s'' : System T} (h : Logged s s' es) (h' : Logged s' s'' es') :
    Logged s s'' (es ++ es') where
  files := h.files.trans h'.files
  content i := by
    rw [h'.content, h.content, List.filterMap_append, List.flatten_append, List.append_assoc]
  newest io hio := by
    rw [List.filterMap_append, List.mem_append] at hio
    rcases hio with hio | hio
    · have hnew := h.newest io hio
      exact ⟨hnew.1, lt_of_lt_of_le hnew.2 h'.files⟩
    · have hnew := h'.newest io hio
      exact ⟨h.files.trans hnew.1, hnew.2⟩
  order := by
    rw [List.filterMap_append, List.pairwise_append]
    refine ⟨h.order, h'.order, fun a ha b hb => ?_⟩
    have hlt := (h.newest a ha).2
    have hle := (h'.newest b hb).1
    omega

/-- The file with the name `path` is the newest one. -/
lemma Kept.newest (h : Kept c s) (hpath : s.fs c.path = some io) : io + 1 = s.files.length := by
  have hnames := h.names
  rw [numbers, logNames, List.filterMap_cons_some hpath] at hnames
  cases hlen : s.files.length with
  | zero =>
      rw [hlen] at hnames
      exact absurd (List.prefix_nil.mp hnames) (List.cons_ne_nil _ _)
  | succ n =>
      rw [hlen, List.range_succ, List.reverse_append, List.reverse_singleton,
        List.singleton_append] at hnames
      rw [(List.cons_prefix_cons.mp hnames).1]

variable [DecidableEq T]

lemma System.release_eq (t : T) (s : System T) :
    (s.release t).fs = s.fs ∧ (s.release t).files = s.files ∧ (s.release t).task = s.task := by
  unfold System.release
  split_ifs <;> exact ⟨rfl, rfl, rfl⟩

/-- A step of the task `t`, by what it does to the names, to the others and to the task. -/
lemma Kept.moved (h : Kept c s)
    (hnames : numbers c.path c.fileBakup s'.fs <+: (List.range s'.files.length).reverse)
    (hothers : ∀ u, u ≠ t → Undisturbed c s s' u) (htask : s'.task = s.task)
    (hself : Task.Ok c (s'.at t p) t p) : Kept c (s'.at t p) := by
  refine ⟨hnames, fun u => ?_⟩
  by_cases hu : u = t
  · rw [hu, System.at_task_self]
    exact hself
  · have hf := hothers u hu
    rw [System.at_task_of_ne hu, htask]
    exact (h.tasks u).frame ⟨hf.files, hf.owner, hf.generations, hf.path⟩

/-- A step that changes the place of the task only. -/
lemma Kept.at (h : Kept c s) (hself : Task.Ok c (s.at t p) t p) : Kept c (s.at t p) :=
  h.moved h.names (fun _ _ => ⟨le_rfl, id, fun _ _ => rfl, fun _ => id⟩) rfl hself
/-! ### The steps -/

omit [DecidableEq T] in
lemma System.fopen_files (path : Name) (s : System T) :
    s.files.length ≤ (s.fopen path).2.files.length ∧
      ∀ i, (s.fopen path).2.content i = s.content i := by
  unfold System.fopen
  cases s.fs path with
  | some io => exact ⟨le_rfl, fun _ => rfl⟩
  | none =>
      refine ⟨by simp, fun i => ?_⟩
      rcases lt_trichotomy i s.files.length with hi | rfl | hi
      · simp [System.content, List.getElem?_append_left hi]
      · simp [System.content]
      · have hnone : (s.files ++ [[]])[i]? = none :=
          List.getElem?_eq_none (by rw [List.length_append, List.length_singleton]; omega)
        simp [System.content, hnone, hi.le]

/-- **A call of the log function begins.** -/
lemma Kept.fopen (h : Kept c s) (line : List UInt8) :
    let r := s.fopen c.path
    Kept c (r.2.at t (.opened r.1 line)) ∧
      Logged s (r.2.at t (.opened r.1 line)) [.opened t r.1] := by
  obtain ⟨hfiles, hcontent⟩ := System.fopen_files c.path s
  cases hpath : s.fs c.path with
  | some io =>
      have hnew := h.newest hpath
      have hr : s.fopen c.path = (io, s) := by simp [System.fopen, hpath]
      rw [hr]
      refine ⟨h.at (show io < s.files.length by omega), le_rfl, fun i => ?_, fun j hj => ?_, ?_⟩
      · simp [System.content, LogEvent.line]
      · obtain rfl : j = io := by simpa [LogEvent.file] using hj
        exact ⟨hnew.ge, show j < s.files.length by omega⟩
      · exact List.pairwise_singleton _ _
  | none =>
      set s₁ : System T := { s with
        fs := Function.update s.fs c.path (some s.files.length), files := s.files ++ [[]] } with hs₁
      have hr : s.fopen c.path = (s.files.length, s₁) := by simp [System.fopen, hpath, hs₁]
      have hgen : ∀ i, s₁.fs (backupName c.path i) = s.fs (backupName c.path i) := fun i =>
        Function.update_of_ne path_ne_backupName.symm _ _
      have hlen : s₁.files.length = s.files.length + 1 := by simp [hs₁]
      rw [hr] at hfiles hcontent ⊢
      refine ⟨h.moved ?_ (fun u _ => ⟨hfiles, id, fun _ => hgen, fun _ _ => ?_⟩) rfl ?_,
        hfiles, fun i => (hcontent i).trans (List.append_nil _).symm, fun j hj => ?_, ?_⟩
      · have hself : s₁.fs c.path = some s.files.length := Function.update_self ..
        have hrest : ((List.range c.fileBakup).map (backupName c.path)).filterMap s₁.fs =
            ((List.range c.fileBakup).map (backupName c.path)).filterMap s.fs := by
          refine List.filterMap_congr fun x hx => ?_
          obtain ⟨i, -, rfl⟩ := List.mem_map.mp hx
          exact hgen i
        have hnames := h.names
        rw [numbers, logNames, List.filterMap_cons_none hpath] at hnames
        rw [numbers, logNames, List.filterMap_cons_some hself, hrest, hlen, List.range_succ,
          List.reverse_append, List.reverse_singleton, List.singleton_append]
        exact List.cons_prefix_cons.mpr ⟨rfl, hnames⟩
      · simp [hs₁]
      · change s.files.length < s₁.files.length
        omega
      · obtain rfl : j = s.files.length := by simpa [LogEvent.file] using hj
        exact ⟨Nat.le_succ _, show s.files.length < s₁.files.length by omega⟩
      · exact List.pairwise_singleton _ _

omit [DecidableEq T] in
lemma undisturbed_of_owner (howner : s.owner = some t) (hfiles : s'.files = s.files) (hu : u ≠ t) :
    Undisturbed c s s' u := by
  have hne : s.owner ≠ some u := fun h => hu (Option.some.inj (h.symm.trans howner))
  exact ⟨hfiles ▸ le_rfl, fun h => absurd h hne, fun h => absurd h hne, fun h => absurd h hne⟩

omit [DecidableEq T] in
lemma System.rename_fs (src dst : Name) (s : System T) :
    (s.rename src dst).fs = if (s.fs src).isSome then FileSystem.move src dst s.fs else s.fs := by
  unfold System.rename
  split_ifs <;> rfl

lemma Looks.next {b : Buffers} {i : ℕ} (h : Looks c fs (i + 1) b) :
    let n := lowBit i
    let file := Function.update b.file n (backupName c.path i)
    file n = backupName c.path i ∧ (file !n) = backupName c.path (i + 1) := by
  have hname := h.name
  rw [h.n, lowBit_succ] at hname
  refine ⟨Function.update_self .., ?_⟩
  rw [← hname]
  exact Function.update_of_ne (by simp) ..

/-- **A generation that was found moves on.** -/
lemma Kept.move (h : Kept c s) {held : Bool} {i : ℕ} {b : Buffers}
    (hlock : held = true ∧ s.owner = some t) (hfinds : Finds c s.fs i b) :
    Kept c ((s.rename (b.file b.n) (b.file !b.n)).at t (.moving io held i b)) := by
  obtain ⟨hfiles, howner, htask⟩ := System.rename_eq (b.file b.n) (b.file !b.n) s
  set s₁ := s.rename (b.file b.n) (b.file !b.n) with hs₁
  have hne : backupName c.path i ≠ backupName c.path (i + 1) := by simp
  have hfs : s₁.fs = if (s.fs (backupName c.path i)).isSome then
      FileSystem.move (backupName c.path i) (backupName c.path (i + 1)) s.fs else s.fs := by
    rw [hs₁, System.rename_fs, hfinds.src, hfinds.dst]
  have hnames : numbers c.path c.fileBakup s₁.fs <+: numbers c.path c.fileBakup s.fs := by
    rw [hfs]
    split_ifs with hsome
    · refine numbers_move_prefix (logNames_split hfinds.low) (hfinds.free.imp_right fun hlast => ?_)
      rw [List.drop_eq_nil_of_le (by simp; omega), List.map_nil]
    · exact List.prefix_rfl
  refine h.moved (hfiles ▸ hnames.trans h.names)
    (fun u hu => undisturbed_of_owner hlock.2 hfiles hu) htask
    ⟨⟨hlock.1, howner ▸ hlock.2⟩, ?_⟩
  refine ⟨by have := hfinds.low; omega, hfinds.n, hfinds.src, .inl ?_, ?_⟩
  · change s₁.fs (backupName c.path i) = none
    rw [hfs]
    split_ifs with hsome
    · rw [FileSystem.move, if_neg hne, if_pos rfl]
    · simpa using hsome
  · change (s₁.fs c.path).isSome
    rw [hfs]
    split_ifs with hsome
    · rw [FileSystem.move, if_neg path_ne_backupName, if_neg path_ne_backupName]
      exact hfinds.path
    · exact hfinds.path

/-- **The log itself moves on.** -/
lemma Kept.retire (h : Kept c s) {held : Bool} {b : Buffers}
    (hlock : held = true ∧ s.owner = some t) (hlooks : Looks c s.fs 0 b) :
    Kept c ((s.rename c.path (b.file b.n)).at t (.unlocking held)) := by
  obtain ⟨hfiles, howner, htask⟩ := System.rename_eq c.path (b.file b.n) s
  have hfs : (s.rename c.path (b.file b.n)).fs =
      FileSystem.move c.path (backupName c.path 0) s.fs := by
    rw [System.rename_fs, if_pos hlooks.path, hlooks.name]
  have hnames : numbers c.path c.fileBakup (s.rename c.path (b.file b.n)).fs <+:
      numbers c.path c.fileBakup s.fs := by
    rw [hfs]
    refine numbers_move_prefix (logNames_split_path hlooks.low)
      (hlooks.free.imp_right fun hlast => ?_)
    rw [List.drop_eq_nil_of_le (by simp; omega), List.map_nil]
  exact h.moved (hfiles ▸ hnames.trans h.names)
    (fun u hu => undisturbed_of_owner hlock.2 hfiles hu) htask ⟨hlock.1, howner ▸ hlock.2⟩

/-- A task that had the lock gives it back. -/
lemma Kept.release (h : Kept c s) (t : T) : Kept c ((s.release t).at t .idle) := by
  obtain ⟨hfs, hfiles, htask⟩ := System.release_eq t s
  refine h.moved (by rw [hfs, hfiles]; exact h.names) (fun u hu => ?_) htask trivial
  refine ⟨hfiles ▸ le_rfl, fun ho => ?_, fun _ i => by rw [hfs], fun _ hp => hfs ▸ hp⟩
  have hne : s.owner ≠ some t := fun h => hu (Option.some.inj (ho.symm.trans h))
  rw [System.release, if_neg hne]
  exact ho

/-- **A line is written.** -/
lemma Kept.write (h : Kept c s) (hk : 0 < c.fileBakup) {line text : List UInt8}
    (hio : io < s.files.length) (htext : text = s.content io ++ line) :
    let next : Task :=
      if c.fileSize < text.length then
        if 0 < c.fileBakup then .locking io else .truncating io
      else .idle
    let s' := { s with files := s.files.set io text }.at t next
    Kept c s' ∧ Logged s s' [.wrote t io line] := by
  refine ⟨h.moved ?_ (fun u _ => ⟨?_, id, fun _ _ => rfl, fun _ => id⟩) rfl ?_, ?_, fun i => ?_,
    fun _ hio' => absurd hio' List.not_mem_nil, List.Pairwise.nil⟩
  · rw [List.length_set]
    exact h.names
  · rw [List.length_set]
  · split_ifs
    · exact hk
    · trivial
  · change s.files.length ≤ (s.files.set io text).length
    rw [List.length_set]
  · by_cases hi : io = i
    · subst hi
      simp [System.content, LogEvent.line, hio, htext]
    · simp [System.content, LogEvent.line, hi]

/-- **A task makes its next call.** -/
lemma Kept.go (h : Kept c s) (hk : 0 < c.fileBakup) (hstep : logGo c s t = some (s', es)) :
    Kept c s' ∧ Logged s s' es := by
  have ht := h.tasks t
  cases hplace : s.task t with
  | idle => simp [logGo, hplace] at hstep
  | opened io line =>
      rw [hplace] at ht
      simp only [logGo, hplace] at hstep
      obtain ⟨rfl, rfl⟩ := Prod.mk.inj (Option.some.inj hstep)
      exact h.write hk ht rfl
  | truncating io =>
      rw [hplace] at ht
      exact absurd ht hk.ne'
  | locking io =>
      rw [hplace] at ht
      simp only [logGo, hplace] at hstep
      split_ifs at hstep with howner
      obtain ⟨rfl, rfl⟩ := Prod.mk.inj (Option.some.inj hstep)
      refine ⟨h.moved h.names (fun u _ => ?_) rfl ⟨⟨rfl, rfl⟩, hk⟩, logged_of_files rfl⟩
      refine ⟨le_rfl, fun ho => ?_, fun _ _ => rfl, fun _ => id⟩
      rw [howner] at ho
      cases ho
  | linking io held =>
      rw [hplace] at ht
      simp only [logGo, hplace] at hstep
      obtain ⟨rfl, rfl⟩ := Prod.mk.inj (Option.some.inj hstep)
      refine ⟨h.at ⟨ht.1, hk, fun hlink => ?_⟩, logged_of_files rfl⟩
      exact Option.isSome_of_eq_some (linkOf_eq_path.mp hlink)
  | resolving io held link =>
      rw [hplace] at ht
      simp only [logGo, hplace] at hstep
      split_ifs at hstep with hlink
      · obtain ⟨rfl, rfl⟩ := Prod.mk.inj (Option.some.inj hstep)
        exact ⟨h.at ht.1, logged_of_files rfl⟩
      · obtain ⟨rfl, rfl⟩ := Prod.mk.inj (Option.some.inj hstep)
        have hname : Function.update (fun b => if b then c.path else link)
            (lowBit (c.fileBakup - 1)) (backupName c.path (c.fileBakup - 1))
            (lowBit (c.fileBakup - 1)) = backupName c.path (c.fileBakup - 1) :=
          Function.update_self ..
        refine ⟨h.at ⟨ht.1, by omega, rfl, hname, .inr (by omega), ?_⟩, logged_of_files rfl⟩
        exact ht.2.2 (not_not.mp hlink)
  | moving io held i b =>
      rw [hplace] at ht
      obtain ⟨hlock, hlooks⟩ := ht
      cases i with
      | zero =>
          simp only [logGo, hplace] at hstep
          obtain ⟨rfl, rfl⟩ := Prod.mk.inj (Option.some.inj hstep)
          exact ⟨h.retire hlock hlooks, logged_of_files (System.rename_eq ..).1⟩
      | succ i =>
          simp only [logGo, hplace] at hstep
          obtain ⟨rfl, rfl⟩ := Prod.mk.inj (Option.some.inj hstep)
          obtain ⟨hsrc, hdst⟩ := hlooks.next
          refine ⟨h.at ?_, logged_of_files rfl⟩
          split_ifs with hfound
          · exact ⟨hlock, hlooks.low, rfl, hsrc, hdst, hlooks.free, hlooks.path⟩
          · rw [hsrc] at hfound
            exact ⟨hlock, by have := hlooks.low; omega, rfl, hsrc, .inl (by simpa using hfound),
              hlooks.path⟩
  | found io held i b =>
      rw [hplace] at ht
      simp only [logGo, hplace] at hstep
      obtain ⟨rfl, rfl⟩ := Prod.mk.inj (Option.some.inj hstep)
      exact ⟨h.move ht.1 ht.2, logged_of_files (System.rename_eq ..).1⟩
  | unlocking held =>
      rw [hplace] at ht
      simp only [logGo, hplace] at hstep
      obtain ⟨rfl, rfl⟩ := Prod.mk.inj (Option.some.inj hstep)
      rw [if_pos ht.1]
      exact ⟨h.release t, logged_of_files (System.release_eq t s).2.1⟩

/-- **A step.** -/
lemma Kept.step (h : Kept c s) (hk : 0 < c.fileBakup) {m : Move T} (hfits : m.Fits c s)
    (hstep : logStep c s m = some (s', es)) : Kept c s' ∧ Logged s s' es := by
  cases m with
  | log t text =>
      simp only [logStep] at hstep
      split at hstep
      · obtain ⟨rfl, rfl⟩ := Prod.mk.inj (Option.some.inj hstep)
        exact h.fopen _
      · cases hstep
  | go t => exact h.go hk hstep
  | fail t =>
      obtain ⟨hlocked, io, hplace⟩ := hfits
      simp only [logStep, logFail, hplace, hlocked] at hstep
      obtain ⟨rfl, rfl⟩ := Prod.mk.inj (Option.some.inj hstep)
      exact ⟨h.at trivial, logged_of_files rfl⟩
  | die t =>
      obtain ⟨rfl, rfl⟩ := Prod.mk.inj (Option.some.inj hstep)
      exact ⟨h.release t, logged_of_files (System.release_eq t s).2.1⟩

end Kept

/-! ## The calls of a task -/

/-- A call of the log function: its text, and whether it has gone on after it had opened the log. -/
structure LogCall where
  text : List UInt8
  wentOn : Bool
  deriving DecidableEq

/-- The task of an event. -/
def LogEvent.task : LogEvent T → T
  | .opened t _ => t
  | .wrote t _ _ => t

/-- The task of a move. -/
def Move.task : Move T → T
  | .log t _ => t
  | .go t => t
  | .fail t => t
  | .die t => t

/-- **What can be seen of a call** that has opened the file `io`: if it went on, it has written its
line to this file, once. -/
def LogCall.events (lineMax : ℕ) (t : T) (k : LogCall × ℕ) : List (LogEvent T) :=
  .opened t k.2 :: if k.1.wentOn then [.wrote t k.2 (logFormat lineMax k.1.text)] else []

section Calls

variable [DecidableEq T]

/-- The calls of the task `t`, after a move. -/
def noteMove (t : T) (calls : List LogCall) : Move T → List LogCall
  | .log u text => if u = t then calls ++ [⟨text, false⟩] else calls
  | .go u => if u = t then calls.modifyLast fun k => { k with wentOn := true } else calls
  | .fail _ => calls
  | .die _ => calls

/-- The calls of the task `t` in a run. -/
def callsOf (t : T) (ms : List (Move T)) : List LogCall := ms.foldl (noteMove t) []

variable {c : Setup} {s s' : System T} {t u : T} {p : Task} {m : Move T}
  {es evs : List (LogEvent T)} {calls : List LogCall} {ks : List (LogCall × ℕ)}

/-- The task has opened the log and not yet written. -/
def Task.isOpened : Task → Bool
  | .opened _ _ => true
  | _ => false

/-- A task with the calls `ks` is at this place. -/
def Task.After (lineMax : ℕ) (ks : List (LogCall × ℕ)) : Task → Prop
  | .idle => True
  | .opened io line => ∃ ks₀ text,
      ks = ks₀ ++ [(⟨text, false⟩, io)] ∧ line = logFormat lineMax text
  | _ => ∃ ks₀ text io, ks = ks₀ ++ [(⟨text, true⟩, io)]

omit [DecidableEq T] in
/-- A call that has gone on may go on to any place. -/
lemma Task.after_of_written {lineMax : ℕ} {p : Task}
    (h : ∃ ks₀ text io, ks = ks₀ ++ [(⟨text, true⟩, io)]) (hp : p.isOpened = false) :
    p.After lineMax ks := by
  cases p with
  | idle => trivial
  | opened io line => cases hp
  | _ => exact h

omit [DecidableEq T] in
lemma Task.After.written {lineMax : ℕ} {p : Task} (h : p.After lineMax ks) (hidle : p ≠ .idle)
    (hp : p.isOpened = false) : ∃ ks₀ text io, ks = ks₀ ++ [(⟨text, true⟩, io)] := by
  cases p with
  | idle => exact absurd rfl hidle
  | opened io line => cases hp
  | _ => exact h

/-- **What a call of the kernel does to its task**: it writes the line of the task, or the line was
written before. -/
lemma logGo_place (hstep : logGo c s t = some (s', es)) :
    ∃ (s₁ : System T) (p : Task), s₁.task = s.task ∧ s' = s₁.at t p ∧ p.isOpened = false ∧
      ((∃ io line, s.task t = .opened io line ∧ es = [.wrote t io line]) ∨
        s.task t ≠ .idle ∧ (s.task t).isOpened = false ∧ es = []) := by
  cases hplace : s.task t with
  | idle => simp [logGo, hplace] at hstep
  | opened io line =>
      simp only [logGo, hplace] at hstep
      obtain ⟨rfl, rfl⟩ := Prod.mk.inj (Option.some.inj hstep)
      refine ⟨{ s with files := s.files.set io (s.files.getD io [] ++ line) }, _, rfl, rfl, ?_,
        .inl ⟨io, line, rfl, rfl⟩⟩
      split_ifs <;> rfl
  | truncating io =>
      simp only [logGo, hplace] at hstep
      obtain ⟨rfl, rfl⟩ := Prod.mk.inj (Option.some.inj hstep)
      exact ⟨{ s with files := s.files.set io [] }, .idle, rfl, rfl, rfl, .inr ⟨by simp, rfl, rfl⟩⟩
  | locking io =>
      simp only [logGo, hplace] at hstep
      split_ifs at hstep
      obtain ⟨rfl, rfl⟩ := Prod.mk.inj (Option.some.inj hstep)
      exact ⟨{ s with owner := some t }, .linking io true, rfl, rfl, rfl, .inr ⟨by simp, rfl, rfl⟩⟩
  | linking io held =>
      simp only [logGo, hplace] at hstep
      obtain ⟨rfl, rfl⟩ := Prod.mk.inj (Option.some.inj hstep)
      exact ⟨_, _, rfl, rfl, rfl, .inr ⟨by simp, rfl, rfl⟩⟩
  | resolving io held link =>
      simp only [logGo, hplace] at hstep
      split_ifs at hstep
      all_goals
        obtain ⟨rfl, rfl⟩ := Prod.mk.inj (Option.some.inj hstep)
        exact ⟨_, _, rfl, rfl, rfl, .inr ⟨by simp, rfl, rfl⟩⟩
  | moving io held i b =>
      cases i with
      | zero =>
          simp only [logGo, hplace] at hstep
          obtain ⟨rfl, rfl⟩ := Prod.mk.inj (Option.some.inj hstep)
          exact ⟨_, _, (System.rename_eq ..).2.2, rfl, rfl, .inr ⟨by simp, rfl, rfl⟩⟩
      | succ i =>
          simp only [logGo, hplace] at hstep
          obtain ⟨rfl, rfl⟩ := Prod.mk.inj (Option.some.inj hstep)
          refine ⟨_, _, rfl, rfl, ?_, .inr ⟨by simp, rfl, rfl⟩⟩
          split_ifs <;> rfl
  | found io held i b =>
      simp only [logGo, hplace] at hstep
      obtain ⟨rfl, rfl⟩ := Prod.mk.inj (Option.some.inj hstep)
      exact ⟨_, _, (System.rename_eq ..).2.2, rfl, rfl, .inr ⟨by simp, rfl, rfl⟩⟩
  | unlocking held =>
      simp only [logGo, hplace] at hstep
      obtain ⟨rfl, rfl⟩ := Prod.mk.inj (Option.some.inj hstep)
      refine ⟨_, _, ?_, rfl, rfl, .inr ⟨by simp, rfl, rfl⟩⟩
      split_ifs
      · exact (System.release_eq t s).2.2
      · rfl

/-- A call of the kernel that fails leaves the log as it is. -/
lemma logFail_place (hstep : logFail c s t = some (s', es)) :
    ∃ p : Task, s' = s.at t p ∧ p.isOpened = false ∧
      s.task t ≠ .idle ∧ (s.task t).isOpened = false ∧ es = [] := by
  unfold logFail at hstep
  split at hstep
  · next io hplace =>
      obtain ⟨rfl, rfl⟩ := Prod.mk.inj (Option.some.inj hstep)
      refine ⟨_, rfl, ?_, by simp [hplace], by rw [hplace]; rfl, rfl⟩
      split_ifs <;> rfl
  · next hplace =>
      obtain ⟨rfl, rfl⟩ := Prod.mk.inj (Option.some.inj hstep)
      exact ⟨_, rfl, rfl, by simp [hplace], by rw [hplace]; rfl, rfl⟩
  · next hplace =>
      obtain ⟨rfl, rfl⟩ := Prod.mk.inj (Option.some.inj hstep)
      exact ⟨_, rfl, rfl, by simp [hplace], by rw [hplace]; rfl, rfl⟩
  · cases hstep

omit [DecidableEq T] in
lemma System.fopen_task (path : Name) (s : System T) : (s.fopen path).2.task = s.task := by
  unfold System.fopen
  cases s.fs path <;> rfl

lemma logStep_others (hstep : logStep c s m = some (s', es)) (ht : m.task ≠ t) :
    s'.task t = s.task t ∧ ∀ e ∈ es, e.task ≠ t := by
  have hat : ∀ {s₁ : System T} {u p}, u ≠ t → s₁.task = s.task → (s₁.at u p).task t = s.task t :=
    fun hu htask => (System.at_task_of_ne hu.symm).trans (congrFun htask t)
  cases m with
  | log u text =>
      simp only [logStep] at hstep
      split at hstep
      · obtain ⟨rfl, rfl⟩ := Prod.mk.inj (Option.some.inj hstep)
        exact ⟨hat ht (System.fopen_task ..), by simpa [LogEvent.task, Move.task] using ht⟩
      · cases hstep
  | go u =>
      obtain ⟨s₁, p, htask, rfl, -, ⟨io, line, -, rfl⟩ | ⟨-, -, rfl⟩⟩ := logGo_place hstep
      · exact ⟨hat ht htask, by simpa [LogEvent.task, Move.task] using ht⟩
      · exact ⟨hat ht htask, by simp⟩
  | fail u =>
      obtain ⟨p, rfl, -, -, -, rfl⟩ := logFail_place hstep
      exact ⟨hat ht rfl, by simp⟩
  | die u =>
      obtain ⟨rfl, rfl⟩ := Prod.mk.inj (Option.some.inj hstep)
      exact ⟨hat ht (System.release_eq u s).2.2, by simp⟩

/-- The events `evs` of the task `t` are those of its calls. -/
structure Noted (c : Setup) (t : T) (calls : List LogCall) (ks : List (LogCall × ℕ))
    (evs : List (LogEvent T)) (p : Task) : Prop where
  calls : ks.map Prod.fst = calls
  events : evs = ks.flatMap (LogCall.events c.lineMax t)
  place : p.After c.lineMax ks

/-- A move of another task. -/
lemma Noted.others (h : Noted c t calls ks evs (s.task t)) (hstep : logStep c s m = some (s', es))
    (ht : m.task ≠ t) :
    Noted c t (noteMove t calls m) ks (evs ++ es.filter fun e => e.task = t) (s'.task t) := by
  obtain ⟨hcalls, hevents, hplace⟩ := h
  obtain ⟨htask, hes⟩ := logStep_others hstep ht
  have hsame : noteMove t calls m = calls := by
    cases m with
    | log u text => exact if_neg ht
    | go u => exact if_neg ht
    | fail u => rfl
    | die u => rfl
  have hnone : es.filter (fun e => e.task = t) = [] :=
    List.filter_eq_nil_iff.mpr fun e he => by simpa using hes e he
  refine ⟨hcalls.trans hsame.symm, by rw [hnone, List.append_nil]; exact hevents, ?_⟩
  rw [htask]
  exact hplace

/-- **A move**, of the task itself or of another one. -/
lemma Noted.step (h : Noted c t calls ks evs (s.task t)) (hstep : logStep c s m = some (s', es)) :
    ∃ ks', Noted c t (noteMove t calls m) ks' (evs ++ es.filter fun e => e.task = t)
      (s'.task t) := by
  by_cases ht : m.task = t
  swap
  · exact ⟨ks, h.others hstep ht⟩
  obtain ⟨hcalls, hevents, hplace⟩ := h
  cases m with
  | log u text =>
      obtain rfl : u = t := ht
      simp only [logStep] at hstep
      split at hstep
      · obtain ⟨rfl, rfl⟩ := Prod.mk.inj (Option.some.inj hstep)
        refine ⟨ks ++ [(⟨text, false⟩, (s.fopen c.path).1)], ?_, ?_, ?_⟩
        · simp [noteMove, hcalls]
        · simp [hevents, LogCall.events, LogEvent.task]
        · rw [System.at_task_self]
          exact ⟨ks, text, rfl, rfl⟩
      · cases hstep
  | go u =>
      obtain rfl : u = t := ht
      obtain ⟨s₁, p, -, rfl, hp, ⟨io, line, hopened, rfl⟩ | ⟨hidle, hpast, rfl⟩⟩ :=
        logGo_place hstep
      · rw [hopened] at hplace
        obtain ⟨ks₀, text, rfl, rfl⟩ := hplace
        refine ⟨ks₀ ++ [(⟨text, true⟩, io)], ?_, ?_, ?_⟩
        · simp [noteMove, ← hcalls, List.modifyLast_concat]
        · simp [hevents, LogCall.events, LogEvent.task]
        · rw [System.at_task_self]
          exact Task.after_of_written ⟨ks₀, text, io, rfl⟩ hp
      · obtain ⟨ks₀, text, io, rfl⟩ := hplace.written hidle hpast
        refine ⟨ks₀ ++ [(⟨text, true⟩, io)], ?_, ?_, ?_⟩
        · simp [noteMove, ← hcalls, List.modifyLast_concat]
        · simpa using hevents
        · rw [System.at_task_self]
          exact Task.after_of_written ⟨ks₀, text, io, rfl⟩ hp
  | fail u =>
      obtain rfl : u = t := ht
      obtain ⟨p, rfl, hp, hidle, hpast, rfl⟩ := logFail_place hstep
      refine ⟨ks, hcalls, by simpa using hevents, ?_⟩
      rw [System.at_task_self]
      exact Task.after_of_written (hplace.written hidle hpast) hp
  | die u =>
      obtain rfl : u = t := ht
      obtain ⟨rfl, rfl⟩ := Prod.mk.inj (Option.some.inj hstep)
      refine ⟨ks, hcalls, by simpa using hevents, ?_⟩
      rw [System.at_task_self]
      trivial

/-- **A run**, from its last step. -/
lemma noted_run (hidle : s.task t = .idle) {ms : List (Move T)}
    (hrun : run (logStep c) ms s = some (s', es)) :
    ∃ ks, Noted c t (callsOf t ms) ks (es.filter fun e => e.task = t) (s'.task t) := by
  induction ms using List.reverseRecOn generalizing s' es with
  | nil =>
      obtain ⟨rfl, rfl⟩ := Prod.mk.inj (Option.some.inj hrun)
      refine ⟨[], rfl, rfl, ?_⟩
      rw [hidle]
      trivial
  | append_singleton ms m ih =>
      obtain ⟨s₁, es₁, es₂, hbefore, hlast, rfl⟩ := run_append.mp hrun
      obtain ⟨s₂, es₃, es₄, hstep, hend, rfl⟩ := run_cons.mp hlast
      obtain ⟨rfl, rfl⟩ := Prod.mk.inj (Option.some.inj hend)
      obtain ⟨ks, hks⟩ := ih hbefore
      rw [callsOf, List.foldl_append, List.filter_append, List.append_nil]
      exact hks.step hstep

end Calls

/-- **What the log holds.**  Take any tasks that log to one file, in any order of their calls, and
let them end wherever they are; no `rename` fails.  The names, from `path` to the oldest generation,
hold the newest files without one missing, at every moment, also while they are renamed.  A call
writes to the newest file there is when it opens the log, and its line stands in this file as a
whole, behind all that was written before.  What can be seen of a task are its calls, in order: each
opens one file and, if it goes on then, writes its line to this file, once. -/
theorem log_kept {c : Setup} (hk : 0 < c.fileBakup) [DecidableEq T] {s s' : System T}
    (hnames : numbers c.path c.fileBakup s.fs <+: (List.range s.files.length).reverse)
    (hidle : ∀ t, s.task t = .idle) {ms : List (Move T)} {es : List (LogEvent T)}
    (hfits : Along (logStep c) (fun s m => m.Fits c s) ms s)
    (hrun : run (logStep c) ms s = some (s', es)) :
    numbers c.path c.fileBakup s'.fs <+: (List.range s'.files.length).reverse ∧
      (∀ io ∈ es.filterMap LogEvent.file, s.files.length ≤ io + 1) ∧
      (es.filterMap LogEvent.file).Pairwise (· ≤ ·) ∧
      (∀ i, s'.content i = s.content i ++ (es.filterMap (LogEvent.line i)).flatten) ∧
      ∀ t, ∃ ks : List (LogCall × ℕ), ks.map Prod.fst = callsOf t ms ∧
        es.filter (fun e => e.task = t) = ks.flatMap (LogCall.events c.lineMax t) := by
  have hstart : Kept c s := ⟨hnames, fun t => by rw [hidle t]; trivial⟩
  obtain ⟨hkept, hlogged⟩ := run_composes (Q := Logged) (fun s => logged_of_files rfl)
    Logged.trans (fun h hok hstep => h.step hk hok hstep) hstart hfits hrun
  refine ⟨hkept.names, fun io hio => (hlogged.newest io hio).1, hlogged.order, hlogged.content,
    fun t => ?_⟩
  obtain ⟨ks, hks⟩ := noted_run (hidle t) hrun
  exact ⟨ks, hks.calls, hks.events⟩

/-- A log with two generations, which is renamed when it has three bytes. -/
def sampleSetup : Setup := genericLog ['l'] 2 3

/-- There is no log yet. -/
def sampleSystem : System Bool := ⟨fun _ => none, [], none, fun _ => .idle⟩

/-- Two tasks write to the first file, and both see that it is too long.  One of them renames it and
logs another text before the other one has the lock, which is at its end then. -/
def sampleMoves : List (Move Bool) :=
  [.log false [97, 97, 97], .log true [98], .go false, .go false, .go true, .go false, .go false,
    .go false, .go false, .go false, .log false [99], .go false, .go true, .go true, .go true,
    .die true]

lemma sampleMoves_fit :
    Along (logStep sampleSetup) (fun s m => m.Fits sampleSetup s) sampleMoves sampleSystem := by
  have hall : ∀ m ∈ sampleMoves, ∀ s, m.Fits sampleSetup s := by simp [sampleMoves, Move.Fits]
  exact (along_of_forall hall sampleSystem).mono fun s m h => h s

/-- The two files are there, the line of the second task stands in the older one, and the first task
has written one line to each. -/
theorem log_kept_sample : ∃ (s : System Bool) (es : List (LogEvent Bool)),
    run (logStep sampleSetup) sampleMoves sampleSystem = some (s, es) ∧
      numbers ['l'] 2 s.fs = [1, 0] ∧ es.filterMap (LogEvent.line 0) = [[97, 97, 97], [98]] ∧
      s.content 0 = sampleSystem.content 0 ++ (es.filterMap (LogEvent.line 0)).flatten ∧
      callsOf false sampleMoves = [⟨[97, 97, 97], true⟩, ⟨[99], true⟩] ∧
      ∃ ks : List (LogCall × ℕ), ks.map Prod.fst = callsOf false sampleMoves ∧
        es.filter (fun e => e.task = false) = ks.flatMap (LogCall.events 1024 false) := by
  have heval : (run (logStep sampleSetup) sampleMoves sampleSystem).map
      (fun r => (numbers ['l'] 2 r.1.fs, r.2.filterMap (LogEvent.line 0))) =
        some ([1, 0], [[97, 97, 97], [98]]) := by decide +kernel
  obtain ⟨⟨s, es⟩, hrun, hresult⟩ := Option.map_eq_some_iff.mp heval
  obtain ⟨hnumbers, hlines⟩ := Prod.mk.inj hresult
  obtain ⟨-, -, -, hcontent, hcalls⟩ :=
    log_kept (by decide) (by decide) (fun _ => rfl) sampleMoves_fit hrun
  exact ⟨s, es, hrun, hnumbers, hlines, hcontent 0, by decide +kernel, hcalls false⟩

end LinuxC.LogBackup
