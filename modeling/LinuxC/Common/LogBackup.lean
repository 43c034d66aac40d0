import Mathlib.Data.List.Basic
import Mathlib.Data.Set.Function
import Mathlib.Logic.Function.Basic

/-!
# Log rotation (`common/generic_log.c`, `ipc/ipc_log.c`)

`log_backup` renames the generations of a log file: `path.1` becomes `path.2`, `path.0` becomes
`path.1`, and at the end `path` becomes `path.0`.  The generations that are not there are skipped.
The two files have the function with different parameters.

The names are written into two buffers in turn; the parity of the number of a generation says into
which one.  So while the loop is at the generation `i`, the other buffer has the name of `i + 1`.

A file is its content, and no two names are links to one file.
-/

namespace LinuxC.LogBackup

/-- A pathname. -/
abbrev Name := List Char

/-- What the names refer to. -/
abbrev FileSystem (α : Type) := Name → Option α

/-- The format `"%s.%d"`. -/
def backupName (path : Name) (i : ℕ) : Name := path ++ '.' :: Nat.toDigits 10 i

/-- What the environment does in a call: whether the lock is taken, what `readlink` and `realpath`
leave in their buffers, and which calls of `rename` fail, although the file is there. -/
structure BackupEnv where
  locked : Bool
  link : Name
  real : Name
  fails : Name → Name → Bool

/-- The local variables `file` and `n`, with the files and the results of `rename` so far. -/
structure Backup (α : Type) where
  fs : FileSystem α
  file : Bool → Name
  n : Bool
  results : List Bool

variable {α : Type}

/-- The file `src` has the name `dst` now. -/
def FileSystem.move (src dst : Name) (fs : FileSystem α) : FileSystem α := fun x =>
  if x = dst then fs src else if x = src then none else fs x

def Backup.rename (env : BackupEnv) (src dst : Name) (s : Backup α) : Backup α :=
  if (s.fs src).isSome && !env.fails src dst then
    { s with fs := FileSystem.move src dst s.fs, results := s.results ++ [true] }
  else { s with results := s.results ++ [false] }

/-- `i & 1`. -/
def lowBit (i : ℕ) : Bool := i &&& 1 ≠ 0

/-- The loop of `log_backup`, for the generations below the argument. -/
def backupLoop (env : BackupEnv) (path : Name) : ℕ → Backup α → Backup α
  | 0, s => s
  | i + 1, s =>
      let n := lowBit i
      let s := { s with n := n, file := Function.update s.file n (backupName path i) }
      let s := if (s.fs (s.file n)).isSome then s.rename env (s.file n) (s.file !n) else s
      backupLoop env path i s

/-- What the two functions share: the files afterwards, and the results of `rename`. -/
def rotate (env : BackupEnv) (fileBakup : ℕ) (path : Name) (fs : FileSystem α) :
    FileSystem α × List Bool :=
  if env.link ≠ env.real then (fs, [])
  else
    let i := fileBakup - 1
    let n := lowBit i
    let file := fun b => if b then env.real else env.link
    let s := backupLoop env path i ⟨fs, Function.update file n (backupName path i), n, []⟩
    let s := s.rename env path (s.file s.n)
    (s.fs, s.results)

/-- `log_backup` of `common/generic_log.c`: it goes on without the lock. -/
def genericLogBackup (env : BackupEnv) (fileBakup : ℕ) (filePath : Name) (fs : FileSystem α) :
    FileSystem α × List Bool :=
  rotate env fileBakup filePath fs

def ipcLogFile : Name := ['/', 't', 'm', 'p', '/', 'i', 'p', 'c', 'l', 'o', 'g']

def ipcLogNum : ℕ := 2

/-- `log_backup` of `ipc/ipc_log.c`. -/
def ipcLogBackup (env : BackupEnv) (fs : FileSystem α) : FileSystem α × List Bool :=
  if !env.locked then (fs, []) else rotate env ipcLogNum ipcLogFile fs

/-! ## Names -/

section Names

variable {path : Name} {i j : ℕ}

lemma backupName_injective (path : Name) : Function.Injective (backupName path) := by
  intro i j h
  have hdigits := List.cons_injective (List.append_cancel_left h)
  rw [← Nat.ofDigitChars_ten_toDigits (n := i), hdigits, Nat.ofDigitChars_ten_toDigits]

@[simp] lemma backupName_inj : backupName path i = backupName path j ↔ i = j :=
  (backupName_injective path).eq_iff

@[simp] lemma path_ne_backupName : path ≠ backupName path i := by
  intro h
  have hlen := congrArg List.length h
  simp [backupName] at hlen

lemma lowBit_succ (i : ℕ) : lowBit (i + 1) = !lowBit i := by
  simp only [lowBit, Nat.and_one_is_mod]
  rcases Nat.mod_two_eq_zero_or_one i with h | h <;> simp [h, Nat.add_mod]

end Names

/-! ## The loop -/

/-- The generations from `m` on have been moved: `m` is free, or it is the oldest one. -/
structure Rotated (path : Name) (k m : ℕ) (old new : FileSystem α) : Prop where
  below : ∀ j < m, new (backupName path j) = old (backupName path j)
  free : new (backupName path m) = if m + 1 = k then old (backupName path m) else none
  above : ∀ j, m ≤ j → j + 1 < k → new (backupName path (j + 1)) =
    if (old (backupName path j)).isSome then old (backupName path j)
    else if j + 2 = k then old (backupName path (j + 1)) else none
  others : ∀ x, (∀ j < k, x ≠ backupName path j) → new x = old x

section Loop

variable {env : BackupEnv} {path : Name} {k m : ℕ} {old : FileSystem α} {s : Backup α}

lemma rotated_start (path : Name) (m : ℕ) (fs : FileSystem α) : Rotated path (m + 1) m fs fs where
  below _ _ := rfl
  free := (if_pos rfl).symm
  above j hj hk := by omega
  others _ _ := rfl

/-- The next generation is moved into the free place. -/
lemma Rotated.move {new : FileSystem α} {i : ℕ} (h : Rotated path k (i + 1) old new)
    (hk : i + 1 < k) (hi : (new (backupName path i)).isSome) :
    Rotated path k i old
      (FileSystem.move (backupName path i) (backupName path (i + 1)) new) where
  below j hj := by
    have hne : j ≠ i + 1 := by omega
    have hne' : j ≠ i := by omega
    simp only [FileSystem.move, backupName_inj, hne, hne', if_false]
    exact h.below j (by omega)
  free := by
    have hne : i ≠ i + 1 := by omega
    have hne' : i + 1 ≠ k := by omega
    simp only [FileSystem.move, backupName_inj, hne, hne', if_false, if_true]
  above j hj hjk := by
    rcases Nat.eq_or_lt_of_le hj with rfl | hlt
    · have hold := h.below i (Nat.lt_succ_self i)
      rw [← hold, if_pos hi]
      simp [FileSystem.move]
    · have hne : j + 1 ≠ i + 1 := by omega
      have hne' : j + 1 ≠ i := by omega
      simp only [FileSystem.move, backupName_inj, hne, hne', if_false]
      exact h.above j hlt hjk
  others x hx := by
    simp only [FileSystem.move, hx (i + 1) hk, hx i (by omega), if_false]
    exact h.others x hx

lemma Rotated.skip {new : FileSystem α} {i : ℕ} (h : Rotated path k (i + 1) old new)
    (hk : i + 1 < k) (hi : (new (backupName path i)).isSome = false) :
    Rotated path k i old new where
  below j hj := h.below j (by omega)
  free := by
    have hne : i + 1 ≠ k := by omega
    rw [if_neg hne]
    simpa using hi
  above j hj hjk := by
    rcases Nat.eq_or_lt_of_le hj with rfl | hlt
    · rw [h.free, ← h.below i (Nat.lt_succ_self i), hi]
      rfl
    · exact h.above j hlt hjk
  others := h.others

lemma results_rename (env : BackupEnv) (src dst : Name) (s : Backup α) :
    ∃ r, (s.rename env src dst).results = s.results ++ [r] := by
  unfold Backup.rename
  split_ifs
  · exact ⟨true, rfl⟩
  · exact ⟨false, rfl⟩

lemma rename_eq {src dst : Name} (h : ∀ r ∈ (s.rename env src dst).results, r = true) :
    (s.fs src).isSome = true ∧ s.rename env src dst =
      { s with fs := FileSystem.move src dst s.fs, results := s.results ++ [true] } := by
  unfold Backup.rename at h ⊢
  split_ifs at h ⊢ with hok
  · simp only [Bool.and_eq_true] at hok
    exact ⟨hok.1, rfl⟩
  · exact absurd (h false (by simp)) (by decide)

lemma mem_results_backupLoop (env : BackupEnv) (path : Name) (i : ℕ) {s : Backup α} {r : Bool}
    (h : r ∈ s.results) : r ∈ (backupLoop env path i s).results := by
  induction i generalizing s with
  | zero => exact h
  | succ i ih =>
      rw [backupLoop]
      apply ih
      dsimp only
      split_ifs
      · obtain ⟨r', hr'⟩ := results_rename env
          (Function.update s.file (lowBit i) (backupName path i) (lowBit i))
          (Function.update s.file (lowBit i) (backupName path i) !lowBit i)
          { s with n := lowBit i, file := Function.update s.file (lowBit i) (backupName path i) }
        rw [hr']
        exact List.mem_append_left _ h
      · exact h

/-- The state of the loop at the generation `m`. -/
structure LoopAt (path : Name) (k m : ℕ) (old : FileSystem α) (s : Backup α) : Prop extends
    Rotated path k m old s.fs where
  low : s.n = lowBit m
  /-- The buffer of the parity of `m`; the next turn writes into the other one. -/
  name : s.file (lowBit m) = backupName path m

/-- **One turn.** -/
lemma LoopAt.turn {i : ℕ} (h : LoopAt path k (i + 1) old s) (hk : i + 1 < k)
    (hresults : ∀ r ∈ (backupLoop env path (i + 1) s).results, r = true) :
    ∃ s', LoopAt path k i old s' ∧ backupLoop env path (i + 1) s = backupLoop env path i s' := by
  set s₁ : Backup α :=
    { s with n := lowBit i, file := Function.update s.file (lowBit i) (backupName path i) } with hs₁
  have hself : s₁.file (lowBit i) = backupName path i := Function.update_self ..
  have hother : s₁.file (!lowBit i) = backupName path (i + 1) := by
    have hname := h.name
    have hne : (!lowBit i) ≠ lowBit i := by simp
    rw [lowBit_succ] at hname
    exact (Function.update_of_ne hne ..).trans hname
  have hloop : backupLoop env path (i + 1) s = backupLoop env path i
      (if (s₁.fs (backupName path i)).isSome then
        s₁.rename env (backupName path i) (backupName path (i + 1)) else s₁) := by
    rw [← hself, ← hother]
    rfl
  rw [hloop] at hresults ⊢
  refine ⟨_, ?_, rfl⟩
  split_ifs at hresults ⊢ with hi
  · obtain ⟨-, heq⟩ := rename_eq fun r hr =>
      hresults r (mem_results_backupLoop env path i hr)
    rw [heq]
    exact ⟨h.toRotated.move hk hi, rfl, hself⟩
  · exact ⟨h.toRotated.skip hk (by simpa using hi), rfl, hself⟩

/-- **The loop**, by induction on the generation. -/
lemma LoopAt.loop (h : LoopAt path k m old s) (hk : m < k)
    (hresults : ∀ r ∈ (backupLoop env path m s).results, r = true) :
    LoopAt path k 0 old (backupLoop env path m s) := by
  induction m generalizing s with
  | zero => exact h
  | succ m ih =>
      obtain ⟨s', hs', heq⟩ := h.turn hk hresults
      rw [heq] at hresults ⊢
      exact ih hs' (by omega) hresults

end Loop

/-! ## What a rotation does -/

/-- The name that the file `x` has after a rotation. -/
def nextName (path : Name) (k : ℕ) (x : Name) : Name :=
  if x = path then backupName path 0
  else
    match (List.range (k - 1)).find? fun i => x = backupName path i with
    | some i => backupName path (i + 1)
    | none => x

/-- The generations are shifted by one. -/
structure Shifted (path : Name) (k : ℕ) (old new : FileSystem α) : Prop where
  newest : new (backupName path 0) = old path
  shifted : ∀ i, i + 1 < k → (old (backupName path i)).isSome →
    new (backupName path (i + 1)) = old (backupName path i)
  gone : new path = none
  others : ∀ x, x ≠ path → (∀ i < k, x ≠ backupName path i) → new x = old x
  /-- The oldest one stays if there is none to take its place. -/
  oldest : ∀ i, i + 2 = k → old (backupName path i) = none →
    new (backupName path (i + 1)) = old (backupName path (i + 1))
  /-- A name in the middle is free if there was none to take it: its file has moved on. -/
  vacated : ∀ i, i + 2 < k → old (backupName path i) = none →
    new (backupName path (i + 1)) = none
  /-- Only the content of the oldest one can be lost. -/
  lossless : Set.InjOn (nextName path k)
      {x | (old x).isSome ∧ x ≠ backupName path (k - 1)} ∧
    ∀ x, (old x).isSome → x ≠ backupName path (k - 1) → new (nextName path k x) = old x

section Shifted

variable {env : BackupEnv} {path : Name} {k : ℕ} {old new : FileSystem α}

@[simp] lemma nextName_path : nextName path k path = backupName path 0 := if_pos rfl

lemma nextName_backupName {i : ℕ} (hi : i + 1 < k) :
    nextName path k (backupName path i) = backupName path (i + 1) := by
  have hfind : (List.range (k - 1)).find? (fun j => backupName path i = backupName path j) =
      some i := by
    rw [List.find?_range_eq_some]
    refine ⟨by simp, List.mem_range.mpr (by omega), fun j hj => ?_⟩
    simp [hj.ne']
  rw [nextName, if_neg path_ne_backupName.symm, hfind]

lemma nextName_other {x : Name} (hpath : x ≠ path)
    (hx : ∀ i, i + 1 < k → x ≠ backupName path i) : nextName path k x = x := by
  have hfind : (List.range (k - 1)).find? (fun j => x = backupName path j) = none := by
    rw [List.find?_eq_none]
    intro i hi
    have := List.mem_range.mp hi
    simpa using hx i (by omega)
  rw [nextName, if_neg hpath, hfind]

/-- A name other than the oldest one is `path`, a generation that moves on, or none of them. -/
lemma name_cases {x : Name} (hx : x ≠ backupName path (k - 1)) :
    x = path ∨ (∃ i, i + 1 < k ∧ x = backupName path i) ∨
      (x ≠ path ∧ ∀ i < k, x ≠ backupName path i) := by
  by_cases hpath : x = path
  · exact .inl hpath
  · by_cases hgen : ∃ i, i + 1 < k ∧ x = backupName path i
    · exact .inr (.inl hgen)
    · refine .inr (.inr ⟨hpath, fun i hi heq => ?_⟩)
      rcases Nat.lt_or_ge (i + 1) k with hlt | hge
      · exact hgen ⟨i, hlt, heq⟩
      · obtain rfl : i = k - 1 := by omega
        exact hx heq

lemma injOn_nextName (hk : 1 ≤ k) :
    Set.InjOn (nextName path k) {x | (old x).isSome ∧ x ≠ backupName path (k - 1)} := by
  have hother : ∀ {x}, x ≠ path → (∀ i < k, x ≠ backupName path i) → nextName path k x = x :=
    fun hpath hx => nextName_other hpath fun i hi => hx i (by omega)
  rintro x ⟨-, hx⟩ y ⟨-, hy⟩ h
  obtain rfl | ⟨i, hi, rfl⟩ | ⟨hxp, hxn⟩ := name_cases hx
  · obtain rfl | ⟨j, hj, rfl⟩ | ⟨hyp, hyn⟩ := name_cases hy
    · rfl
    · rw [nextName_path, nextName_backupName hj, backupName_inj] at h
      omega
    · rw [nextName_path, hother hyp hyn] at h
      exact absurd h.symm (hyn 0 (by omega))
  · obtain rfl | ⟨j, hj, rfl⟩ | ⟨hyp, hyn⟩ := name_cases hy
    · rw [nextName_path, nextName_backupName hi, backupName_inj] at h
      omega
    · rw [nextName_backupName hi, nextName_backupName hj, backupName_inj] at h
      rw [Nat.succ.inj h]
    · rw [nextName_backupName hi, hother hyp hyn] at h
      exact absurd h.symm (hyn (i + 1) hi)
  · obtain rfl | ⟨j, hj, rfl⟩ | ⟨hyp, hyn⟩ := name_cases hy
    · rw [nextName_path, hother hxp hxn] at h
      exact absurd h (hxn 0 (by omega))
    · rw [nextName_backupName hj, hother hxp hxn] at h
      exact absurd h (hxn (j + 1) hj)
    · rwa [hother hxp hxn, hother hyp hyn] at h

/-- **The last `rename`**, of `path` itself. -/
lemma Rotated.shifted (h : Rotated path k 0 old new) (hk : 1 ≤ k) :
    Shifted path k old (FileSystem.move path (backupName path 0) new) := by
  have hpath : new path = old path := h.others path fun j _ => path_ne_backupName
  have hnewest : FileSystem.move path (backupName path 0) new (backupName path 0) = old path := by
    rw [FileSystem.move, if_pos rfl, hpath]
  have habove : ∀ i, i + 1 < k →
      FileSystem.move path (backupName path 0) new (backupName path (i + 1)) =
        if (old (backupName path i)).isSome then old (backupName path i)
        else if i + 2 = k then old (backupName path (i + 1)) else none := by
    intro i hi
    simp only [FileSystem.move, backupName_inj, Nat.succ_ne_zero, path_ne_backupName.symm, if_false]
    exact h.above i (Nat.zero_le i) hi
  have hothers : ∀ x, x ≠ path → (∀ i < k, x ≠ backupName path i) →
      FileSystem.move path (backupName path 0) new x = old x := by
    intro x hxp hx
    simp only [FileSystem.move, hx 0 (by omega), hxp, if_false]
    exact h.others x hx
  have hshifted : ∀ i, i + 1 < k → (old (backupName path i)).isSome →
      FileSystem.move path (backupName path 0) new (backupName path (i + 1)) =
        old (backupName path i) := by
    intro i hi hsome
    rw [habove i hi, if_pos hsome]
  refine ⟨hnewest, hshifted, ?_, hothers, fun i hi hnone => ?_, fun i hi hnone => ?_,
    injOn_nextName hk, fun x hsome hx => ?_⟩
  · simp [FileSystem.move]
  · rw [habove i (by omega), hnone, if_pos hi]
    rfl
  · have hne : i + 2 ≠ k := by omega
    rw [habove i (by omega), hnone, if_neg hne]
    rfl
  · obtain rfl | ⟨i, hi, rfl⟩ | ⟨hxp, hxn⟩ := name_cases hx
    · rw [nextName_path, hnewest]
    · rw [nextName_backupName hi, hshifted i hi hsome]
    · rw [nextName_other hxp fun i hi => hxn i (by omega), hothers x hxp hxn]

/-- **What the two functions share.** -/
lemma shifted_rotate (hk : 1 ≤ k) (hsame : env.link = env.real)
    (hresults : ∀ r ∈ (rotate env k path old).2, r = true) :
    Shifted path k old (rotate env k path old).1 := by
  have hkm : k = k - 1 + 1 := by omega
  set file : Bool → Name := Function.update (fun b => if b then env.real else env.link)
    (lowBit (k - 1)) (backupName path (k - 1)) with hfile
  set start : Backup α := ⟨old, file, lowBit (k - 1), []⟩ with hstart
  set s := backupLoop env path (k - 1) start with hs
  have hrotate : rotate env k path old =
      ((s.rename env path (s.file s.n)).fs, (s.rename env path (s.file s.n)).results) := by
    rw [rotate, if_neg (not_not.mpr hsame)]
  rw [hrotate] at hresults ⊢
  obtain ⟨-, heq⟩ := rename_eq hresults
  -- the results of the loop are among those of the function
  have hloop : ∀ r ∈ s.results, r = true := by
    intro r hr
    apply hresults
    rw [heq]
    exact List.mem_append_left _ hr
  have hat : LoopAt path k (k - 1) old start := by
    have hname : file (lowBit (k - 1)) = backupName path (k - 1) := by
      rw [hfile]
      exact Function.update_self ..
    have hrotated := rotated_start path (k - 1) old
    rw [← hkm] at hrotated
    exact ⟨hrotated, rfl, hname⟩
  have hend : LoopAt path k 0 old s := hat.loop (by omega) hloop
  have hname : s.file s.n = backupName path 0 := by rw [hend.low, hend.name]
  rw [heq, hname]
  exact hend.toRotated.shifted hk

/-- **Log rotation shifts the generations without loss**, for any number of backups and whichever of
them are there; that of `ipc/ipc_log.c` is the case of two backups. -/
theorem generations_shifted (env : BackupEnv) (hsame : env.link = env.real) (fs : FileSystem α) :
    (∀ (fileBakup : ℕ) (filePath : Name), 1 ≤ fileBakup →
      (∀ r ∈ (genericLogBackup env fileBakup filePath fs).2, r = true) →
      Shifted filePath fileBakup fs (genericLogBackup env fileBakup filePath fs).1) ∧
    (env.locked = true → (∀ r ∈ (ipcLogBackup env fs).2, r = true) →
      Shifted ipcLogFile ipcLogNum fs (ipcLogBackup env fs).1) := by
  refine ⟨fun k path hk hresults => shifted_rotate hk hsame hresults, fun hlocked hresults => ?_⟩
  have heq : ipcLogBackup env fs = rotate env ipcLogNum ipcLogFile fs := by
    rw [ipcLogBackup, hlocked]
    rfl
  rw [heq] at hresults ⊢
  exact shifted_rotate (by decide) hsame hresults

/-- Three backups of the file `a`, of which the second one is missing. -/
def gappedFiles : FileSystem ℕ := fun x =>
  if x = ['a'] then some 10
  else if x = backupName ['a'] 0 then some 11
  else if x = backupName ['a'] 2 then some 13
  else none

/-- The oldest one is kept, since there is none to take its place. -/
theorem generations_shifted_sample :
    (genericLogBackup ⟨true, ['a'], ['a'], fun _ _ => false⟩ 3 ['a'] gappedFiles).1
        (backupName ['a'] 1) = some 11 ∧
      (genericLogBackup ⟨true, ['a'], ['a'], fun _ _ => false⟩ 3 ['a'] gappedFiles).1
        (backupName ['a'] 2) = some 13 := by
  have hresults : (genericLogBackup ⟨true, ['a'], ['a'], fun _ _ => false⟩ 3 ['a'] gappedFiles).2 =
      [true, true] := by decide +kernel
  have h := (generations_shifted ⟨true, ['a'], ['a'], fun _ _ => false⟩ rfl gappedFiles).1 3 ['a']
    (by decide) (by rw [hresults]; simp)
  have h0 : gappedFiles (backupName ['a'] 0) = some 11 := by decide +kernel
  have h1 : gappedFiles (backupName ['a'] 1) = none := by decide +kernel
  have h2 : gappedFiles (backupName ['a'] 2) = some 13 := by decide +kernel
  refine ⟨?_, ?_⟩
  · rw [h.shifted 0 (by decide) (by rw [h0]; rfl), h0]
  · rw [h.oldest 1 rfl h1, h2]

end Shifted

end LinuxC.LogBackup
