import LinuxC.Common.Logging
import Mathlib

/-!
# How long a log becomes (`common/generic_log.c`, `ipc/ipc_log.c`)

A task looks at the length of the log behind its own line, so that every task can write behind the
limit once before it goes to rename the file.  It finds the file renamed or renames it, and cannot
open it again: so it is counted once for every file (`Short`).  A task that ends on the way, or does
not get the lock, has been counted for nothing, and its place may be taken by another one.
-/

namespace LinuxC.LogBackup

variable {T : Type}

lemma length_logFormat {lineMax : ℕ} (hmax : 0 < lineMax) (text : List UInt8) :
    (logFormat lineMax text).length ≤ lineMax := by
  unfold logFormat
  split_ifs with h
  · rw [List.length_append, List.length_take, List.length_singleton]
    omega
  · omega

/-- The task has written to the file behind the limit and is on its way to rename it. -/
def Task.Spent (i : ℕ) : Task → Prop
  | .truncating io | .locking io | .linking io _ | .resolving io _ _ => io = i
  | .moving io _ _ _ | .found io _ _ _ => io = i
  | .idle | .opened _ _ | .unlocking _ => False

/-- The file is not the newest one any more. -/
structure Gone (c : Setup) (s : System T) (i : ℕ) : Prop where
  known : i < s.files.length
  name : s.fs c.path ≠ some i

/-- The task writes to the file `i` no more before the file has lost its name. -/
def Task.Done (c : Setup) (s : System T) (i : ℕ) (p : Task) : Prop :=
  p.Spent i ∨ Gone c s i ∧ ∀ line, p ≠ .opened i line

/-- What is known of a task, beside `Task.Ok`. -/
structure Task.Sees (c : Setup) (s : System T) (p : Task) : Prop where
  line : ∀ io line, p = .opened io line → line.length ≤ c.lineMax
  known : ∀ io, p.Spent io → io < s.files.length
  link : ∀ io held link, p = .resolving io held link → link ≠ c.path → s.fs c.path ≠ some io

/-- The lengths of the files, when `d` tasks have failed or ended. -/
structure Short (c : Setup) (d : ℕ) (s : System T) : Prop extends Kept c s where
  sees : ∀ t, Task.Sees c s (s.task t)
  short : ∀ i, ∃ S : Finset T, (s.content i).length ≤ c.fileSize + c.lineMax * (S.card + d) ∧
    ∀ t ∈ S, Task.Done c s i (s.task t)

/-- The moves that are counted. -/
def Move.failures : Move T → ℕ
  | .fail _ | .die _ => 1
  | .log _ _ | .go _ => 0

section Short

variable {c : Setup} {s s' : System T} {t u : T} {p : Task} {es : List (LogEvent T)} {io i d : ℕ}

lemma Task.Sees.frame (h : Task.Sees c s p) (hgone : ∀ i, Gone c s i → Gone c s' i)
    (hfiles : s.files.length ≤ s'.files.length) : Task.Sees c s' p where
  line := h.line
  known io hio := lt_of_lt_of_le (h.known io hio) hfiles
  link io held link hp hlink :=
    (hgone io ⟨h.known io (by rw [hp]; rfl), h.link io held link hp hlink⟩).name

lemma Task.Done.frame (h : Task.Done c s i p) (hgone : Gone c s i → Gone c s' i) :
    Task.Done c s' i p :=
  h.imp_right fun hd => ⟨hgone hd.1, hd.2⟩

variable [DecidableEq T]

/-- **A step that writes nothing.** -/
lemma Short.moved (h : Short c d s) (hkept : Kept c (s'.at t p)) (htask : s'.task = s.task)
    (hfiles : s.files.length ≤ s'.files.length) (hcontent : ∀ i, s'.content i = s.content i)
    (hgone : ∀ i, Gone c s i → Gone c s' i) (hsees : Task.Sees c s' p)
    (hdone : ∀ i, Task.Done c s i (s.task t) → Task.Done c s' i p) : Short c d (s'.at t p) := by
  refine ⟨hkept, fun u => ?_, fun i => ?_⟩
  · by_cases hu : u = t
    · rw [hu, System.at_task_self]
      exact ⟨hsees.line, hsees.known, hsees.link⟩
    · rw [System.at_task_of_ne hu, htask]
      have hu' := (h.sees u).frame hgone hfiles
      exact ⟨hu'.line, hu'.known, hu'.link⟩
  · obtain ⟨S, hlen, hS⟩ := h.short i
    refine ⟨S, by rw [← hcontent i] at hlen; exact hlen, fun u hu => ?_⟩
    by_cases hut : u = t
    · rw [hut, System.at_task_self]
      exact (hdone i (hut ▸ hS u hu)).imp_right fun hd => ⟨⟨hd.1.known, hd.1.name⟩, hd.2⟩
    · rw [System.at_task_of_ne hut, htask]
      exact ((hS u hu).frame (hgone i)).imp_right fun hd => ⟨⟨hd.1.known, hd.1.name⟩, hd.2⟩

lemma Short.lost (h : Short c d s) (hkept : Kept c (s'.at t p)) (htask : s'.task = s.task)
    (hfiles : s'.files = s.files) (hfs : s'.fs = s.fs) (hp : ∀ io, ¬ p.Spent io)
    (hline : ∀ io line, p ≠ .opened io line) (hlink : ∀ io held link, p ≠ .resolving io held link) :
    Short c (d + 1) (s'.at t p) := by
  have hgone : ∀ i, Gone c s i → Gone c (s'.at t p) i := fun i hi =>
    ⟨by rw [System.at_files, hfiles]; exact hi.known, by rw [System.at_fs, hfs]; exact hi.name⟩
  refine ⟨hkept, fun u => ?_, fun i => ?_⟩
  · by_cases hu : u = t
    · rw [hu, System.at_task_self]
      exact ⟨fun io line hl => absurd hl (hline io line), fun io hio => absurd hio (hp io),
        fun io held link hl => absurd hl (hlink io held link)⟩
    · rw [System.at_task_of_ne hu, htask]
      exact (h.sees u).frame hgone (by rw [System.at_files, hfiles])
  · obtain ⟨S, hlen, hS⟩ := h.short i
    refine ⟨S.erase t, ?_, fun u hu => ?_⟩
    · have hcard : S.card ≤ (S.erase t).card + 1 := by
        have := Finset.pred_card_le_card_erase (s := S) (a := t)
        omega
      have hmul := Nat.mul_le_mul_left c.lineMax
        (show S.card + d ≤ (S.erase t).card + (d + 1) by omega)
      have hcontent : (s'.at t p).content i = s.content i := by
        rw [System.content, System.at_files, hfiles, System.content]
      rw [hcontent]
      omega
    · obtain ⟨hut, hu⟩ := Finset.mem_erase.mp hu
      rw [System.at_task_of_ne hut, htask]
      exact (hS u hu).frame (hgone i)

/-- **A call of the log function begins**, with a file that is not gone. -/
lemma Short.fopen (h : Short c d s) {line : List UInt8} (hline : line.length ≤ c.lineMax)
    (hidle : s.task t = .idle) :
    let r := s.fopen c.path
    Short c d (r.2.at t (.opened r.1 line)) := by
  have hkept := (@Kept.fopen T c s t _ h.toKept line).1
  obtain ⟨hfiles, hcontent⟩ := System.fopen_files c.path s
  cases hpath : s.fs c.path with
  | some io =>
      have hr : s.fopen c.path = (io, s) := by simp [System.fopen, hpath]
      rw [hr] at hkept ⊢
      refine h.moved hkept rfl le_rfl (fun _ => rfl) (fun _ => id)
        ⟨fun _ _ hl => ?_, fun _ hio => hio.elim, by simp⟩ fun i hd => ?_
      · cases hl
        exact hline
      · rw [hidle] at hd
        obtain hd | ⟨hgone, -⟩ := hd
        · exact hd.elim
        · refine .inr ⟨hgone, fun l hl => hgone.name ?_⟩
          cases hl
          exact hpath
  | none =>
      set s₁ : System T := { s with
        fs := Function.update s.fs c.path (some s.files.length), files := s.files ++ [[]] } with hs₁
      have hr : s.fopen c.path = (s.files.length, s₁) := by simp [System.fopen, hpath, hs₁]
      rw [hr] at hkept hfiles hcontent ⊢
      have hname : s₁.fs c.path = some s.files.length := Function.update_self ..
      have hlen : s₁.files.length = s.files.length + 1 := by simp [hs₁]
      have hgone : ∀ i, Gone c s i → Gone c s₁ i := fun i hi =>
        ⟨by have := hi.known; omega, fun h' => by
          have hlt := hi.known
          rw [hname] at h'
          obtain rfl := Option.some.inj h'
          omega⟩
      refine h.moved hkept rfl hfiles hcontent hgone
        ⟨fun _ _ hl => ?_, fun _ hio => hio.elim, by simp⟩ fun i hd => ?_
      · cases hl
        exact hline
      · rw [hidle] at hd
        obtain hd | ⟨hi, -⟩ := hd
        · exact hd.elim
        · refine .inr ⟨hgone i hi, fun l hl => ?_⟩
          have hlt := hi.known
          cases hl
          omega

/-- **A line is written**: the task is counted from now on if it sees that the file is too long. -/
lemma Short.write (h : Short c d s) (hk : 0 < c.fileBakup) {line text : List UInt8}
    (hplace : s.task t = .opened io line) (htext : text = s.content io ++ line) :
    let next : Task :=
      if c.fileSize < text.length then
        if 0 < c.fileBakup then .locking io else .truncating io
      else .idle
    Short c d ({ s with files := s.files.set io text }.at t next) := by
  intro next
  have hio : io < s.files.length := by
    have ht := h.tasks t
    rwa [hplace] at ht
  have hline := (h.sees t).line io line hplace
  set s₁ : System T := { s with files := s.files.set io text } with hs₁
  have hkept : Kept c (s₁.at t next) := (h.toKept.write hk hio htext).1
  have hlength : s₁.files.length = s.files.length := List.length_set ..
  have hgone : ∀ i, Gone c s i → Gone c (s₁.at t next) i := fun i hi =>
    ⟨by rw [System.at_files, hlength]; exact hi.known, hi.name⟩
  have hnext : next = if c.fileSize < text.length then .locking io else .idle := by
    simp only [next, if_pos hk]
  have hopened : ∀ j l, next ≠ .opened j l := by
    intro j l
    rw [hnext]
    split_ifs <;> exact Task.noConfusion
  refine ⟨hkept, fun u => ?_, fun i => ?_⟩
  · by_cases hu : u = t
    · rw [hu, System.at_task_self]
      refine ⟨fun j l hl => absurd hl (hopened j l), fun j hj => ?_, fun j held link hl => ?_⟩
      · rw [System.at_files, hlength]
        rw [hnext] at hj
        split_ifs at hj
        · exact hj ▸ hio
        · exact hj.elim
      · rw [hnext] at hl
        split_ifs at hl
    · rw [System.at_task_of_ne hu]
      exact (h.sees u).frame hgone (by rw [System.at_files, hlength])
  · obtain ⟨S, hlen, hS⟩ := h.short i
    -- the task was not counted for the file that it had open
    have hnot : ∀ u ∈ S, Task.Done c s i (s.task u) → u = t → i ≠ io := by
      rintro u - hd rfl rfl
      rw [hplace] at hd
      obtain hd | ⟨-, hd⟩ := hd
      · exact hd.elim
      · exact hd line rfl
    have hothers : ∀ u ∈ S, u ≠ t → Task.Done c (s₁.at t next) i ((s₁.at t next).task u) := by
      intro u hu hut
      rw [System.at_task_of_ne hut]
      exact (hS u hu).frame (hgone i)
    by_cases hi : i = io
    · have hcontent : (s₁.at t next).content i = text := by
        simp [System.content, hs₁, hi, hio]
      rw [hcontent]
      by_cases hlong : c.fileSize < text.length
      · have ht : t ∉ S := fun hmem => hnot t hmem (hS t hmem) rfl hi
        refine ⟨insert t S, ?_, fun u hu => ?_⟩
        · rw [Finset.card_insert_of_notMem ht, htext, ← hi, List.length_append,
            show S.card + 1 + d = S.card + d + 1 by omega, Nat.mul_succ]
          omega
        · by_cases hut : u = t
          · rw [hut, System.at_task_self, hnext, if_pos hlong]
            exact .inl hi.symm
          · exact hothers u (Finset.mem_of_mem_insert_of_ne hu hut) hut
      · exact ⟨∅, by rw [Finset.card_empty]; omega, by simp⟩
    · have hcontent : (s₁.at t next).content i = s.content i := by
        simp [System.content, hs₁, Ne.symm hi]
      refine ⟨S, by rw [hcontent]; exact hlen, fun u hu => ?_⟩
      by_cases hut : u = t
      · have hd := hS u hu
        rw [hut, hplace] at hd
        rw [hut, System.at_task_self]
        obtain hd | ⟨hd, -⟩ := hd
        · exact hd.elim
        · exact .inr ⟨hgone i hd, hopened i⟩
      · exact hothers u hu hut

/-- **A task makes its next call.** -/
lemma Short.go (h : Short c d s) (hk : 0 < c.fileBakup) (hstep : logGo c s t = some (s', es)) :
    Short c d s' := by
  have hkept := (h.toKept.go hk hstep).1
  have ht := h.tasks t
  have hsees := h.sees t
  cases hplace : s.task t with
  | idle => simp [logGo, hplace] at hstep
  | opened io line =>
      simp only [logGo, hplace] at hstep
      obtain ⟨rfl, rfl⟩ := Prod.mk.inj (Option.some.inj hstep)
      exact h.write hk hplace rfl
  | truncating io =>
      rw [hplace] at ht
      exact absurd ht hk.ne'
  | locking io =>
      have hknown := hsees.known io (by rw [hplace]; rfl)
      simp only [logGo, hplace] at hstep
      split_ifs at hstep with howner
      obtain ⟨rfl, rfl⟩ := Prod.mk.inj (Option.some.inj hstep)
      refine h.moved hkept rfl le_rfl (fun _ => rfl) (fun i hi => ⟨hi.known, hi.name⟩)
        ⟨by simp, fun j hj => hj ▸ hknown, by simp⟩ fun i hd => ?_
      rw [hplace] at hd
      exact hd.imp_right fun hd => ⟨⟨hd.1.known, hd.1.name⟩, by simp⟩
  | linking io held =>
      have hknown := hsees.known io (by rw [hplace]; rfl)
      simp only [logGo, hplace] at hstep
      obtain ⟨rfl, rfl⟩ := Prod.mk.inj (Option.some.inj hstep)
      refine h.moved hkept rfl le_rfl (fun _ => rfl) (fun i hi => hi)
        ⟨by simp, fun j hj => hj ▸ hknown, fun j held link hl hlink hname => ?_⟩ fun i hd => ?_
      · cases hl
        exact hlink (linkOf_eq_path.mpr hname)
      · rw [hplace] at hd
        exact hd.imp_right fun hd => ⟨hd.1, by simp⟩
  | resolving io held link =>
      have hknown := hsees.known io (by rw [hplace]; rfl)
      simp only [logGo, hplace] at hstep
      split_ifs at hstep with hlink
      · obtain ⟨rfl, rfl⟩ := Prod.mk.inj (Option.some.inj hstep)
        refine h.moved hkept rfl le_rfl (fun _ => rfl) (fun i hi => hi)
          ⟨by simp, fun j hj => hj.elim, by simp⟩ fun i hd => ?_
        rw [hplace] at hd
        obtain rfl | ⟨hgone, -⟩ := hd
        · exact .inr ⟨⟨hknown, hsees.link _ held link hplace hlink⟩, by simp⟩
        · exact .inr ⟨hgone, by simp⟩
      · obtain ⟨rfl, rfl⟩ := Prod.mk.inj (Option.some.inj hstep)
        refine h.moved hkept rfl le_rfl (fun _ => rfl) (fun i hi => hi)
          ⟨by simp, fun j hj => hj ▸ hknown, by simp⟩ fun i hd => ?_
        rw [hplace] at hd
        exact hd.imp_right fun hd => ⟨hd.1, by simp⟩
  | moving io held i b =>
      have hknown := hsees.known io (by rw [hplace]; rfl)
      rw [hplace] at ht
      obtain ⟨hlock, hlooks⟩ := ht
      cases i with
      | zero =>
          simp only [logGo, hplace] at hstep
          obtain ⟨rfl, rfl⟩ := Prod.mk.inj (Option.some.inj hstep)
          obtain ⟨hfiles, -, htask⟩ := System.rename_eq c.path (b.file b.n) s
          have hname : (s.rename c.path (b.file b.n)).fs c.path = none := by
            rw [System.rename_fs, if_pos hlooks.path, hlooks.name, FileSystem.move,
              if_neg path_ne_backupName, if_pos rfl]
          have hgone : ∀ i < s.files.length, Gone c (s.rename c.path (b.file b.n)) i :=
            fun i hi => ⟨hfiles ▸ hi, by rw [hname]; exact Option.some_ne_none i |>.symm⟩
          refine h.moved hkept htask (hfiles ▸ le_rfl) (fun i => by rw [System.content, hfiles]; rfl)
            (fun i hi => hgone i hi.known) ⟨by simp, fun j hj => hj.elim, by simp⟩ fun i hd => ?_
          rw [hplace] at hd
          obtain rfl | ⟨hd, -⟩ := hd
          · exact .inr ⟨hgone _ hknown, by simp⟩
          · exact .inr ⟨hgone i hd.known, by simp⟩
      | succ i =>
          simp only [logGo, hplace] at hstep
          obtain ⟨rfl, rfl⟩ := Prod.mk.inj (Option.some.inj hstep)
          refine h.moved hkept rfl le_rfl (fun _ => rfl) (fun i hi => hi) ⟨?_, ?_, ?_⟩ fun j hd => ?_
          · intro j l hl
            split_ifs at hl
          · intro j hj
            split_ifs at hj <;> exact hj ▸ hknown
          · intro j held link hl
            split_ifs at hl
          · rw [hplace] at hd
            refine hd.imp (fun hd => ?_) fun hd => ⟨hd.1, fun l hl => ?_⟩
            · split_ifs <;> exact hd
            · split_ifs at hl
  | found io held i b =>
      have hknown := hsees.known io (by rw [hplace]; rfl)
      rw [hplace] at ht
      obtain ⟨hlock, hfinds⟩ := ht
      simp only [logGo, hplace] at hstep
      obtain ⟨rfl, rfl⟩ := Prod.mk.inj (Option.some.inj hstep)
      obtain ⟨hfiles, -, htask⟩ := System.rename_eq (b.file b.n) (b.file !b.n) s
      have hname : (s.rename (b.file b.n) (b.file !b.n)).fs c.path = s.fs c.path := by
        rw [System.rename_fs, hfinds.src, hfinds.dst]
        split_ifs
        · rw [FileSystem.move, if_neg path_ne_backupName, if_neg path_ne_backupName]
        · rfl
      have hgone : ∀ i, Gone c s i → Gone c (s.rename (b.file b.n) (b.file !b.n)) i :=
        fun i hi => ⟨hfiles ▸ hi.known, hname ▸ hi.name⟩
      refine h.moved hkept htask (hfiles ▸ le_rfl) (fun i => by rw [System.content, hfiles]; rfl)
        hgone ⟨by simp, fun j hj => hfiles ▸ hj ▸ hknown, by simp⟩ fun j hd => ?_
      rw [hplace] at hd
      exact hd.imp_right fun hd => ⟨hgone j hd.1, by simp⟩
  | unlocking held =>
      rw [hplace] at ht
      simp only [logGo, hplace] at hstep
      obtain ⟨rfl, rfl⟩ := Prod.mk.inj (Option.some.inj hstep)
      rw [if_pos ht.1] at hkept ⊢
      obtain ⟨hfs, hfiles, htask⟩ := System.release_eq t s
      have hgone : ∀ i, Gone c s i → Gone c (s.release t) i :=
        fun i hi => ⟨hfiles ▸ hi.known, hfs ▸ hi.name⟩
      refine h.moved hkept htask (hfiles ▸ le_rfl) (fun i => by rw [System.content, hfiles]; rfl)
        hgone ⟨by simp, fun j hj => hj.elim, by simp⟩ fun i hd => ?_
      rw [hplace] at hd
      obtain hd | ⟨hd, -⟩ := hd
      · exact hd.elim
      · exact .inr ⟨hgone i hd, by simp⟩

/-- **A step.** -/
lemma Short.step (h : Short c d s) (hk : 0 < c.fileBakup) (hmax : 0 < c.lineMax) {m : Move T}
    (hfits : m.Fits c s) (hstep : logStep c s m = some (s', es)) :
    Short c (d + m.failures) s' := by
  have hkept := (h.toKept.step hk hfits hstep).1
  cases m with
  | log t text =>
      simp only [logStep] at hstep
      split at hstep
      · next hidle =>
          obtain ⟨rfl, rfl⟩ := Prod.mk.inj (Option.some.inj hstep)
          exact h.fopen (length_logFormat hmax text) hidle
      · cases hstep
  | go t => exact h.go hk hstep
  | fail t =>
      obtain ⟨hlocked, io, hplace⟩ := hfits
      simp only [logStep, logFail, hplace, hlocked] at hstep
      obtain ⟨rfl, rfl⟩ := Prod.mk.inj (Option.some.inj hstep)
      exact h.lost hkept rfl rfl rfl (fun _ => id) (by simp) (by simp)
  | die t =>
      obtain ⟨rfl, rfl⟩ := Prod.mk.inj (Option.some.inj hstep)
      obtain ⟨hfs, hfiles, htask⟩ := System.release_eq t s
      exact h.lost hkept htask hfiles hfs (fun _ => id) (by simp) (by simp)

lemma Short.run (h : Short c d s) (hk : 0 < c.fileBakup) (hmax : 0 < c.lineMax)
    {ms : List (Move T)} (hfits : Along (logStep c) (fun s m => m.Fits c s) ms s)
    (hrun : LinuxC.run (logStep c) ms s = some (s', es)) :
    Short c (d + (ms.map Move.failures).sum) s' := by
  induction ms generalizing s d es with
  | nil =>
      obtain ⟨rfl, rfl⟩ := Prod.mk.inj (Option.some.inj hrun)
      exact h
  | cons m ms ih =>
      obtain ⟨s₁, es₁, es₂, hstep, hrest, rfl⟩ := run_cons.mp hrun
      have hend := ih (h.step hk hmax hfits.1 hstep) (hfits.2 s₁ es₁ hstep) hrest
      rwa [Nat.add_assoc, ← List.sum_cons, ← List.map_cons] at hend

end Short

/-- **No file becomes much longer than the limit**: by one line for every task, and by one for every
time that a task ends or does not get the lock, wherever the tasks stop for the others to go on. -/
theorem log_bounded {c : Setup} (hk : 0 < c.fileBakup) (hmax : 0 < c.lineMax) [DecidableEq T]
    [Fintype T] {s s' : System T}
    (hnames : numbers c.path c.fileBakup s.fs <+: (List.range s.files.length).reverse)
    (hidle : ∀ t, s.task t = .idle) (hshort : ∀ i, (s.content i).length ≤ c.fileSize)
    {ms : List (Move T)} {es : List (LogEvent T)}
    (hfits : Along (logStep c) (fun s m => m.Fits c s) ms s)
    (hrun : run (logStep c) ms s = some (s', es)) (i : ℕ) :
    (s'.content i).length ≤
      c.fileSize + c.lineMax * (Fintype.card T + (ms.map Move.failures).sum) := by
  have hstart : Short c 0 s := by
    refine ⟨⟨hnames, fun t => by rw [hidle t]; trivial⟩, fun t => ?_,
      fun i => ⟨∅, (hshort i).trans (Nat.le_add_right _ _), by simp⟩⟩
    rw [hidle t]
    exact ⟨by simp, fun _ hio => hio.elim, by simp⟩
  obtain ⟨S, hlen, -⟩ := (hstart.run hk hmax hfits hrun).short i
  have hcard := Nat.mul_le_mul_left c.lineMax
    (Nat.add_le_add_right S.card_le_univ (0 + (ms.map Move.failures).sum))
  rw [Nat.zero_add] at hlen hcard
  omega

/-- Two tasks, of which one has ended. -/
theorem log_bounded_sample : ∃ (s : System Bool) (es : List (LogEvent Bool)),
    run (logStep sampleSetup) sampleMoves sampleSystem = some (s, es) ∧
      (s.content 0).length ≤ 2 + 1024 * (2 + 1) := by
  have heval : (run (logStep sampleSetup) sampleMoves sampleSystem).isSome = true := by
    decide +kernel
  obtain ⟨⟨s, es⟩, hrun⟩ := Option.isSome_iff_exists.mp heval
  have hempty : ∀ i, (sampleSystem.content i).length ≤ sampleSetup.fileSize := by
    simp [System.content, sampleSystem]
  exact ⟨s, es, hrun, log_bounded (by decide) (by decide) (by decide) (fun _ => rfl) hempty
    sampleMoves_fit hrun 0⟩

end LinuxC.LogBackup
