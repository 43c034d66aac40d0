import LinuxC.Mcd.Guard

/-!
# The file of guarded programs (`sample/mc-daemon/mc_guard.c`)

`mc_guard_conf_append` reads the programs that are guarded from a file: in each line the name of a
program, its command line and maybe a file with its pid.  A tab stands behind the name and behind
the command line; a line without tabs is cut at its first blank.  Lines without a name or a command
line are skipped.  `fgets` reads a line in pieces when it does not fit into the buffer.

Memory is there, so that `calloc` and `strdup` succeed.
-/

namespace LinuxC.Mcd.Guards

/-! ## The code -/

/-- The buffer of `mc_guard_conf_append`. -/
def confBufSize : ℕ := (mcClientCmdlineLen + 1) * 2 + 256

/-- `fgets`: what is read, and the rest of the file. -/
def fgets (size : ℕ) (file : List UInt8) : Option (List UInt8 × List UInt8) :=
  if file = [] then none
  else
    let line := (file.take (size - 1)).takeWhile (· ≠ 10)
    let n := if line.length < (file.take (size - 1)).length then line.length + 1 else line.length
    some (file.take n, file.drop n)

/-- `mc_guard_skip_spaces`. -/
def skipSpaces (string : List UInt8) : List UInt8 := string.dropWhile fun b => b = 32 || b = 9

/-- The loop over the spaces in front of the first tab; the first byte of a name stays. -/
def trimSpaces : List UInt8 → List UInt8
  | [] => []
  | b :: bs => b :: (bs.reverse.dropWhile (· = 32)).reverse

/-- The name and what stands behind it. -/
def splitName (name : List UInt8) : Option (List UInt8 × List UInt8) :=
  if 9 ∈ name then
    some (trimSpaces (name.takeWhile (· ≠ 9)), (name.dropWhile (· ≠ 9)).tail)
  else if 32 ∈ name then some (name.takeWhile (· ≠ 32), (name.dropWhile (· ≠ 32)).tail)
  else none

/-- The loop over the command line: each tab gets a zero, and `pidfile` is behind the last one. -/
def splitCmdline (cmdline : List UInt8) : List UInt8 × Option (List UInt8) :=
  let line := cmdline.takeWhile fun b => !(b = 10 || b = 13)
  (line.takeWhile (· ≠ 9),
    if 9 ∈ line then some ((line.reverse.takeWhile (· ≠ 9)).reverse) else none)

/-- The body of the loop: the guard of a line, if there is one. -/
def confLine (buf : List UInt8) : Option McGuard :=
  (splitName (skipSpaces (cString buf))).bind fun r =>
    if r.1 = [] then none
    else
      let fields := splitCmdline (skipSpaces r.2)
      if fields.1 = [] then none
      else
        let pidfile := fields.2.bind fun p =>
          if skipSpaces p = [] then none else some (skipSpaces p)
        some ⟨true, r.1, fields.1, pidfile, 0, .new⟩

/-- The loop of `mc_guard_conf_append`. -/
def confLoop : ℕ → List UInt8 → List McGuard
  | 0, _ => []
  | fuel + 1, file =>
      match fgets confBufSize file with
      | none => []
      | some (buf, rest) => (confLine buf).toList ++ confLoop fuel rest

def mcGuardConfAppend (file : List UInt8) (guards : List McGuard) : List McGuard :=
  guards ++ confLoop (file.length + 1) file

/-! ## Files that are put together -/

/-- Spaces between two fields. -/
def Gap (gap : List UInt8) : Prop := ∀ b ∈ gap, b = 32 ∨ b = 9

/-- A field of a line: it does not start with a space, and has no byte with a meaning. -/
def Field (field : List UInt8) : Prop :=
  (∃ b bs, field = b :: bs ∧ b ≠ 32) ∧ ∀ b ∈ field, b ≠ 0 ∧ b ≠ 9 ∧ b ≠ 10 ∧ b ≠ 13

/-- A line of the file. -/
inductive ConfLine
  /-- The fields with tabs between them; spaces in front of the first one are ignored. -/
  | tabs (lead name : List UInt8) (pad : ℕ) (gap cmdline : List UInt8)
      (pidfile : Option (List UInt8 × List UInt8))
  /-- A name and a command line with a blank between them. -/
  | blanks (lead name : List UInt8) (pad : ℕ) (cmdline : List UInt8)
  /-- One word, or nothing. -/
  | other (lead word : List UInt8)

namespace ConfLine

/-- The file with the pid: spaces, and its name. -/
def pidfileText : Option (List UInt8 × List UInt8) → List UInt8
  | none => []
  | some (gap, file) => 9 :: (gap ++ file)

/-- The line in the file, without its end. -/
def text : ConfLine → List UInt8
  | tabs lead name pad gap cmdline pidfile =>
      lead ++ (name ++ (List.replicate pad 32 ++ 9 :: (gap ++ (cmdline ++ pidfileText pidfile))))
  | blanks lead name pad cmdline =>
      lead ++ (name ++ (32 :: (List.replicate pad 32 ++ cmdline)))
  | other lead word => lead ++ word

/-- The guard of a line. -/
def guard : ConfLine → Option McGuard
  | tabs _ name _ _ cmdline pidfile =>
      some ⟨true, name, cmdline, pidfile.map Prod.snd, 0, .new⟩
  | blanks _ name _ cmdline => some ⟨true, name, cmdline, none, 0, .new⟩
  | other _ _ => none

/-- A line that can be recognised.  A name in front of a tab does not end with a blank, and one in
front of a blank has no blank in it. -/
def Ok : ConfLine → Prop
  | tabs lead name _ gap cmdline pidfile =>
      Gap lead ∧ (Field name ∧ name.getLast? ≠ some 32) ∧ Gap gap ∧ Field cmdline ∧
        ∀ p, pidfile = some p → Gap p.1 ∧ Field p.2
  | blanks lead name _ cmdline => Gap lead ∧ (Field name ∧ 32 ∉ name) ∧ Field cmdline
  | other lead word => Gap lead ∧ ∀ b ∈ word, b ≠ 0 ∧ b ≠ 9 ∧ b ≠ 10 ∧ b ≠ 32

end ConfLine

/-- A file: lines with their ends, a carriage return in front of the newline or not, and maybe a
last line without an end. -/
structure ConfFile where
  lines : List (ConfLine × Bool)
  last : Option ConfLine

namespace ConfFile

/-- A line with its end. -/
def lineText (l : ConfLine × Bool) : List UInt8 := l.1.text ++ (if l.2 then [13, 10] else [10])

/-- The file. -/
def text (f : ConfFile) : List UInt8 :=
  f.lines.flatMap lineText ++ (f.last.map ConfLine.text).getD []

/-- The guards of a file. -/
def guards (f : ConfFile) : List McGuard :=
  f.lines.filterMap (fun l => l.1.guard) ++ (f.last.bind ConfLine.guard).toList

/-- All lines can be recognised, and fit into the buffer. -/
structure Ok (f : ConfFile) : Prop where
  lines : ∀ l ∈ f.lines, l.1.Ok ∧ (lineText l).length < confBufSize
  last : ∀ l, f.last = some l → l.Ok ∧ l.text.length < confBufSize

end ConfFile

/-! ## One line -/

section Line

variable {name cmdline lead gap rest : List UInt8} {b : UInt8}

lemma dropWhile_append_stop {s : List UInt8} (h : b ∉ s) :
    (s ++ b :: rest).dropWhile (· ≠ b) = b :: rest := by
  have hall : ∀ c ∈ s, decide (c ≠ b) = true := fun c hc => by
    rw [decide_eq_true_eq]
    rintro rfl
    exact h hc
  rw [List.dropWhile_append_of_pos hall, List.dropWhile_cons_of_neg (by simp)]

lemma skipSpaces_gap (hlead : Gap lead) (hrest : ∀ c, rest.head? = some c → c ≠ 32 ∧ c ≠ 9) :
    skipSpaces (lead ++ rest) = rest := by
  have hall : ∀ c ∈ lead, (decide (c = 32) || decide (c = 9)) = true := fun c hc => by
    simpa using hlead c hc
  rw [skipSpaces, List.dropWhile_append_of_pos hall]
  cases rest with
  | nil => rfl
  | cons c cs =>
      obtain ⟨h32, h9⟩ := hrest c rfl
      rw [List.dropWhile_cons_of_neg (by simp [h32, h9])]

lemma Field.head (h : Field name) : ∀ c, (name ++ rest).head? = some c → c ≠ 32 ∧ c ≠ 9 := by
  obtain ⟨⟨d, ds, rfl, hd⟩, hall⟩ := h
  rintro c hc
  obtain rfl : d = c := by simpa using hc
  exact ⟨hd, (hall d List.mem_cons_self).2.1⟩

lemma Field.head_alone (h : Field name) : ∀ c, name.head? = some c → c ≠ 32 ∧ c ≠ 9 := by
  have hhead := @Field.head name [] h
  rwa [List.append_nil] at hhead

lemma Field.not_mem (h : Field name) : 0 ∉ name ∧ 9 ∉ name ∧ 10 ∉ name ∧ 13 ∉ name :=
  ⟨fun hm => (h.2 0 hm).1 rfl, fun hm => (h.2 9 hm).2.1 rfl, fun hm => (h.2 10 hm).2.2.1 rfl,
    fun hm => (h.2 13 hm).2.2.2 rfl⟩

lemma Field.ne_nil (h : Field name) : name ≠ [] := by
  obtain ⟨⟨d, ds, rfl, -⟩, -⟩ := h
  simp

lemma trimSpaces_pad (hne : name ≠ []) (hlast : name.getLast? ≠ some 32) (pad : ℕ) :
    trimSpaces (name ++ List.replicate pad 32) = name := by
  obtain ⟨d, ds, rfl⟩ := List.exists_cons_of_ne_nil hne
  have hall : ∀ c ∈ List.replicate pad (32 : UInt8), decide (c = 32) = true := fun c hc => by
    simp [List.eq_of_mem_replicate hc]
  rw [List.cons_append, trimSpaces, List.reverse_append, List.reverse_replicate,
    List.dropWhile_append_of_pos hall]
  congr 1
  rcases List.eq_nil_or_concat ds with rfl | ⟨es, e, rfl⟩
  · rfl
  · have he : e ≠ 32 := by
      rintro rfl
      refine hlast ?_
      rw [List.concat_eq_append, ← List.cons_append, List.getLast?_concat]
    rw [List.concat_eq_append, List.reverse_append, List.reverse_singleton, List.singleton_append,
      List.dropWhile_cons_of_neg (by simpa using he), List.reverse_cons, List.reverse_reverse]

lemma last_tab {s : List UInt8} (h : 9 ∉ rest) :
    ((s ++ 9 :: rest).reverse.takeWhile (· ≠ 9)).reverse = rest := by
  rw [List.reverse_append, List.reverse_cons, List.append_assoc, List.singleton_append,
    takeWhile_append_stop (by simpa using h), List.reverse_reverse]

/-- The file with the pid, with tabs in front of it or not. -/
lemma skipSpaces_last_tab {s file : List UInt8} (hgap : Gap gap) (hfile : Field file) :
    skipSpaces (((s ++ 9 :: (gap ++ file)).reverse.takeWhile (· ≠ 9)).reverse) = file := by
  by_cases htab : 9 ∈ gap
  · obtain ⟨as, bs, hsplit, hnot⟩ := List.eq_append_cons_of_mem (List.mem_reverse.mpr htab)
    have hgap' : gap = bs.reverse ++ 9 :: as.reverse := by
      rw [← List.reverse_reverse gap, hsplit]
      simp
    have hshape : s ++ 9 :: (gap ++ file) =
        (s ++ 9 :: bs.reverse) ++ 9 :: (as.reverse ++ file) := by
      simp [hgap']
    rw [hshape, last_tab (by simp [hnot, hfile.not_mem.2.1])]
    refine skipSpaces_gap (fun c hc => hgap c ?_) hfile.head_alone
    rw [hgap']
    simp [List.mem_reverse.mp hc]
  · rw [last_tab (by simp [htab, hfile.not_mem.2.1])]
    exact skipSpaces_gap hgap hfile.head_alone

/-- The end of a line. -/
def IsEnd (e : List UInt8) : Prop := e = [] ∨ e = [10] ∨ e = [13, 10]

lemma takeWhile_end {s e : List UInt8} (hs : 10 ∉ s ∧ 13 ∉ s) (he : IsEnd e) :
    (s ++ e).takeWhile (fun b => !(b = 10 || b = 13)) = s := by
  have hall : ∀ c ∈ s, (!(decide (c = 10) || decide (c = 13))) = true := fun c hc => by
    have h10 : c ≠ 10 := fun h => hs.1 (h ▸ hc)
    have h13 : c ≠ 13 := fun h => hs.2 (h ▸ hc)
    simp [h10, h13]
  rw [List.takeWhile_append_of_pos hall]
  rcases he with rfl | rfl | rfl <;> simp

lemma splitCmdline_end {s e : List UInt8} (hs : 10 ∉ s ∧ 13 ∉ s) (he : IsEnd e) :
    splitCmdline (s ++ e) = (s.takeWhile (· ≠ 9),
      if 9 ∈ s then some ((s.reverse.takeWhile (· ≠ 9)).reverse) else none) := by
  simp only [splitCmdline, takeWhile_end hs he]

lemma cString_self {s : List UInt8} (h : 0 ∉ s) : cString s = s := by
  refine List.takeWhile_eq_self_iff.mpr fun b hb => ?_
  rw [decide_eq_true_eq]
  rintro rfl
  exact h hb

lemma Gap.not_zero (h : Gap gap) : 0 ∉ gap := fun hm => by
  rcases h 0 hm with h0 | h0 <;> cases h0

lemma IsEnd.not_mem {e : List UInt8} (h : IsEnd e) : 0 ∉ e ∧ 9 ∉ e ∧ 32 ∉ e := by
  rcases h with rfl | rfl | rfl <;> decide

lemma splitCmdline_text {pidfile : Option (List UInt8 × List UInt8)} {e : List UInt8}
    (hcmdline : Field cmdline) (hpidfile : ∀ p, pidfile = some p → Gap p.1 ∧ Field p.2)
    (he : IsEnd e) :
    (splitCmdline (cmdline ++ (ConfLine.pidfileText pidfile ++ e))).1 = cmdline ∧
      (splitCmdline (cmdline ++ (ConfLine.pidfileText pidfile ++ e))).2.map skipSpaces =
        pidfile.map Prod.snd := by
  obtain ⟨-, h9, h10, h13⟩ := hcmdline.not_mem
  rw [← List.append_assoc]
  cases pidfile with
  | none =>
      rw [ConfLine.pidfileText, List.append_nil, splitCmdline_end ⟨h10, h13⟩ he, if_neg h9]
      refine ⟨List.takeWhile_eq_self_iff.mpr fun b hb => ?_, rfl⟩
      rw [decide_eq_true_eq]
      rintro rfl
      exact h9 hb
  | some p =>
      obtain ⟨gap, file⟩ := p
      obtain ⟨hgap, hfile⟩ := hpidfile _ rfl
      have hmem : ∀ b, b = 10 ∨ b = 13 → b ∉ gap := by
        rintro b hb hm
        rcases hgap b hm with rfl | rfl <;> simp at hb
      have hend : 10 ∉ cmdline ++ 9 :: (gap ++ file) ∧ 13 ∉ cmdline ++ 9 :: (gap ++ file) := by
        simp [h10, h13, hmem, hfile.not_mem]
      rw [ConfLine.pidfileText, splitCmdline_end hend he, if_pos (by simp),
        takeWhile_append_stop h9]
      exact ⟨rfl, congrArg some (skipSpaces_last_tab hgap hfile)⟩

/-- The guard from a name and what stands behind it. -/
lemma confLine_split {buf : List UInt8} {pidfile : Option (List UInt8 × List UInt8)}
    {e : List UInt8} (hzero : 0 ∉ buf) (hname : name ≠ []) (hgap : Gap gap)
    (hcmdline : Field cmdline) (hpidfile : ∀ p, pidfile = some p → Gap p.1 ∧ Field p.2)
    (he : IsEnd e) (hsplit : splitName (skipSpaces buf) =
      some (name, gap ++ (cmdline ++ (ConfLine.pidfileText pidfile ++ e)))) :
    confLine buf = some ⟨true, name, cmdline, pidfile.map Prod.snd, 0, .new⟩ := by
  obtain ⟨hfirst, hsecond⟩ := splitCmdline_text hcmdline hpidfile he
  rw [confLine, cString_self hzero, hsplit, Option.bind_some, if_neg hname,
    skipSpaces_gap hgap hcmdline.head]
  dsimp only
  rw [hfirst, if_neg hcmdline.ne_nil, Option.some.injEq]
  congr 1
  cases hfields : (splitCmdline (cmdline ++ (ConfLine.pidfileText pidfile ++ e))).2 with
  | none => rw [← hsecond, hfields]; rfl
  | some field =>
      rw [hfields] at hsecond
      cases pidfile with
      | none => cases hsecond
      | some p =>
          have hskip : skipSpaces field = p.2 := Option.some.inj hsecond
          rw [Option.bind_some, hskip, if_neg (hpidfile p rfl).2.ne_nil]
          rfl

/-- **A line** gives its guard. -/
lemma confLine_text {l : ConfLine} (hok : l.Ok) {e : List UInt8} (he : IsEnd e) :
    confLine (l.text ++ e) = l.guard := by
  obtain ⟨he0, he9, he32⟩ := he.not_mem
  cases l with
  | tabs lead name pad gap cmdline pidfile =>
      obtain ⟨hlead, ⟨hname, hlast⟩, hgap, hcmdline, hpidfile⟩ := hok
      have hskip : skipSpaces ((ConfLine.tabs lead name pad gap cmdline pidfile).text ++ e) =
          (name ++ List.replicate pad 32) ++
            9 :: (gap ++ (cmdline ++ (ConfLine.pidfileText pidfile ++ e))) := by
        simp only [ConfLine.text, List.append_assoc, List.cons_append]
        exact skipSpaces_gap hlead hname.head
      have htab : 9 ∉ name ++ List.replicate pad 32 := by
        simp [hname.not_mem.2.1, List.mem_replicate]
      have hpid : 0 ∉ ConfLine.pidfileText pidfile := by
        cases pidfile with
        | none => simp [ConfLine.pidfileText]
        | some p =>
            obtain ⟨hp, hfile⟩ := hpidfile p rfl
            simp [ConfLine.pidfileText, hp.not_zero, hfile.not_mem]
      refine confLine_split ?_ hname.ne_nil hgap hcmdline hpidfile he ?_
      · simp [ConfLine.text, hlead.not_zero, hname.not_mem, hgap.not_zero, hcmdline.not_mem, hpid,
          he0, List.mem_replicate]
      · rw [hskip, splitName, if_pos (by simp), takeWhile_append_stop htab,
          dropWhile_append_stop htab, trimSpaces_pad hname.ne_nil hlast, List.tail_cons]
  | blanks lead name pad cmdline =>
      obtain ⟨hlead, ⟨hname, hblank⟩, hcmdline⟩ := hok
      have hskip : skipSpaces ((ConfLine.blanks lead name pad cmdline).text ++ e) =
          name ++ 32 :: (List.replicate pad 32 ++ (cmdline ++ e)) := by
        simp only [ConfLine.text, List.append_assoc, List.cons_append]
        exact skipSpaces_gap hlead hname.head
      have htab : 9 ∉ name ++ 32 :: (List.replicate pad 32 ++ (cmdline ++ e)) := by
        simp [hname.not_mem, hcmdline.not_mem, he9, List.mem_replicate]
      have hgap : Gap (List.replicate pad 32) := fun b hb => .inl (List.eq_of_mem_replicate hb)
      have hnone : ∀ p : List UInt8 × List UInt8, none = some p → Gap p.1 ∧ Field p.2 := by simp
      refine confLine_split ?_ hname.ne_nil hgap hcmdline hnone he ?_
      · simp [ConfLine.text, hlead.not_zero, hname.not_mem, hcmdline.not_mem, he0,
          List.mem_replicate]
      · rw [hskip, splitName, if_neg htab, if_pos (by simp), takeWhile_append_stop hblank,
          dropWhile_append_stop hblank, List.tail_cons]
        rfl
  | other lead word =>
      obtain ⟨hlead, hword⟩ := hok
      have hnot : ∀ b, b = 0 ∨ b = 9 ∨ b = 32 → b ∉ word ++ e := by
        rintro b hb hm
        rcases List.mem_append.mp hm with hm | hm
        · obtain ⟨h0, h9, -, h32⟩ := hword b hm
          rcases hb with rfl | rfl | rfl <;> contradiction
        · rcases hb with rfl | rfl | rfl <;> contradiction
      have hskip : skipSpaces ((ConfLine.other lead word).text ++ e) = word ++ e := by
        rw [ConfLine.text, List.append_assoc]
        refine skipSpaces_gap hlead fun c hc => ⟨?_, ?_⟩
        · rintro rfl
          exact hnot 32 (by simp) (List.mem_of_mem_head? hc)
        · rintro rfl
          exact hnot 9 (by simp) (List.mem_of_mem_head? hc)
      have hzero : 0 ∉ (ConfLine.other lead word).text ++ e := by
        have h0 := hnot 0 (by simp)
        simp only [ConfLine.text, List.append_assoc, List.mem_append] at h0 ⊢
        simp [hlead.not_zero, h0]
      rw [confLine, cString_self hzero, hskip, splitName, if_neg (hnot 9 (by simp)),
        if_neg (hnot 32 (by simp))]
      rfl

end Line

/-! ## The whole file -/

section File

variable {body rest : List UInt8} {size : ℕ}

lemma fgets_line (hbody : 10 ∉ body) (hsize : (body ++ [10]).length < size) :
    fgets size (body ++ 10 :: rest) = some (body ++ [10], rest) := by
  rw [List.length_append, List.length_singleton] at hsize
  have htake : (body ++ 10 :: rest).take (size - 1) =
      body ++ 10 :: rest.take (size - 2 - body.length) := by
    rw [List.take_append, List.take_of_length_le (by omega),
      show size - 1 - body.length = (size - 2 - body.length) + 1 by omega, List.take_succ_cons]
  unfold fgets
  rw [if_neg (by simp)]
  simp only [htake, takeWhile_append_stop hbody]
  rw [if_pos (by simp)]
  simp [List.take_append, List.drop_append]

lemma fgets_last (hne : body ≠ []) (hbody : 10 ∉ body) (hsize : body.length < size) :
    fgets size body = some (body, []) := by
  have htake : body.take (size - 1) = body := List.take_of_length_le (by omega)
  have hself : body.takeWhile (· ≠ 10) = body := by
    refine List.takeWhile_eq_self_iff.mpr fun b hb => ?_
    rw [decide_eq_true_eq]
    rintro rfl
    exact hbody hb
  unfold fgets
  rw [if_neg hne]
  simp only [htake, hself]
  simp

lemma ConfLine.Ok.newline {l : ConfLine} (h : l.Ok) : 10 ∉ l.text := by
  have hgap : ∀ gap, Gap gap → 10 ∉ gap := fun gap hgap hm => by
    rcases hgap 10 hm with h10 | h10 <;> cases h10
  cases l with
  | tabs lead name pad gap cmdline pidfile =>
      obtain ⟨hlead, ⟨hname, -⟩, hmid, hcmdline, hpidfile⟩ := h
      have hpid : 10 ∉ pidfileText pidfile := by
        cases pidfile with
        | none => simp [pidfileText]
        | some p =>
            obtain ⟨hp, hfile⟩ := hpidfile p rfl
            simp [pidfileText, hgap _ hp, hfile.not_mem]
      simp [text, hgap _ hlead, hname.not_mem, hgap _ hmid, hcmdline.not_mem, hpid,
        List.mem_replicate]
  | blanks lead name pad cmdline =>
      obtain ⟨hlead, ⟨hname, -⟩, hcmdline⟩ := h
      simp [text, hgap _ hlead, hname.not_mem, hcmdline.not_mem, List.mem_replicate]
  | other lead word =>
      obtain ⟨hlead, hword⟩ := h
      have hnot : 10 ∉ word := fun hm => (hword 10 hm).2.2.1 rfl
      simp [text, hgap _ hlead, hnot]

lemma confLine_nil_guard {l : ConfLine} (h : l.text = []) : l.guard = none := by
  cases l <;> simp_all [ConfLine.text, ConfLine.guard]

lemma confLoop_nil (fuel : ℕ) : confLoop fuel [] = [] := by
  cases fuel <;> rfl

lemma confLoop_last {l : Option ConfLine}
    (hok : ∀ m, l = some m → m.Ok ∧ m.text.length < confBufSize) (fuel : ℕ) :
    confLoop (fuel + 1) ((l.map ConfLine.text).getD []) = (l.bind ConfLine.guard).toList := by
  cases l with
  | none => exact confLoop_nil _
  | some m =>
      obtain ⟨hm, hlen⟩ := hok m rfl
      rw [Option.map_some, Option.getD_some, Option.bind_some]
      by_cases hne : m.text = []
      · rw [hne, confLoop_nil, confLine_nil_guard hne]
        rfl
      · have hline := confLine_text hm (e := []) (.inl rfl)
        rw [List.append_nil] at hline
        rw [confLoop, fgets_last hne hm.newline hlen]
        dsimp only
        rw [hline, confLoop_nil, List.append_nil]

lemma fgets_lineText {m : ConfLine × Bool} (hm : m.1.Ok)
    (hlen : (ConfFile.lineText m).length < confBufSize) (rest : List UInt8) :
    fgets confBufSize (ConfFile.lineText m ++ rest) = some (ConfFile.lineText m, rest) := by
  obtain ⟨l, cr⟩ := m
  have hnewline := hm.newline
  cases cr with
  | false =>
      rw [ConfFile.lineText, if_neg (by simp)] at hlen ⊢
      rw [List.append_assoc]
      exact fgets_line hnewline hlen
  | true =>
      have hsplit : ConfFile.lineText (l, true) = (l.text ++ [13]) ++ [10] := by
        simp [ConfFile.lineText]
      rw [hsplit] at hlen ⊢
      rw [List.append_assoc _ [10]]
      exact fgets_line (by simp [hnewline]) hlen

/-- **Line after line.** -/
lemma confLoop_lines {ls : List (ConfLine × Bool)} {l : Option ConfLine}
    (hls : ∀ m ∈ ls, m.1.Ok ∧ (ConfFile.lineText m).length < confBufSize)
    (hok : ∀ m, l = some m → m.Ok ∧ m.text.length < confBufSize) (fuel : ℕ) :
    confLoop (ls.length + fuel + 1)
        (ls.flatMap ConfFile.lineText ++ (l.map ConfLine.text).getD []) =
      ls.filterMap (fun m => m.1.guard) ++ (l.bind ConfLine.guard).toList := by
  induction ls with
  | nil => simpa using confLoop_last hok (0 + fuel)
  | cons m ms ih =>
      obtain ⟨hm, hlen⟩ := hls m List.mem_cons_self
      have hend : IsEnd (if m.2 then [13, 10] else [10]) := by
        split_ifs
        · exact .inr (.inr rfl)
        · exact .inr (.inl rfl)
      have hline : confLine (ConfFile.lineText m) = m.1.guard := confLine_text hm hend
      rw [List.flatMap_cons, List.append_assoc, List.length_cons,
        show ms.length + 1 + fuel + 1 = (ms.length + fuel + 1) + 1 by omega, confLoop,
        fgets_lineText hm hlen]
      dsimp only
      rw [hline, ih fun k hk => hls k (List.mem_cons_of_mem _ hk)]
      cases hguard : m.1.guard <;> simp [hguard]

end File

lemma confLoop_file {f : ConfFile} (hok : f.Ok) :
    confLoop (f.text.length + 1) f.text = f.guards := by
  have hlength : f.lines.length ≤ f.text.length := by
    have hlines : ∀ ls : List (ConfLine × Bool),
        ls.length ≤ (ls.flatMap ConfFile.lineText).length := by
      intro ls
      induction ls with
      | nil => simp
      | cons m ms ih =>
          have hm : 1 ≤ (ConfFile.lineText m).length := by
            rw [ConfFile.lineText, List.length_append]
            split_ifs <;> simp
          rw [List.flatMap_cons, List.length_append, List.length_cons]
          omega
    rw [ConfFile.text, List.length_append]
    exact (hlines f.lines).trans (Nat.le_add_right _ _)
  obtain ⟨fuel, hfuel⟩ := Nat.exists_eq_add_of_le hlength
  rw [hfuel, ConfFile.text, confLoop_lines hok.lines hok.last fuel]
  rfl

/-- **The file is read as it was put together**: the programs are appended in their order, with
their names, command lines and pid files. -/
theorem conf_append_file (f : ConfFile) (hok : f.Ok) (guards : List McGuard) :
    mcGuardConfAppend f.text guards = guards ++ f.guards := by
  rw [mcGuardConfAppend, confLoop_file hok]

/-- A line with tabs, a comment and a line with a blank. -/
theorem conf_append_file_sample :
    let f : ConfFile := ⟨[(.tabs [] [100] 1 [9] [100, 32, 45, 120] (some ([32], [47, 112])), true),
      (.other [] [35], false)], some (.blanks [32] [98] 1 [98, 32, 45, 121])⟩
    mcGuardConfAppend f.text [] = [] ++ [⟨true, [100], [100, 32, 45, 120], some [47, 112], 0, .new⟩,
      ⟨true, [98], [98, 32, 45, 121], none, 0, .new⟩] := by
  intro f
  have hok : f.Ok := by
    refine ⟨List.forall_mem_cons.mpr ⟨⟨?_, by decide⟩,
      List.forall_mem_singleton.mpr ⟨?_, by decide⟩⟩, fun l hl => ?_⟩
    · simp [ConfLine.Ok, Gap, Field]
    · simp [ConfLine.Ok, Gap]
    · obtain rfl := Option.some.inj hl
      exact ⟨by simp [ConfLine.Ok, Gap, Field], by decide⟩
  exact conf_append_file f hok []

/-! ## Any file -/

/-- A guard that comes from a file. -/
structure Sound (file : List UInt8) (g : McGuard) : Prop where
  start : g.dynamic = true ∧ g.pid = 0 ∧ g.state = .new
  name : g.name ≠ [] ∧ g.name <:+: file ∧ ∀ b ∈ g.name, b ≠ 0 ∧ b ≠ 9 ∧ b ≠ 10
  cmdline : g.cmdline ≠ [] ∧ g.cmdline <:+: file ∧
    ∀ b ∈ g.cmdline, b ≠ 0 ∧ b ≠ 9 ∧ b ≠ 10 ∧ b ≠ 13
  pidfile : ∀ p, g.pidfile = some p → p ≠ [] ∧ p <:+: file ∧
    ∀ b ∈ p, b ≠ 0 ∧ b ≠ 9 ∧ b ≠ 10 ∧ b ≠ 13

section Any

variable {file buf rest : List UInt8} {size : ℕ} {g : McGuard}

lemma not_mem_takeWhile {s : List UInt8} {b : UInt8} : b ∉ s.takeWhile (· ≠ b) := fun h => by
  simpa using List.mem_takeWhile_imp h

lemma fgets_some (hsize : 2 ≤ size) (h : fgets size file = some (buf, rest)) :
    buf ++ rest = file ∧ rest.length < file.length := by
  unfold fgets at h
  split_ifs at h with hne
  set line := (file.take (size - 1)).takeWhile (· ≠ 10) with hline
  set n := if line.length < (file.take (size - 1)).length then line.length + 1 else line.length
    with hn
  simp only [Option.some.injEq, Prod.mk.injEq] at h
  obtain ⟨rfl, rfl⟩ := h
  have hfile := List.length_pos_of_ne_nil hne
  have htake : (file.take (size - 1)).length = min (size - 1) file.length := List.length_take
  have hpos : 1 ≤ n := by
    rw [hn]
    split_ifs <;> omega
  exact ⟨List.take_append_drop n file, by rw [List.length_drop]; omega⟩

/-- A newline is the last byte of what `fgets` reads. -/
lemma fgets_newline (h : fgets size file = some (buf, rest)) : 10 ∉ buf.dropLast := by
  unfold fgets at h
  split_ifs at h
  set line := (file.take (size - 1)).takeWhile (· ≠ 10) with hline
  simp only [Option.some.injEq, Prod.mk.injEq] at h
  obtain ⟨rfl, -⟩ := h
  have hnot : 10 ∉ line := not_mem_takeWhile
  have hfront : file.take line.length = line :=
    (List.prefix_iff_eq_take.mp ((List.takeWhile_prefix _).trans (List.take_prefix _ _))).symm
  split_ifs with hless
  · have hlen : line.length + 1 ≤ file.length :=
      hless.trans_le (List.length_take.trans_le (min_le_right _ _))
    have hlast : (file.take (line.length + 1)).dropLast = line := by
      rw [List.dropLast_eq_take, List.length_take_of_le hlen, List.take_take]
      simpa using hfront
    rwa [hlast]
  · rw [hfront]
    exact fun hm => hnot (List.dropLast_subset _ hm)

lemma trimSpaces_prefix (name : List UInt8) : trimSpaces name <+: name := by
  cases name with
  | nil => exact List.prefix_refl _
  | cons b bs =>
      have hsuffix :=
        (List.dropWhile_suffix (fun c : UInt8 => decide (c = 32)) (l := bs.reverse)).reverse
      rw [List.reverse_reverse] at hsuffix
      exact (List.prefix_cons_inj b).mpr hsuffix

/-- What stands in front of a byte is not the whole string. -/
lemma takeWhile_prefix_dropLast {s : List UInt8} {b : UInt8} (h : b ∈ s) :
    s.takeWhile (· ≠ b) <+: s.dropLast := by
  have hfront : s.takeWhile (· ≠ b) <+: s := List.takeWhile_prefix _
  have hless : (s.takeWhile (· ≠ b)).length < s.length := by
    refine hfront.length_le.lt_of_ne fun hlen => ?_
    have hall : s.takeWhile (· ≠ b) = s := hfront.eq_of_length hlen
    exact not_mem_takeWhile (hall.symm ▸ h)
  rw [List.dropLast_eq_take]
  exact List.prefix_take_iff.mpr ⟨hfront, by omega⟩

lemma splitName_some {name s : List UInt8} (h : splitName s = some (name, rest)) :
    name <+: s.dropLast ∧ rest <:+ s ∧ 9 ∉ name := by
  unfold splitName at h
  split_ifs at h with htab hblank
  · simp only [Option.some.injEq, Prod.mk.injEq] at h
    obtain ⟨rfl, rfl⟩ := h
    have hfront := trimSpaces_prefix (s.takeWhile (· ≠ 9))
    exact ⟨hfront.trans (takeWhile_prefix_dropLast htab),
      (List.tail_suffix _).trans (List.dropWhile_suffix _),
      fun hm => not_mem_takeWhile (hfront.subset hm)⟩
  · simp only [Option.some.injEq, Prod.mk.injEq] at h
    obtain ⟨rfl, rfl⟩ := h
    exact ⟨takeWhile_prefix_dropLast hblank,
      (List.tail_suffix _).trans (List.dropWhile_suffix _),
      fun hm => htab ((List.takeWhile_prefix _).subset hm)⟩

/-- The fields behind the name are parts of the line. -/
lemma splitCmdline_sound (s : List UInt8) :
    ((splitCmdline s).1 <:+: s ∧ ∀ b ∈ (splitCmdline s).1, b ≠ 9 ∧ b ≠ 10 ∧ b ≠ 13) ∧
      ∀ p, (splitCmdline s).2 = some p → p <:+: s ∧ ∀ b ∈ p, b ≠ 9 ∧ b ≠ 10 ∧ b ≠ 13 := by
  unfold splitCmdline
  dsimp only
  set line := s.takeWhile fun b => !(b = 10 || b = 13) with hline
  have hpart : line <:+: s := (List.takeWhile_prefix _).isInfix
  have hends : ∀ b ∈ line, b ≠ 10 ∧ b ≠ 13 := fun b hb => by
    simpa using List.mem_takeWhile_imp hb
  refine ⟨⟨(List.takeWhile_prefix _).isInfix.trans hpart, fun b hb => ?_⟩, fun p hp => ?_⟩
  · refine ⟨?_, hends b ((List.takeWhile_prefix _).subset hb)⟩
    rintro rfl
    exact not_mem_takeWhile hb
  · split_ifs at hp
    have hsuffix : (line.reverse.takeWhile (· ≠ 9)).reverse <:+ line := by
      have hfront := List.takeWhile_prefix (fun b : UInt8 => decide (b ≠ 9)) (l := line.reverse)
      simpa using hfront.reverse
    rw [← Option.some.inj hp]
    refine ⟨hsuffix.isInfix.trans hpart, fun b hb => ⟨?_, hends b (hsuffix.subset hb)⟩⟩
    rintro rfl
    exact not_mem_takeWhile (List.mem_reverse.mp hb)

lemma confLine_sound (hbuf : 10 ∉ buf.dropLast) (h : confLine buf = some g) : Sound buf g := by
  obtain ⟨⟨name, rest⟩, hsplit, h⟩ := Option.bind_eq_some_iff.mp h
  obtain ⟨hname, hrest, htab⟩ := splitName_some hsplit
  have hstring : skipSpaces (cString buf) <:+: buf :=
    (List.dropWhile_suffix _).isInfix.trans (List.takeWhile_prefix _).isInfix
  have hfront : ∀ b ∈ name, b ∈ skipSpaces (cString buf) := fun b hb =>
    List.dropLast_subset _ (hname.subset hb)
  -- a byte behind the name is in the line, which the newline would end
  have hline : ∀ b ∈ name, b ∈ buf.dropLast := by
    intro b hb
    obtain ⟨xs, ys, hsplit⟩ := hstring
    have hne : skipSpaces (cString buf) ≠ [] := List.ne_nil_of_mem (hfront b hb)
    rw [← hsplit, List.append_assoc, List.dropLast_append_of_ne_nil (by simp [hne])]
    refine List.mem_append_right _ ?_
    rcases eq_or_ne ys [] with rfl | hys
    · rw [List.append_nil]
      exact hname.subset hb
    · rw [List.dropLast_append_of_ne_nil hys]
      exact List.mem_append_left _ (hfront b hb)
  have hzero : ∀ b ∈ skipSpaces (cString buf), b ≠ 0 := by
    rintro b hb rfl
    exact not_mem_takeWhile ((List.dropWhile_suffix _).subset hb)
  dsimp only at h
  split_ifs at h with hne hcmd
  obtain ⟨⟨hcmdline, hcmdline'⟩, hpidfile⟩ := splitCmdline_sound (skipSpaces rest)
  have hskip : skipSpaces rest <:+: skipSpaces (cString buf) :=
    ((List.dropWhile_suffix _).trans hrest).isInfix
  rw [← Option.some.inj h]
  have hpart : name <:+: skipSpaces (cString buf) :=
    (hname.trans (List.dropLast_prefix _)).isInfix
  refine ⟨⟨rfl, rfl, rfl⟩, ⟨hne, hpart.trans hstring, fun b hb => ⟨hzero b (hfront b hb), ?_, ?_⟩⟩,
    ⟨hcmd, (hcmdline.trans hskip).trans hstring, fun b hb =>
      ⟨hzero b ((hcmdline.trans hskip).subset hb), hcmdline' b hb⟩⟩, fun p hp => ?_⟩
  · rintro rfl
    exact htab hb
  · rintro rfl
    exact hbuf (hline 10 hb)
  · obtain ⟨q, hq, hp⟩ := Option.bind_eq_some_iff.mp hp
    obtain ⟨hpart, hbytes⟩ := hpidfile q hq
    split_ifs at hp with hempty
    have hq' : skipSpaces q <:+ q := List.dropWhile_suffix _
    have hin := (hq'.isInfix.trans hpart).trans hskip
    rw [← Option.some.inj hp]
    exact ⟨hempty, hin.trans hstring, fun b hb =>
      ⟨hzero b (hin.subset hb), hbytes b (hq'.subset hb)⟩⟩

lemma Sound.mono (h : Sound buf g) (hpart : buf <:+: file) : Sound file g :=
  ⟨h.start, ⟨h.name.1, h.name.2.1.trans hpart, h.name.2.2⟩,
    ⟨h.cmdline.1, h.cmdline.2.1.trans hpart, h.cmdline.2.2⟩,
    fun p hp => ⟨(h.pidfile p hp).1, (h.pidfile p hp).2.1.trans hpart, (h.pidfile p hp).2.2⟩⟩

lemma confLoop_sound (fuel : ℕ) : ∀ g ∈ confLoop fuel file, Sound file g := by
  induction fuel generalizing file with
  | zero => simp [confLoop]
  | succ fuel ih =>
      intro g hg
      rw [confLoop] at hg
      cases hread : fgets confBufSize file with
      | none => simp [hread] at hg
      | some r =>
          obtain ⟨buf, rest⟩ := r
          obtain ⟨hfile, -⟩ := fgets_some (by decide) hread
          rw [hread] at hg
          rcases List.mem_append.mp hg with hg | hg
          · have hsound := confLine_sound (fgets_newline hread) (Option.mem_toList.mp hg)
            exact hsound.mono (hfile ▸ (List.prefix_append _ _).isInfix)
          · exact (ih g hg).mono (hfile ▸ (List.suffix_append _ _).isInfix)

lemma confLoop_stable {fuel fuel' : ℕ} (h : file.length < fuel) (h' : file.length < fuel') :
    confLoop fuel file = confLoop fuel' file := by
  induction fuel generalizing file fuel' with
  | zero => omega
  | succ fuel ih =>
      obtain ⟨k, rfl⟩ := Nat.exists_eq_add_of_le' (show 1 ≤ fuel' by omega)
      rw [confLoop, confLoop]
      cases hread : fgets confBufSize file with
      | none => rfl
      | some r =>
          obtain ⟨buf, rest⟩ := r
          obtain ⟨-, hlt⟩ := fgets_some (by decide) hread
          dsimp only
          rw [ih (show rest.length < fuel by omega) (show rest.length < k by omega)]

end Any

/-- **Whatever the file holds**, the loop comes to an end, the list is extended at its end, and what
is appended are new programs with a name and a command line that stand in the file, without the
bytes that separate them. -/
theorem conf_append_any (file : List UInt8) (guards : List McGuard) :
    ∃ gs, mcGuardConfAppend file guards = guards ++ gs ∧ (∀ g ∈ gs, Sound file g) ∧
      ∀ fuel, file.length < fuel → confLoop fuel file = gs :=
  ⟨_, rfl, confLoop_sound _, fun _ h => confLoop_stable h (Nat.lt_succ_self _)⟩

end LinuxC.Mcd.Guards
