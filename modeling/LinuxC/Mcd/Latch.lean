import LinuxC.Mcd.Cmdline
import Mathlib.Data.List.TakeWhile

/-!
# Starting a process (`sample/mc-daemon/mc_utils.c`)

`mc_process_latch` starts the process of a client or of a guarded program.  Its line may hold three
commands: one before, the one that matters, and one behind.  They are cut at `;` and `&` by
`strtok_r`; a command is waited for when a second `&` stands behind it.  The result is the process
of the command that matters, which is the second of several, and the first behind a `;`.

What a command does is a parameter: `mcExec` gives the result of `mc_exec` and the world afterwards.
Memory is there, so that `strdup` succeeds.
-/

namespace LinuxC.Mcd

/-! ## The code -/

/-- `-EINVAL`, `-ENOMEM`. -/
def CmdError.errno : CmdError → ℤ
  | einval => -22
  | enomem => -12
  | fuel => 0

/-- `";&"`. -/
def isDelim (b : UInt8) : Bool := b = 59 || b = 38

/-- `strtok_r` with `";&"`: the token, and what `outer` shows afterwards. -/
def strtok (outer : List UInt8) : Option (List UInt8 × List UInt8) :=
  match outer.dropWhile isDelim with
  | [] => none
  | b :: bs =>
      some ((b :: bs).takeWhile fun b => !isDelim b, ((b :: bs).dropWhile fun b => !isDelim b).tail)

/-- The entries of `pid` that are set, what has been executed, and the world. -/
structure Latch (W : Type) where
  pid : List ℤ
  execs : List Exec
  world : W

section Code

variable {W : Type} (mcExec : Exec → W → ℤ × W)

/-- What is returned; nothing, if the entry is not set. -/
def Latch.result (l : Latch W) : Option ℤ := if 1 < l.pid.length then l.pid[1]? else l.pid[0]?

/-- The body of the loop. -/
def latchCommand (l : Latch W) (wait : Bool) (command : List UInt8) : Latch W :=
  match mcExecCmdline wait command with
  | .ok x =>
      let r := mcExec x l.world
      ⟨l.pid ++ [r.1], l.execs ++ [x], r.2⟩
  | .error e => { l with pid := l.pid ++ [e.errno] }

/-- The loop.  It is left after the third entry of `pid` at the latest. -/
def latchLoop : ℕ → List UInt8 → Latch W → Latch W
  | 0, _, l => l
  | room + 1, outer, l =>
      match strtok outer with
      | none => l
      | some (command, outer) =>
          let l' := latchCommand mcExec l (outer.head? = some 38) command
          if 2 ≤ l.pid.length then l' else latchLoop room outer l'

def mcProcessLatch (cmdline : List UInt8) (w : W) : Latch W :=
  -- `-ENOENT`
  latchLoop mcExec 3 cmdline ⟨if cmdline.head? = some 59 then [-2] else [], [], w⟩

end Code

/-! ## Lines of several commands -/

/-- `&&` or `;`. -/
def separator (wait : Bool) : List UInt8 := if wait then [38, 38] else [59]

/-- A command, and others with the separators in front of them. -/
def commandsText (c : Command) : List (Bool × Command) → List UInt8
  | [] => c.text
  | (wait, d) :: cs => c.text ++ (separator wait ++ commandsText d cs)

/-- A command is waited for if `&&` stands behind it. -/
def waits (cs : List (Bool × Command)) : Bool := (cs.head?.map Prod.fst).getD false

/-- What is executed for the commands. -/
def commandsExec (c : Command) : List (Bool × Command) → List Exec
  | [] => [c.exec false]
  | (wait, d) :: cs => c.exec wait :: commandsExec d cs

/-- A command that can be executed as a part of a line. -/
structure Latchable (c : Command) : Prop where
  ok : c.Ok
  places : c.places < argcMax
  delim : ∀ b ∈ c.text, isDelim b = false

/-- The place of the command that matters among those that are executed. -/
def mainPlace (early : Bool) (cs : List (Bool × Command)) : ℕ :=
  if early || cs.isEmpty then 0 else 1

/-- Some executions, one after the other: their results, and the world afterwards. -/
def execAll {W : Type} (mcExec : Exec → W → ℤ × W) : List Exec → W → List ℤ × W
  | [], w => ([], w)
  | x :: xs, w =>
      let r := mcExec x w
      let rs := execAll mcExec xs r.2
      (r.1 :: rs.1, rs.2)

/-! ## The commands are executed -/

section Proofs

variable {W : Type} {mcExec : Exec → W → ℤ × W}

lemma strtok_delim {b : UInt8} {bs : List UInt8} (hb : isDelim b = true) :
    strtok (b :: bs) = strtok bs := by
  rw [strtok, strtok, List.dropWhile_cons_of_pos hb]

lemma Command.text_ne_nil {c : Command} (h : c.Ok) : c.text ≠ [] := by
  have hname := h.name.1
  simp [Command.text, hname]

/-- A token starts with the first byte that is no delimiter. -/
lemma strtok_eq {w bs : List UInt8} (hne : w ≠ []) (hw : ∀ b ∈ w, isDelim b = false) :
    strtok (w ++ bs) =
      some (w ++ bs.takeWhile fun b => !isDelim b, (bs.dropWhile fun b => !isDelim b).tail) := by
  obtain ⟨c, cs, rfl⟩ := List.exists_cons_of_ne_nil hne
  have hstart : ((c :: cs) ++ bs).dropWhile isDelim = (c :: cs) ++ bs := by
    rw [List.cons_append, List.dropWhile_cons_of_neg (by simp [hw c List.mem_cons_self])]
  have hpos : ∀ b ∈ c :: cs, (!isDelim b) = true := fun b hb => by simp [hw b hb]
  unfold strtok
  rw [hstart]
  simp only [List.cons_append]
  rw [← List.cons_append, List.takeWhile_append_of_pos hpos, List.dropWhile_append_of_pos hpos,
    List.cons_append]

lemma strtok_last {w : List UInt8} (hne : w ≠ []) (hw : ∀ b ∈ w, isDelim b = false) :
    strtok w = some (w, []) := by
  have heq := @strtok_eq w [] hne hw
  simpa using heq

lemma strtok_token {w bs : List UInt8} {b : UInt8} (hne : w ≠ [])
    (hw : ∀ b ∈ w, isDelim b = false) (hb : isDelim b = true) :
    strtok (w ++ b :: bs) = some (w, bs) := by
  rw [strtok_eq hne hw, List.takeWhile_cons_of_neg (by simp [hb]),
    List.dropWhile_cons_of_neg (by simp [hb]), List.append_nil, List.tail_cons]

lemma strtok_early {early bs : List UInt8} (h : ∀ b ∈ early, isDelim b = true) :
    strtok (early ++ bs) = strtok bs := by
  induction early with
  | nil => rfl
  | cons b early ih =>
      rw [List.cons_append, strtok_delim (h b List.mem_cons_self),
        ih fun d hd => h d (List.mem_cons_of_mem _ hd)]

/-- What some executions leave behind. -/
def Latch.after (mcExec : Exec → W → ℤ × W) (l : Latch W) (xs : List Exec) : Latch W where
  pid := l.pid ++ (execAll mcExec xs l.world).1
  execs := l.execs ++ xs
  world := (execAll mcExec xs l.world).2

lemma Latch.after_nil (l : Latch W) : l.after mcExec [] = l := by
  simp [Latch.after, execAll]

lemma Latch.after_cons (l : Latch W) (x : Exec) (xs : List Exec) :
    (l.after mcExec [x]).after mcExec xs = l.after mcExec (x :: xs) := by
  simp [Latch.after, execAll]

/-- **One command** of the line. -/
lemma latchCommand_eq {c : Command} (h : Latchable c) (l : Latch W) (wait : Bool) :
    latchCommand mcExec l wait c.text = l.after mcExec [c.exec wait] := by
  rw [latchCommand, cmdline_executed wait c h.ok, if_pos h.places]
  rfl

lemma commandsText_head {cs : List (Bool × Command)} {c : Command} (hc : Latchable c) {b : UInt8}
    (hb : isDelim b = true) : (commandsText c cs).head? ≠ some b := by
  have hhead : (commandsText c cs).head? = c.text.head? := by
    cases cs with
    | nil => rfl
    | cons d ds =>
        rw [commandsText, List.head?_append_of_ne_nil _ (Command.text_ne_nil hc.ok)]
  intro h
  have hdelim := hc.delim b (List.mem_of_mem_head? (hhead ▸ h))
  rw [hb] at hdelim
  cases hdelim

/-- The token of a command in front of others. -/
lemma strtok_commands {d : Bool × Command} {ds : List (Bool × Command)} {c : Command}
    (hc : Latchable c) (hd : Latchable d.2) :
    ∃ early, (∀ b ∈ early, isDelim b = true) ∧
      strtok (commandsText c (d :: ds)) = some (c.text, early ++ commandsText d.2 ds) ∧
      decide ((early ++ commandsText d.2 ds).head? = some 38) = d.1 := by
  obtain ⟨wait, d⟩ := d
  have hne := Command.text_ne_nil hc.ok
  cases wait with
  | true =>
      refine ⟨[38], by simp [isDelim], ?_, by simp⟩
      rw [commandsText, separator, if_pos rfl]
      exact strtok_token hne hc.delim (by simp [isDelim])
  | false =>
      refine ⟨[], by simp, ?_, by simpa using commandsText_head hd rfl⟩
      rw [commandsText, separator, if_neg (by simp)]
      exact strtok_token hne hc.delim (by simp [isDelim])

/-- **The loop over the commands.** -/
lemma latchLoop_commands {cs : List (Bool × Command)} {c : Command} {room : ℕ} {l : Latch W}
    {early : List UInt8} (hc : Latchable c) (hcs : ∀ d ∈ cs, Latchable d.2)
    (hearly : ∀ b ∈ early, isDelim b = true) (hpid : l.pid.length ≤ 2)
    (hroom : 3 ≤ l.pid.length + room) :
    latchLoop mcExec room (early ++ commandsText c cs) l =
      l.after mcExec ((commandsExec c cs).take (3 - l.pid.length)) := by
  induction cs generalizing c room l early with
  | nil =>
      obtain ⟨room, rfl⟩ := Nat.exists_eq_add_of_le' (show 1 ≤ room by omega)
      have hexec : (commandsExec c []).take (3 - l.pid.length) = [c.exec false] :=
        List.take_of_length_le (by simp only [commandsExec, List.length_singleton]; omega)
      have hend : ∀ l', latchLoop mcExec room [] l' = l' := by
        intro l'
        cases room <;> rfl
      rw [latchLoop, strtok_early hearly, commandsText,
        strtok_last (Command.text_ne_nil hc.ok) hc.delim, hexec]
      simp only [List.head?_nil, hend, ite_self]
      exact latchCommand_eq hc l false
  | cons d ds ih =>
      obtain ⟨room, rfl⟩ := Nat.exists_eq_add_of_le' (show 1 ≤ room by omega)
      obtain ⟨early', hearly', hstr, hwait⟩ :=
        @strtok_commands d ds c hc (hcs d List.mem_cons_self)
      have hlen : (l.after mcExec [c.exec d.1]).pid.length = l.pid.length + 1 := by
        simp [Latch.after, execAll]
      have htake : (commandsExec c (d :: ds)).take (3 - l.pid.length) =
          c.exec d.1 :: (commandsExec d.2 ds).take (3 - (l.pid.length + 1)) := by
        rw [show 3 - l.pid.length = (3 - (l.pid.length + 1)) + 1 by omega]
        rfl
      rw [latchLoop, strtok_early hearly, hstr]
      simp only [hwait]
      rw [latchCommand_eq hc, htake,
        ← Latch.after_cons l _ ((commandsExec d.2 ds).take (3 - (l.pid.length + 1))), ← hlen]
      split_ifs with hlast
      -- the third entry: no room is left
      · rw [show 3 - (l.after mcExec [c.exec d.1]).pid.length = 0 by omega, List.take_zero,
          Latch.after_nil]
      · exact ih (hcs d List.mem_cons_self) (fun e he => hcs e (List.mem_cons_of_mem _ he))
          hearly' (by omega) (by omega)

@[simp] lemma length_execAll (xs : List Exec) (w : W) :
    (execAll mcExec xs w).1.length = xs.length := by
  induction xs generalizing w with
  | nil => rfl
  | cons x xs ih => simp [execAll, ih]

lemma length_commandsExec (c : Command) (cs : List (Bool × Command)) :
    (commandsExec c cs).length = cs.length + 1 := by
  induction cs generalizing c with
  | nil => rfl
  | cons d ds ih => simp [commandsExec, ih]

/-- The pid array and the executions for a line of commands. -/
lemma mcProcessLatch_commands {early : Bool} {c : Command} {cs : List (Bool × Command)} (w : W)
    (hc : Latchable c) (hcs : ∀ d ∈ cs, Latchable d.2) :
    mcProcessLatch mcExec ((if early then [59] else []) ++ commandsText c cs) w =
      Latch.after mcExec ⟨if early then [-2] else [], [], w⟩
        ((commandsExec c cs).take (if early then 2 else 3)) := by
  have hloop : ∀ (l : Latch W) (start : List UInt8), l.pid.length ≤ 2 →
      (∀ b ∈ start, isDelim b = true) → latchLoop mcExec 3 (start ++ commandsText c cs) l =
        l.after mcExec ((commandsExec c cs).take (3 - l.pid.length)) :=
    fun l start hpid hstart => latchLoop_commands hc hcs hstart hpid (Nat.le_add_left _ _)
  cases early with
  | true => exact hloop ⟨[-2], [], w⟩ [59] (by simp) (by simp [isDelim])
  | false =>
      have hhead : (commandsText c cs).head? ≠ some 59 := commandsText_head hc rfl
      simp only [Bool.false_eq_true, if_false]
      rw [mcProcessLatch, List.nil_append, if_neg hhead]
      exact hloop ⟨[], [], w⟩ [] (by simp) (by simp)

lemma latch_result (mcExec : Exec → W → ℤ × W) (early : Bool) (c : Command)
    (cs : List (Bool × Command)) (w : W) :
    let xs := (commandsExec c cs).take (if early then 2 else 3)
    (Latch.after mcExec ⟨if early then [-2] else [], [], w⟩ xs).result =
      (execAll mcExec xs w).1[mainPlace early cs]? := by
  have hlen := length_commandsExec c cs
  cases early with
  | true =>
      simp only [if_true]
      rw [Latch.result, if_pos (by simp [Latch.after, hlen])]
      simp [Latch.after, mainPlace]
  | false => cases cs <;> simp [Latch.result, Latch.after, mainPlace, length_commandsExec]

/-- What is executed, and the entries of `pid`, whatever the line looks like. -/
structure Latch.Fits (cmdline : List UInt8) (l : Latch W) : Prop where
  pid : l.pid.length ≤ 3
  count : l.execs.length ≤ l.pid.length
  inside : ∀ x ∈ l.execs, ∃ command, command <:+: cmdline ∧
    (∀ b ∈ command, isDelim b = false) ∧ Cmdline.Inside command x

/-- A token is a part of the line without delimiters. -/
lemma strtok_some {outer command outer' : List UInt8}
    (h : strtok outer = some (command, outer')) :
    command <:+: outer ∧ outer' <:+ outer ∧ ∀ b ∈ command, isDelim b = false := by
  unfold strtok at h
  split at h
  · cases h
  · rename_i b bs hbs
    rw [Option.some.injEq, Prod.mk.injEq, ← hbs] at h
    obtain ⟨rfl, rfl⟩ := h
    have hdrop := List.dropWhile_suffix isDelim (l := outer)
    refine ⟨(List.takeWhile_prefix _).isInfix.trans hdrop.isInfix, ?_, fun d hd => ?_⟩
    · exact (List.tail_suffix _).trans ((List.dropWhile_suffix _).trans hdrop)
    · simpa using List.mem_takeWhile_imp hd

lemma latchCommand_pid (l : Latch W) (wait : Bool) (command : List UInt8) :
    (latchCommand mcExec l wait command).pid.length = l.pid.length + 1 := by
  unfold latchCommand
  split <;> simp

lemma latchCommand_fits {cmdline command : List UInt8} {l : Latch W} (h : l.Fits cmdline)
    (hpid : l.pid.length ≤ 2) (hcommand : command <:+: cmdline)
    (hdelim : ∀ b ∈ command, isDelim b = false) (wait : Bool) :
    (latchCommand mcExec l wait command).Fits cmdline := by
  have hcount := h.count
  refine ⟨by rw [latchCommand_pid]; omega, ?_, ?_⟩
  · rw [latchCommand_pid]
    unfold latchCommand
    split <;> simp <;> omega
  · unfold latchCommand
    rcases cmdline_within wait command with ⟨e, he, -⟩ | ⟨s, hs, -, hinside⟩
    · rw [he]
      exact h.inside
    · rw [hs]
      intro x hx
      rcases List.mem_append.mp hx with hx | hx
      · exact h.inside x hx
      · rw [List.mem_singleton.mp hx]
        exact ⟨command, hcommand, hdelim, hinside⟩

lemma latchLoop_fits {cmdline outer : List UInt8} {room : ℕ} {l : Latch W} (h : l.Fits cmdline)
    (hpid : l.pid.length ≤ 2) (houter : outer <:+ cmdline) :
    (latchLoop mcExec room outer l).Fits cmdline := by
  induction room generalizing outer l with
  | zero => exact h
  | succ room ih =>
      unfold latchLoop
      cases hstr : strtok outer with
      | none => exact h
      | some token =>
          obtain ⟨hpart, hsuffix, hdelim⟩ := strtok_some hstr
          have hfits := @latchCommand_fits W mcExec _ _ _ h hpid
            (hpart.trans houter.isInfix) hdelim (token.2.head? = some 38)
          dsimp only
          split_ifs with hlast
          · exact hfits
          · refine ih hfits ?_ (hsuffix.trans houter)
            rw [latchCommand_pid]
            omega

/-- **No line starts more than three processes or anything that is not written in it**, and `pid` is
not left, whatever the line looks like. -/
theorem latch_within (mcExec : Exec → W → ℤ × W) (cmdline : List UInt8) (w : W) :
    (mcProcessLatch mcExec cmdline w).Fits cmdline := by
  refine latchLoop_fits ⟨?_, ?_, ?_⟩ ?_ (List.suffix_refl _) <;> split_ifs <;> simp

end Proofs

end LinuxC.Mcd
