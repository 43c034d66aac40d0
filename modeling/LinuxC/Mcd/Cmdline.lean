import LinuxC.Common.CString
import Mathlib.Algebra.Order.Group.Nat
import Mathlib.Data.List.Forall2

/-!
# Command lines (`sample/mc-daemon/mc_utils.c`)

`mc_exec_cmdline` cuts a command line into the array `argv` and executes it.  It works in the line
itself: blanks become zeros, and `argv` points to the words between them.  A word in quotes may
contain blanks.  Behind `>` or `>>` stands the name of the file for the output.

`Cmdline` is the line with the pointer `p` of the loop: what is before `p` has its zeros already,
and nothing is written behind `p`.

`cmdline_executed` says what is executed for a line that was put together from words, and
`cmdline_bounded` that no line leads out of the line or out of the array.
-/

namespace LinuxC.Mcd

/-! ## The line -/

/-- The line and the variables of the loop; a pointer into the line is a number. -/
structure Cmdline where
  /-- The line before `p`. -/
  done : List UInt8
  /-- The line from `p` on. -/
  rest : List UInt8
  argv : List (Option ℕ)
  redirect : Option ℕ
  append : Bool

/-- Why no command is executed. -/
inductive CmdError
  | einval
  | enomem
  | fuel
  deriving DecidableEq

/-- What `mc_exec` is called with. -/
structure Exec where
  argv : List (List UInt8)
  redirect : Option (List UInt8)
  append : Bool
  wait : Bool
  deriving DecidableEq

def argcMax : ℕ := 63

namespace Cmdline

variable (s : Cmdline)

/-- The pointer `p`. -/
def p : ℕ := s.done.length

/-- `p` goes on by `n` bytes. -/
def skip (n : ℕ) : Cmdline := { s with done := s.done ++ s.rest.take n, rest := s.rest.drop n }

/-- `*p++ = '\0'`, `n` times. -/
def zero (n : ℕ) : Cmdline := { s with done := s.done ++ List.replicate n 0, rest := s.rest.drop n }

def truncSpace : Cmdline := s.zero (s.rest.takeWhile (· = 32)).length

/-- `p = strchr(p, c)`; nothing if there is no such byte. -/
def strchr (c : UInt8) : Option Cmdline :=
  if c ∈ s.rest then some (s.skip (s.rest.takeWhile (· ≠ c)).length) else none

/-- The string that a pointer shows. -/
def string (a : ℕ) : List UInt8 := cString ((s.done ++ s.rest ++ [0]).drop a)

/-- `argv[x] = a`, and `++x > ARGC_MAX`. -/
def count (s : Cmdline) (a : Option ℕ) : Except CmdError Cmdline :=
  if argcMax < s.argv.length + 1 then .error .enomem else .ok { s with argv := s.argv ++ [a] }

/-- `>` or `>>`. -/
def arrow : Cmdline :=
  let s := s.skip 1
  if s.rest.head? = some 62 then { s.skip 1 with append := true } else s

/-- The `switch` of the loop. -/
def item : Except CmdError Cmdline :=
  match s.rest with
  -- `continue`
  | [] => .ok s
  | c :: _ =>
      if c = 34 ∨ c = 39 then
        match (s.skip 1).strchr c with
        | none => .error .einval
        | some e => (e.zero 1).count (some (s.skip 1).p)
      else if c = 62 then
        let s := s.arrow.truncSpace
        if s.rest = [] then .error .einval else count { s with redirect := some s.p } none
      else s.count (some s.p)

/-- The body of the loop. -/
def turn : Except CmdError Cmdline := s.truncSpace.item

/-- The loop. -/
def loop : ℕ → Cmdline → Except CmdError Cmdline
  | 0, _ => .error .fuel
  | fuel + 1, s =>
      match s.strchr 32 with
      | none => .ok s
      | some s => s.turn.bind (loop fuel)

/-- The arguments of `mc_exec`: those in front of the first `NULL`. -/
def exec (wait : Bool) (s : Cmdline) : Exec where
  argv := (s.argv.takeWhile Option.isSome).filterMap fun a => a.map s.string
  redirect := s.redirect.map s.string
  append := s.append
  wait := wait

end Cmdline

/-- `mc_exec_cmdline`; `wait` is `EXEC_F_WAIT`. -/
def mcExecCmdline (wait : Bool) (cmdline : List UInt8) : Except CmdError Exec :=
  let s := Cmdline.truncSpace ⟨[], cmdline, [], none, false⟩
  if s.rest = [] then .error .einval
  else (Cmdline.loop (cmdline.length + 2) { s with argv := [some s.p] }).map (Cmdline.exec wait)

/-! ## Lines that are put together -/

/-- A word of a command behind the first. -/
inductive Word
  | plain (w : List UInt8)
  | quoted (quote : UInt8) (w : List UInt8)

/-- A file for the output. -/
structure Redirect where
  append : Bool
  gap : ℕ
  file : List UInt8

/-- A command: its words, each with the number of additional blanks in front of it. -/
structure Command where
  lead : ℕ
  name : List UInt8
  words : List (ℕ × Word)
  redirect : Option (ℕ × Redirect)
  trail : ℕ

/-- Blanks. -/
def blanks (n : ℕ) : List UInt8 := List.replicate n 32

namespace Word

/-- The word in the line. -/
def text : Word → List UInt8
  | plain w => w
  | quoted quote w => quote :: w ++ [quote]

/-- The argument. -/
def content : Word → List UInt8
  | plain w => w
  | quoted _ w => w

/-- A word that can be recognised. -/
def Ok : Word → Prop
  | plain w => 32 ∉ w ∧ 0 ∉ w ∧ ∃ c cs, w = c :: cs ∧ c ≠ 34 ∧ c ≠ 39 ∧ c ≠ 62
  | quoted quote w => (quote = 34 ∨ quote = 39) ∧ quote ∉ w ∧ 0 ∉ w

lemma Ok.head {x : Word} {t : List UInt8} (h : x.Ok) : (x.text ++ t).head? ≠ some 32 := by
  cases x with
  | plain w =>
      obtain ⟨hblank, -, c, cs, rfl, -⟩ := h
      rintro hc
      exact hblank (by simp_all [text])
  | quoted q w =>
      obtain ⟨hq, -⟩ := h
      rcases hq with rfl | rfl <;> simp [text]

end Word

namespace Redirect

/-- The redirection in the line. -/
def text (r : Redirect) : List UInt8 :=
  62 :: (if r.append then [62] else []) ++ blanks r.gap ++ r.file

/-- A name of a file. -/
def Ok (r : Redirect) : Prop :=
  32 ∉ r.file ∧ 0 ∉ r.file ∧ ∃ c cs, r.file = c :: cs ∧ c ≠ 62

end Redirect

namespace Command

/-- The words in the line, each with blanks in front of it. -/
def wordsText (ws : List (ℕ × Word)) : List UInt8 :=
  ws.flatMap fun w => blanks (w.1 + 1) ++ w.2.text

/-- The redirection in the line. -/
def redirectText (r : Option (ℕ × Redirect)) : List UInt8 :=
  (r.map fun r => blanks (r.1 + 1) ++ r.2.text).getD []

/-- The line. -/
def text (c : Command) : List UInt8 :=
  blanks c.lead ++ (c.name ++ (wordsText c.words ++ (redirectText c.redirect ++ blanks c.trail)))

/-- A command that can be recognised. -/
structure Ok (c : Command) : Prop where
  name : c.name ≠ [] ∧ 32 ∉ c.name ∧ 0 ∉ c.name
  words : ∀ w ∈ c.words, w.2.Ok
  redirect : ∀ r ∈ c.redirect, r.2.Ok

/-- The places of `argv` that a command needs behind the first. -/
def places (c : Command) : ℕ := c.words.length + (if c.redirect.isSome then 1 else 0)

/-- What is executed. -/
def exec (wait : Bool) (c : Command) : Exec where
  argv := c.name :: c.words.map fun w => w.2.content
  redirect := c.redirect.map fun r => r.2.file
  append := (c.redirect.map fun r => r.2.append).getD false
  wait := wait

end Command

/-! ## One turn -/

namespace Cmdline

variable {s s' : Cmdline} {w t : List UInt8} {a n : ℕ}

/-- The string `x` stands at `a` with its zero, before `p`. -/
def Closed (s : Cmdline) (a : ℕ) (x : List UInt8) : Prop :=
  ∃ xs, xs ++ (x ++ [0]) <+: s.done ∧ xs.length = a

/-- The string `x` stands at `a`, or `a` is `p` and `x` the word `w` that stands there. -/
def Shows (s : Cmdline) (w : List UInt8) (a : ℕ) (x : List UInt8) : Prop :=
  0 ∉ x ∧ (s.Closed a x ∨ (w ≠ [] ∧ a = s.p ∧ x = w))

/-- The state in front of a turn: the word `w` has been read, but its zero is not there yet. -/
structure At (s : Cmdline) (w t : List UInt8) (args : List (List UInt8))
    (file : Option (List UInt8)) : Prop where
  rest : s.rest = w ++ t
  blank : 32 ∉ w
  argv : ∃ as : List ℕ, s.argv = as.map some ++ (if file.isSome then [none] else []) ∧
    List.Forall₂ (s.Shows w) as args
  redirect : Option.Rel (s.Shows w) s.redirect file

lemma Closed.mono (h : s.Closed a w) (hle : s.done <+: s'.done) : s'.Closed a w :=
  let ⟨xs, hxs, hlen⟩ := h
  ⟨xs, hxs.trans hle, hlen⟩

/-- At the end of the line all strings are there. -/
lemma Shows.string {x : List UInt8} (h : s.Shows w a x) (hrest : s.rest = w) : s.string a = x := by
  rcases h with ⟨hzero, hclosed | ⟨-, rfl, rfl⟩⟩
  · obtain ⟨xs, ⟨ys, hdone⟩, rfl⟩ := hclosed
    rw [Cmdline.string, ← hdone]
    simp only [List.append_assoc, List.drop_left, List.cons_append, List.nil_append]
    exact cString_append hzero
  · rw [Cmdline.string, List.append_assoc, p, List.drop_left, hrest]
    exact cString_append hzero

lemma Shows.keep {x v : List UInt8} (h : s.Shows [] a x) (hle : s.done <+: s'.done) :
    s'.Shows v a x := by
  rcases h with ⟨hzero, hclosed | ⟨hnot, -⟩⟩
  · exact ⟨hzero, .inl (hclosed.mono hle)⟩
  · exact absurd rfl hnot

/-- **The zero behind the word.** -/
lemma Shows.close {x v : List UInt8} (h : s.Shows w a x)
    (hdone : s.done ++ (w ++ [0]) <+: s'.done) : s'.Shows v a x := by
  rcases h with ⟨hzero, hclosed | ⟨-, rfl, rfl⟩⟩
  · exact ⟨hzero, .inl (hclosed.mono ((List.prefix_append _ _).trans hdone))⟩
  · exact ⟨hzero, .inl ⟨s.done, hdone, rfl⟩⟩

lemma Option.rel_imp {R S : ℕ → List UInt8 → Prop} {o : Option ℕ} {x : Option (List UInt8)}
    (h : Option.Rel R o x) (himp : ∀ a x, R a x → S a x) : Option.Rel S o x := by
  cases h with
  | none => exact .none
  | some hr => exact .some (himp _ _ hr)

lemma truncSpace_blanks (hrest : s.rest = blanks n ++ t) (ht : t.head? ≠ some 32) :
    s.truncSpace = { s with done := s.done ++ List.replicate n 0, rest := t } := by
  have hblanks : s.rest.takeWhile (· = 32) = blanks n := by
    have hall : ∀ x ∈ blanks n, decide (x = 32) = true := fun x hx => by
      simp [List.eq_of_mem_replicate hx]
    rw [hrest, List.takeWhile_append_of_pos hall]
    rcases t with _ | ⟨c, t⟩
    · simp
    · rw [List.takeWhile_cons_of_neg (by simpa using ht), List.append_nil]
  rw [truncSpace, hblanks, zero, hrest]
  simp [blanks]

/-- **From one word to the next**: the blanks get their zeros. -/
lemma At.gap {args : List (List UInt8)} {file : Option (List UInt8)}
    (h : s.At w (blanks (n + 1) ++ t) args file) (ht : t.head? ≠ some 32) :
    ∃ e, s.strchr 32 = some e ∧ e.truncSpace.At [] t args file ∧
      e.truncSpace.append = s.append ∧ e.truncSpace.argv = s.argv := by
  have hrest : s.rest = w ++ 32 :: (blanks n ++ t) := h.rest
  have hword : s.rest.takeWhile (· ≠ 32) = w := by rw [hrest, takeWhile_append_stop h.blank]
  have hmem : (32 : UInt8) ∈ s.rest := by
    rw [hrest]
    exact List.mem_append_right _ List.mem_cons_self
  have hskip : s.skip w.length = { s with done := s.done ++ w, rest := blanks (n + 1) ++ t } := by
    simp [skip, h.rest]
  have htrunc := truncSpace_blanks (s := s.skip w.length) (n := n + 1) (t := t) (by rw [hskip]) ht
  have hle : s.done ++ (w ++ [0]) <+: (s.skip w.length).truncSpace.done := by
    rw [htrunc, hskip]
    exact ⟨List.replicate n 0, by simp [List.replicate_succ]⟩
  obtain ⟨as, hargv, hshows⟩ := h.argv
  refine ⟨s.skip w.length, ?_, ⟨?_, ?_, ⟨as, hargv, ?_⟩, ?_⟩, rfl, rfl⟩
  · rw [strchr, if_pos hmem, hword]
  · rw [htrunc, List.nil_append]
  · simp
  · exact hshows.imp fun a x hx => hx.close hle
  · exact Option.rel_imp h.redirect fun a x hx => hx.close hle

lemma At.exec {args : List (List UInt8)} {file : Option (List UInt8)} (h : s.At w [] args file)
    (wait : Bool) : s.exec wait = ⟨args, file, s.append, wait⟩ := by
  have hrest : s.rest = w := by rw [h.rest, List.append_nil]
  obtain ⟨as, hargv, hshows⟩ := h.argv
  have hargs : as.map s.string = args := by
    rw [← List.forall₂_eq_eq_eq, List.forall₂_map_left_iff]
    exact hshows.imp fun a x hx => hx.string hrest
  have hfile : s.redirect.map s.string = file := by
    have hrel := h.redirect
    generalize s.redirect = o at hrel
    cases hrel with
    | none => rfl
    | some hx => exact congrArg some (hx.string hrest)
  have htake : s.argv.takeWhile Option.isSome = as.map some := by
    rw [hargv, List.takeWhile_append_of_pos (by simp)]
    split <;> simp
  rw [Cmdline.exec, htake, hfile, ← hargs]
  simp [List.filterMap_map]

/-- What is done for an argument: nothing, if there is no room. -/
def Counted (s : Cmdline) (r : Except CmdError Cmdline) (e : Cmdline) : Prop :=
  r = (if argcMax < s.argv.length + 1 then .error .enomem else .ok e) ∧
    e.argv.length = s.argv.length + 1

/-- **A word** becomes the next argument. -/
lemma At.word {args : List (List UInt8)} {x : Word} (h : s.At [] (x.text ++ t) args none)
    (hok : x.Ok) :
    ∃ e v, s.Counted s.item e ∧ e.At v t (args ++ [x.content]) none ∧ e.append = s.append := by
  have hrest : s.rest = x.text ++ t := h.rest
  obtain ⟨as, hargv, hshows⟩ := h.argv
  have hredirect : s.redirect = none := by
    have hrel := h.redirect
    generalize s.redirect = o at hrel
    cases hrel
    rfl
  cases x with
  | plain w =>
      obtain ⟨hblank, hzero, c, cs, rfl, h34, h39, h62⟩ := hok
      have hitem : s.item = s.count (some s.p) := by
        have hcons : s.rest = c :: (cs ++ t) := hrest
        unfold item
        rw [hcons]
        simp [h34, h39, h62]
      refine ⟨{ s with argv := s.argv ++ [some s.p] }, c :: cs, ⟨hitem, by simp⟩,
        ⟨hrest, hblank, ⟨as ++ [s.p], by simp [hargv], ?_⟩, hredirect ▸ .none⟩, rfl⟩
      refine List.rel_append (hshows.imp fun a x hx => hx.keep (List.prefix_refl _)) ?_
      exact .cons ⟨hzero, .inr ⟨by simp, rfl, rfl⟩⟩ .nil
  | quoted q w =>
      obtain ⟨hq, hquote, hzero⟩ := hok
      have hcons : s.rest = q :: (w ++ q :: t) := by simp [hrest, Word.text]
      set b := s.skip 1 with hb
      have hskip : b.rest = w ++ q :: t := by simp [hb, skip, hcons]
      have hstr : b.strchr q = some (b.skip w.length) := by
        rw [strchr, hskip, if_pos (by simp), takeWhile_append_stop hquote]
      set e := (b.skip w.length).zero 1 with he
      have hdone : e.done = b.done ++ (w ++ [0]) := by
        simp [he, zero, skip, hskip]
      have hle : s.done <+: e.done := by
        rw [hdone, hb, skip]
        simp
      have hitem : s.item = e.count (some b.p) := by
        unfold item
        rw [hcons]
        simp only [hq, if_true, ← hb, hstr, ← he]
      refine ⟨{ e with argv := e.argv ++ [some b.p] }, [], ⟨hitem, by simp [he, hb, zero, skip]⟩,
        ⟨?_, by simp, ⟨as ++ [b.p], ?_, ?_⟩, hredirect ▸ .none⟩, rfl⟩
      · simp [he, zero, skip, hskip]
      · simp [he, hb, zero, skip, hargv]
      · refine List.rel_append (hshows.imp fun a x hx => hx.keep hle) ?_
        exact .cons ⟨hzero, .inl ⟨b.done, hdone ▸ List.prefix_refl _, rfl⟩⟩ .nil

lemma arrow_eq {r : Redirect} (hrest : s.rest = r.text ++ t) (hok : r.Ok) :
    s.arrow = { s with
      done := s.done ++ 62 :: (if r.append then [62] else [])
      rest := blanks r.gap ++ (r.file ++ t)
      append := s.append || r.append } := by
  obtain ⟨-, -, c, cs, hfile, h62⟩ := hok
  rw [arrow]
  cases happend : r.append with
  | true => simp [hrest, Redirect.text, happend, skip]
  | false =>
      have hhead : (blanks r.gap ++ (r.file ++ t)).head? ≠ some 62 := by
        cases r.gap <;> simp [blanks, hfile, h62, List.replicate_succ]
      have hskip : s.skip 1 = { s with
          done := s.done ++ [62]
          rest := blanks r.gap ++ (r.file ++ t) } := by
        simp [skip, hrest, Redirect.text, happend]
      rw [hskip, if_neg hhead]
      simp

/-- **The name of a file** behind `>`. -/
lemma At.redirection {args : List (List UInt8)} {r : Redirect} (h : s.At [] (r.text ++ t) args none)
    (hok : r.Ok) :
    ∃ e, s.Counted s.item e ∧ e.At r.file t args (some r.file) ∧
      e.append = (s.append || r.append) := by
  have hrest : s.rest = r.text ++ t := h.rest
  obtain ⟨as, hargv, hshows⟩ := h.argv
  have harrow := arrow_eq hrest hok
  obtain ⟨hblank, hzero, c, cs, hfile, h62⟩ := hok
  have hc : c ≠ 32 := by
    rintro rfl
    exact hblank (by simp [hfile])
  have hhead : (r.file ++ t).head? ≠ some 32 := by simp [hfile, hc]
  set e := s.arrow.truncSpace with he
  have heq := truncSpace_blanks (s := s.arrow) (by rw [harrow]) hhead
  rw [← he] at heq
  have hle : s.done <+: e.done := by
    rw [heq, harrow]
    simp [List.append_assoc]
  have herest : e.rest = r.file ++ t := by rw [heq]
  have hitem : s.item = count { e with redirect := some e.p } none := by
    have hcons : s.rest =
        62 :: ((if r.append then [62] else []) ++ blanks r.gap ++ r.file ++ t) := by
      simp [hrest, Redirect.text]
    unfold item
    rw [hcons]
    simp [← he, herest, hfile]
  have hargs : e.argv = s.argv := by rw [heq, harrow]
  refine ⟨{ e with redirect := some e.p, argv := e.argv ++ [none] }, ⟨?_, by simp [hargs]⟩,
    ⟨herest, hblank, ⟨as, by simp [hargs, hargv], ?_⟩, ?_⟩, ?_⟩
  · rw [hitem, count, hargs]
  · exact hshows.imp fun a x hx => hx.keep hle
  · exact .some ⟨hzero, .inr ⟨by simp [hfile], rfl, rfl⟩⟩
  · rw [heq, harrow]

/-! ## The loop -/

section Loop

variable {args : List (List UInt8)} {file : Option (List UInt8)}

lemma loop_turn {fuel : ℕ} {e : Cmdline} (h : s.strchr 32 = some e) :
    loop (fuel + 1) s = e.turn.bind (loop fuel) := by
  rw [loop, h]

lemma loop_end {fuel : ℕ} (h : 32 ∉ s.rest) : loop (fuel + 1) s = .ok s := by
  rw [loop, strchr, if_neg h]

/-- **The end of the line**, with blanks or without. -/
lemma At.loop_trail (h : s.At w (blanks n) args file) (fuel : ℕ) (wait : Bool) :
    (loop (fuel + 2) s).map (Cmdline.exec wait) = .ok ⟨args, file, s.append, wait⟩ := by
  cases n with
  | zero =>
      have hend : 32 ∉ s.rest := by
        rw [h.rest]
        simpa [blanks] using h.blank
      rw [loop_end hend]
      exact congrArg Except.ok (At.exec h wait)
  | succ k =>
      obtain ⟨e, hstr, hat, happend, -⟩ := At.gap (t := []) (by simpa using h) (by simp)
      have hrest : e.truncSpace.rest = [] := hat.rest
      have hturn : e.turn = .ok e.truncSpace := by
        unfold turn item
        rw [hrest]
      have hend : 32 ∉ e.truncSpace.rest := by simp [hrest]
      rw [loop_turn hstr, hturn, Except.bind, loop_end hend]
      exact congrArg Except.ok (by rw [At.exec hat wait, happend])

/-- The result of a loop that needs so many further places. -/
def Ends (s : Cmdline) (r : Except CmdError Cmdline) (wait : Bool) (places : ℕ) (x : Exec) : Prop :=
  r.map (Cmdline.exec wait) = if s.argv.length + places ≤ argcMax then .ok x else .error .enomem

/-- **The redirection** is the last thing on a line. -/
lemma At.loop_redirect {r : ℕ × Redirect}
    (h : s.At w (blanks (r.1 + 1) ++ (r.2.text ++ blanks n)) args none) (hok : r.2.Ok)
    (fuel : ℕ) (wait : Bool) :
    s.Ends (loop (fuel + 3) s) wait 1 ⟨args, some r.2.file, s.append || r.2.append, wait⟩ := by
  obtain ⟨b, hstr, hat, happend, hargv⟩ := At.gap h (by simp [Redirect.text])
  obtain ⟨e, ⟨hitem, -⟩, hat', happend'⟩ := At.redirection hat hok
  rw [Ends, loop_turn hstr, turn, hitem, hargv]
  by_cases hroom : s.argv.length + 1 ≤ argcMax
  · rw [if_neg (not_lt.mpr hroom), if_pos hroom]
    rw [Except.bind, At.loop_trail hat' fuel wait, happend', happend]
  · rw [if_pos (not_le.mp hroom), if_neg hroom]
    rfl

/-- **The words**, one after the other. -/
lemma At.loop_words {words : List (ℕ × Word)} {redirect : Option (ℕ × Redirect)}
    (hwords : ∀ x ∈ words, x.2.Ok) (hredirect : ∀ r, redirect = some r → r.2.Ok)
    (h : s.At w (Command.wordsText words ++ (Command.redirectText redirect ++ blanks n)) args none)
    (hroom : s.argv.length ≤ argcMax) (fuel : ℕ) (wait : Bool) :
    s.Ends (loop (words.length + fuel + 3) s) wait
      (words.length + (if redirect.isSome then 1 else 0))
      ⟨args ++ words.map fun x => x.2.content, redirect.map fun r => r.2.file,
        s.append || (redirect.map fun r => r.2.append).getD false, wait⟩ := by
  induction words generalizing s w args with
  | nil =>
      cases redirect with
      | none =>
          have hend : s.At w (blanks n) args none := h
          rw [Ends]
          simpa [hroom] using At.loop_trail hend (0 + fuel + 1) wait
      | some r =>
          have hend : s.At w (blanks (r.1 + 1) ++ (r.2.text ++ blanks n)) args none := by
            simpa [Command.wordsText, Command.redirectText] using h
          simpa using At.loop_redirect hend (hredirect r rfl) (0 + fuel) wait
  | cons x xs ih =>
      set t := Command.wordsText xs ++ (Command.redirectText redirect ++ blanks n) with ht
      have hstart : s.At w (blanks (x.1 + 1) ++ (x.2.text ++ t)) args none := by
        simpa [Command.wordsText, ht] using h
      have hok := hwords x List.mem_cons_self
      obtain ⟨b, hstr, hat, happend, hargv⟩ := At.gap hstart hok.head
      obtain ⟨e, v, ⟨hitem, hlen⟩, hat', happend'⟩ := At.word hat hok
      rw [hargv] at hitem hlen
      rw [Ends, List.length_cons, show xs.length + 1 + fuel + 3 = xs.length + fuel + 3 + 1 by omega,
        loop_turn hstr, turn, hitem]
      by_cases hroom' : s.argv.length + 1 ≤ argcMax
      · have hrest := ih (fun y hy => hwords y (List.mem_cons_of_mem _ hy)) hat' (by omega)
        rw [Ends, hlen, happend', happend] at hrest
        rw [if_neg (not_lt.mpr hroom'), Except.bind, hrest]
        simp only [List.map_cons, List.append_assoc, List.singleton_append]
        congr 2
        omega
      · rw [if_pos (not_le.mp hroom'), if_neg (by omega)]
        rfl

end Loop

end Cmdline

/-! ## The whole line -/

lemma length_wordsText (words : List (ℕ × Word)) :
    words.length ≤ (Command.wordsText words).length := by
  induction words with
  | nil => simp
  | cons x xs ih =>
      have hblanks : (blanks (x.1 + 1)).length = x.1 + 1 := List.length_replicate
      simp only [Command.wordsText, List.flatMap_cons, List.length_append, List.length_cons,
        hblanks] at ih ⊢
      omega

/-- **A command line is executed as it was put together**: the words are the arguments, what stands
in quotes is one argument, and the output goes to the file.  When there are too many words nothing
is executed. -/
theorem cmdline_executed (wait : Bool) (c : Command) (hok : c.Ok) :
    mcExecCmdline wait c.text =
      if c.places < argcMax then .ok (c.exec wait) else .error .enomem := by
  obtain ⟨hne, hblank, hzero⟩ := hok.name
  set t := Command.wordsText c.words ++ (Command.redirectText c.redirect ++ blanks c.trail) with ht
  have hhead : (c.name ++ t).head? ≠ some 32 := by
    rw [List.head?_append_of_ne_nil _ hne]
    intro h
    exact hblank (List.mem_of_mem_head? h)
  have hstart :=
    Cmdline.truncSpace_blanks (s := ⟨[], c.text, [], none, false⟩) (n := c.lead) rfl hhead
  set s := Cmdline.truncSpace ⟨[], c.text, [], none, false⟩ with hs
  have hrest : s.rest = c.name ++ t := by rw [hstart]
  have hat : Cmdline.At { s with argv := [some s.p] } c.name t [c.name] none := by
    refine ⟨hrest, hblank, ⟨[s.p], rfl, .cons ⟨hzero, .inr ⟨hne, rfl, rfl⟩⟩ .nil⟩, ?_⟩
    rw [hstart]
    exact .none
  have hfuel : c.text.length + 2 = c.words.length + (c.text.length - c.words.length - 1) + 3 := by
    have hname := List.length_pos_of_ne_nil hne
    have hwords := length_wordsText c.words
    simp only [Command.text, List.length_append]
    omega
  have hloop := hat.loop_words hok.words hok.redirect (by simp [argcMax])
    (c.text.length - c.words.length - 1) wait
  rw [← hfuel, Cmdline.Ends] at hloop
  rw [mcExecCmdline, if_neg (by simp [← hs, hrest, hne]), ← hs, hloop]
  have happend : s.append = false := by rw [hstart]
  have hplaces : ([some s.p].length + (c.words.length + if c.redirect.isSome then 1 else 0) ≤
      argcMax) ↔ c.places < argcMax := by
    rw [Command.places, List.length_singleton, Nat.lt_iff_add_one_le, Nat.add_comm 1]
  simp only [hplaces, happend, Bool.false_or, List.singleton_append]
  rfl

/-! ## Any line -/

namespace Cmdline

variable {line : List UInt8} {k n : ℕ} {s e : Cmdline}

/-- The state after some turns over any line, with at most `k` bytes left: the bytes are those of
the line or zeros, and the pointers do not show behind `p`. -/
structure Within (line : List UInt8) (k : ℕ) (s : Cmdline) : Prop where
  bytes : ∃ l, line = l ++ s.rest ∧ List.Forall₂ (fun b c => b = c ∨ b = 0) s.done l
  left : s.rest.length ≤ k
  length : s.argv.length ≤ argcMax
  command : ∃ a, s.argv.head? = some (some a)
  pointers : ∀ a, some a ∈ s.argv ∨ s.redirect = some a → a ≤ s.p

/-- What is executed comes from the line. -/
structure Inside (line : List UInt8) (x : Exec) : Prop where
  argc : 1 ≤ x.argv.length ∧ x.argv.length ≤ argcMax
  argv : ∀ w ∈ x.argv, w <:+: line
  redirect : ∀ f, x.redirect = some f → f <:+: line

/-- `p` goes on, over bytes that stay or get their zeros. -/
lemma Within.move (h : s.Within line k) {m : List UInt8}
    (hm : List.Forall₂ (fun b c => b = c ∨ b = 0) m (s.rest.take n)) :
    Within line (k - n) { s with done := s.done ++ m, rest := s.rest.drop n } := by
  obtain ⟨l, hline, hl⟩ := h.bytes
  have hleft := h.left
  refine ⟨⟨l ++ s.rest.take n, ?_, List.rel_append hl hm⟩, ?_, h.length, h.command, fun a ha => ?_⟩
  · rw [List.append_assoc, List.take_append_drop, hline]
  · simp only [List.length_drop]
    omega
  · exact (h.pointers a ha).trans (by simp [p])

lemma Within.skip (h : s.Within line k) (n : ℕ) : (s.skip n).Within line (k - n) := by
  refine h.move ?_
  induction s.rest.take n with
  | nil => exact .nil
  | cons c cs ih => exact .cons (.inl rfl) ih

lemma Within.zero (h : s.Within line k) (hn : n ≤ s.rest.length) :
    (s.zero n).Within line (k - n) := by
  refine h.move ?_
  rw [List.forall₂_iff_get]
  refine ⟨by simp [hn], fun i hi hi' => ?_⟩
  simp

lemma Within.mono (h : s.Within line k) (hk : k ≤ n) : s.Within line n :=
  { h with left := h.left.trans hk }

lemma Within.truncSpace (h : s.Within line k) :
    s.truncSpace.Within line (k - (s.rest.takeWhile (· = 32)).length) :=
  h.zero (List.takeWhile_prefix _).length_le

lemma Within.truncSpace' (h : s.Within line k) : s.truncSpace.Within line k :=
  h.truncSpace.mono (Nat.sub_le _ _)

lemma Within.strchr {c : UInt8} (h : s.Within line k) (he : s.strchr c = some e) :
    e.Within line k ∧ (∃ cs, e.rest = c :: cs) ∧ s.p ≤ e.p := by
  unfold Cmdline.strchr at he
  split_ifs at he with hmem
  obtain ⟨l, r, hlr, hnot⟩ := List.eq_append_cons_of_mem hmem
  cases he
  refine ⟨(h.skip _).mono (Nat.sub_le _ _), ⟨r, ?_⟩, by simp [p, Cmdline.skip]⟩
  rw [Cmdline.skip, hlr, takeWhile_append_stop hnot, List.drop_left]

lemma Within.arrow (h : s.Within line k) : s.arrow.Within line k := by
  have hskip := (h.skip 1).mono (Nat.sub_le _ _)
  unfold Cmdline.arrow
  dsimp only
  split_ifs
  · have hskip' := (hskip.skip 1).mono (Nat.sub_le _ _)
    exact { hskip' with }
  · exact hskip

/-- **A further entry of the array**: there is room for it, and it does not show behind `p`. -/
lemma Within.count {a : Option ℕ} (h : s.Within line k) (ha : ∀ q, a = some q → q ≤ s.p)
    (he : s.count a = .ok e) : e.Within line k := by
  unfold Cmdline.count at he
  split_ifs at he with hroom
  cases he
  obtain ⟨b, hb⟩ := h.command
  refine ⟨h.bytes, h.left, ?_, ⟨b, ?_⟩, ?_⟩
  · simpa using hroom
  · rw [List.head?_append, hb, Option.some_or]
  · rintro q (hq | hq)
    · rcases List.mem_append.mp hq with hq | hq
      · exact h.pointers q (.inl hq)
      · exact ha q (List.mem_singleton.mp hq).symm
    · exact h.pointers q (.inr hq)

lemma Within.item (h : s.Within line k) (he : s.item = .ok e) : e.Within line k := by
  have hskip := (h.skip 1).mono (Nat.sub_le _ _)
  unfold Cmdline.item at he
  split at he
  · cases he
    exact h
  · rename_i c cs hrest
    dsimp only at he
    split_ifs at he with hquote hredirect
    · split at he
      · cases he
      · rename_i b hb
        obtain ⟨hb', ⟨cs', hcs⟩, hp⟩ := hskip.strchr hb
        have hzero := (hb'.zero (n := 1) (by simp [hcs])).mono (Nat.sub_le _ _)
        refine hzero.count ?_ he
        rintro q ⟨⟩
        exact hp.trans (by simp [p, Cmdline.zero])
    · have harrow := h.arrow.truncSpace'
      have hpointer : Within line k
          { s.arrow.truncSpace with redirect := some s.arrow.truncSpace.p } := by
        refine { harrow with pointers := ?_ }
        rintro q (hq | hq)
        · exact harrow.pointers q (.inl hq)
        · exact (Option.some.inj hq).ge
      exact hpointer.count (by rintro q ⟨⟩) he
    · exact h.count (by rintro q ⟨⟩; exact le_refl _) he

lemma count_ne_fuel (s : Cmdline) (a : Option ℕ) : s.count a ≠ .error .fuel := by
  unfold Cmdline.count
  split_ifs <;> simp

lemma item_ne_fuel (s : Cmdline) : s.item ≠ .error .fuel := by
  unfold Cmdline.item
  split
  · simp
  · dsimp only
    split_ifs
    · split
      · simp
      · exact count_ne_fuel _ _
    · simp
    · exact count_ne_fuel _ _
    · exact count_ne_fuel _ _

/-- **One turn** uses up at least a blank. -/
lemma Within.turn {b : Cmdline} (h : s.Within line k) (hb : s.strchr 32 = some b)
    (he : b.turn = .ok e) : e.Within line (k - 1) := by
  obtain ⟨hb', ⟨cs, hcs⟩, -⟩ := h.strchr hb
  refine Within.item (hb'.truncSpace.mono ?_) he
  rw [hcs, List.takeWhile_cons_of_pos (by simp), List.length_cons]
  omega

/-- **The loop stays in the line**, and comes to an end. -/
lemma Within.loop {fuel : ℕ} (h : s.Within line k) (hfuel : k < fuel) :
    s.loop fuel ≠ .error .fuel ∧ ∀ e, s.loop fuel = .ok e → e.Within line k := by
  induction fuel generalizing s k with
  | zero => omega
  | succ fuel ih =>
      cases hb : s.strchr 32 with
      | none =>
          unfold Cmdline.loop
          rw [hb]
          refine ⟨by simp, fun e he => ?_⟩
          cases he
          exact h
      | some b =>
          obtain ⟨hb', ⟨cs, hcs⟩, -⟩ := h.strchr hb
          have hpos : 1 ≤ k := le_trans (by simp [hcs]) hb'.left
          rw [loop_turn hb]
          cases hturn : b.turn with
          | error err =>
              have hne : err ≠ .fuel := by
                rintro rfl
                exact item_ne_fuel _ hturn
              exact ⟨fun he => hne (Except.error.inj he), fun e he => by cases he⟩
          | ok b' =>
              obtain ⟨hfuel', hwithin⟩ := ih (h.turn hb hturn) (by omega)
              exact ⟨hfuel', fun e he => (hwithin e he).mono (Nat.sub_le _ _)⟩

/-- A string ends where the line has its first zero. -/
lemma cString_prefix {bs cs : List UInt8} (h : List.Forall₂ (fun b c => b = c ∨ b = 0) bs cs) :
    cString (bs ++ [0]) <+: cs := by
  induction h with
  | nil => simp [cString]
  | @cons b c bs cs hb hbs ih =>
      by_cases hzero : b = 0
      · simp [cString, hzero]
      · have hc : b = c := hb.resolve_right hzero
        rw [cString, List.cons_append, List.takeWhile_cons_of_pos (by simpa using hzero), hc]
        exact (List.prefix_cons_inj c).mpr ih

/-- A string of a line that was cut is a part of the line. -/
lemma Within.string (h : s.Within line k) (a : ℕ) : s.string a <:+: line := by
  obtain ⟨l, hline, hl⟩ := h.bytes
  have hrest : List.Forall₂ (fun b c : UInt8 => b = c ∨ b = 0) s.rest s.rest :=
    List.forall₂_same.mpr fun b hb => .inl rfl
  have hall : List.Forall₂ (fun b c : UInt8 => b = c ∨ b = 0) (s.done ++ s.rest) line :=
    hline ▸ List.rel_append hl hrest
  rw [Cmdline.string]
  by_cases ha : a ≤ (s.done ++ s.rest).length
  · rw [List.drop_append_of_le_length ha]
    have hcut := cString_prefix (List.forall₂_drop a hall)
    exact hcut.isInfix.trans (List.drop_suffix a line).isInfix
  · rw [List.drop_eq_nil_of_le (by simp at ha ⊢; omega)]
    exact List.nil_infix

/-- **What is executed** after the loop. -/
lemma Within.exec (h : s.Within line k) (wait : Bool) : Inside line (s.exec wait) := by
  obtain ⟨b, hb⟩ := h.command
  have hlength := h.length
  rcases hargv : s.argv with _ | ⟨a, as⟩
  · simp [hargv] at hb
  · rw [hargv, List.head?_cons, Option.some.injEq] at hb
    refine ⟨⟨?_, ?_⟩, fun w hw => ?_, fun f hf => ?_⟩
    · simp [Cmdline.exec, hargv, hb]
    · refine (List.length_filterMap_le _ _).trans ?_
      exact (List.takeWhile_prefix _).length_le.trans hlength
    · obtain ⟨o, -, ho⟩ := List.mem_filterMap.mp hw
      obtain ⟨q, -, rfl⟩ := Option.map_eq_some_iff.mp ho
      exact h.string q
    · obtain ⟨q, -, rfl⟩ := Option.map_eq_some_iff.mp hf
      exact h.string q

end Cmdline

/-- **No line leads out of the line or out of the array**, whatever it looks like: the loop comes to
an end, the pointers in `argv` and `redirect` show into the line, `argv` holds a command and has
room for its last `NULL`, and all that `mc_exec` is called with is found in the line. -/
theorem cmdline_within (wait : Bool) (line : List UInt8) :
    (∃ e, mcExecCmdline wait line = .error e ∧ e ≠ .fuel) ∨
    ∃ s : Cmdline, mcExecCmdline wait line = .ok (s.exec wait) ∧ s.Within line line.length ∧
      Cmdline.Inside line (s.exec wait) := by
  set s := Cmdline.truncSpace ⟨[], line, [], none, false⟩ with hs
  have hline : Cmdline.Within line line.length ⟨[], line, [some 0], none, false⟩ :=
    ⟨⟨[], rfl, .nil⟩, le_refl _, by simp [argcMax], ⟨0, rfl⟩, by simp [Cmdline.p]⟩
  have htrunc := hline.truncSpace'
  have hstart : Cmdline.Within line line.length { s with argv := [some s.p] } :=
    ⟨htrunc.bytes, htrunc.left, by simp [argcMax], ⟨s.p, rfl⟩, by
      rintro a (ha | ha)
      · exact (Option.some.inj (List.mem_singleton.mp ha)).le
      · cases ha⟩
  obtain ⟨hfuel, hwithin⟩ := hstart.loop (Nat.lt_add_of_pos_right Nat.two_pos)
  unfold mcExecCmdline
  rw [← hs]
  dsimp only
  split_ifs with hblank
  · exact .inl ⟨.einval, rfl, by simp⟩
  · cases hloop : Cmdline.loop (line.length + 2) { s with argv := [some s.p] } with
    | error e => exact .inl ⟨e, rfl, by rintro rfl; exact hfuel hloop⟩
    | ok e =>
        have h := hwithin e hloop
        exact .inr ⟨e, rfl, h, h.exec wait⟩

end LinuxC.Mcd
