import LinuxC.Common.Lines
import Mathlib.Data.Finset.Card
import Mathlib.Data.List.TakeWhile
import Mathlib.Logic.Function.Basic

/-!
# The configuration files of `common/scl.c`

`config_parser` reads a file character by character.  A key and a value are collected in two buffers
on the stack; at the end of a line, and at the end of the file, the callback is called if there is a
key.  A turn of the loop does not always take the character: a newline and a separator first change
the state, and the next turn takes them.

What a line says is a function of the line alone: the bytes that go to the key, those that go to the
value, and whether there is a separator (`scan`).  What the callback gets is more: the buffer of the
value is not cleared at the end of a line without a key, and a line without a separator hands it out
as it is.  `lines_alone_iff` says for which files this happens.
-/

namespace LinuxC.Scl

open Text

def confToksize : ℕ := 128

inductive ConfParseState
  | initial
  | comment
  | quoted
  | unquoted
  | handleNewline
  | handleSep
  deriving DecidableEq, Repr

/-- The three characters. -/
structure Chars where
  comment : UInt8
  sep : UInt8
  str : UInt8

/-- An array of `CONF_TOKSIZE` characters. -/
abbrev Token := ℕ → UInt8

/-- The local variables of `config_parser`, with the calls of `fn` so far.  `onVal` says which of
the two arrays `t` points to. -/
structure Parser where
  state : ConfParseState
  onVal : Bool
  i : ℕ
  key : Token
  val : Token
  calls : List (List UInt8 × List UInt8)

/-- The variables before the first character. -/
def Parser.start : Parser := ⟨.initial, false, 0, fun _ => 0, fun _ => 0, []⟩

/-- `t[i] = c`. -/
def Parser.write (c : UInt8) (s : Parser) : Parser :=
  if s.onVal then { s with val := Function.update s.val s.i c }
  else { s with key := Function.update s.key s.i c }

/-- A character is added to the token, if there is room. -/
def Parser.put (c : UInt8) (s : Parser) : Parser :=
  if s.i < confToksize - 1 then { s.write c with i := s.i + 1 } else s

/-- The token is ended, and the callback is called. -/
def Parser.call (s : Parser) : Parser :=
  let s := s.write 0
  { s with calls := s.calls ++ [(strIn confToksize s.key, strIn confToksize s.val)] }

variable (k : Chars)

/-- One turn of the loop at the character `c`, and whether it takes the character. -/
def turn (c : UInt8) (s : Parser) : Parser × Bool :=
  match s.state with
  | .initial =>
      if c = k.comment then ({ s with state := .comment }, true)
      else if c = k.str then ({ s with state := .quoted }, true)
      else if c = newline then ({ s with state := .handleNewline }, false)
      else if c = k.sep then ({ s with state := .handleSep }, false)
      else if isspace c then (s, true)
      else ({ s.put c with state := .unquoted }, true)
  | .comment =>
      if c = newline then ({ s with state := .handleNewline }, false) else (s, true)
  | .quoted =>
      if c = k.str then ({ s with state := .initial }, true)
      else if c = newline then ({ s with state := .handleNewline }, false)
      else (s.put c, true)
  | .unquoted =>
      if c = k.comment then ({ s with state := .comment }, true)
      else if c = newline then ({ s with state := .handleNewline }, false)
      else if c = k.sep then ({ s with state := .handleSep }, false)
      else if isspace c then ({ s with state := .initial }, true)
      else (s.put c, true)
  | .handleSep =>
      if s.onVal then
        if c = newline then ({ s with state := .handleNewline }, false) else (s, true)
      else ({ s.write 0 with onVal := true, i := 0, state := .initial }, true)
  | .handleNewline =>
      let s :=
        if s.key 0 ≠ 0 then
          let s := s.call
          { s with key := Function.update s.key 0 0, val := Function.update s.val 0 0 }
        else s
      ({ s with onVal := false, i := 0, state := .initial }, true)

/-- The turns at one character: the second one takes it (`turn_taken`). -/
def feed (s : Parser) (c : UInt8) : Parser :=
  let r := turn k c s
  if r.2 then r.1 else (turn k c r.1).1

/-- What follows the loop. -/
def finish (s : Parser) : Parser := if s.key 0 ≠ 0 then s.call else s

/-- The calls of `fn` for the content of a file. -/
def parse (content : List UInt8) : List (List UInt8 × List UInt8) :=
  (finish (content.foldl (feed k) Parser.start)).calls

def einval : ℤ := 22

def enoent : ℤ := 2

/-- `config_parser`, with the content of the file if it can be opened. -/
def configParser {Name : Type} (path : Option Name) (fopen : Name → Option (List UInt8)) :
    ℤ × List (List UInt8 × List UInt8) :=
  match path with
  | none => (einval, [])
  | some path =>
      match fopen path with
      | none => (enoent, [])
      | some content => (0, parse k content)

/-! ## One line -/

/-- What the parser has read of a line. -/
structure Scan where
  state : ConfParseState
  onVal : Bool
  key : List UInt8
  val : List UInt8

/-- A token with one more character, if there is room. -/
def extend (t : List UInt8) (c : UInt8) : List UInt8 :=
  if t.length < confToksize - 1 then t ++ [c] else t

def Scan.put (c : UInt8) (a : Scan) : Scan :=
  if a.onVal then { a with val := extend a.val c } else { a with key := extend a.key c }

/-- A separator: the second one of a line ends the value. -/
def Scan.separate (a : Scan) : Scan :=
  if a.onVal then { a with state := .handleSep } else { a with onVal := true, state := .initial }

/-- The next character of the line. -/
def Scan.step (a : Scan) (c : UInt8) : Scan :=
  match a.state with
  | .initial =>
      if c = k.comment then { a with state := .comment }
      else if c = k.str then { a with state := .quoted }
      else if c = k.sep then a.separate
      else if isspace c then a
      else { a.put c with state := .unquoted }
  | .quoted => if c = k.str then { a with state := .initial } else a.put c
  | .unquoted =>
      if c = k.comment then { a with state := .comment }
      else if c = k.sep then a.separate
      else if isspace c then { a with state := .initial }
      else a.put c
  | _ => a

/-- A whole line. -/
def scan (l : List UInt8) : Scan := l.foldl (Scan.step k) ⟨.initial, false, [], []⟩

/-- The key of a line, as a string. -/
def lineKey (l : List UInt8) : List UInt8 := (scan k l).key.takeWhile (· ≠ 0)

/-- The value of a line, as a string. -/
def lineVal (l : List UInt8) : List UInt8 := (scan k l).val.takeWhile (· ≠ 0)

/-- The line has a key and no separator. -/
def keyAlone (l : List UInt8) : Bool := lineKey k l ≠ [] && !(scan k l).onVal

/-- Whether the buffer of the value has text in it after the line, if it had text before it or had
none. -/
def textAfter (text : Bool) (l : List UInt8) : Bool :=
  if lineKey k l ≠ [] then false
  else if (scan k l).val = [] then text
  else lineVal k l ≠ []

/-- The calls of `fn` for a line, if the string `left` is in the buffer of the value before it. -/
def callOf (left : List UInt8) (l : List UInt8) : List (List UInt8 × List UInt8) :=
  if lineKey k l ≠ [] then
    [(lineKey k l, if (scan k l).onVal then lineVal k l else left)]
  else []

/-- No line has a key and no separator while there is text in the buffer of the value. -/
def NoLeak (text : Bool) (ls : List (List UInt8)) : Prop :=
  ∀ pre l post, ls = pre ++ l :: post → keyAlone k l = true → pre.foldl (textAfter k) text = false

variable {k}

/-! ## The parser reads a line -/

/-- A turn that does not take the character has seen a newline, or a separator that is none. -/
lemma turn_again {c : UInt8} {s : Parser} (h : (turn k c s).2 = false) :
    (turn k c s).1 = { s with state := .handleNewline } ∨
      c ≠ newline ∧ (turn k c s).1 = { s with state := .handleSep } := by
  cases hstate : s.state with
  | initial =>
    simp only [turn, hstate] at h ⊢
    split_ifs at h ⊢ with h1 h2 h3 h4
    · exact .inl rfl
    · exact .inr ⟨h3, rfl⟩
  | comment =>
    simp only [turn, hstate] at h ⊢
    split_ifs at h ⊢
    exact .inl rfl
  | quoted =>
    simp only [turn, hstate] at h ⊢
    split_ifs at h ⊢
    exact .inl rfl
  | unquoted =>
    simp only [turn, hstate] at h ⊢
    split_ifs at h ⊢ with h1 h2 h3
    · exact .inl rfl
    · exact .inr ⟨h2, rfl⟩
  | handleNewline =>
    simp only [turn, hstate] at h
    cases h
  | handleSep =>
    simp only [turn, hstate] at h ⊢
    split_ifs at h ⊢
    exact .inl rfl

lemma turn_taken {c : UInt8} {s : Parser} (h : (turn k c s).2 = false) :
    (turn k c (turn k c s).1).2 = true := by
  rcases turn_again h with h1 | ⟨hc, h1⟩
  · rw [h1]
    rfl
  · rw [h1]
    simp only [turn, if_neg hc]
    split_ifs <;> rfl

/-- The parser before a line. -/
structure Fresh (s : Parser) : Prop where
  state : s.state = .initial
  onVal : s.onVal = false
  i : s.i = 0
  key : s.key 0 = 0

/-- The parser has read `a` of a line that began with the value `old` in its buffer. -/
structure Reads (old : Token) (calls : List (List UInt8 × List UInt8)) (s : Parser) (a : Scan) :
    Prop where
  state : s.state = a.state
  onVal : s.onVal = a.onVal
  i : s.i = if a.onVal then a.val.length else a.key.length
  key : ∀ j b, a.key[j]? = some b → s.key j = b
  keyEmpty : a.key = [] → s.key 0 = 0
  keyEnd : a.onVal = true → s.key a.key.length = 0
  val : ∀ j, s.val j = (a.val[j]?).getD (old j)
  calls : s.calls = calls
  keyRoom : a.key.length < confToksize
  valRoom : a.val.length < confToksize
  noVal : a.onVal = false → a.val = []
  inLine : a.state ≠ .handleNewline
  sep : a.state = .handleSep → a.onVal = true

section Reading

variable {old : Token} {calls : List (List UInt8 × List UInt8)} {s : Parser} {a : Scan} {c : UInt8}

lemma Reads.withState (h : Reads old calls s a) {st : ConfParseState} (hline : st ≠ .handleNewline)
    (hsep : st ≠ .handleSep) :
    Reads old calls { s with state := st } { a with state := st } :=
  { h with state := rfl, inLine := hline, sep := fun he => absurd he hsep }

lemma Reads.put_val (h : Reads old calls s a) (hv : a.onVal = true) (c : UInt8) :
    Reads old calls (s.put c) (a.put c) := by
  have hi := h.i
  rw [hv, if_pos rfl] at hi
  have hsv : s.onVal = true := h.onVal.trans hv
  by_cases hroom : a.val.length < confToksize - 1
  · have hs : s.put c = { s with val := Function.update s.val a.val.length c,
                                 i := a.val.length + 1 } := by
      simp [Parser.put, Parser.write, hsv, hi, hroom]
    have ha : a.put c = { a with val := a.val ++ [c] } := by
      simp [Scan.put, extend, hv, hroom]
    rw [hs, ha]
    exact
      { h with
        i := by simp [hv]
        val := fun j => by
          rcases lt_trichotomy j a.val.length with hj | rfl | hj
          · simp [Function.update_of_ne hj.ne, h.val, List.getElem?_append_left hj]
          · simp
          · have hnone : (a.val ++ [c])[j]? = none :=
              List.getElem?_eq_none (by rwa [List.length_append])
            rw [hnone]
            simp [Function.update_of_ne hj.ne', h.val, hj.le]
        valRoom := by
          rw [List.length_append, List.length_singleton]
          omega
        noVal := fun he => absurd (hv.symm.trans he) (by decide) }
  · have hs : s.put c = s := by simp [Parser.put, hi, hroom]
    have ha : a.put c = a := by
      unfold Scan.put extend
      rw [if_pos hv, if_neg hroom]
    rw [hs, ha]
    exact h

lemma Reads.put_key (h : Reads old calls s a) (hv : a.onVal = false) (c : UInt8) :
    Reads old calls (s.put c) (a.put c) := by
  have hi := h.i
  rw [hv, if_neg (by decide)] at hi
  have hsv : s.onVal = false := h.onVal.trans hv
  by_cases hroom : a.key.length < confToksize - 1
  · have hs : s.put c = { s with key := Function.update s.key a.key.length c,
                                 i := a.key.length + 1 } := by
      simp [Parser.put, Parser.write, hsv, hi, hroom]
    have ha : a.put c = { a with key := a.key ++ [c] } := by
      simp [Scan.put, extend, hv, hroom]
    rw [hs, ha]
    exact
      { h with
        i := by simp [hv]
        key := fun j b hb => by
          rcases lt_trichotomy j a.key.length with hj | rfl | hj
          · rw [List.getElem?_append_left hj] at hb
            exact (Function.update_of_ne hj.ne _ _).trans (h.key j b hb)
          · simpa using hb
          · rw [List.getElem?_eq_none (by rwa [List.length_append])] at hb
            cases hb
        keyEmpty := fun he => absurd he (by simp)
        keyEnd := fun he => absurd (hv.symm.trans he) (by decide)
        keyRoom := by
          rw [List.length_append, List.length_singleton]
          omega }
  · have hs : s.put c = s := by simp [Parser.put, hi, hroom]
    have ha : a.put c = a := by
      unfold Scan.put extend
      rw [if_neg (by simp [hv]), if_neg hroom]
    rw [hs, ha]
    exact h

/-- **A character of a token.** -/
lemma Reads.put (h : Reads old calls s a) (c : UInt8) :
    Reads old calls (s.put c) (a.put c) := by
  cases hv : a.onVal with
  | true => exact h.put_val hv c
  | false => exact h.put_key hv c

lemma feed_taken {t : Parser} (h : turn k c s = (t, true)) : feed k s c = t := by
  simp only [feed, h, if_true]

lemma feed_again {t : Parser} (h : turn k c s = (t, false)) : feed k s c = (turn k c t).1 := by
  simp only [feed, h, Bool.false_eq_true, if_false]

/-- **A separator.** -/
lemma Reads.separate (h : Reads old calls s a) (hc : c ≠ newline) :
    Reads old calls (turn k c { s with state := .handleSep }).1 a.separate := by
  cases hv : a.onVal with
  | true =>
    have hs : (turn k c { s with state := .handleSep }).1 = { s with state := .handleSep } := by
      simp [turn, h.onVal.trans hv, hc]
    have ha : a.separate = { a with state := .handleSep } := by
      unfold Scan.separate
      rw [if_pos hv]
    rw [hs, ha]
    exact { h with state := rfl, inLine := by simp, sep := fun _ => hv }
  | false =>
    have hi := h.i
    rw [hv, if_neg (by decide)] at hi
    have hs : (turn k c { s with state := .handleSep }).1 =
        { s with key := Function.update s.key a.key.length 0,
                 onVal := true, i := 0, state := .initial } := by
      simp [turn, Parser.write, h.onVal.trans hv, hi]
    have ha : a.separate = { a with onVal := true, state := .initial } := by
      unfold Scan.separate
      rw [if_neg (by simp [hv])]
    rw [hs, ha]
    exact
      { h with
        state := rfl
        onVal := rfl
        i := by simp [h.noVal hv]
        key := fun j b hb => by
          obtain ⟨hj, -⟩ := List.getElem?_eq_some_iff.1 hb
          exact (Function.update_of_ne hj.ne _ _).trans (h.key j b hb)
        keyEmpty := fun he => by simp [show a.key = [] from he]
        keyEnd := fun _ => Function.update_self _ _ _
        noVal := fun he => absurd he (by simp)
        inLine := by simp
        sep := fun _ => rfl }

/-- **A character of the line.** -/
lemma Reads.step (h : Reads old calls s a) (hc : c ≠ newline) :
    Reads old calls (feed k s c) (a.step k c) := by
  have hstate := h.state
  cases ha : a.state with
  | initial =>
    rw [ha] at hstate
    by_cases h1 : c = k.comment
    · have ht : turn k c s = ({ s with state := .comment }, true) := by
        simp only [turn, hstate, if_pos h1]
      simp only [feed_taken ht, Scan.step, ha, if_pos h1]
      exact h.withState (by decide) (by decide)
    by_cases h2 : c = k.str
    · have ht : turn k c s = ({ s with state := .quoted }, true) := by
        simp only [turn, hstate, if_neg h1, if_pos h2]
      simp only [feed_taken ht, Scan.step, ha, if_neg h1, if_pos h2]
      exact h.withState (by decide) (by decide)
    by_cases h3 : c = k.sep
    · have ht : turn k c s = ({ s with state := .handleSep }, false) := by
        simp only [turn, hstate, if_neg h1, if_neg h2, if_neg hc, if_pos h3]
      simp only [feed_again ht, Scan.step, ha, if_neg h1, if_neg h2, if_pos h3]
      exact h.separate hc
    by_cases h4 : isspace c = true
    · have ht : turn k c s = (s, true) := by
        simp only [turn, hstate, if_neg h1, if_neg h2, if_neg hc, if_neg h3, if_pos h4]
      simp only [feed_taken ht, Scan.step, ha, if_neg h1, if_neg h2, if_neg h3, if_pos h4]
      exact h
    · have ht : turn k c s = ({ s.put c with state := .unquoted }, true) := by
        simp only [turn, hstate, if_neg h1, if_neg h2, if_neg hc, if_neg h3, if_neg h4]
      simp only [feed_taken ht, Scan.step, ha, if_neg h1, if_neg h2, if_neg h3, if_neg h4]
      exact (h.put c).withState (by decide) (by decide)
  | comment =>
    rw [ha] at hstate
    have ht : turn k c s = (s, true) := by simp only [turn, hstate, if_neg hc]
    simp only [feed_taken ht, Scan.step, ha]
    exact h
  | quoted =>
    rw [ha] at hstate
    by_cases h1 : c = k.str
    · have ht : turn k c s = ({ s with state := .initial }, true) := by
        simp only [turn, hstate, if_pos h1]
      simp only [feed_taken ht, Scan.step, ha, if_pos h1]
      exact h.withState (by decide) (by decide)
    · have ht : turn k c s = (s.put c, true) := by
        simp only [turn, hstate, if_neg h1, if_neg hc]
      simp only [feed_taken ht, Scan.step, ha, if_neg h1]
      exact h.put c
  | unquoted =>
    rw [ha] at hstate
    by_cases h1 : c = k.comment
    · have ht : turn k c s = ({ s with state := .comment }, true) := by
        simp only [turn, hstate, if_pos h1]
      simp only [feed_taken ht, Scan.step, ha, if_pos h1]
      exact h.withState (by decide) (by decide)
    by_cases h3 : c = k.sep
    · have ht : turn k c s = ({ s with state := .handleSep }, false) := by
        simp only [turn, hstate, if_neg h1, if_neg hc, if_pos h3]
      simp only [feed_again ht, Scan.step, ha, if_neg h1, if_pos h3]
      exact h.separate hc
    by_cases h4 : isspace c = true
    · have ht : turn k c s = ({ s with state := .initial }, true) := by
        simp only [turn, hstate, if_neg h1, if_neg hc, if_neg h3, if_pos h4]
      simp only [feed_taken ht, Scan.step, ha, if_neg h1, if_neg h3, if_pos h4]
      exact h.withState (by decide) (by decide)
    · have ht : turn k c s = (s.put c, true) := by
        simp only [turn, hstate, if_neg h1, if_neg hc, if_neg h3, if_neg h4]
      simp only [feed_taken ht, Scan.step, ha, if_neg h1, if_neg h3, if_neg h4]
      exact h.put c
  | handleNewline => exact absurd ha h.inLine
  | handleSep =>
    rw [ha] at hstate
    have hv : s.onVal = true := h.onVal.trans (h.sep ha)
    have ht : turn k c s = (s, true) := by simp only [turn, hstate, if_pos hv, if_neg hc]
    simp only [feed_taken ht, Scan.step, ha]
    exact h

/-- **A line is read as `scan` says.** -/
lemma Reads.line (h : Reads old calls s a) {l : List UInt8} (hl : newline ∉ l) :
    Reads old calls (l.foldl (feed k) s) (l.foldl (Scan.step k) a) := by
  induction l generalizing s a with
  | nil => exact h
  | cons c l ih =>
    rw [List.mem_cons, not_or] at hl
    exact ih (h.step (Ne.symm hl.1)) hl.2

/-- Before its first character nothing of the line has been read. -/
lemma Fresh.reads (h : Fresh s) : Reads s.val s.calls s ⟨.initial, false, [], []⟩ where
  state := h.state
  onVal := h.onVal
  i := h.i
  key := fun j b hb => by cases hb
  keyEmpty := fun _ => h.key
  keyEnd := fun he => by cases he
  val := fun _ => rfl
  calls := rfl
  keyRoom := by decide
  valRoom := by decide
  noVal := fun _ => rfl
  inLine := by simp
  sep := fun he => by cases he

/-! ## The end of a line -/

lemma takeWhile_ne_nil {l : List UInt8} :
    l.takeWhile (· ≠ 0) ≠ [] ↔ ∃ c, l[0]? = some c ∧ c ≠ 0 := by
  cases l with
  | nil => simp
  | cons c l => by_cases hc : c = 0 <;> simp [hc]

/-- The parser sees a key exactly when the line has one. -/
lemma Reads.key_iff (h : Reads old calls s a) : s.key 0 ≠ 0 ↔ a.key.takeWhile (· ≠ 0) ≠ [] := by
  rw [takeWhile_ne_nil]
  constructor
  · intro hkey
    cases hk : a.key[0]? with
    | none =>
      have hnil : a.key = [] := by simpa using hk
      exact absurd (h.keyEmpty hnil) hkey
    | some c => exact ⟨c, rfl, h.key 0 c hk ▸ hkey⟩
  · rintro ⟨c, hk, hc⟩
    rwa [h.key 0 c hk]

lemma Reads.strIn_key (h : Reads old calls s a) :
    strIn confToksize (s.write 0).key = a.key.takeWhile (· ≠ 0) := by
  have hi := h.i
  cases hv : a.onVal with
  | true =>
    have hs : (s.write 0).key = s.key := by simp [Parser.write, h.onVal.trans hv]
    rw [hs]
    exact strIn_eq h.keyRoom h.key (h.keyEnd hv)
  | false =>
    rw [hv, if_neg (by decide)] at hi
    have hs : (s.write 0).key = Function.update s.key a.key.length 0 := by
      simp [Parser.write, h.onVal.trans hv, hi]
    rw [hs]
    apply strIn_eq h.keyRoom _ (Function.update_self _ _ _)
    intro j b hb
    obtain ⟨hj, -⟩ := List.getElem?_eq_some_iff.1 hb
    exact (Function.update_of_ne hj.ne _ _).trans (h.key j b hb)

/-- The value that the callback gets: without a separator it is what was in the buffer. -/
lemma Reads.strIn_val (h : Reads old calls s a) :
    strIn confToksize (s.write 0).val =
      if a.onVal then a.val.takeWhile (· ≠ 0) else strIn confToksize old := by
  have hi := h.i
  cases hv : a.onVal with
  | true =>
    rw [hv, if_pos rfl] at hi
    have hs : (s.write 0).val = Function.update s.val a.val.length 0 := by
      simp [Parser.write, h.onVal.trans hv, hi]
    rw [hs, if_pos rfl]
    apply strIn_eq h.valRoom _ (Function.update_self _ _ _)
    intro j b hb
    obtain ⟨hj, -⟩ := List.getElem?_eq_some_iff.1 hb
    rw [Function.update_of_ne hj.ne, h.val, hb, Option.getD_some]
  | false =>
    have hs : (s.write 0).val = s.val := by simp [Parser.write, h.onVal.trans hv]
    have hval : s.val = old := by
      funext j
      simp [h.val, h.noVal hv]
    rw [hs, hval, if_neg (by decide)]

/-- The characters do not hide the end of a line. -/
structure Sane (k : Chars) : Prop where
  comment : k.comment ≠ newline
  str : k.str ≠ newline

lemma Reads.feed_newline (hk : Sane k) (h : Reads old calls s a) :
    feed k s newline = (turn k newline { s with state := .handleNewline }).1 := by
  have hstate := h.state
  apply feed_again
  cases ha : a.state with
  | initial => simp [turn, hstate.trans ha, hk.comment.symm, hk.str.symm]
  | comment => simp [turn, hstate.trans ha]
  | quoted => simp [turn, hstate.trans ha, hk.str.symm]
  | unquoted => simp [turn, hstate.trans ha, hk.comment.symm]
  | handleNewline => exact absurd ha h.inLine
  | handleSep => simp [turn, hstate.trans ha, h.onVal.trans (h.sep ha)]

/-- **What the callback gets at the end of a line.** -/
lemma Reads.calls_finish (h : Reads old calls s a) {l : List UInt8} (ha : a = scan k l) :
    (finish s).calls = calls ++ callOf k (strIn confToksize old) l := by
  subst ha
  unfold finish callOf lineKey
  by_cases hkey : s.key 0 ≠ 0
  · rw [if_pos hkey, if_pos (h.key_iff.1 hkey), Parser.call, h.strIn_key, h.strIn_val]
    have hcalls : (s.write 0).calls = calls := by
      rw [← h.calls]
      unfold Parser.write
      split_ifs <;> rfl
    rw [hcalls, lineVal]
  · rw [if_neg hkey, if_neg (mt h.key_iff.2 hkey), h.calls, List.append_nil]

lemma newline_turn (s : Parser) :
    (turn k newline { s with state := .handleNewline }).1 =
      { finish s with
        key := if s.key 0 ≠ 0 then Function.update (finish s).key 0 0 else s.key
        val := if s.key 0 ≠ 0 then Function.update (finish s).val 0 0 else s.val
        onVal := false, i := 0, state := .initial } := by
  by_cases hkey : s.key 0 = 0
  · simp [turn, finish, hkey]
  · cases hv : s.onVal <;> simp [turn, finish, hkey, Parser.call, Parser.write, hv]

/-- **The parser after a line.** -/
lemma Fresh.line (hk : Sane k) (h : Fresh s) {l : List UInt8} (hl : newline ∉ l) :
    Fresh (feed k (l.foldl (feed k) s) newline) ∧
      (feed k (l.foldl (feed k) s) newline).calls = s.calls ++ callOf k (strIn confToksize s.val) l ∧
      decide ((feed k (l.foldl (feed k) s) newline).val 0 ≠ 0) =
        textAfter k (s.val 0 ≠ 0) l := by
  have hr := h.reads.line (k := k) hl
  have hscan : l.foldl (Scan.step k) ⟨.initial, false, [], []⟩ = scan k l := rfl
  rw [hscan] at hr
  rw [hr.feed_newline hk, newline_turn]
  refine ⟨⟨rfl, rfl, rfl, ?_⟩, hr.calls_finish rfl, ?_⟩
  · by_cases hkey : (l.foldl (feed k) s).key 0 = 0
    · simp [hkey]
    · simp [hkey]
  · have hkeyIff : (l.foldl (feed k) s).key 0 ≠ 0 ↔ lineKey k l ≠ [] := hr.key_iff
    unfold textAfter
    by_cases hkey : (l.foldl (feed k) s).key 0 ≠ 0
    · rw [if_pos (hkeyIff.1 hkey)]
      simp [hkey]
    · rw [if_neg (mt hkeyIff.2 hkey)]
      simp only [if_neg hkey, hr.val]
      cases hval : (scan k l).val with
      | nil => simp
      | cons c rest => by_cases hc : c = 0 <;> simp [lineVal, hval, hc]

end Reading

/-! ## The lines of a file -/

lemma noLeak_nil (text : Bool) : NoLeak k text [] := by
  intro pre l post h
  simp at h

lemma noLeak_cons {text : Bool} {l : List UInt8} {ls : List (List UInt8)} :
    NoLeak k text (l :: ls) ↔
      (keyAlone k l = true → text = false) ∧ NoLeak k (textAfter k text l) ls := by
  constructor
  · intro h
    constructor
    · exact h [] l ls rfl
    · intro pre l' post hls
      exact h (l :: pre) l' post (by rw [hls, List.cons_append])
  · rintro ⟨hl, hls⟩ pre l' post h
    cases pre with
    | nil =>
      obtain ⟨rfl, rfl⟩ := List.cons.inj h
      exact hl
    | cons x pre =>
      obtain ⟨rfl, rfl⟩ := List.cons.inj h
      exact hls pre l' post rfl

/-- The string that is left in the buffer matters to a key without a separator only. -/
lemma callOf_eq_iff {left : List UInt8} {l : List UInt8} :
    callOf k left l = callOf k [] l ↔ (keyAlone k l = true → left = []) := by
  unfold callOf keyAlone
  by_cases hkey : lineKey k l ≠ []
  · cases hv : (scan k l).onVal <;> simp [hkey]
  · simp [hkey]

lemma length_callOf (left left' : List UInt8) (l : List UInt8) :
    (callOf k left l).length = (callOf k left' l).length := by
  unfold callOf
  split_ifs <;> rfl

lemma strIn_eq_nil_iff {t : Token} : strIn confToksize t = [] ↔ decide (t 0 ≠ 0) = false := by
  have h : (List.range confToksize).map t = t 0 :: ((List.range 127).map Nat.succ).map t := by
    rw [show confToksize = 127 + 1 from rfl, List.range_succ_eq_map, List.map_cons]
  by_cases h0 : t 0 = 0
  · simp [strIn, h, h0]
  · simp [strIn, h, h0]

/-- The calls for the lines of a file are those of the lines on their own if nothing leaks. -/
lemma Fresh.calls (hk : Sane k) {s : Parser} (h : Fresh s) {ls : List (List UInt8)}
    {last : List UInt8} (hls : ∀ l ∈ ls, newline ∉ l) (hlast : newline ∉ last) :
    ∃ r, (finish ((ls.flatMap (· ++ [newline]) ++ last).foldl (feed k) s)).calls = s.calls ++ r ∧
      (r = (ls ++ [last]).flatMap (callOf k []) ↔ NoLeak k (s.val 0 ≠ 0) (ls ++ [last])) := by
  induction ls generalizing s with
  | nil =>
    refine ⟨callOf k (strIn confToksize s.val) last, (h.reads.line hlast).calls_finish rfl, ?_⟩
    rw [List.nil_append, noLeak_cons, List.flatMap_singleton, callOf_eq_iff, strIn_eq_nil_iff]
    exact (and_iff_left (noLeak_nil _)).symm
  | cons l ls ih =>
    rw [List.forall_mem_cons] at hls
    obtain ⟨hfresh, hcalls, htext⟩ := h.line hk hls.1
    obtain ⟨r, hr, hiff⟩ := ih hfresh hls.2
    refine ⟨callOf k (strIn confToksize s.val) l ++ r, ?_, ?_⟩
    · rw [List.flatMap_cons, List.append_assoc, List.append_assoc, List.foldl_append,
        List.foldl_append, List.foldl_cons, List.foldl_nil, hr, hcalls, List.append_assoc]
    · rw [List.cons_append, List.flatMap_cons, noLeak_cons, ← htext, ← hiff, ← strIn_eq_nil_iff,
        ← callOf_eq_iff]
      constructor
      · exact fun heq => List.append_inj heq (length_callOf _ _ _)
      · rintro ⟨hl, hr⟩
        rw [hl, hr]

lemma fresh_start : Fresh Parser.start := ⟨rfl, rfl, rfl, rfl⟩

lemma parse_line (hk : Sane k) {l : List UInt8} (hl : newline ∉ l) :
    parse k (l ++ [newline]) = callOf k [] l := by
  obtain ⟨hfresh, hcalls, -⟩ := fresh_start.line hk hl
  have hempty : strIn confToksize Parser.start.val = [] := strIn_eq_nil_iff.2 (by decide)
  rw [parse, List.foldl_append, List.foldl_cons, List.foldl_nil, finish,
    if_neg (not_not.2 hfresh.key), hcalls, hempty]
  rfl

/-! ## A newline among the characters -/

/-- A byte of a word, whatever the three characters are. -/
structure Plain (k : Chars) (x : UInt8) : Prop where
  comment : x ≠ k.comment
  sep : x ≠ k.sep
  str : x ≠ k.str
  line : x ≠ newline
  space : isspace x = false
  nul : x ≠ 0

lemma exists_plain (k : Chars) : ∃ x, Plain k x := by
  have hcard : ({k.comment, k.sep, k.str} : Finset UInt8).card <
      ({97, 98, 99, 100} : Finset UInt8).card :=
    lt_of_le_of_lt Finset.card_le_three (by decide)
  obtain ⟨x, hx, hk⟩ := Finset.exists_mem_notMem_of_card_lt_card hcard
  have hletter : ∀ y ∈ ({97, 98, 99, 100} : Finset UInt8),
      y ≠ newline ∧ isspace y = false ∧ y ≠ 0 := by
    decide +kernel
  simp only [Finset.mem_insert, Finset.mem_singleton, not_or] at hk
  obtain ⟨hn, hs, h0⟩ := hletter x hx
  exact ⟨x, hk.1, hk.2.1, hk.2.2, hn, hs, h0⟩

section Plain

variable {x : UInt8}

lemma Plain.joined_of_comment (h : Plain k x) (hk : k.comment = newline) :
    (parse k [x, newline, x, newline]).length = 1 ∧ (parse k [x, newline]).length = 1 ∧
      parse k [newline] = [] := by
  obtain ⟨-, hsep, hstr, hn, hspace, h0⟩ := h
  have hx : (parse k [x, newline]).length = 1 := by
    simp [parse, feed, turn, Parser.start, Parser.put, Parser.write, Parser.call, finish, hk,
      hsep, hstr, hn, hspace, h0, confToksize]
  have hxx : (parse k [x, newline, x, newline]).length = 1 := by
    simp [parse, feed, turn, Parser.start, Parser.put, Parser.write, Parser.call, finish, hk,
      hsep, hstr, hn, hspace, h0, confToksize]
  exact ⟨hxx, hx, by simp [parse, feed, turn, Parser.start, finish, hk]⟩

/-- The first newline begins a string, in which the second line lies. -/
lemma Plain.joined_of_str (h : Plain k x) (hcomment : k.comment ≠ newline)
    (hk : k.str = newline) :
    (parse k [newline, x, newline, x, newline]).length = 1 ∧ (parse k [x, newline]).length = 1 ∧
      parse k [newline] = [] := by
  obtain ⟨hc, hsep, -, hn, hspace, h0⟩ := h
  have hx : (parse k [x, newline]).length = 1 := by
    simp [parse, feed, turn, Parser.start, Parser.put, Parser.write, Parser.call, finish, hk,
      hcomment.symm, hc, hsep, hn, hspace, h0, confToksize]
  have hxx : (parse k [newline, x, newline, x, newline]).length = 1 := by
    simp [parse, feed, turn, Parser.start, Parser.put, Parser.write, Parser.call, finish, hk,
      hcomment.symm, hc, hsep, hn, hspace, h0, confToksize]
  exact ⟨hxx, hx, by simp [parse, feed, turn, Parser.start, finish, hk, hcomment.symm]⟩

lemma Plain.noLeak (h : Plain k x) {ls : List (List UInt8)} (hls : ∀ l ∈ ls, l = [] ∨ l = [x]) :
    NoLeak k false ls := by
  have hkey : lineKey k [x] ≠ [] := by
    simp [lineKey, scan, Scan.step, Scan.put, extend, h.comment, h.str, h.sep, h.space, h.nul,
      confToksize]
  induction ls with
  | nil => exact noLeak_nil _
  | cons l ls ih =>
    rw [List.forall_mem_cons] at hls
    have htext : textAfter k false l = false := by
      rcases hls.1 with rfl | rfl
      · rfl
      · rw [textAfter, if_pos hkey]
    rw [noLeak_cons, htext]
    exact ⟨fun _ => rfl, ih hls.2⟩

lemma Plain.lines_joined (h : Plain k x) :
    lines [x, newline, x, newline] = [[x], [x], []] ∧
      lines [newline, x, newline, x, newline] = [[], [x], [x], []] := by
  have hx : lines [x, newline, x, newline] = [[x], [x], []] := by
    simp [lines, h.line]
  exact ⟨hx, by rw [lines, if_pos rfl, hx]⟩

/-- A newline as the comment or the string character joins two lines. -/
lemma exists_joined (hk : ¬ Sane k) :
    ∃ content, NoLeak k false (lines content) ∧
      parse k content ≠ (lines content).flatMap (fun l => parse k (l ++ [newline])) := by
  obtain ⟨x, hx⟩ := exists_plain k
  by_cases hcomment : k.comment = newline
  · obtain ⟨htwo, hone, hnone⟩ := hx.joined_of_comment hcomment
    refine ⟨[x, newline, x, newline], ?_, fun heq => ?_⟩
    · rw [hx.lines_joined.1]
      exact hx.noLeak (by simp)
    · have hlen := congrArg List.length heq
      rw [htwo, hx.lines_joined.1] at hlen
      simp [hone, hnone] at hlen
  · have hstr : k.str = newline := by
      by_contra hstr
      exact hk ⟨hcomment, hstr⟩
    obtain ⟨htwo, hone, hnone⟩ := hx.joined_of_str hcomment hstr
    refine ⟨[newline, x, newline, x, newline], ?_, fun heq => ?_⟩
    · rw [hx.lines_joined.2]
      exact hx.noLeak (by simp)
    · have hlen := congrArg List.length heq
      rw [htwo, hx.lines_joined.2] at hlen
      simp [hone, hnone] at hlen

end Plain

/-- The characters that `mc_config_init` passes: `'#'`, `'='` and `'"'`. -/
def mcChars : Chars := ⟨35, 61, 34⟩

/-- **Each line is treated on its own exactly when no text is left in the buffer of the value for a
line with a key alone; a newline as comment or string character joins lines.** -/
theorem lines_alone_iff (k : Chars) :
    (∀ (Name : Type) (path : Option Name) (fopen : Name → Option (List UInt8)),
      (configParser k path fopen).2 = (path.bind fopen).elim [] (parse k)) ∧
    (Sane k → ∀ content,
      parse k content = (lines content).flatMap (fun l => parse k (l ++ [newline])) ↔
        NoLeak k false (lines content)) ∧
    (¬ Sane k → ∃ content, NoLeak k false (lines content) ∧
      parse k content ≠ (lines content).flatMap (fun l => parse k (l ++ [newline]))) := by
  refine ⟨?_, ?_, ?_⟩
  · rintro Name (_ | path) fopen
    · rfl
    · rw [Option.bind_some, configParser]
      cases fopen path <;> rfl
  · intro hk content
    obtain ⟨ls, last, hcontent, hlines, hls, hlast⟩ := lines_spec content
    obtain ⟨r, hr, hiff⟩ := fresh_start.calls hk hls hlast
    have hflat : (ls ++ [last]).flatMap (fun l => parse k (l ++ [newline])) =
        (ls ++ [last]).flatMap (callOf k []) := by
      apply List.flatMap_congr
      intro l hl
      rcases List.mem_append.1 hl with hl | hl
      · exact parse_line hk (hls l hl)
      · rw [List.mem_singleton.1 hl]
        exact parse_line hk hlast
    have hparse : parse k content = r := by
      rw [parse, hcontent, hr]
      rfl
    rw [hlines, hflat, hparse]
    exact hiff
  · exact exists_joined

/-- `=bar` and `foo`: the key of the second line gets the value of the first. -/
theorem value_leaks :
    parse mcChars [61, 98, 97, 114, 10, 102, 111, 111, 10] =
        [([102, 111, 111], [98, 97, 114])] ∧
      ¬ ∃ f, ∀ content, parse mcChars content = (lines content).flatMap f := by
  have hleak : parse mcChars [61, 98, 97, 114, 10, 102, 111, 111, 10] =
      [([102, 111, 111], [98, 97, 114])] := by decide +kernel
  refine ⟨hleak, ?_⟩
  rintro ⟨f, hf⟩
  have hempty : f [] = [] := by
    have h := hf []
    rw [show parse mcChars [] = [] from rfl] at h
    simpa [lines] using h.symm
  have hbar : f [61, 98, 97, 114] = [] := by
    have h := hf [61, 98, 97, 114]
    rw [show parse mcChars [61, 98, 97, 114] = [] from by decide +kernel] at h
    simpa [lines, newline] using h.symm
  have hfoo : f [102, 111, 111] = [([102, 111, 111], [])] := by
    have h := hf [102, 111, 111]
    rw [show parse mcChars [102, 111, 111] = [([102, 111, 111], [])] from by decide +kernel] at h
    simpa [lines, newline] using h.symm
  have hboth := hf [61, 98, 97, 114, 10, 102, 111, 111, 10]
  rw [hleak] at hboth
  simp [lines, newline, hempty, hbar, hfoo] at hboth

end LinuxC.Scl
