import LinuxC.Common.Lines
import LinuxC.Uapi.Broker
import Mathlib.Data.List.TakeWhile
import Mathlib.Logic.Function.Basic

/-!
# The configuration items of `common/gcl.c`

A table is an array of items, ordered by key, each with a default and a value.  `gcl_init` checks
the order, clears the values and reads a file; `gcl_get` looks a key up, and `gcl_sync` writes the
table back.

The parser has one token buffer, in which it collects the key and then the value.  A token is given
by the characters before `t`.  A turn of the loop does not always take the character: a newline and
a separator first change the state, and the next turn takes them (`turn_taken`).

The items lie in memory that goes on before and after them, so a table is a function of the index.
`mem` says which calls of `strdup` find memory.
-/

namespace LinuxC.Gcl

open Text
open Uapi (strcmp)

/-- `'#'`. -/
def hash : UInt8 := 35

/-- `'"'`. -/
def quote : UInt8 := 34

/-- `'='`. -/
def equals : UInt8 := 61

def gclBufsize : ℕ := 1024

def gclToksize : ℕ := 256

inductive ParseState
  | initial
  | comment
  | quoted
  | unquoted
  | handleNewline
  | handleSep
  deriving DecidableEq, Repr

/-- `struct gcl_item`; strings are without the zero at their end. -/
structure GclItem where
  key : List UInt8
  dval : Option (List UInt8)
  value : Option (List UInt8)

/-- The items by their index from `c`. -/
abbrev Table := ℤ → GclItem

def Table.setValue (c : Table) (i : ℤ) (value : Option (List UInt8)) : Table :=
  Function.update c i { c i with value := value }

/-! ## `ascend` and `search` -/

/-- The loop of `ascend`, with the number of turns that are left. -/
def ascendFrom : ℕ → ℤ → Table → Table × Bool
  | 0, i, c => (c.setValue (i - 1) none, true)
  | k + 1, i, c =>
      if 0 ≤ strcmp (c i).key (c (i + 1)).key then (c, false)
      else ascendFrom k (i + 1) (c.setValue i none)

def ascend (c : Table) (n : ℕ) : Table × Bool := ascendFrom (n - 1) 0 c

/-- The loop of `search`, for at most as many turns as there are items. -/
def searchFrom (c : Table) (key : List UInt8) : ℕ → ℤ → ℤ → Option ℤ
  | 0, _, _ => none
  | k + 1, l, r =>
      if l ≤ r then
        let m := (l + r) / 2
        let cmp := strcmp key (c m).key
        if cmp < 0 then searchFrom c key k l (m - 1)
        else if 0 < cmp then searchFrom c key k (m + 1) r
        else some m
      else none

def search (c : Table) (n : ℕ) (key : List UInt8) : Option ℤ := searchFrom c key n 0 (n - 1)

def gclGet (c : Table) (n : ℕ) (key : List UInt8) : Option (List UInt8) :=
  match search c n key with
  | none => none
  | some i => (c i).value.or (c i).dval

/-! ## `gcl_init` -/

/-- The string in a token. -/
def tokString (tok : List UInt8) : List UInt8 := tok.takeWhile (· ≠ 0)

/-- A token with one more character, if there is room. -/
def extend (tok : List UInt8) (ch : UInt8) : List UInt8 :=
  if tok.length < gclToksize - 1 then tok ++ [ch] else tok

/-- The local variables of `gcl_init`, with the items and the number of calls of `strdup`.  `out`
says that the loop was left by `goto out`. -/
structure Parser where
  state : ParseState
  tok : List UInt8
  item : Option ℤ
  c : Table
  dups : ℕ
  result : ℤ
  out : Bool

/-- The variables before the first character. -/
def Parser.start (c : Table) : Parser := ⟨.initial, [], none, c, 0, 0, false⟩

def enomem : ℤ := 12

def einval : ℤ := 22

def enoent : ℤ := 2

variable (mem : ℕ → Bool) (n : ℕ)

/-- The value of an item is a copy of the token; an empty token gives an empty string. -/
def Parser.assign (i : ℤ) (p : Parser) : Parser :=
  if mem p.dups then
    { p with c := p.c.setValue i (some (tokString p.tok)), dups := p.dups + 1 }
  else { p with c := p.c.setValue i none, dups := p.dups + 1, result := enomem }

/-- One turn of the loop at the character `ch`, and whether it takes the character. -/
def turn (ch : UInt8) (p : Parser) : Parser × Bool :=
  match p.state with
  | .initial =>
      if ch = hash then ({ p with state := .comment }, true)
      else if ch = quote then ({ p with state := .quoted }, true)
      else if ch = newline then ({ p with state := .handleNewline }, false)
      else if ch = equals then ({ p with state := .handleSep }, false)
      else if isspace ch then (p, true)
      else ({ p with tok := extend p.tok ch, state := .unquoted }, true)
  | .comment =>
      if ch = newline then ({ p with state := .handleNewline }, false) else (p, true)
  | .quoted =>
      if ch = quote then ({ p with state := .initial }, true)
      else if ch = newline then ({ p with state := .handleNewline }, false)
      else ({ p with tok := extend p.tok ch }, true)
  | .unquoted =>
      if ch = hash then ({ p with state := .comment }, true)
      else if ch = newline then ({ p with state := .handleNewline }, false)
      else if ch = equals then ({ p with state := .handleSep }, false)
      else if isspace ch then ({ p with state := .initial }, true)
      else ({ p with tok := extend p.tok ch }, true)
  | .handleSep =>
      match p.item with
      | some _ =>
          if ch = newline then ({ p with state := .handleNewline }, false) else (p, true)
      | none =>
          if p.tok = [] then ({ p with state := .initial }, true)
          else
            ({ p with item := search p.c n (tokString p.tok), tok := [], state := .initial }, true)
  | .handleNewline =>
      match p.item with
      | some i =>
          if (p.c i).value.isSome then
            -- a duplicate pair: the value that is there stays
            ({ p with item := none, tok := [], state := .initial }, true)
          else
            let p := p.assign mem i
            if (p.c i).value = none then ({ p with out := true }, true)
            else ({ p with item := none, tok := [], state := .initial }, true)
      | none => ({ p with tok := [], state := .initial }, true)

/-- The turns at one character: the second one takes it. -/
def feed (p : Parser) (ch : UInt8) : Parser :=
  if p.out then p
  else
    let r := turn mem n ch p
    if r.2 then r.1 else (turn mem n ch r.1).1

/-- What follows the loop: the item of a last line without a newline. -/
def finish (p : Parser) : Parser :=
  if p.out then p
  else
    match p.item with
    | some i => p.assign mem i
    | none => p

/-- `gcl_init`, with the content of the file if it can be opened. -/
def gclInit (c : Table) (file : Option (List UInt8)) : ℤ × Table :=
  let (c, ascending) := ascend c n
  if ascending then
    match file with
    | none => (enoent, c)
    | some content =>
        let p := finish mem (content.foldl (feed mem n) (Parser.start c))
        (p.result, p.c)
  else (einval, c)

/-! ## `gcl_sync` -/

/-- `sprintf` of one pair to the buffer.  Without a value, and with one that is too long for the
buffer, what happens is undefined. -/
def sprintf (item : GclItem) : Option (List UInt8) :=
  match item.value.or item.dval with
  | none => none
  | some v =>
      let line := item.key ++ equals :: (v ++ [newline])
      if line.length < gclBufsize then some line else none

/-- The loop of `gcl_sync`, with the number of items that are left and what was written so far.
`fwrite` says how much of a pair is written. -/
def gclSyncFrom (fwrite : ℤ → ℕ) (c : Table) : ℕ → ℤ → List UInt8 → Option (ℤ × List UInt8)
  | 0, _, text => some (1, text)
  | k + 1, i, text =>
      match sprintf (c i) with
      | none => none
      | some line =>
          if fwrite i < line.length then some (0, text ++ line.take (fwrite i))
          else gclSyncFrom fwrite c k (i + 1) (text ++ line)

/-- `gcl_sync`: its result, and the content of the file if it could be opened. -/
def gclSync (opened : Bool) (fwrite : ℤ → ℕ) (c : Table) (n : ℕ) : Option (ℤ × List UInt8) :=
  if opened then gclSyncFrom fwrite c n 0 [] else some (0, [])


section Turn

variable {mem : ℕ → Bool} {n : ℕ} {ch : UInt8} {p : Parser}

/-- A turn that does not take the character has seen a newline or a separator. -/
lemma turn_again (h : (turn mem n ch p).2 = false) :
    ch = newline ∧ (turn mem n ch p).1 = { p with state := .handleNewline } ∨
      ch = equals ∧ (turn mem n ch p).1 = { p with state := .handleSep } := by
  cases hstate : p.state with
  | initial =>
    simp only [turn, hstate] at h ⊢
    split_ifs at h ⊢ with h1 h2 h3 h4
    · exact .inl ⟨h3, rfl⟩
    · exact .inr ⟨h4, rfl⟩
  | comment =>
    simp only [turn, hstate] at h ⊢
    split_ifs at h ⊢ with h1
    exact .inl ⟨h1, rfl⟩
  | quoted =>
    simp only [turn, hstate] at h ⊢
    split_ifs at h ⊢ with h1 h2
    exact .inl ⟨h2, rfl⟩
  | unquoted =>
    simp only [turn, hstate] at h ⊢
    split_ifs at h ⊢ with h1 h2 h3
    · exact .inl ⟨h2, rfl⟩
    · exact .inr ⟨h3, rfl⟩
  | handleSep =>
    cases hitem : p.item with
    | none =>
      simp only [turn, hstate, hitem] at h
      split_ifs at h
    | some i =>
      simp only [turn, hstate, hitem] at h ⊢
      split_ifs at h ⊢ with h1
      exact .inl ⟨h1, rfl⟩
  | handleNewline =>
    cases hitem : p.item with
    | none => simp only [turn, hstate, hitem] at h; cases h
    | some i =>
      simp only [turn, hstate, hitem] at h
      split_ifs at h

lemma turn_taken (h : (turn mem n ch p).2 = false) :
    (turn mem n ch (turn mem n ch p).1).2 = true := by
  rcases turn_again h with ⟨-, h1⟩ | ⟨hch, h1⟩
  · rw [h1]
    cases p.item with
    | none => rfl
    | some i =>
      simp only [turn]
      split_ifs <;> rfl
  · rw [h1]
    cases p.item with
    | none =>
      simp only [turn]
      split_ifs <;> rfl
    | some i =>
      have hne : ch ≠ newline := by
        rw [hch]
        decide
      simp only [turn, if_neg hne]

end Turn

end LinuxC.Gcl
