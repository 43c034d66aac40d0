import LinuxC.Gcl.Table

/-!
# What a file gives to the items

`gcl_init` reads a file line by line.  A line names an item and gives it a string (`entry`), or
names none: while no item is found, every separator takes up the search again with the token behind
the one before.  A line with a newline behind it gives its string to an item that has no value; a
last line without one gives it in any case.  `gclInit_spec` says so of the whole file.
-/

namespace LinuxC.Gcl

open Text

/-! ## One line -/

/-- What the parser has read of a line. -/
structure Scan where
  state : ParseState
  tok : List UInt8
  item : Option ℤ

/-- Nothing of a line was read yet. -/
def Scan.fresh : Scan := ⟨.initial, [], none⟩

variable (find : List UInt8 → Option ℤ)

/-- A separator: the token is looked up, unless there is an item already. -/
def Scan.separate (a : Scan) : Scan :=
  match a.item with
  | some _ => { a with state := .handleSep }
  | none =>
      if a.tok = [] then { a with state := .initial }
      else ⟨.initial, [], find (tokString a.tok)⟩

/-- The next character of the line. -/
def Scan.step (a : Scan) (ch : UInt8) : Scan :=
  match a.state with
  | .initial =>
      if ch = hash then { a with state := .comment }
      else if ch = quote then { a with state := .quoted }
      else if ch = equals then a.separate find
      else if isspace ch then a
      else { a with tok := extend a.tok ch, state := .unquoted }
  | .quoted =>
      if ch = quote then { a with state := .initial } else { a with tok := extend a.tok ch }
  | .unquoted =>
      if ch = hash then { a with state := .comment }
      else if ch = equals then a.separate find
      else if isspace ch then { a with state := .initial }
      else { a with tok := extend a.tok ch }
  | _ => a

/-- A whole line. -/
def scan (l : List UInt8) : Scan := l.foldl (Scan.step find) .fresh

/-- The item that was found, and the string for it. -/
def Scan.entry (a : Scan) : Option (ℤ × List UInt8) := a.item.map fun i => (i, tokString a.tok)

/-- The item that a line names, and the string for it. -/
def entry (l : List UInt8) : Option (ℤ × List UInt8) := (scan find l).entry

/-- The string that a line gives to an item. -/
def assigns (i : ℤ) (l : List UInt8) : Option (List UInt8) :=
  match entry find l with
  | some (j, v) => if j = i then some v else none
  | none => none

/-- The lines that have a newline behind them. -/
def endedLines (content : List UInt8) : List (List UInt8) := (lines content).dropLast

/-- What is behind the last newline. -/
def lastLine (content : List UInt8) : List UInt8 := (lines content).getLastD []

/-- The value of an item after the file, if it was `old` before it. -/
def given (old : Option (List UInt8)) (content : List UInt8) (i : ℤ) : Option (List UInt8) :=
  (assigns find i (lastLine content)).or
    (old.or ((endedLines content).findSome? (assigns find i)))

variable {find}

lemma lines_split {content : List UInt8} {ls : List (List UInt8)} {last : List UInt8}
    (h : lines content = ls ++ [last]) : endedLines content = ls ∧ lastLine content = last := by
  constructor
  · rw [endedLines, h, List.dropLast_concat]
  · simp [lastLine, h]

/-! ## The parser reads a line -/

/-- A place inside of a line. -/
structure Scan.InLine (find : List UInt8 → Option ℤ) (a : Scan) : Prop where
  newline : a.state ≠ .handleNewline
  sep : a.state = .handleSep → ∃ i, a.item = some i
  found : ∀ i, a.item = some i → ∃ key, find key = some i

/-- The parser that has read `a` of a line. -/
def reading (a : Scan) (c : Table) (dups : ℕ) : Parser :=
  ⟨a.state, a.tok, a.item, c, dups, 0, false⟩

section Reading

variable {mem : ℕ → Bool} {n : ℕ} {a : Scan} {c : Table} {d : ℕ} {ch : UInt8}

lemma feed_taken {p q : Parser} (hout : p.out = false) (h : turn mem n ch p = (q, true)) :
    feed mem n p ch = q := by
  simp only [feed, hout, h, if_true, Bool.false_eq_true, if_false]

lemma feed_again {p q : Parser} (hout : p.out = false) (h : turn mem n ch p = (q, false)) :
    feed mem n p ch = (turn mem n ch q).1 := by
  simp only [feed, hout, h, Bool.false_eq_true, if_false]

lemma Scan.InLine.withState (h : a.InLine find) {st : ParseState} {tok : List UInt8}
    (hline : st ≠ .handleNewline) (hsep : st ≠ .handleSep) :
    Scan.InLine find ⟨st, tok, a.item⟩ :=
  ⟨hline, fun he => absurd he hsep, h.found⟩

lemma Scan.InLine.separate (h : a.InLine find) : (a.separate find).InLine find := by
  unfold Scan.separate
  cases hitem : a.item with
  | some i => exact ⟨by simp, fun _ => ⟨i, rfl⟩, fun j hj => h.found j (hitem.trans hj)⟩
  | none =>
    dsimp only
    split_ifs
    · exact ⟨by simp, by simp, by simp⟩
    · exact ⟨by simp, by simp, fun i hi => ⟨_, hi⟩⟩

lemma Scan.InLine.step (h : a.InLine find) : (a.step find ch).InLine find := by
  cases hstate : a.state with
  | initial =>
    simp only [Scan.step, hstate]
    split_ifs
    · exact h.withState (by decide) (by decide)
    · exact h.withState (by decide) (by decide)
    · exact h.separate
    · exact h
    · exact h.withState (by decide) (by decide)
  | quoted =>
    simp only [Scan.step, hstate]
    split_ifs
    · exact h.withState (by decide) (by decide)
    · exact h.withState (by decide) (by decide)
  | unquoted =>
    simp only [Scan.step, hstate]
    split_ifs
    · exact h.withState (by decide) (by decide)
    · exact h.separate
    · exact h.withState (by decide) (by decide)
    · exact h.withState (by decide) (by decide)
  | comment => simpa only [Scan.step, hstate] using h
  | handleSep => simpa only [Scan.step, hstate] using h
  | handleNewline => simpa only [Scan.step, hstate] using h

lemma turn_separate (hfind : ∀ key, search c n key = find key) :
    (turn mem n equals (reading { a with state := .handleSep } c d)).1 =
      reading (a.separate find) c d := by
  have hne : equals ≠ newline := by decide
  unfold Scan.separate
  cases hitem : a.item with
  | some i => simp only [turn, reading, if_neg hne]
  | none =>
    by_cases htok : a.tok = []
    · simp only [turn, reading, htok, if_true]
    · simp only [turn, reading, if_neg htok, hfind]

/-- **A character of the line.** -/
lemma feed_reading (hfind : ∀ key, search c n key = find key) (h : a.InLine find)
    (hch : ch ≠ newline) :
    feed mem n (reading a c d) ch = reading (a.step find ch) c d := by
  have hout : (reading a c d).out = false := rfl
  cases hstate : a.state with
  | initial =>
    by_cases h1 : ch = hash
    · have ht : turn mem n ch (reading a c d) =
          (reading { a with state := .comment } c d, true) := by
        simp only [turn, reading, hstate, if_pos h1]
      simp only [feed_taken hout ht, Scan.step, hstate, if_pos h1]
    by_cases h2 : ch = quote
    · have ht : turn mem n ch (reading a c d) =
          (reading { a with state := .quoted } c d, true) := by
        simp only [turn, reading, hstate, if_neg h1, if_pos h2]
      simp only [feed_taken hout ht, Scan.step, hstate, if_neg h1, if_pos h2]
    by_cases h3 : ch = equals
    · have ht : turn mem n ch (reading a c d) =
          (reading { a with state := .handleSep } c d, false) := by
        simp only [turn, reading, hstate, if_neg h1, if_neg h2, if_neg hch, if_pos h3]
      simp only [feed_again hout ht, Scan.step, hstate, if_neg h1, if_neg h2, if_pos h3]
      rw [h3, turn_separate hfind]
    by_cases h4 : isspace ch = true
    · have ht : turn mem n ch (reading a c d) = (reading a c d, true) := by
        simp only [turn, reading, hstate, if_neg h1, if_neg h2, if_neg hch, if_neg h3, if_pos h4]
      simp only [feed_taken hout ht, Scan.step, hstate, if_neg h1, if_neg h2, if_neg h3, if_pos h4]
    · have ht : turn mem n ch (reading a c d) =
          (reading { a with tok := extend a.tok ch, state := .unquoted } c d, true) := by
        simp only [turn, reading, hstate, if_neg h1, if_neg h2, if_neg hch, if_neg h3, if_neg h4]
      simp only [feed_taken hout ht, Scan.step, hstate, if_neg h1, if_neg h2, if_neg h3, if_neg h4]
  | comment =>
    have ht : turn mem n ch (reading a c d) = (reading a c d, true) := by
      simp only [turn, reading, hstate, if_neg hch]
    simp only [feed_taken hout ht, Scan.step, hstate]
  | quoted =>
    by_cases h1 : ch = quote
    · have ht : turn mem n ch (reading a c d) =
          (reading { a with state := .initial } c d, true) := by
        simp only [turn, reading, hstate, if_pos h1]
      simp only [feed_taken hout ht, Scan.step, hstate, if_pos h1]
    · have ht : turn mem n ch (reading a c d) =
          (reading { a with tok := extend a.tok ch } c d, true) := by
        simp only [turn, reading, hstate, if_neg h1, if_neg hch]
      simp only [feed_taken hout ht, Scan.step, hstate, if_neg h1]
  | unquoted =>
    by_cases h1 : ch = hash
    · have ht : turn mem n ch (reading a c d) =
          (reading { a with state := .comment } c d, true) := by
        simp only [turn, reading, hstate, if_pos h1]
      simp only [feed_taken hout ht, Scan.step, hstate, if_pos h1]
    by_cases h3 : ch = equals
    · have ht : turn mem n ch (reading a c d) =
          (reading { a with state := .handleSep } c d, false) := by
        simp only [turn, reading, hstate, if_neg h1, if_neg hch, if_pos h3]
      simp only [feed_again hout ht, Scan.step, hstate, if_neg h1, if_pos h3]
      rw [h3, turn_separate hfind]
    by_cases h4 : isspace ch = true
    · have ht : turn mem n ch (reading a c d) =
          (reading { a with state := .initial } c d, true) := by
        simp only [turn, reading, hstate, if_neg h1, if_neg hch, if_neg h3, if_pos h4]
      simp only [feed_taken hout ht, Scan.step, hstate, if_neg h1, if_neg h3, if_pos h4]
    · have ht : turn mem n ch (reading a c d) =
          (reading { a with tok := extend a.tok ch } c d, true) := by
        simp only [turn, reading, hstate, if_neg h1, if_neg hch, if_neg h3, if_neg h4]
      simp only [feed_taken hout ht, Scan.step, hstate, if_neg h1, if_neg h3, if_neg h4]
  | handleNewline => exact absurd hstate h.newline
  | handleSep =>
    obtain ⟨i, hitem⟩ := h.sep hstate
    have ht : turn mem n ch (reading a c d) = (reading a c d, true) := by
      simp only [turn, reading, hstate, hitem, if_neg hch]
    simp only [feed_taken hout ht, Scan.step, hstate]

/-- **The characters of a line.** -/
lemma foldl_reading (mem : ℕ → Bool) (hfind : ∀ key, search c n key = find key)
    (h : a.InLine find) {l : List UInt8} (hl : newline ∉ l) :
    l.foldl (feed mem n) (reading a c d) = reading (l.foldl (Scan.step find) a) c d := by
  induction l generalizing a with
  | nil => rfl
  | cons ch l ih =>
    rw [List.mem_cons, not_or] at hl
    rw [List.foldl_cons, List.foldl_cons, feed_reading hfind h (Ne.symm hl.1)]
    exact ih h.step hl.2

/-! ## Plain text -/

/-- A character that stands for itself in a token. -/
structure PlainChar (ch : UInt8) : Prop where
  hash : ch ≠ hash
  equals : ch ≠ equals
  space : isspace ch = false
  nul : ch ≠ 0

/-- A text that the parser reads as it is. -/
structure PlainText (w : List UInt8) : Prop where
  char : ∀ ch ∈ w, PlainChar ch
  head : w.head? ≠ some quote

lemma extend_of_lt {tok : List UInt8} (h : tok.length < gclToksize - 1) :
    extend tok ch = tok ++ [ch] := if_pos h

lemma foldl_unquoted {w tok : List UInt8} {item : Option ℤ} (hw : ∀ ch ∈ w, PlainChar ch)
    (hlen : tok.length + w.length < gclToksize) :
    w.foldl (Scan.step find) ⟨.unquoted, tok, item⟩ = ⟨.unquoted, tok ++ w, item⟩ := by
  induction w generalizing tok with
  | nil => rw [List.foldl_nil, List.append_nil]
  | cons ch w ih =>
    rw [List.forall_mem_cons] at hw
    rw [List.length_cons] at hlen
    have hroom : tok.length < gclToksize - 1 := by omega
    have hstep : Scan.step find ⟨.unquoted, tok, item⟩ ch = ⟨.unquoted, tok ++ [ch], item⟩ := by
      simp only [Scan.step, if_neg hw.1.hash, if_neg hw.1.equals, hw.1.space, Bool.false_eq_true,
        if_false, extend_of_lt hroom]
    rw [List.foldl_cons, hstep, ih hw.2 (by simp; omega), List.append_assoc, List.singleton_append]

/-- **A plain text that is not longer than the buffer becomes the token.** -/
lemma PlainText.foldl {w : List UInt8} (h : PlainText w) (hlen : w.length < gclToksize)
    (find : List UInt8 → Option ℤ) (item : Option ℤ) :
    ∃ st, w.foldl (Scan.step find) ⟨.initial, [], item⟩ = ⟨st, w, item⟩ ∧
      (w ≠ [] → st = .unquoted) := by
  cases w with
  | nil => exact ⟨.initial, rfl, fun h => absurd rfl h⟩
  | cons ch w =>
    have hw := List.forall_mem_cons.1 h.char
    have hquote : ch ≠ quote := by simpa using h.head
    have hstep : Scan.step find ⟨.initial, [], item⟩ ch = ⟨.unquoted, [ch], item⟩ := by
      simp only [Scan.step, if_neg hw.1.hash, if_neg hquote, if_neg hw.1.equals, hw.1.space,
        Bool.false_eq_true, if_false, extend_of_lt (show ([] : List UInt8).length < 255 by decide),
        List.nil_append]
    refine ⟨.unquoted, ?_, fun _ => rfl⟩
    rw [List.length_cons] at hlen
    rw [List.foldl_cons, hstep, foldl_unquoted hw.2 (by simp; omega), List.singleton_append]

lemma PlainText.tokString_eq {w : List UInt8} (h : PlainText w) : tokString w = w := by
  rw [tokString, List.takeWhile_eq_self_iff]
  intro ch hch
  simpa using (h.char ch hch).nul

/-- **A plain word and a separator: the word is looked up.** -/
lemma PlainText.foldl_equals {w rest : List UInt8} (h : PlainText w) (hne : w ≠ [])
    (hlen : w.length < gclToksize) :
    (w ++ equals :: rest).foldl (Scan.step find) .fresh =
      rest.foldl (Scan.step find) ⟨.initial, [], find w⟩ := by
  obtain ⟨st, hfold, hst⟩ := h.foldl hlen find none
  have hsep : Scan.step find ⟨.unquoted, w, none⟩ equals = ⟨.initial, [], find w⟩ := by
    have hhash : equals ≠ hash := by decide
    simp only [Scan.step, if_neg hhash, if_true, Scan.separate, if_neg hne, h.tokString_eq]
  rw [List.foldl_append, Scan.fresh, hfold, hst hne, List.foldl_cons, hsep]

/-! ## The end of a line -/

/-- A line with a newline behind it gives its string to an item without a value. -/
def Table.put (c : Table) : Option (ℤ × List UInt8) → Table
  | none => c
  | some (i, v) => if (c i).value.isSome then c else c.setValue i (some v)

/-- A last line without a newline gives its string in any case. -/
def Table.putLast (c : Table) : Option (ℤ × List UInt8) → Table
  | none => c
  | some (i, v) => c.setValue i (some v)

lemma put_key (e : Option (ℤ × List UInt8)) (i : ℤ) : ((c.put e) i).key = (c i).key := by
  rcases e with _ | ⟨j, v⟩
  · rfl
  · simp only [Table.put]
    split_ifs
    · rfl
    · exact setValue_key

lemma feed_newline (h : a.InLine find) :
    feed mem n (reading a c d) newline =
      (turn mem n newline (reading { a with state := .handleNewline } c d)).1 := by
  have hout : (reading a c d).out = false := rfl
  have h1 : newline ≠ hash := by decide
  have h2 : newline ≠ quote := by decide
  apply feed_again hout
  cases hstate : a.state with
  | initial => simp only [turn, reading, hstate, if_neg h1, if_neg h2, if_true]
  | comment => simp only [turn, reading, hstate, if_true]
  | quoted => simp only [turn, reading, hstate, if_neg h2, if_true]
  | unquoted => simp only [turn, reading, hstate, if_neg h1, if_true]
  | handleNewline => exact absurd hstate h.newline
  | handleSep =>
    obtain ⟨i, hitem⟩ := h.sep hstate
    simp only [turn, reading, hstate, hitem, if_true]

/-- An item that no key leads to is as it was. -/
def OthersKept (find : List UInt8 → Option ℤ) (c c' : Table) : Prop :=
  ∀ i, (∀ key, find key ≠ some i) → c' i = c i

lemma OthersKept.refl (c : Table) : OthersKept find c c := fun _ _ => rfl

lemma OthersKept.trans {c c' c'' : Table} (h : OthersKept find c c')
    (h' : OthersKept find c' c'') : OthersKept find c c'' :=
  fun i hi => (h' i hi).trans (h i hi)

lemma OthersKept.setValue {i : ℤ} {key : List UInt8} (h : find key = some i)
    (v : Option (List UInt8)) : OthersKept find c (c.setValue i v) := by
  intro j hj
  apply setValue_of_ne
  rintro rfl
  exact hj key h

/-- There was no memory for a value. -/
structure NoMemory (find : List UInt8 → Option ℤ) (mem : ℕ → Bool) (c : Table) (p : Parser) :
    Prop where
  result : p.result = enomem
  failed : ∃ d, mem d = false
  others : OthersKept find c p.c

lemma Scan.InLine.put_others (h : a.InLine find) : OthersKept find c (c.put a.entry) := by
  unfold Scan.entry
  cases hitem : a.item with
  | none => exact .refl c
  | some i =>
    obtain ⟨key, hkey⟩ := h.found i hitem
    simp only [Option.map_some, Table.put]
    split_ifs
    · exact .refl c
    · exact .setValue hkey _

lemma Scan.InLine.putLast_others (h : a.InLine find) :
    OthersKept find c (c.putLast a.entry) := by
  unfold Scan.entry
  cases hitem : a.item with
  | none => exact .refl c
  | some i =>
    obtain ⟨key, hkey⟩ := h.found i hitem
    exact .setValue hkey _

/-- **The end of a line with a newline behind it.** -/
lemma newline_reading (mem : ℕ → Bool) (h : a.InLine find) :
    (∃ d', feed mem n (reading a c d) newline = reading .fresh (c.put a.entry) d') ∨
      (feed mem n (reading a c d) newline).out = true ∧
        NoMemory find mem c (feed mem n (reading a c d) newline) := by
  rw [feed_newline h]
  cases hitem : a.item with
  | none =>
    left
    refine ⟨d, ?_⟩
    simp only [turn, reading, hitem, Scan.entry, Option.map_none, Table.put, Scan.fresh]
  | some i =>
    cases hvalue : (c i).value.isSome with
    | true =>
      left
      refine ⟨d, ?_⟩
      simp only [turn, reading, hitem, hvalue, Scan.entry, Option.map_some, Table.put, Scan.fresh,
        if_true]
    | false =>
      cases hmem : mem d with
      | true =>
        left
        refine ⟨d + 1, ?_⟩
        simp only [turn, reading, hitem, hvalue, Scan.entry, Option.map_some, Table.put, Scan.fresh,
          Parser.assign, hmem, if_true, setValue_self, reduceCtorEq, if_false, Bool.false_eq_true]
      | false =>
        right
        obtain ⟨key, hkey⟩ := h.found i hitem
        have hturn : (turn mem n newline (reading ⟨.handleNewline, a.tok, some i⟩ c d)).1 =
            ⟨.handleNewline, a.tok, some i, c.setValue i none, d + 1, enomem, true⟩ := by
          simp only [turn, reading, hvalue, Parser.assign, hmem, if_true, setValue_self, if_false,
            Bool.false_eq_true]
        rw [hturn]
        exact ⟨rfl, rfl, ⟨d, hmem⟩, .setValue hkey _⟩

/-- **The end of the file.** -/
lemma finish_reading (mem : ℕ → Bool) (h : a.InLine find) :
    (finish mem (reading a c d)).result = 0 ∧
        (finish mem (reading a c d)).c = c.putLast a.entry ∨
      NoMemory find mem c (finish mem (reading a c d)) := by
  cases hitem : a.item with
  | none =>
    left
    simp only [finish, reading, hitem, Scan.entry, Option.map_none, Table.putLast, if_false,
      Bool.false_eq_true, and_self]
  | some i =>
    cases hmem : mem d with
    | true =>
      left
      simp only [finish, reading, hitem, Scan.entry, Option.map_some, Table.putLast, Parser.assign,
        hmem, if_true, if_false, Bool.false_eq_true, and_self]
    | false =>
      right
      obtain ⟨key, hkey⟩ := h.found i hitem
      have hfinish : finish mem (reading a c d) =
          ⟨a.state, a.tok, some i, c.setValue i none, d + 1, enomem, false⟩ := by
        simp only [finish, reading, hitem, Parser.assign, hmem, if_false, Bool.false_eq_true]
      rw [hfinish]
      exact ⟨rfl, ⟨d, hmem⟩, .setValue hkey _⟩

lemma inLine_fresh : Scan.fresh.InLine find :=
  ⟨by decide, fun h => absurd h (by decide), fun _ h => by cases h⟩

lemma inLine_scan (l : List UInt8) : (scan find l).InLine find := by
  have hfold (a : Scan) (h : a.InLine find) : (l.foldl (Scan.step find) a).InLine find := by
    induction l generalizing a with
    | nil => exact h
    | cons ch l ih => exact ih _ h.step
  exact hfold .fresh inLine_fresh

lemma foldl_of_out {p : Parser} (h : p.out = true) (l : List UInt8) :
    l.foldl (feed mem n) p = p := by
  induction l with
  | nil => rfl
  | cons ch l ih => rw [List.foldl_cons, feed, if_pos h, ih]

/-- **The whole file, from a table on.** -/
lemma foldl_lines (mem : ℕ → Bool) (hfind : ∀ key, search c n key = find key)
    {ls : List (List UInt8)} {last : List UInt8} (hls : ∀ l ∈ ls, newline ∉ l)
    (hlast : newline ∉ last) :
    let p := finish mem
      ((ls.flatMap (· ++ [newline]) ++ last).foldl (feed mem n) (reading .fresh c d))
    p.result = 0 ∧
        p.c = (ls.foldl (fun c l => c.put (entry find l)) c).putLast (entry find last) ∨
      NoMemory find mem c p := by
  induction ls generalizing c d with
  | nil =>
    have hread := foldl_reading mem (d := d) hfind inLine_fresh hlast
    rw [List.flatMap_nil, List.nil_append, hread]
    exact finish_reading mem (inLine_scan last)
  | cons l ls ih =>
    rw [List.forall_mem_cons] at hls
    have hread := foldl_reading mem (d := d) hfind inLine_fresh hls.1
    rw [List.flatMap_cons, List.append_assoc, List.append_assoc, List.foldl_append,
      List.foldl_append, List.foldl_cons, List.foldl_nil, hread]
    have hline : (scan find l).InLine find := inLine_scan l
    rcases newline_reading mem (n := n) (c := c) (d := d) hline with ⟨d', hnext⟩ | ⟨hout, hnone⟩
    · have hfind' (key : List UInt8) : search (c.put (entry find l)) n key = find key := by
        rw [search_congr (put_key _) key]
        exact hfind key
      change _ = reading .fresh (c.put (entry find l)) d' at hnext
      rw [show l.foldl (Scan.step find) .fresh = scan find l from rfl, hnext]
      rcases ih (d := d') hfind' hls.2 with hdone | hfail
      · exact .inl hdone
      · exact .inr ⟨hfail.result, hfail.failed, hline.put_others.trans hfail.others⟩
    · rw [show l.foldl (Scan.step find) .fresh = scan find l from rfl, foldl_of_out hout, finish,
        if_pos hout]
      exact .inr hnone

lemma put_apply (i : ℤ) (l : List UInt8) :
    c.put (entry find l) i = { c i with value := (c i).value.or (assigns find i l) } := by
  unfold assigns
  rcases entry find l with _ | ⟨j, v⟩
  · simp [Table.put]
  · simp only [Table.put]
    by_cases hji : j = i
    · subst hji
      rw [if_pos rfl]
      cases hvalue : (c j).value with
      | none =>
        rw [if_neg (by simp), setValue_self]
        rfl
      | some w =>
        rw [if_pos (by simp), Option.some_or, ← hvalue]
    · rw [if_neg hji, Option.or_none]
      split_ifs
      · rfl
      · rw [setValue_of_ne (Ne.symm hji)]

lemma foldl_put (ls : List (List UInt8)) (i : ℤ) :
    ls.foldl (fun c l => c.put (entry find l)) c i =
      { c i with value := (c i).value.or (ls.findSome? (assigns find i)) } := by
  induction ls generalizing c with
  | nil => simp
  | cons l ls ih =>
    rw [List.foldl_cons, ih, put_apply, List.findSome?_cons]
    cases (c i).value with
    | some v => rfl
    | none => cases assigns find i l <;> rfl

lemma putLast_apply (i : ℤ) (l : List UInt8) :
    c.putLast (entry find l) i = { c i with value := (assigns find i l).or (c i).value } := by
  unfold assigns
  rcases entry find l with _ | ⟨j, v⟩
  · rfl
  · simp only [Table.putLast]
    by_cases hji : j = i
    · rw [if_pos hji, hji, setValue_self]
      rfl
    · rw [if_neg hji, setValue_of_ne (Ne.symm hji)]
      rfl

lemma putLast_others (l : List UInt8) : OthersKept find c (c.putLast (entry find l)) :=
  (inLine_scan l).putLast_others

lemma foldl_put_others (ls : List (List UInt8)) :
    OthersKept find c (ls.foldl (fun c l => c.put (entry find l)) c) := by
  induction ls generalizing c with
  | nil => exact .refl c
  | cons l ls ih => exact (inLine_scan l).put_others.trans ih

/-! ## The whole of `gcl_init` -/

/-- **What `gcl_init` gives to a table in order**, unless there is no memory. -/
lemma gclInit_spec (mem : ℕ → Bool) (h : Ascending c n) (content : List UInt8) :
    (gclInit mem n c (some content) =
          (0, fun i => { c i with
            value := given (search c n) (cleared c n i).value content i }) ∨
        (gclInit mem n c (some content)).1 = enomem ∧ ∃ d, mem d = false) ∧
      OthersKept (search c n) (cleared c n) (gclInit mem n c (some content)).2 := by
  have htrue := ascend_spec.1.2 h
  have htable := ascend_spec.2 htrue
  have hfind (key : List UInt8) : search (cleared c n) n key = search c n key :=
    search_congr (fun _ => cleared_key) key
  obtain ⟨ls, last, hcontent, hlines, hls, hlast⟩ := lines_spec content
  obtain ⟨hended, hlastLine⟩ := lines_split hlines
  set p := finish mem ((ls.flatMap (· ++ [newline]) ++ last).foldl (feed mem n)
    (reading .fresh (cleared c n) 0)) with hp
  have hinit : gclInit mem n c (some content) = (p.result, p.c) := by
    unfold gclInit
    rw [show ascend c n = (cleared c n, true) from Prod.ext htable htrue, hp, ← hcontent]
    rfl
  rw [hinit]
  rcases foldl_lines mem (d := 0) hfind hls hlast with ⟨hresult, htab⟩ | hnone
  · rw [← hp] at hresult htab
    constructor
    · left
      apply Prod.ext hresult
      funext i
      change p.c i = _
      rw [htab, putLast_apply, foldl_put]
      simp only [given, hended, hlastLine, cleared_key, cleared_dval]
    · rw [htab]
      exact (foldl_put_others ls).trans (putLast_others last)
  · rw [← hp] at hnone
    exact ⟨.inr ⟨hnone.result, hnone.failed⟩, hnone.others⟩

/-- A table that is not in order is refused, whatever the file. -/
lemma gclInit_of_not (mem : ℕ → Bool) (h : ¬ Ascending c n) (file : Option (List UInt8)) :
    gclInit mem n c file = (einval, (ascend c n).1) := by
  have hfalse : (ascend c n).2 = false := by
    cases hres : (ascend c n).2 with
    | false => rfl
    | true => exact absurd (ascend_spec.1.1 hres) h
  unfold gclInit
  rw [show ascend c n = ((ascend c n).1, false) from Prod.ext rfl hfalse]
  rfl

/-- A file that cannot be opened leaves the table as `ascend` does. -/
lemma gclInit_none (mem : ℕ → Bool) (h : Ascending c n) :
    gclInit mem n c none = (enoent, cleared c n) := by
  have htrue := ascend_spec.1.2 h
  unfold gclInit
  rw [show ascend c n = (cleared c n, true) from Prod.ext (ascend_spec.2 htrue) htrue]
  rfl

end Reading

end LinuxC.Gcl
