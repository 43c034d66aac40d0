import LinuxC.Common.Scl
import LinuxC.Framework.CharLoop
import LinuxC.Gcl.Model

/-!
# The loops of the two configuration parsers

`config_parser` and `gcl_init` read their file with `fread` and go over the characters of the
buffer; the local variables live on from one buffer to the next.  Here the loops are those of the
source, over the results of `fread` and with the writes to the token buffers.

They take two turns for a character at most and take all of them, unless `gcl_init` finds no memory
for a value and leaves them.  All writes are inside of the arrays, and where a buffer of `fread`
ends makes no difference.
-/

namespace LinuxC

open CharLoop Text

/-! ## `config_parser` -/

namespace Scl

/-- The arrays of `config_parser`: `val`, to which `t` points in a value, and `key`. -/
def Parser.arrays (s : Parser) : Bool → Token
  | true => s.val
  | false => s.key

/-- The write of `t[i++] = c`, if there is room. -/
def Parser.puts (c : UInt8) (s : Parser) : List (Write Bool) :=
  if s.i < confToksize - 1 then [⟨s.onVal, s.i, c⟩] else []

/-- The write of `t[i] = '\0'`. -/
def Parser.nul (s : Parser) : Write Bool := ⟨s.onVal, s.i, 0⟩

variable (k : Chars)

/-- The writes of one turn. -/
def turnWrites (c : UInt8) (s : Parser) : List (Write Bool) :=
  match s.state with
  | .initial =>
      if c = k.comment then []
      else if c = k.str then []
      else if c = newline then []
      else if c = k.sep then []
      else if isspace c then []
      else s.puts c
  | .comment => []
  | .quoted =>
      if c = k.str then []
      else if c = newline then []
      else s.puts c
  | .unquoted =>
      if c = k.comment then []
      else if c = newline then []
      else if c = k.sep then []
      else if isspace c then []
      else s.puts c
  | .handleSep => if s.onVal then [] else [s.nul]
  | .handleNewline => if s.key 0 ≠ 0 then [s.nul, ⟨false, 0, 0⟩, ⟨true, 0, 0⟩] else []

/-- The writes behind the loops. -/
def finishWrites (s : Parser) : List (Write Bool) := if s.key 0 ≠ 0 then [s.nul] else []

/-- The loops of `config_parser` over the results of `fread`: the variables and the writes, and the
characters that are not taken. -/
def loops (turns : ℕ) (bufs : List (List UInt8)) :
    Option ((Parser × List (Write Bool)) × List UInt8) :=
  fileLoop (fun _ => false) (traced (turn k) (turnWrites k)) turns bufs (Parser.start, [])

/-- `config_parser` with its loops, for a bound on the turns. -/
def configParserLoops {Name : Type} (turns : ℕ) (path : Option Name)
    (fopen : Name → Option (List (List UInt8))) :
    Option (ℤ × List (List UInt8 × List UInt8)) :=
  match path with
  | none => some (einval, [])
  | some path =>
      match fopen path with
      | none => some (enoent, [])
      | some bufs => (loops k turns bufs).map fun r => (0, (finish r.1.1).calls)

variable {k} {c : UInt8} {s : Parser}

lemma perform_nul : perform [s.nul] s.arrays = (s.write 0).arrays := by
  funext v
  cases hv : s.onVal <;> cases v <;>
    simp [perform, Parser.nul, Parser.write, Parser.arrays, hv]

lemma puts_spec (c : UInt8) (h : s.i < confToksize) :
    perform (s.puts c) s.arrays = (s.put c).arrays ∧ (s.put c).i < confToksize ∧
      Within confToksize (s.puts c) := by
  unfold Parser.puts Parser.put
  split_ifs with hroom
  · refine ⟨?_, by simp only [confToksize] at *; omega, within_nil.cons h⟩
    funext v
    cases hv : s.onVal <;> cases v <;> simp [perform, Parser.write, Parser.arrays, hv]
  · exact ⟨rfl, h, within_nil⟩

/-- **One turn**: its writes make its changes of the arrays, and are inside of them. -/
lemma turnWrites_spec (k : Chars) (c : UInt8) (h : s.i < confToksize) :
    perform (turnWrites k c s) s.arrays = (turn k c s).1.arrays ∧
      (turn k c s).1.i < confToksize ∧ Within confToksize (turnWrites k c s) := by
  have hput := puts_spec c h
  cases hstate : s.state with
  | initial =>
    simp only [turn, turnWrites, hstate]
    split_ifs
    · exact ⟨rfl, h, within_nil⟩
    · exact ⟨rfl, h, within_nil⟩
    · exact ⟨rfl, h, within_nil⟩
    · exact ⟨rfl, h, within_nil⟩
    · exact ⟨rfl, h, within_nil⟩
    · exact hput
  | comment =>
    simp only [turn, turnWrites, hstate]
    split_ifs
    · exact ⟨rfl, h, within_nil⟩
    · exact ⟨rfl, h, within_nil⟩
  | quoted =>
    simp only [turn, turnWrites, hstate]
    split_ifs
    · exact ⟨rfl, h, within_nil⟩
    · exact ⟨rfl, h, within_nil⟩
    · exact hput
  | unquoted =>
    simp only [turn, turnWrites, hstate]
    split_ifs
    · exact ⟨rfl, h, within_nil⟩
    · exact ⟨rfl, h, within_nil⟩
    · exact ⟨rfl, h, within_nil⟩
    · exact ⟨rfl, h, within_nil⟩
    · exact hput
  | handleSep =>
    simp only [turn, turnWrites, hstate]
    split_ifs
    · exact ⟨rfl, h, within_nil⟩
    · exact ⟨rfl, h, within_nil⟩
    · exact ⟨perform_nul, Nat.zero_lt_succ _, within_nil.cons h⟩
  | handleNewline =>
    simp only [turn, turnWrites, hstate]
    split_ifs
    · refine ⟨?_, Nat.zero_lt_succ _, ((within_nil.cons ?_).cons ?_).cons h⟩
      rotate_left
      · exact Nat.zero_lt_succ _
      · exact Nat.zero_lt_succ _
      change perform [⟨false, 0, 0⟩, ⟨true, 0, 0⟩] (perform [s.nul] s.arrays) = _
      rw [perform_nul]
      funext v
      cases v <;> rfl
    · exact ⟨rfl, Nat.zero_lt_succ _, within_nil⟩

/-- What a run keeps: the writes made the arrays, and they are inside of them. -/
structure Confined (s : Parser) (ws : List (Write Bool)) : Prop where
  arrays : perform ws Parser.start.arrays = s.arrays
  room : s.i < confToksize
  within : Within confToksize ws

lemma Confined.turn {ws : List (Write Bool)} (h : Confined s ws) (k : Chars) (c : UInt8) :
    Confined (turn k c s).1 (ws ++ turnWrites k c s) := by
  obtain ⟨hperform, hroom, hwithin⟩ := turnWrites_spec k c h.room
  exact ⟨by rw [perform_append, h.arrays, hperform], hroom, h.within.append hwithin⟩

lemma Confined.finish {ws : List (Write Bool)} (h : Confined s ws) :
    Within confToksize (ws ++ finishWrites s) := by
  refine h.within.append ?_
  unfold finishWrites
  split_ifs
  · exact within_nil.cons h.room
  · exact within_nil

lemma twoTurns (k : Chars) : TwoTurns (fun _ => false) (turn k) :=
  ⟨fun _ _ _ h => h, fun _ _ => turn_taken⟩

/-- **The loops of `config_parser`.** -/
lemma loops_eq (k : Chars) {turns : ℕ} {bufs : List (List UInt8)}
    (hturns : ∀ buf ∈ bufs, 2 * buf.length ≤ turns) :
    ∃ s ws, loops k turns bufs = some ((s, ws), []) ∧
      s = bufs.flatten.foldl (feed k) Parser.start ∧
      perform ws Parser.start.arrays = s.arrays ∧ Within confToksize (ws ++ finishWrites s) := by
  obtain ⟨rest, hrun, -, hrest⟩ := fileLoop_eq ((twoTurns k).traced (turnWrites k))
    (s := (Parser.start, [])) rfl hturns
  rw [hrest rfl] at hrun
  have hfold := fst_foldl_traced (fun _ => false) (turn k) (turnWrites k) (Parser.start, [])
    bufs.flatten
  have hconfined := foldl_traced (fun _ => false) Confined
    (fun c _ _ h => h.turn k c) ⟨rfl, by decide, within_nil⟩ bufs.flatten
  exact ⟨_, _, hrun, hfold, hconfined.arrays, hconfined.finish⟩

/-- **Where the results of `fread` end makes no difference to `config_parser`.** -/
lemma configParserLoops_eq (k : Chars) {Name : Type} {turns : ℕ} (path : Option Name)
    {fopen : Name → Option (List (List UInt8))}
    (hturns : ∀ name bufs, fopen name = some bufs → ∀ buf ∈ bufs, 2 * buf.length ≤ turns) :
    configParserLoops k turns path fopen =
      some (configParser k path fun name => (fopen name).map List.flatten) := by
  unfold configParserLoops configParser
  cases path with
  | none => rfl
  | some name =>
    cases hopen : fopen name with
    | none => simp only [hopen, Option.map_none]
    | some bufs =>
      obtain ⟨s, ws, hrun, rfl, -⟩ := loops_eq k (hturns name bufs hopen)
      simp only [hopen, hrun, Option.map_some, parse]

end Scl

/-! ## `gcl_init` -/

namespace Gcl

/-- The write of `*t++ = *p`, if there is room. -/
def Parser.puts (ch : UInt8) (p : Parser) : List (Write Unit) :=
  if p.tok.length < gclToksize - 1 then [⟨(), p.tok.length, ch⟩] else []

/-- The write of `*t = '\0'`. -/
def Parser.nul (p : Parser) : Write Unit := ⟨(), p.tok.length, 0⟩

/-- The writes of one turn. -/
def turnWrites (ch : UInt8) (p : Parser) : List (Write Unit) :=
  match p.state with
  | .initial =>
      if ch = hash then []
      else if ch = quote then []
      else if ch = newline then []
      else if ch = equals then []
      else if isspace ch then []
      else p.puts ch
  | .comment => []
  | .quoted =>
      if ch = quote then []
      else if ch = newline then []
      else p.puts ch
  | .unquoted =>
      if ch = hash then []
      else if ch = newline then []
      else if ch = equals then []
      else if isspace ch then []
      else p.puts ch
  | .handleSep =>
      match p.item with
      | some _ => []
      | none => if p.tok = [] then [] else [p.nul]
  | .handleNewline =>
      match p.item with
      | some i =>
          if (p.c i).value.isSome then [p.nul]
          else if p.tok = [] then [] else [p.nul]
      | none => []

/-- The writes behind the loops. -/
def finishWrites (p : Parser) : List (Write Unit) :=
  if p.out then []
  else
    match p.item with
    | some _ => if p.tok = [] then [] else [p.nul]
    | none => []

variable (mem : ℕ → Bool) (n : ℕ)

/-- The loops of `gcl_init` over the results of `fread`: the variables and the writes, and the
characters that are not taken. -/
def loops (turns : ℕ) (c : Table) (bufs : List (List UInt8)) :
    Option ((Parser × List (Write Unit)) × List UInt8) :=
  fileLoop (fun s => s.1.out) (traced (turn mem n) turnWrites) turns bufs (Parser.start c, [])

/-- `gcl_init` with its loops, for a bound on the turns. -/
def gclInitLoops (turns : ℕ) (c : Table) (file : Option (List (List UInt8))) :
    Option (ℤ × Table) :=
  let (c, ascending) := ascend c n
  if ascending then
    match file with
    | none => some (enoent, c)
    | some bufs =>
        (loops mem n turns c bufs).map fun r =>
          let p := finish mem r.1.1
          (p.result, p.c)
  else some (einval, c)

variable {mem n} {ch : UInt8} {p : Parser} {m : Unit → ℕ → UInt8}

/-- The array begins with the token. -/
def Holds (m : Unit → ℕ → UInt8) (tok : List UInt8) : Prop :=
  ∀ j b, tok[j]? = some b → m () j = b

lemma holds_nil (m : Unit → ℕ → UInt8) : Holds m [] := fun _ _ h => by cases h

lemma Holds.perform {tok : List UInt8} (h : Holds m tok) (b : UInt8) :
    Holds (perform [⟨(), tok.length, b⟩] m) (tok ++ [b]) := by
  intro j b' hb
  change Function.update (m ()) tok.length b j = b'
  rcases lt_trichotomy j tok.length with hj | rfl | hj
  · rw [List.getElem?_append_left hj] at hb
    rw [Function.update_of_ne hj.ne, h j b' hb]
  · rw [Function.update_self]
    simpa using hb
  · rw [List.getElem?_eq_none (by rwa [List.length_append])] at hb
    cases hb

lemma Holds.of_append {tok rest : List UInt8} (h : Holds m (tok ++ rest)) : Holds m tok := by
  intro j b hb
  obtain ⟨hj, -⟩ := List.getElem?_eq_some_iff.mp hb
  exact h j b (by rwa [List.getElem?_append_left hj])

lemma Holds.nul (h : Holds m p.tok) : Holds (CharLoop.perform [p.nul] m) p.tok :=
  (h.perform 0).of_append

/-- **The string that `search` and `strdup` get**, behind the write of the zero. -/
lemma Holds.strIn (h : Holds m p.tok) (hroom : p.tok.length < gclToksize) :
    strIn gclToksize (CharLoop.perform [p.nul] m ()) = tokString p.tok :=
  strIn_eq hroom h.nul (Function.update_self _ _ _)

lemma puts_spec (ch : UInt8) (h : Holds m p.tok) (hroom : p.tok.length < gclToksize) :
    Holds (CharLoop.perform (p.puts ch) m) (extend p.tok ch) ∧
      (extend p.tok ch).length < gclToksize ∧ Within gclToksize (p.puts ch) := by
  unfold Parser.puts extend
  split_ifs with hlt
  · refine ⟨h.perform ch, ?_, within_nil.cons hroom⟩
    rw [List.length_append, List.length_singleton]
    omega
  · exact ⟨h, hroom, within_nil⟩

/-- **One turn**: its writes make the token in the array, and are inside of the array. -/
lemma turnWrites_spec (mem : ℕ → Bool) (n : ℕ) (ch : UInt8) (h : Holds m p.tok)
    (hroom : p.tok.length < gclToksize) :
    Holds (CharLoop.perform (turnWrites ch p) m) (turn mem n ch p).1.tok ∧
      (turn mem n ch p).1.tok.length < gclToksize ∧ Within gclToksize (turnWrites ch p) := by
  have hput := puts_spec ch h hroom
  have hempty (m : Unit → ℕ → UInt8) : Holds m [] ∧ ([] : List UInt8).length < gclToksize :=
    ⟨holds_nil m, Nat.zero_lt_succ _⟩
  have hnul : Within gclToksize [p.nul] := within_nil.cons hroom
  cases hstate : p.state with
  | initial =>
    simp only [turn, turnWrites, hstate]
    split_ifs
    · exact ⟨h, hroom, within_nil⟩
    · exact ⟨h, hroom, within_nil⟩
    · exact ⟨h, hroom, within_nil⟩
    · exact ⟨h, hroom, within_nil⟩
    · exact ⟨h, hroom, within_nil⟩
    · exact hput
  | comment =>
    simp only [turn, turnWrites, hstate]
    split_ifs
    · exact ⟨h, hroom, within_nil⟩
    · exact ⟨h, hroom, within_nil⟩
  | quoted =>
    simp only [turn, turnWrites, hstate]
    split_ifs
    · exact ⟨h, hroom, within_nil⟩
    · exact ⟨h, hroom, within_nil⟩
    · exact hput
  | unquoted =>
    simp only [turn, turnWrites, hstate]
    split_ifs
    · exact ⟨h, hroom, within_nil⟩
    · exact ⟨h, hroom, within_nil⟩
    · exact ⟨h, hroom, within_nil⟩
    · exact ⟨h, hroom, within_nil⟩
    · exact hput
  | handleSep =>
    cases hitem : p.item with
    | some i =>
      simp only [turn, turnWrites, hstate, hitem]
      split_ifs
      · exact ⟨h, hroom, within_nil⟩
      · exact ⟨h, hroom, within_nil⟩
    | none =>
      simp only [turn, turnWrites, hstate, hitem]
      split_ifs
      · exact ⟨h, hroom, within_nil⟩
      · exact ⟨(hempty _).1, (hempty m).2, hnul⟩
  | handleNewline =>
    cases hitem : p.item with
    | none =>
      simp only [turn, turnWrites, hstate, hitem]
      exact ⟨(hempty _).1, (hempty m).2, within_nil⟩
    | some i =>
      have htok : (p.assign mem i).tok = p.tok := by
        unfold Parser.assign
        split_ifs <;> rfl
      simp only [turn, turnWrites, hstate, hitem]
      -- The value is there already, or there is none: then without a token, and with one.
      split_ifs
      · exact ⟨(hempty _).1, (hempty m).2, hnul⟩
      · simp only [htok]
        exact ⟨h, hroom, within_nil⟩
      · exact ⟨(hempty _).1, (hempty m).2, within_nil⟩
      · simp only [htok]
        exact ⟨h.nul, hroom, hnul⟩
      · exact ⟨(hempty _).1, (hempty m).2, hnul⟩

/-- A call of `strdup` found no memory, and the result says so. -/
def OutOfMemory (mem : ℕ → Bool) (p : Parser) : Prop := p.result = enomem ∧ ∃ d, mem d = false

/-- A turn that does not handle a newline does not leave the loops. -/
lemma turn_out_eq (mem : ℕ → Bool) (n : ℕ) (ch : UInt8) (h : p.state ≠ .handleNewline) :
    (turn mem n ch p).1.out = p.out ∧ (turn mem n ch p).1.result = p.result := by
  cases hstate : p.state with
  | initial =>
    simp only [turn, hstate]
    split_ifs <;> exact ⟨rfl, rfl⟩
  | comment =>
    simp only [turn, hstate]
    split_ifs <;> exact ⟨rfl, rfl⟩
  | quoted =>
    simp only [turn, hstate]
    split_ifs <;> exact ⟨rfl, rfl⟩
  | unquoted =>
    simp only [turn, hstate]
    split_ifs <;> exact ⟨rfl, rfl⟩
  | handleSep =>
    cases hitem : p.item with
    | some i =>
      simp only [turn, hstate, hitem]
      split_ifs <;> exact ⟨rfl, rfl⟩
    | none =>
      simp only [turn, hstate, hitem]
      split_ifs <;> exact ⟨rfl, rfl⟩
  | handleNewline => exact absurd hstate h

/-- **The loops are left only when there is no memory.** -/
lemma turn_out (h : p.out = true → OutOfMemory mem p) (hout : (turn mem n ch p).1.out = true) :
    OutOfMemory mem (turn mem n ch p).1 := by
  by_cases hstate : p.state = .handleNewline
  · cases hitem : p.item with
    | none =>
      simp only [turn, hstate, hitem] at hout ⊢
      exact h hout
    | some i =>
      cases hmem : mem p.dups with
      | true =>
        simp only [turn, hstate, hitem, Parser.assign, hmem, if_true, Table.setValue,
          Function.update_self, reduceCtorEq, if_false] at hout ⊢
        split_ifs at hout ⊢
        all_goals exact h hout
      | false =>
        simp only [turn, hstate, hitem, Parser.assign, hmem, Bool.false_eq_true, if_false,
          Table.setValue, Function.update_self, if_true] at hout ⊢
        split_ifs at hout ⊢
        · exact h hout
        · exact ⟨rfl, p.dups, hmem⟩
  · obtain ⟨heq, hresult⟩ := turn_out_eq mem n ch hstate
    unfold OutOfMemory
    rw [hresult]
    exact h (heq ▸ hout)

/-- What a run keeps: the writes made the token in the array, they are inside of the array, and
the loops are left only when there is no memory. -/
structure Confined (mem : ℕ → Bool) (p : Parser) (ws : List (Write Unit)) : Prop where
  holds : ∀ m, Holds (CharLoop.perform ws m) p.tok
  room : p.tok.length < gclToksize
  within : Within gclToksize ws
  out : p.out = true → OutOfMemory mem p

lemma Confined.turn {ws : List (Write Unit)} (h : Confined mem p ws) (n : ℕ) (ch : UInt8) :
    Confined mem (turn mem n ch p).1 (ws ++ turnWrites ch p) := by
  refine ⟨fun m => ?_, (turnWrites_spec mem n ch (h.holds fun _ _ => 0) h.room).2.1,
    h.within.append (turnWrites_spec mem n ch (h.holds fun _ _ => 0) h.room).2.2, turn_out h.out⟩
  rw [perform_append]
  exact (turnWrites_spec mem n ch (h.holds m) h.room).1

lemma Confined.finish {ws : List (Write Unit)} (h : Confined mem p ws) :
    Within gclToksize (ws ++ finishWrites p) := by
  refine h.within.append ?_
  cases hitem : p.item with
  | none =>
    simp only [finishWrites, hitem]
    split_ifs <;> exact within_nil
  | some i =>
    simp only [finishWrites, hitem]
    split_ifs
    · exact within_nil
    · exact within_nil
    · exact within_nil.cons h.room

lemma twoTurns (mem : ℕ → Bool) (n : ℕ) : TwoTurns Parser.out (turn mem n) := by
  refine ⟨fun ch p h hout => ?_, fun _ _ => turn_taken⟩
  rcases turn_again h with ⟨-, heq⟩ | ⟨-, heq⟩
  · rw [heq]
    exact hout
  · rw [heq]
    exact hout

/-- **The loops of `gcl_init`.** -/
lemma loops_eq (mem : ℕ → Bool) (n : ℕ) (c : Table) {turns : ℕ} {bufs : List (List UInt8)}
    (hturns : ∀ buf ∈ bufs, 2 * buf.length ≤ turns) :
    ∃ p ws rest, loops mem n turns c bufs = some ((p, ws), rest) ∧
      p = bufs.flatten.foldl (feed mem n) (Parser.start c) ∧
      (rest ≠ [] → OutOfMemory mem p) ∧ (∀ m, Holds (CharLoop.perform ws m) p.tok) ∧
      Within gclToksize (ws ++ finishWrites p) := by
  obtain ⟨rest, hrun, -, hrest⟩ := fileLoop_eq ((twoTurns mem n).traced turnWrites)
    (s := (Parser.start c, [])) rfl hturns
  have hfold := fst_foldl_traced Parser.out (turn mem n) turnWrites (Parser.start c, [])
    bufs.flatten
  have hconfined := foldl_traced Parser.out (Confined mem) (fun ch _ _ h => h.turn n ch)
    (s := Parser.start c)
    ⟨fun m => holds_nil m, Nat.zero_lt_succ _, within_nil, fun h => by cases h⟩ bufs.flatten
  refine ⟨_, _, rest, hrun, hfold, fun hne => hconfined.out ?_, hconfined.holds,
    hconfined.finish⟩
  by_contra hout
  exact hne (hrest (Bool.eq_false_iff.mpr hout))

/-- **Where the results of `fread` end makes no difference to `gcl_init`.** -/
lemma gclInitLoops_eq (mem : ℕ → Bool) (n : ℕ) (c : Table) {turns : ℕ}
    {file : Option (List (List UInt8))}
    (hturns : ∀ bufs, file = some bufs → ∀ buf ∈ bufs, 2 * buf.length ≤ turns) :
    gclInitLoops mem n turns c file = some (gclInit mem n c (file.map List.flatten)) := by
  unfold gclInitLoops gclInit
  obtain ⟨c', ascending⟩ := ascend c n
  cases ascending with
  | false => rfl
  | true =>
    cases file with
    | none => rfl
    | some bufs =>
      obtain ⟨p, ws, rest, hrun, rfl, -⟩ := loops_eq mem n c' (hturns bufs rfl)
      simp only [hrun, if_true, Option.map_some]

end Gcl

/-! ## Both -/

/-- **The loops of the parsers.**  The turn behind one that leaves the character takes it.  Two
turns for a character end the loops, whatever `fread` returns; no write is outside of its array;
and the result is that for the whole file.  All characters are taken, unless `gcl_init` finds no
memory. -/
theorem parser_loops :
    (∀ k c s, (Scl.turn k c s).2 = false → (Scl.turn k c (Scl.turn k c s).1).2 = true) ∧
    (∀ k turns bufs, (∀ buf ∈ bufs, 2 * buf.length ≤ turns) →
      (∃ s ws, Scl.loops k turns bufs = some ((s, ws), []) ∧
        perform ws Scl.Parser.start.arrays = s.arrays ∧
        Within Scl.confToksize (ws ++ Scl.finishWrites s)) ∧
      Scl.configParserLoops k turns (some ()) (fun _ => some bufs) =
        some (0, Scl.parse k bufs.flatten)) ∧
    (∀ mem n ch p, (Gcl.turn mem n ch p).2 = false →
      (Gcl.turn mem n ch (Gcl.turn mem n ch p).1).2 = true) ∧
    ∀ mem n c turns bufs, (∀ buf ∈ bufs, 2 * buf.length ≤ turns) →
      (∃ p ws rest, Gcl.loops mem n turns c bufs = some ((p, ws), rest) ∧
        (rest ≠ [] → Gcl.OutOfMemory mem p) ∧ (∀ m, Gcl.Holds (perform ws m) p.tok) ∧
        Within Gcl.gclToksize (ws ++ Gcl.finishWrites p)) ∧
      Gcl.gclInitLoops mem n turns c (some bufs) =
        some (Gcl.gclInit mem n c (some bufs.flatten)) := by
  refine ⟨fun k c s => Scl.turn_taken, fun k turns bufs hturns => ⟨?_, ?_⟩,
    fun mem n ch p => Gcl.turn_taken, fun mem n c turns bufs hturns => ⟨?_, ?_⟩⟩
  · obtain ⟨s, ws, hrun, -, harrays, hwithin⟩ := Scl.loops_eq k hturns
    exact ⟨s, ws, hrun, harrays, hwithin⟩
  · refine Scl.configParserLoops_eq k (some ()) fun name bufs' hopen => ?_
    rwa [← Option.some.inj hopen]
  · obtain ⟨p, ws, rest, hrun, -, hrest, hholds, hwithin⟩ := Gcl.loops_eq mem n c hturns
    exact ⟨p, ws, rest, hrun, hrest, hholds, hwithin⟩
  · refine Gcl.gclInitLoops_eq mem n c fun bufs' hfile => ?_
    rwa [← Option.some.inj hfile]

/-- A pair whose separator and newline come with different calls of `fread`. -/
theorem parser_loops_sample :
    Scl.configParserLoops Scl.mcChars 4 (some ()) (fun _ => some [[97, 61], [98, 10]]) =
      some (0, Scl.parse Scl.mcChars [97, 61, 98, 10]) :=
  (parser_loops.2.1 Scl.mcChars 4 [[97, 61], [98, 10]] (by decide)).2

/-- The item `a` and no memory for its value: the newline and what is behind it are not taken. -/
theorem gcl_loops_left : ¬ ∀ mem n c turns bufs, (∀ buf ∈ bufs, 2 * buf.length ≤ turns) →
    ∃ s, Gcl.loops mem n turns c bufs = some (s, []) := by
  intro h
  obtain ⟨s, hs⟩ := h (fun _ => false) 1 (fun _ => ⟨[97], none, none⟩) 8 [[97, 61, 10, 98]]
    (by decide)
  have hrest : (Gcl.loops (fun _ => false) 1 8 (fun _ => ⟨[97], none, none⟩)
      [[97, 61, 10, 98]]).map Prod.snd = some [10, 98] := by decide +kernel
  rw [hs] at hrest
  exact absurd (Option.some.inj hrest).symm (List.cons_ne_nil _ _)

end LinuxC
