import LinuxC.Common.Scl

/-!
# Configuration files that are put together (`common/scl.c`)

A line assigns a value to a key, or says nothing.  A key and a value are words or stand between the
string characters; blanks may stand everywhere between the parts, and a comment at the end.
`parse_text` says what the callback gets of a file of such lines: the assignments, in their order.
-/

namespace LinuxC.Scl

open Text

/-- The three characters are different, and none of them ends a line. -/
structure Apart (k : Chars) : Prop extends Sane k where
  sepLine : k.sep ≠ newline
  sepComment : k.sep ≠ k.comment
  sepStr : k.sep ≠ k.str
  strComment : k.str ≠ k.comment

variable (k : Chars)

/-- A byte between two parts. -/
structure Blank (c : UInt8) : Prop where
  space : isspace c = true
  line : c ≠ newline
  comment : c ≠ k.comment
  sep : c ≠ k.sep
  str : c ≠ k.str

/-- A key or a value. -/
inductive Piece
  | word (w : List UInt8)
  | quoted (s : List UInt8)

/-- What a piece stands for. -/
def Piece.value : Piece → List UInt8
  | .word w => w
  | .quoted s => s

/-- How it is written. -/
def Piece.text : Piece → List UInt8
  | .word w => w
  | .quoted s => k.str :: (s ++ [k.str])

/-- It fits its array. -/
def Piece.Ok : Piece → Prop
  | .word w => w ≠ [] ∧ w.length < confToksize ∧ ∀ c ∈ w, Plain k c
  | .quoted s => s.length < confToksize ∧ ∀ c ∈ s, c ≠ k.str ∧ c ≠ newline ∧ c ≠ 0

lemma Piece.Ok.length {p : Piece} (h : p.Ok k) : p.value.length < confToksize := by
  cases p with
  | word w => exact h.2.1
  | quoted s => exact h.1

lemma Piece.Ok.takeWhile {p : Piece} (h : p.Ok k) : p.value.takeWhile (· ≠ 0) = p.value := by
  rw [List.takeWhile_eq_self_iff]
  intro c hc
  cases p with
  | word w => exact decide_eq_true (h.2.2 c hc).nul
  | quoted s => exact decide_eq_true (h.2 c hc).2.2

/-- A line, with the blanks in front of it and behind it. -/
inductive SclLine
  | assign (lead : List UInt8) (key : Piece) (gap gap' : List UInt8) (value : Option Piece)
      (tail : List UInt8) (comment : Option (List UInt8))
  | other (lead : List UInt8) (comment : Option (List UInt8))

/-- The text of a comment. -/
def commentText (comment : Option (List UInt8)) : List UInt8 :=
  comment.elim [] fun s => k.comment :: s

/-- The text of a line. -/
def SclLine.text : SclLine → List UInt8
  | .assign lead key gap gap' value tail comment =>
      lead ++ (key.text k ++ (gap ++ k.sep ::
        (gap' ++ (value.elim [] (Piece.text k) ++ (tail ++ commentText k comment)))))
  | .other lead comment => lead ++ commentText k comment

/-- What a line assigns. -/
def SclLine.call : SclLine → Option (List UInt8 × List UInt8)
  | .assign _ key _ _ value _ _ => some (key.value, value.elim [] Piece.value)
  | .other _ _ => none

/-- The parts of a line are as they should be. -/
def SclLine.Ok : SclLine → Prop
  | .assign lead key gap gap' value tail comment =>
      (∀ c ∈ lead ++ gap ++ gap' ++ tail, Blank k c) ∧ key.Ok k ∧ key.value ≠ [] ∧
        (∀ v, value = some v → v.Ok k) ∧ ∀ s, comment = some s → newline ∉ s
  | .other lead comment => (∀ c ∈ lead, Blank k c) ∧ ∀ s, comment = some s → newline ∉ s

/-- The text of a file: the last line may have no end. -/
def fileText (ls : List SclLine) (last : Option SclLine) : List UInt8 :=
  ls.flatMap (fun l => l.text k ++ [newline]) ++ last.elim [] (SclLine.text k)

variable {k}

/-! ## One line -/

/-- The parser is between two parts or at the end of a word. -/
def Open (st : ConfParseState) : Prop := st = .initial ∨ st = .unquoted

/-- Characters that are added one by one. -/
def Scan.putAll (a : Scan) (l : List UInt8) : Scan := l.foldl (fun a c => a.put c) a

section Line

variable {a : Scan} {l w : List UInt8} {c : UInt8} {st : ConfParseState}

lemma Scan.put_withState (a : Scan) (st : ConfParseState) (c : UInt8) :
    ({ a with state := st } : Scan).put c = { a.put c with state := st } := by
  unfold Scan.put
  split_ifs <;> rfl

lemma Scan.put_state (a : Scan) (c : UInt8) : (a.put c).state = a.state := by
  unfold Scan.put
  split_ifs <;> rfl

lemma step_blank_initial (h : Blank k c) (ha : a.state = .initial) : Scan.step k a c = a := by
  simp only [Scan.step, ha]
  rw [if_neg h.comment, if_neg h.str, if_neg h.sep, if_pos h.space]

lemma step_blank_unquoted (h : Blank k c) (ha : a.state = .unquoted) :
    Scan.step k a c = { a with state := .initial } := by
  simp only [Scan.step, ha]
  rw [if_neg h.comment, if_neg h.sep, if_pos h.space]

lemma scan_blanks (hl : ∀ c ∈ l, Blank k c) (ha : a.state = .initial) :
    l.foldl (Scan.step k) a = a := by
  induction l with
  | nil => rfl
  | cons c l ih =>
      rw [List.forall_mem_cons] at hl
      rw [List.foldl_cons, step_blank_initial hl.1 ha, ih hl.2]

lemma scan_blanks_open (hl : ∀ c ∈ l, Blank k c) (ha : Open a.state) :
    ∃ st, Open st ∧ l.foldl (Scan.step k) a = { a with state := st } := by
  cases l with
  | nil => exact ⟨a.state, ha, rfl⟩
  | cons c l =>
      rw [List.forall_mem_cons] at hl
      refine ⟨.initial, .inl rfl, ?_⟩
      rw [List.foldl_cons]
      rcases ha with ha | ha
      · rw [step_blank_initial hl.1 ha, scan_blanks hl.2 ha, ← ha]
      · rw [step_blank_unquoted hl.1 ha, scan_blanks hl.2 rfl]

/-- The bytes of a word behind the first one. -/
lemma scan_unquoted (hw : ∀ c ∈ w, Plain k c) (ha : a.state = .unquoted) :
    w.foldl (Scan.step k) a = a.putAll w := by
  induction w generalizing a with
  | nil => rfl
  | cons c w ih =>
      rw [List.forall_mem_cons] at hw
      have hstep : Scan.step k a c = a.put c := by
        simp only [Scan.step, ha]
        rw [if_neg hw.1.comment, if_neg hw.1.sep, if_neg (by simp [hw.1.space])]
      rw [List.foldl_cons, hstep, ih hw.2 ((Scan.put_state a c).trans ha)]
      rfl

lemma scan_quoted {s : List UInt8} (hs : ∀ c ∈ s, c ≠ k.str) (ha : a.state = .quoted) :
    s.foldl (Scan.step k) a = a.putAll s := by
  induction s generalizing a with
  | nil => rfl
  | cons c s ih =>
      rw [List.forall_mem_cons] at hs
      have hstep : Scan.step k a c = a.put c := by
        simp only [Scan.step, ha]
        rw [if_neg hs.1]
      rw [List.foldl_cons, hstep, ih hs.2 ((Scan.put_state a c).trans ha)]
      rfl

lemma Scan.putAll_withState (a : Scan) (st : ConfParseState) (l : List UInt8) :
    ({ a with state := st } : Scan).putAll l = { a.putAll l with state := st } := by
  induction l generalizing a with
  | nil => rfl
  | cons c l ih =>
      rw [Scan.putAll, List.foldl_cons, Scan.put_withState]
      exact ih (a.put c)

/-- **A part of a line.** -/
lemma scan_piece (hk : Apart k) {p : Piece} (hp : p.Ok k) (ha : a.state = .initial) :
    ∃ st, Open st ∧ (p.text k).foldl (Scan.step k) a = { a.putAll p.value with state := st } := by
  cases p with
  | word w =>
      obtain ⟨hne, -, hw⟩ := hp
      obtain ⟨c, w, rfl⟩ := List.exists_cons_of_ne_nil hne
      rw [List.forall_mem_cons] at hw
      have hstep : Scan.step k a c = { a.put c with state := .unquoted } := by
        simp only [Scan.step, ha]
        rw [if_neg hw.1.comment, if_neg hw.1.str, if_neg hw.1.sep, if_neg (by simp [hw.1.space])]
      refine ⟨.unquoted, .inr rfl, ?_⟩
      rw [Piece.text, List.foldl_cons, hstep, scan_unquoted hw.2 rfl, Scan.putAll_withState]
      rfl
  | quoted s =>
      obtain ⟨-, hs⟩ := hp
      have hopen : Scan.step k a k.str = { a with state := .quoted } := by
        simp only [Scan.step, ha]
        rw [if_neg hk.strComment, if_pos trivial]
      have hclose : Scan.step k ({ a.putAll s with state := .quoted } : Scan) k.str =
          { a.putAll s with state := .initial } := by
        simp only [Scan.step, if_true]
      refine ⟨.initial, .inl rfl, ?_⟩
      rw [Piece.text, List.foldl_cons, hopen, List.foldl_append,
        scan_quoted (fun c hc => (hs c hc).1) rfl, Scan.putAll_withState, List.foldl_cons, hclose]
      rfl

lemma step_sep (hk : Apart k) (ha : Open a.state) (hv : a.onVal = false) :
    Scan.step k a k.sep = { a with onVal := true, state := .initial } := by
  rcases ha with ha | ha
  · simp only [Scan.step, ha]
    rw [if_neg hk.sepComment, if_neg hk.sepStr, if_pos trivial, Scan.separate, if_neg (by simp [hv])]
  · simp only [Scan.step, ha]
    rw [if_neg hk.sepComment, if_pos trivial, Scan.separate, if_neg (by simp [hv])]

lemma scan_comment (comment : Option (List UInt8)) (ha : Open a.state) :
    ∃ st, (commentText k comment).foldl (Scan.step k) a = { a with state := st } := by
  cases comment with
  | none => exact ⟨a.state, rfl⟩
  | some s =>
      have hstep : Scan.step k a k.comment = { a with state := .comment } := by
        rcases ha with ha | ha <;> simp only [Scan.step, ha, if_true]
      have hrest : ∀ b : Scan, b.state = .comment → s.foldl (Scan.step k) b = b := by
        induction s with
        | nil => exact fun _ _ => rfl
        | cons c s ih =>
            intro b hb
            have hc : Scan.step k b c = b := by simp only [Scan.step, hb]
            rw [List.foldl_cons, hc, ih b hb]
      refine ⟨.comment, ?_⟩
      rw [commentText, Option.elim_some, List.foldl_cons, hstep, hrest _ rfl]

lemma foldl_extend {t : List UInt8} (hroom : t.length + l.length < confToksize) :
    l.foldl extend t = t ++ l := by
  induction l generalizing t with
  | nil => simp
  | cons c l ih =>
      rw [List.length_cons] at hroom
      have hroom' : (t ++ [c]).length + l.length < confToksize := by
        rw [List.length_append, List.length_singleton]
        omega
      rw [List.foldl_cons, extend, if_pos (by omega), ih hroom', List.append_assoc]
      rfl

/-- The characters go to the value or to the key. -/
lemma Scan.putAll_eq (a : Scan) (l : List UInt8) :
    a.putAll l =
      if a.onVal then { a with val := l.foldl extend a.val }
      else { a with key := l.foldl extend a.key } := by
  induction l generalizing a with
  | nil => split_ifs <;> rfl
  | cons c l ih =>
      refine (ih (a.put c)).trans ?_
      unfold Scan.put
      by_cases ha : a.onVal = true <;> simp [ha]

/-- Characters of a key for which there is room. -/
lemma putAll_key (ha : a.onVal = false) (hroom : a.key.length + l.length < confToksize) :
    a.putAll l = { a with key := a.key ++ l } := by
  rw [Scan.putAll_eq, if_neg (by simp [ha]), foldl_extend hroom]

/-- Characters of a value for which there is room. -/
lemma putAll_val (ha : a.onVal = true) (hroom : a.val.length + l.length < confToksize) :
    a.putAll l = { a with val := a.val ++ l } := by
  rw [Scan.putAll_eq, if_pos ha, foldl_extend hroom]

/-- **A line that assigns a value.** -/
lemma scan_assign (hk : Apart k) {lead : List UInt8} {key : Piece} {gap gap' : List UInt8}
    {value : Option Piece} {tail : List UInt8} {comment : Option (List UInt8)}
    (h : (SclLine.assign lead key gap gap' value tail comment).Ok k) :
    ∃ st, scan k ((SclLine.assign lead key gap gap' value tail comment).text k) =
      ⟨st, true, key.value, value.elim [] Piece.value⟩ := by
  obtain ⟨hblank, hkey, -, hvalue, -⟩ := h
  simp only [List.forall_mem_append] at hblank
  obtain ⟨⟨⟨hlead, hgap⟩, hgap'⟩, htail⟩ := hblank
  -- the key
  obtain ⟨st₁, hst₁, h₁⟩ := scan_piece hk hkey (a := ⟨.initial, false, [], []⟩) rfl
  rw [putAll_key rfl (by simpa using hkey.length)] at h₁
  obtain ⟨st₂, hst₂, h₂⟩ :=
    scan_blanks_open (k := k) (a := ⟨st₁, false, key.value, []⟩) hgap hst₁
  -- the value
  obtain ⟨st₃, hst₃, h₃⟩ : ∃ st, Open st ∧
      (value.elim [] (Piece.text k)).foldl (Scan.step k) ⟨.initial, true, key.value, []⟩ =
        ⟨st, true, key.value, value.elim [] Piece.value⟩ := by
    cases value with
    | none => exact ⟨.initial, .inl rfl, rfl⟩
    | some v =>
        have hv := hvalue v rfl
        obtain ⟨st, hst, h⟩ := scan_piece hk hv (a := ⟨.initial, true, key.value, []⟩) rfl
        rw [putAll_val rfl (by simpa using hv.length)] at h
        exact ⟨st, hst, h⟩
  obtain ⟨st₄, hst₄, h₄⟩ := scan_blanks_open (k := k)
    (a := ⟨st₃, true, key.value, value.elim [] Piece.value⟩) htail hst₃
  obtain ⟨st₅, h₅⟩ := scan_comment (k := k) comment
    (a := ⟨st₄, true, key.value, value.elim [] Piece.value⟩) hst₄
  refine ⟨st₅, ?_⟩
  simp only [scan, SclLine.text, List.foldl_append, List.foldl_cons]
  rw [scan_blanks hlead rfl, h₁]
  simp only [List.nil_append]
  rw [h₂, step_sep hk hst₂ rfl, scan_blanks hgap' rfl, h₃, h₄, h₅]

lemma scan_other {lead : List UInt8} {comment : Option (List UInt8)}
    (h : (SclLine.other lead comment).Ok k) :
    ∃ st, scan k ((SclLine.other lead comment).text k) = ⟨st, false, [], []⟩ := by
  obtain ⟨st, hst⟩ := scan_comment (k := k) comment
    (a := ⟨.initial, false, [], []⟩) (.inl rfl)
  refine ⟨st, ?_⟩
  rw [scan, SclLine.text, List.foldl_append, scan_blanks h.1 rfl, hst]

end Line

/-! ## A file -/

lemma newline_not_mem_text (hk : Apart k) {l : SclLine} (h : l.Ok k) : newline ∉ l.text k := by
  have hblank : ∀ {bs : List UInt8}, (∀ c ∈ bs, Blank k c) → newline ∉ bs :=
    fun h hm => (h _ hm).line rfl
  have hcomment : ∀ {comment : Option (List UInt8)}, (∀ s, comment = some s → newline ∉ s) →
      newline ∉ commentText k comment := by
    rintro (_ | s) h
    · simp [commentText]
    · simp [commentText, hk.comment.symm, h s rfl]
  have hpiece : ∀ {p : Piece}, p.Ok k → newline ∉ p.text k := by
    rintro (w | s) h
    · exact fun hm => (h.2.2 _ hm).line rfl
    · have hs : newline ∉ s := fun hm => (h.2 _ hm).2.1 rfl
      simp [Piece.text, hk.str.symm, hs]
  cases l with
  | other lead comment => simp [SclLine.text, hblank h.1, hcomment h.2]
  | assign lead key gap gap' value tail comment =>
      obtain ⟨hb, hkey, -, hvalue, hc⟩ := h
      simp only [List.forall_mem_append] at hb
      obtain ⟨⟨⟨hlead, hgap⟩, hgap'⟩, htail⟩ := hb
      have hv : newline ∉ value.elim [] (Piece.text k) := by
        cases value with
        | none => simp
        | some v => exact hpiece (hvalue v rfl)
      simp [SclLine.text, hblank hlead, hblank hgap, hblank hgap', hblank htail, hpiece hkey, hv,
        hcomment hc, hk.sepLine.symm]

lemma callOf_text (hk : Apart k) {l : SclLine} (h : l.Ok k) :
    callOf k [] (l.text k) = l.call.toList ∧ keyAlone k (l.text k) = false := by
  cases l with
  | other lead comment =>
      obtain ⟨st, hscan⟩ := scan_other h
      simp [callOf, keyAlone, lineKey, hscan, SclLine.call]
  | assign lead key gap gap' value tail comment =>
      obtain ⟨st, hscan⟩ := scan_assign hk h
      obtain ⟨-, hkey, hne, hvalue, -⟩ := h
      have hv : (value.elim [] Piece.value).takeWhile (· ≠ 0) = value.elim [] Piece.value := by
        cases value with
        | none => rfl
        | some v => exact (hvalue v rfl).takeWhile
      simp only [callOf, keyAlone, lineKey, lineVal, hscan, hkey.takeWhile, hv, SclLine.call]
      simp [hne]

/-- **The callback gets the assignments of a file in their order.** -/
theorem parse_text (hk : Apart k) {ls : List SclLine} {last : Option SclLine}
    (hls : ∀ l ∈ ls, l.Ok k) (hlast : ∀ l, last = some l → l.Ok k) :
    parse k (fileText k ls last) = (ls ++ last.toList).filterMap SclLine.call := by
  have hlines : ∀ l ∈ ls.map (SclLine.text k), newline ∉ l := by
    intro l hl
    obtain ⟨m, hm, rfl⟩ := List.mem_map.1 hl
    exact newline_not_mem_text hk (hls m hm)
  have hend : newline ∉ last.elim [] (SclLine.text k) := by
    cases last with
    | none => simp
    | some l => exact newline_not_mem_text hk (hlast l rfl)
  obtain ⟨r, hr, hiff⟩ := fresh_start.calls hk.toSane hlines hend
  have hnoLeak : NoLeak k (Parser.start.val 0 ≠ 0)
      (ls.map (SclLine.text k) ++ [last.elim [] (SclLine.text k)]) := by
    intro pre l post heq halone
    have hl : l ∈ ls.map (SclLine.text k) ++ [last.elim [] (SclLine.text k)] := by
      rw [heq]
      simp
    have hfalse : keyAlone k l = false := by
      rcases List.mem_append.1 hl with hl | hl
      · obtain ⟨m, hm, rfl⟩ := List.mem_map.1 hl
        exact (callOf_text hk (hls m hm)).2
      · rw [List.mem_singleton.1 hl]
        cases last with
        | none => rfl
        | some m => exact (callOf_text hk (hlast m rfl)).2
    rw [hfalse] at halone
    cases halone
  have hfile : fileText k ls last =
      (ls.map (SclLine.text k)).flatMap (· ++ [newline]) ++ last.elim [] (SclLine.text k) := by
    rw [fileText, List.flatMap_map]
  rw [parse, hfile, hr, hiff.2 hnoLeak]
  have hcalls : (ls.map (SclLine.text k)).flatMap (callOf k []) = ls.filterMap SclLine.call := by
    rw [List.flatMap_map, List.filterMap_eq_flatMap_toList]
    exact List.flatMap_congr fun l hl => (callOf_text hk (hls l hl)).1
  have hlastCalls : callOf k [] (last.elim [] (SclLine.text k)) =
      last.toList.filterMap SclLine.call := by
    cases last with
    | none => rfl
    | some l =>
        rw [Option.elim_some, (callOf_text hk (hlast l rfl)).1, List.filterMap_eq_flatMap_toList]
        simp
  rw [List.flatMap_append, hcalls, List.flatMap_singleton, hlastCalls, List.filterMap_append]
  rfl

/-- The characters of `mc_config_init`: a word, and a string with both of the other characters. -/
theorem parse_text_sample :
    let ls : List SclLine :=
      [.other [] (some [32, 110]), .assign [9] (.word [97]) [32] [32, 32]
        (some (.quoted [61, 35, 32])) [13] none]
    let last : SclLine := .assign [] (.quoted [98]) [] [] none [] (some [34])
    parse mcChars (fileText mcChars ls (some last)) = [([97], [61, 35, 32]), ([98], [])] := by
  intro ls last
  have happart : Apart mcChars := by refine ⟨⟨?_, ?_⟩, ?_, ?_, ?_, ?_⟩ <;> decide
  have hblank : ∀ c : UInt8, c = 9 ∨ c = 32 ∨ c = 13 → Blank mcChars c := by
    rintro c (rfl | rfl | rfl) <;> constructor <;> decide
  have hplain : Plain mcChars 97 := by constructor <;> decide
  have hls : ∀ l ∈ ls, l.Ok mcChars := by
    refine List.forall_mem_cons.mpr ⟨⟨by simp, by simp +decide⟩, List.forall_mem_singleton.mpr ?_⟩
    refine ⟨?_, ⟨by decide, by decide, List.forall_mem_singleton.mpr hplain⟩, by decide, ?_, by simp⟩
    · exact fun c hc => hblank c (by simpa using hc)
    · rintro v ⟨⟩
      exact ⟨by decide, List.forall_mem_cons.mpr ⟨by decide, List.forall_mem_cons.mpr
        ⟨by decide, List.forall_mem_singleton.mpr (by decide)⟩⟩⟩
  have hlast : ∀ l, some last = some l → l.Ok mcChars := by
    rintro l ⟨⟩
    exact ⟨by simp, ⟨by decide, List.forall_mem_singleton.mpr (by decide)⟩, by decide, by simp,
      by simp +decide⟩
  exact parse_text happart hls hlast

end LinuxC.Scl
