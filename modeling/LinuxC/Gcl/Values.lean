import LinuxC.Gcl.Loading

/-!
# What the values after `gcl_init` depend on

The values of the items after `gcl_init` are those that the lines of the file give (`gclInit_spec`).
Three things should not matter to them, and do: whether the last line has a newline behind it
(`newline_ignored_iff`), a line that begins with an unknown key (`unknown_line_ignored_iff`), and
the values before the call (`loads_alike_iff`).  Calls that end in `ENOMEM` are not compared.
-/

namespace LinuxC.Gcl

open Text
open Uapi (strcmp)

section Values

variable {mem : ℕ → Bool} {n : ℕ} {c : Table} {find : List UInt8 → Option ℤ}

/-- The table after a call that did not run out of memory. -/
lemma gclInit_table (h : Ascending c n) {content : List UInt8}
    (hmem : (gclInit mem n c (some content)).1 ≠ enomem) :
    (gclInit mem n c (some content)).2 =
      fun i => { c i with value := given (search c n) (cleared c n i).value content i } := by
  rcases (gclInit_spec mem h content).1 with heq | ⟨hresult, -⟩
  · rw [heq]
  · exact absurd hresult hmem

lemma gclInit_ample (h : Ascending c n) (content : List UInt8) :
    gclInit (fun _ => true) n c (some content) =
      (0, fun i => { c i with value := given (search c n) (cleared c n i).value content i }) := by
  rcases (gclInit_spec (fun _ => true) h content).1 with heq | ⟨-, d, hd⟩
  · exact heq
  · cases hd

lemma zero_ne_enomem : (0 : ℤ) ≠ enomem := by decide

/-- **When two files give the same values**: if their lines do, or if nothing is read. -/
lemma same_values_iff {text text' : List UInt8} :
    (∀ mem mem' : ℕ → Bool, (gclInit mem n c (some text)).1 ≠ enomem →
      (gclInit mem' n c (some text')).1 ≠ enomem →
      ∀ i, ((gclInit mem n c (some text)).2 i).value =
        ((gclInit mem' n c (some text')).2 i).value) ↔
      (Ascending c n → ∀ i, given (search c n) (cleared c n i).value text i =
        given (search c n) (cleared c n i).value text' i) := by
  constructor
  · intro hsame h i
    have hi := hsame (fun _ => true) (fun _ => true)
    rw [gclInit_ample h, gclInit_ample h] at hi
    exact hi zero_ne_enomem zero_ne_enomem i
  · intro hsame mem mem' hmem hmem' i
    by_cases h : Ascending c n
    · rw [gclInit_table h hmem, gclInit_table h hmem']
      exact hsame h i
    · rw [gclInit_of_not mem h, gclInit_of_not mem' h]

/-! ## The newline behind the last line -/

/-- The value of an item before the last line. -/
def valueBefore (c : Table) (n : ℕ) (content : List UInt8) (i : ℤ) : Option (List UInt8) :=
  (cleared c n i).value.or ((endedLines content).findSome? (assigns (search c n) i))

lemma endedLines_newline (content : List UInt8) :
    endedLines (content ++ [newline]) = endedLines content ++ [lastLine content] ∧
      lastLine (content ++ [newline]) = [] := by
  obtain ⟨ls, last, -, hlines, -⟩ := lines_spec content
  rw [(lines_split hlines).1, (lines_split hlines).2, ← hlines]
  exact lines_split (lines_append content [])

lemma assigns_nil (i : ℤ) : assigns find i [] = none := rfl

/-- The text and the text followed by a newline give the same values. -/
def NewlineIgnored (c : Table) (n : ℕ) (content : List UInt8) : Prop :=
  ∀ mem mem' : ℕ → Bool, (gclInit mem n c (some content)).1 ≠ enomem →
    (gclInit mem' n c (some (content ++ [newline]))).1 ≠ enomem →
    ∀ i, ((gclInit mem n c (some content)).2 i).value =
      ((gclInit mem' n c (some (content ++ [newline]))).2 i).value

lemma assigns_eq_some_iff {i : ℤ} {l v : List UInt8} :
    assigns find i l = some v ↔ entry find l = some (i, v) := by
  unfold assigns
  rcases entry find l with _ | ⟨j, w⟩
  · simp
  · by_cases hji : j = i <;> simp [hji]

lemma given_newline (old : Option (List UInt8)) (content : List UInt8) (i : ℤ) :
    given find old (content ++ [newline]) i =
      (old.or ((endedLines content).findSome? (assigns find i))).or
        (assigns find i (lastLine content)) := by
  rw [given, (endedLines_newline content).1, (endedLines_newline content).2, assigns_nil,
    Option.none_or, List.findSome?_append, Option.or_assoc]
  congr 2
  cases hlast : assigns find i (lastLine content) <;> simp [hlast]

lemma or_comm_iff {a b : Option (List UInt8)} :
    a.or b = b.or a ↔ ∀ v, a = some v → b = none ∨ b = some v := by
  cases a with
  | none => simp
  | some x => cases b <;> simp [eq_comm]

/-- **A final newline does not matter exactly when the last line names no item, an item without a
value, or an item that has the same value.** -/
theorem newline_ignored_iff (c : Table) (n : ℕ) (content : List UInt8) :
    NewlineIgnored c n content ↔
      (Ascending c n → ∀ i v, entry (search c n) (lastLine content) = some (i, v) →
        valueBefore c n content i = none ∨ valueBefore c n content i = some v) := by
  unfold NewlineIgnored
  rw [same_values_iff]
  apply forall_congr'
  intro _
  constructor
  · intro hsame i v hv
    have hi := hsame i
    rw [given_newline] at hi
    exact or_comm_iff.1 hi v (assigns_eq_some_iff.2 hv)
  · intro hlast i
    rw [given_newline]
    exact or_comm_iff.2 fun v hv => hlast i v (assigns_eq_some_iff.1 hv)

/-- Two items `a` and `b` without defaults. -/
def twoItems : Table := fun i => ⟨if i = 0 then [97] else [98], none, none⟩

/-- `b=1` and `b=2`: without a newline behind it the second line replaces the first, with one it
does not. -/
theorem newline_counts :
    ((gclInit (fun _ => true) 2 twoItems (some [98, 61, 49, 10, 98, 61, 50])).2 1).value =
        some [50] ∧
      ((gclInit (fun _ => true) 2 twoItems (some [98, 61, 49, 10, 98, 61, 50, 10])).2 1).value =
        some [49] ∧
      ¬ ∀ (c : Table) (n : ℕ) (content : List UInt8), NewlineIgnored c n content := by
  have hwithout : ((gclInit (fun _ => true) 2 twoItems
      (some [98, 61, 49, 10, 98, 61, 50])).2 1).value = some [50] := by decide +kernel
  have hwith : ((gclInit (fun _ => true) 2 twoItems
      (some [98, 61, 49, 10, 98, 61, 50, 10])).2 1).value = some [49] := by decide +kernel
  refine ⟨hwithout, hwith, fun hall => ?_⟩
  have hsame := hall twoItems 2 [98, 61, 49, 10, 98, 61, 50] (fun _ => true) (fun _ => true)
    (by decide +kernel) (by decide +kernel) 1
  rw [hwithout] at hsame
  exact absurd (hsame.trans hwith) (by decide)

/-! ## A line that begins with an unknown key -/

/-- A place at which a line may be inserted. -/
def AtBoundary (before : List UInt8) : Prop := before = [] ∨ ∃ text, before = text ++ [newline]

lemma AtBoundary.lines_split {before : List UInt8} (h : AtBoundary before)
    (after : List UInt8) :
    endedLines (before ++ after) = endedLines before ++ endedLines after ∧
      lastLine (before ++ after) = lastLine after := by
  rcases h with rfl | ⟨text, rfl⟩
  · exact ⟨rfl, rfl⟩
  · obtain ⟨ls, last, -, hafter, -⟩ := lines_spec after
    have hbefore : endedLines (text ++ [newline]) = lines text :=
      (Gcl.lines_split (lines_append text [])).1
    have hboth : lines (text ++ [newline] ++ after) = lines text ++ ls ++ [last] := by
      rw [List.append_assoc, List.singleton_append, lines_append, hafter, List.append_assoc]
    rw [hbefore, (Gcl.lines_split hafter).1, (Gcl.lines_split hafter).2]
    exact Gcl.lines_split hboth

lemma lines_line {line : List UInt8} (hline : newline ∉ line) (after : List UInt8) :
    endedLines (line ++ newline :: after) = line :: endedLines after ∧
      lastLine (line ++ newline :: after) = lastLine after := by
  obtain ⟨ls, last, -, hafter, -⟩ := lines_spec after
  have hboth : lines (line ++ newline :: after) = line :: ls ++ [last] := by
    rw [lines_append, lines_of_not_mem hline, hafter, List.singleton_append, List.cons_append]
  rw [(lines_split hafter).1, (lines_split hafter).2]
  exact lines_split hboth

/-- The line does not change the values. -/
def LineIgnored (c : Table) (n : ℕ) (before line after : List UInt8) : Prop :=
  ∀ mem mem' : ℕ → Bool, (gclInit mem n c (some (before ++ after))).1 ≠ enomem →
    (gclInit mem' n c (some (before ++ (line ++ newline :: after)))).1 ≠ enomem →
    ∀ i, ((gclInit mem n c (some (before ++ after))).2 i).value =
      ((gclInit mem' n c (some (before ++ (line ++ newline :: after)))).2 i).value

lemma insert_iff {last before here later : Option (List UInt8)} :
    last.or (before.or later) = last.or (before.or (here.or later)) ↔
      ∀ v, here = some v → before ≠ none ∨ last.isSome ∨ later = some v := by
  cases last with
  | some x => simp
  | none =>
    cases before with
    | some x => simp
    | none => cases here <;> simp

/-- **When an inserted line does not change the values.** -/
lemma lineIgnored_iff {before line after : List UInt8} (hbefore : AtBoundary before)
    (hline : newline ∉ line) :
    LineIgnored c n before line after ↔
      (Ascending c n → ∀ i v, entry (search c n) line = some (i, v) →
        valueBefore c n before i ≠ none ∨
          (assigns (search c n) i (lastLine after)).isSome ∨
          (endedLines after).findSome? (assigns (search c n) i) = some v) := by
  have hwithout (i : ℤ) :
      given (search c n) (cleared c n i).value (before ++ after) i =
        (assigns (search c n) i (lastLine after)).or ((valueBefore c n before i).or
          ((endedLines after).findSome? (assigns (search c n) i))) := by
    rw [given, (hbefore.lines_split after).1, (hbefore.lines_split after).2,
      List.findSome?_append, valueBefore, Option.or_assoc]
  have hwith (i : ℤ) :
      given (search c n) (cleared c n i).value (before ++ (line ++ newline :: after)) i =
        (assigns (search c n) i (lastLine after)).or ((valueBefore c n before i).or
          ((assigns (search c n) i line).or
            ((endedLines after).findSome? (assigns (search c n) i)))) := by
    rw [given, (hbefore.lines_split _).1, (hbefore.lines_split _).2,
      (lines_line hline after).1, (lines_line hline after).2, List.findSome?_append,
      valueBefore, Option.or_assoc, List.findSome?_cons]
    cases assigns (search c n) i line <;> rfl
  unfold LineIgnored
  rw [same_values_iff]
  apply forall_congr'
  intro _
  constructor
  · intro hsame i v hv
    have hi := hsame i
    rw [hwithout, hwith] at hi
    exact insert_iff.1 hi v (assigns_eq_some_iff.2 hv)
  · intro hins i
    rw [hwithout, hwith]
    exact insert_iff.2 fun v hv => hins i v (assigns_eq_some_iff.1 hv)

lemma PlainText.newline_not_mem {w : List UInt8} (h : PlainText w) : newline ∉ w := by
  intro hmem
  have hspace := (h.char newline hmem).space
  exact absurd hspace (by decide)

/-- **A line `u=rest` with an unknown key `u` is read as the line `rest`**, and changes no value
exactly when that gives its string to no item, to an item with a value, to an item that the last
line gives one, or to an item that gets the same string from a later line. -/
theorem unknown_line_ignored_iff (c : Table) (n : ℕ) (before after u rest : List UInt8)
    (hbefore : AtBoundary before) (hrest : newline ∉ rest) (hu : PlainText u) (hne : u ≠ [])
    (hkey : ∀ i : ℤ, 0 ≤ i → i < n → (c i).key ≠ u) :
    (Ascending c n → u.length < gclToksize →
        entry (search c n) (u ++ equals :: rest) = entry (search c n) rest) ∧
      (LineIgnored c n before (u ++ equals :: rest) after ↔
        (Ascending c n → ∀ i v, entry (search c n) (u ++ equals :: rest) = some (i, v) →
          valueBefore c n before i ≠ none ∨
            (assigns (search c n) i (lastLine after)).isSome ∨
            (endedLines after).findSome? (assigns (search c n) i) = some v)) := by
  constructor
  · intro h hlen
    have hnone : search c n u = none := by
      cases hsearch : search c n u with
      | none => rfl
      | some i =>
        obtain ⟨h0, hn, hi⟩ := h.search_iff.1 hsearch
        exact absurd hi (hkey i h0 hn)
    rw [entry, scan, hu.foldl_equals hne hlen, hnone]
    rfl
  · apply lineIgnored_iff hbefore
    rw [List.mem_append, List.mem_cons, not_or, not_or]
    exact ⟨hu.newline_not_mem, by decide, hrest⟩

/-- `u=5` between `b=1` and `a=2` changes nothing. -/
theorem unknown_line_sample :
    LineIgnored twoItems 2 [98, 61, 49, 10] [117, 61, 53] [97, 61, 50, 10] ∧
      ((gclInit (fun _ => true) 2 twoItems
        (some ([98, 61, 49, 10] ++ ([117, 61, 53] ++ newline :: [97, 61, 50, 10])))).2 0).value =
        some [50] := by
  have hkey (i : ℤ) (_ : 0 ≤ i) (_ : i < (2 : ℕ)) : (twoItems i).key ≠ [117] := by
    unfold twoItems
    split_ifs <;> decide
  have hplain : PlainText [117] :=
    ⟨List.forall_mem_singleton.2 ⟨by decide, by decide, by decide, by decide⟩, by decide⟩
  have h := unknown_line_ignored_iff twoItems 2 [98, 61, 49, 10] [97, 61, 50, 10] [117] [53]
    (.inr ⟨[98, 61, 49], rfl⟩) (by decide) hplain (by decide) hkey
  refine ⟨h.2.2 fun _ i v hentry => ?_, by decide +kernel⟩
  rw [show entry (search twoItems 2) ([117] ++ equals :: [53]) = none from by decide +kernel]
    at hentry
  cases hentry

/-- **A line that begins with an unknown key** may assign all the same: in `u=a=5` the second word is
the key of an item, and the item gets the value `5`. -/
theorem unknown_line_counts :
    ((gclInit (fun _ => true) 2 twoItems (some [])).2 0).value = none ∧
      ((gclInit (fun _ => true) 2 twoItems (some [117, 61, 97, 61, 53, 10])).2 0).value =
        some [53] ∧
      ¬ LineIgnored twoItems 2 [] [117, 61, 97, 61, 53] [] := by
  have hwithout : ((gclInit (fun _ => true) 2 twoItems (some [])).2 0).value = none := by
    decide +kernel
  have hwith : ((gclInit (fun _ => true) 2 twoItems
      (some [117, 61, 97, 61, 53, 10])).2 0).value = some [53] := by decide +kernel
  refine ⟨hwithout, hwith, fun hsame => ?_⟩
  have h := hsame (fun _ => true) (fun _ => true) (by decide +kernel) (by decide +kernel) 0
  rw [List.nil_append, hwithout] at h
  exact absurd (h.trans hwith) (by decide)

/-! ## The values before the call -/

/-- The table with other values. -/
def Table.withValues (c : Table) (v : ℤ → Option (List UInt8)) : Table :=
  fun i => { c i with value := v i }

/-- The call gives the same values whatever they were before, and writes to the items of the table
only. -/
structure LoadsAlike (c : Table) (n : ℕ) (file : Option (List UInt8)) : Prop where
  values : ∀ (mem mem' : ℕ → Bool) (v v' : ℤ → Option (List UInt8)),
    (gclInit mem n (c.withValues v) file).1 ≠ enomem →
    (gclInit mem' n (c.withValues v') file).1 ≠ enomem → ∀ i : ℤ, 0 ≤ i → i < n →
    ((gclInit mem n (c.withValues v) file).2 i).value =
      ((gclInit mem' n (c.withValues v') file).2 i).value
  writes : ∀ (mem : ℕ → Bool) (v : ℤ → Option (List UInt8)) (i : ℤ), ¬ (0 ≤ i ∧ i < n) →
    (gclInit mem n (c.withValues v) file).2 i = c.withValues v i

lemma Ascending.withValues (h : Ascending c n) (v : ℤ → Option (List UInt8)) :
    Ascending (c.withValues v) n := h

lemma search_withValues (v : ℤ → Option (List UInt8)) :
    search (c.withValues v) n = search c n := by
  funext key
  apply search_congr
  intro i
  rfl

lemma Ascending.others (h : Ascending c n) {i : ℤ} (hi : ¬ (0 ≤ i ∧ i < n)) (key : List UInt8) :
    search c n key ≠ some i := by
  intro hsearch
  obtain ⟨h0, hn, -⟩ := h.search_iff.1 hsearch
  exact hi ⟨h0, hn⟩

lemma gclInit_others (h : Ascending c n) (mem : ℕ → Bool) (file : Option (List UInt8)) {i : ℤ}
    (hi : ¬ (0 ≤ i ∧ i < n)) : (gclInit mem n c file).2 i = cleared c n i := by
  cases file with
  | none => rw [gclInit_none mem h]
  | some content => exact (gclInit_spec mem h content).2 i (h.others hi)

lemma enoent_ne_enomem : enoent ≠ enomem := by decide

/-- In a table of one item the value of the item before it is cleared. -/
lemma LoadsAlike.two_le {file : Option (List UInt8)} (hsame : LoadsAlike c n file)
    (h : Ascending c n) (hn : 1 ≤ n) : 2 ≤ n := by
  by_contra hone
  obtain rfl : n = 1 := by omega
  have hwrite := hsame.writes (fun _ => true) (fun _ => some []) (-1) (by omega)
  rw [gclInit_others (h.withValues _) _ _ (by omega)] at hwrite
  have hvalue := congrArg GclItem.value hwrite
  simp [cleared, Table.withValues] at hvalue

/-- A file that cannot be opened leaves the last item its old value. -/
lemma not_loadsAlike_none (h : Ascending c n) (hn : 1 ≤ n) : ¬ LoadsAlike c n none := by
  intro hsame
  have h0 : (0 : ℤ) ≤ n - 1 := by omega
  have hlt : (n : ℤ) - 1 < n := by omega
  have hvalue := hsame.values (fun _ => true) (fun _ => true) (fun _ => none) (fun _ => some [])
  rw [gclInit_none _ (h.withValues _), gclInit_none _ (h.withValues _)] at hvalue
  have hlast := hvalue enoent_ne_enomem enoent_ne_enomem (n - 1) h0 hlt
  rw [cleared_value h0 hlt, cleared_value h0 hlt, if_pos rfl, if_pos rfl] at hlast
  cases hlast

/-- The old value of the last item stays unless the last line replaces it. -/
lemma LoadsAlike.last_assigned {content : List UInt8} (hsame : LoadsAlike c n (some content))
    (h : Ascending c n) (hn : 1 ≤ n) :
    ∃ v, entry (search c n) (lastLine content) = some ((n : ℤ) - 1, v) := by
  have h0 : (0 : ℤ) ≤ n - 1 := by omega
  have hlt : (n : ℤ) - 1 < n := by omega
  cases hassigns : assigns (search c n) (n - 1) (lastLine content) with
  | some w => exact ⟨w, assigns_eq_some_iff.1 hassigns⟩
  | none =>
    exfalso
    -- an old value that is longer than the one from the file
    set new := (endedLines content).findSome? (assigns (search c n) (n - 1)) with hnew
    have hvalue := hsame.values (fun _ => true) (fun _ => true) (fun _ => none)
      (fun _ => some (1 :: new.getD []))
    rw [gclInit_ample (h.withValues _), gclInit_ample (h.withValues _)] at hvalue
    have hlast := hvalue zero_ne_enomem zero_ne_enomem (n - 1) h0 hlt
    simp only [given, search_withValues, cleared_value h0 hlt, if_pos, hassigns,
      Option.none_or, ← hnew] at hlast
    have hold : new = some (1 :: new.getD []) := by simpa [Table.withValues] using hlast
    cases hcase : new with
    | none =>
      rw [hcase] at hold
      cases hold
    | some w =>
      rw [hcase] at hold
      have hlen := congrArg List.length (Option.some.inj hold)
      simp at hlen

/-- **Loading does not depend on the old values exactly when there are two items or more, and the
last line of the file has no newline behind it and assigns the last item.** -/
theorem loads_alike_iff (c : Table) (n : ℕ) (h : Ascending c n) (hn : 1 ≤ n)
    (file : Option (List UInt8)) :
    LoadsAlike c n file ↔
      2 ≤ n ∧ ∃ content v, file = some content ∧
        entry (search c n) (lastLine content) = some ((n : ℤ) - 1, v) := by
  constructor
  · intro hsame
    refine ⟨hsame.two_le h hn, ?_⟩
    cases file with
    | none => exact absurd hsame (not_loadsAlike_none h hn)
    | some content =>
      obtain ⟨v, hv⟩ := hsame.last_assigned h hn
      exact ⟨content, v, rfl, hv⟩
  · rintro ⟨hn2, content, w, rfl, hlast⟩
    constructor
    · intro mem mem' v v' hmem hmem' i h0 hi
      rw [gclInit_table (h.withValues v) hmem, gclInit_table (h.withValues v') hmem']
      simp only [given, search_withValues, cleared_value h0 hi]
      by_cases hilast : i = n - 1
      · rw [hilast, assigns_eq_some_iff.2 hlast, Option.some_or, Option.some_or]
      · rw [if_neg hilast, if_neg hilast]
    · intro mem v i hi
      rw [gclInit_others (h.withValues v) mem _ hi, cleared, if_neg (by omega)]

/-- A file `b=1` without a newline assigns the last of the two items. -/
theorem loads_alike_sample : LoadsAlike twoItems 2 (some [98, 61, 49]) := by
  have hasc : Ascending twoItems 2 := ascend_spec.1.1 (by decide +kernel)
  apply (loads_alike_iff twoItems 2 hasc (by decide) _).2
  exact ⟨le_rfl, [98, 61, 49], [49], rfl, by decide +kernel⟩

/-- An empty file: the old value of the last item stays; and with one item in the table the value
of the item before it is cleared. -/
theorem old_value_stays :
    ((gclInit (fun _ => true) 2 (twoItems.withValues fun _ => none) (some [])).2 1).value = none ∧
      ((gclInit (fun _ => true) 2 (twoItems.withValues fun _ => some [120]) (some [])).2 1).value =
        some [120] ∧
      ((gclInit (fun _ => true) 1 (twoItems.withValues fun _ => some [120]) (some [])).2
        (-1)).value = none ∧
      ¬ LoadsAlike twoItems 2 (some []) ∧ ¬ LoadsAlike twoItems 1 (some []) := by
  have hnone : ((gclInit (fun _ => true) 2 (twoItems.withValues fun _ => none)
      (some [])).2 1).value = none := by decide +kernel
  have hold : ((gclInit (fun _ => true) 2 (twoItems.withValues fun _ => some [120])
      (some [])).2 1).value = some [120] := by decide +kernel
  have hbefore : ((gclInit (fun _ => true) 1 (twoItems.withValues fun _ => some [120])
      (some [])).2 (-1)).value = none := by decide +kernel
  refine ⟨hnone, hold, hbefore, fun hsame => ?_, fun hsame => ?_⟩
  · have h := hsame.values (fun _ => true) (fun _ => true) (fun _ => none) (fun _ => some [120])
      (by decide +kernel) (by decide +kernel) 1 (by decide) (by decide)
    rw [hnone, hold] at h
    cases h
  · have h := hsame.writes (fun _ => true) (fun _ => some [120]) (-1) (by decide)
    rw [h] at hbefore
    cases hbefore

end Values

end LinuxC.Gcl
