import LinuxC.Gcl.Values

/-!
# A saved table and what is read back

`gcl_sync` writes a pair `key=value` for every item, without quotes.  The values that come back are
those that the reader takes as they are (`PlainText`), up to the length of the token buffer:
`saved_reads_back_iff`.
-/

namespace LinuxC.Gcl

open Text

/-- The table before anything was loaded. -/
def freshTable (c : Table) : Table := c.withValues fun _ => none

/-- What the file or else the default gives to an item. -/
def effective (c : Table) (n : ℕ) (content : List UInt8) (i : ℤ) : Option (List UInt8) :=
  (given (search c n) (cleared c n i).value content i).or (c i).dval

/-- A table that was loaded from the file can be saved, and loading what was saved to a fresh table
gives the same results of `gcl_get`. -/
def RoundTrips (c : Table) (n : ℕ) (content : List UInt8) : Prop :=
  ∀ mem : ℕ → Bool, (gclInit mem n c (some content)).1 = 0 →
    ∀ (opened : Bool) (fwrite : ℤ → ℕ),
      ∃ r, gclSync opened fwrite (gclInit mem n c (some content)).2 n = some r ∧
        (r.1 = 1 → ∀ mem' : ℕ → Bool, (gclInit mem' n (freshTable c) (some r.2)).1 = 0 →
          ∀ key, gclGet (gclInit mem' n (freshTable c) (some r.2)).2 n key =
            gclGet (gclInit mem n c (some content)).2 n key)

section Saving

variable {c : Table} {n : ℕ} {content : List UInt8} {find : List UInt8 → Option ℤ}

/-! ## What `gcl_sync` writes -/

/-- The pair of an item. -/
def pair (key value : List UInt8) : List UInt8 := key ++ equals :: value

lemma sprintf_eq_some {item : GclItem} {line : List UInt8} :
    sprintf item = some line ↔
      ∃ v, item.value.or item.dval = some v ∧ line = pair item.key v ++ [newline] ∧
        line.length < gclBufsize := by
  unfold sprintf pair
  cases item.value.or item.dval with
  | none => simp
  | some v =>
    simp only [Option.some.injEq, exists_eq_left', List.append_assoc, List.cons_append]
    split_ifs with hlen
    · rw [Option.some.injEq]
      constructor
      · rintro rfl
        exact ⟨rfl, hlen⟩
      · exact fun h => h.1.symm
    · simp only [false_iff, not_and]
      rintro rfl
      exact hlen

/-- With every pair in the buffer the loop of `gcl_sync` writes them all, or says that it did
not. -/
lemma gclSyncFrom_spec {line : ℤ → List UInt8} (fwrite : ℤ → ℕ) (k : ℕ) (i : ℤ)
    (text : List UInt8) (h : ∀ j, i ≤ j → j < i + k → sprintf (c j) = some (line j)) :
    ∃ r, gclSyncFrom fwrite c k i text = some r ∧
      (r.1 = 1 → r.2 = text ++ (List.range k).flatMap fun d : ℕ => line (i + d)) := by
  induction k generalizing i text with
  | zero => exact ⟨(1, text), rfl, fun _ => by simp⟩
  | succ k ih =>
    rw [gclSyncFrom, h i le_rfl (by omega)]
    dsimp only
    split_ifs with hshort
    · exact ⟨_, rfl, fun h => absurd h (by simp)⟩
    · obtain ⟨r, hr, htext⟩ := ih (i + 1) (text ++ line i) fun j hj hjk =>
        h j (by omega) (by push_cast; omega)
      refine ⟨r, hr, fun h1 => ?_⟩
      rw [htext h1, List.range_succ_eq_map, List.flatMap_cons, List.flatMap_map,
        List.append_assoc, Nat.cast_zero, add_zero]
      congr 3
      funext d
      rw [Nat.succ_eq_add_one, Nat.cast_add, Nat.cast_one]
      congr 1
      ring

/-- Where nothing is cut off, the loop of `gcl_sync` comes to its end only if every pair fits. -/
lemma gclSyncFrom_some {k : ℕ} {i : ℤ} {text : List UInt8} {r : ℤ × List UInt8}
    (h : gclSyncFrom (fun _ => gclBufsize) c k i text = some r) :
    r.1 = 1 ∧ ∀ j, i ≤ j → j < i + k → ∃ line, sprintf (c j) = some line := by
  induction k generalizing i text with
  | zero =>
    obtain rfl := Option.some.inj h
    exact ⟨rfl, fun j hj hjk => by omega⟩
  | succ k ih =>
    rw [gclSyncFrom] at h
    cases hline : sprintf (c i) with
    | none =>
      rw [hline] at h
      cases h
    | some line =>
      obtain ⟨-, -, -, hlen⟩ := sprintf_eq_some.1 hline
      rw [hline] at h
      simp only [if_neg (not_lt.2 hlen.le)] at h
      obtain ⟨h1, hrest⟩ := ih h
      refine ⟨h1, fun j hj hjk => ?_⟩
      rcases hj.eq_or_lt with rfl | hlt
      · exact ⟨line, hline⟩
      · exact hrest j (by omega) (by push_cast at hjk; omega)

/-! ## What a line can give to an item -/

lemma length_extend_le (tok : List UInt8) (ch : UInt8) :
    (extend tok ch).length ≤ tok.length + 1 := by
  unfold extend
  split_ifs
  · rw [List.length_append, List.length_singleton]
  · omega

lemma extend_room {tok : List UInt8} {ch : UInt8} (h : tok.length < (extend tok ch).length) :
    tok.length < gclToksize - 1 := by
  by_contra hfull
  rw [extend, if_neg hfull] at h
  exact absurd h (lt_irrefl _)

lemma separate_of_item {a : Scan} {i : ℤ} (h : a.item = some i) :
    a.separate find = { a with state := .handleSep } := by
  unfold Scan.separate
  rw [h]

/-- Once there is an item, a character makes the token longer by at most one. -/
lemma step_item (find : List UInt8 → Option ℤ) {a : Scan} {i : ℤ} (h : a.item = some i)
    (ch : UInt8) :
    (a.step find ch).item = some i ∧ (a.step find ch).tok.length ≤ a.tok.length + 1 := by
  have hput := length_extend_le a.tok ch
  have hkept := Nat.le_succ a.tok.length
  unfold Scan.step
  rw [separate_of_item h]
  cases a.state with
  | initial =>
    dsimp only
    split_ifs
    · exact ⟨h, hkept⟩
    · exact ⟨h, hkept⟩
    · exact ⟨h, hkept⟩
    · exact ⟨h, hkept⟩
    · exact ⟨h, hput⟩
  | quoted =>
    dsimp only
    split_ifs
    · exact ⟨h, hkept⟩
    · exact ⟨h, hput⟩
  | unquoted =>
    dsimp only
    split_ifs
    · exact ⟨h, hkept⟩
    · exact ⟨h, hkept⟩
    · exact ⟨h, hkept⟩
    · exact ⟨h, hput⟩
  | comment => exact ⟨h, hkept⟩
  | handleSep => exact ⟨h, hkept⟩
  | handleNewline => exact ⟨h, hkept⟩

lemma foldl_item (find : List UInt8 → Option ℤ) {a : Scan} {i : ℤ} (h : a.item = some i)
    (v : List UInt8) :
    (v.foldl (Scan.step find) a).item = some i ∧
      (v.foldl (Scan.step find) a).tok.length ≤ a.tok.length + v.length := by
  induction v generalizing a with
  | nil => exact ⟨h, le_rfl⟩
  | cons ch v ih =>
    obtain ⟨hitem, hlen⟩ := step_item find h ch
    obtain ⟨hitem', hlen'⟩ := ih hitem
    rw [List.foldl_cons, List.length_cons]
    exact ⟨hitem', by omega⟩

/-- Only a character that is put into the token makes it longer. -/
lemma step_longer {a : Scan} {i : ℤ} (h : a.item = some i)
    (hstate : a.state = .initial ∨ a.state = .unquoted) {ch : UInt8}
    (hmore : a.tok.length < (a.step find ch).tok.length) :
    (ch ≠ hash ∧ ch ≠ equals ∧ isspace ch = false) ∧ (a.state = .initial → ch ≠ quote) ∧
      a.step find ch = { a with tok := extend a.tok ch, state := .unquoted } := by
  unfold Scan.step at hmore ⊢
  rw [separate_of_item h] at hmore ⊢
  rcases hstate with hs | hs
  · rw [hs] at hmore ⊢
    dsimp only at hmore ⊢
    split_ifs at hmore ⊢ with h1 h2 h3 h4
    · exact absurd hmore (lt_irrefl _)
    · exact absurd hmore (lt_irrefl _)
    · exact absurd hmore (lt_irrefl _)
    · exact absurd hmore (lt_irrefl _)
    · exact ⟨⟨h1, h3, by simpa using h4⟩, fun _ => h2, rfl⟩
  · rw [hs] at hmore ⊢
    dsimp only at hmore ⊢
    split_ifs at hmore ⊢ with h1 h3 h4
    · exact absurd hmore (lt_irrefl _)
    · exact absurd hmore (lt_irrefl _)
    · exact absurd hmore (lt_irrefl _)
    · exact ⟨⟨h1, h3, by simpa using h4⟩, False.elim, rfl⟩

/-- **A text whose characters are all in the token is plain.** -/
lemma plain_of_length (find : List UInt8 → Option ℤ) {a : Scan} {i : ℤ} (h : a.item = some i)
    (hstate : a.state = .initial ∨ a.state = .unquoted) {v : List UInt8}
    (hlen : a.tok.length + v.length ≤ (v.foldl (Scan.step find) a).tok.length) :
    (∀ ch ∈ v, ch ≠ hash ∧ ch ≠ equals ∧ isspace ch = false) ∧
      (a.state = .initial → v.head? ≠ some quote) ∧
      (v ≠ [] → a.tok.length + v.length < gclToksize) := by
  induction v generalizing a with
  | nil => exact ⟨by simp, by simp, by simp⟩
  | cons ch v ih =>
    obtain ⟨hitem, -⟩ := step_item find h ch
    have hrest := (foldl_item find hitem v).2
    rw [List.foldl_cons, List.length_cons] at hlen
    have hmore : a.tok.length < (a.step find ch).tok.length := by omega
    obtain ⟨hch, hquote, hstep⟩ := step_longer h hstate hmore
    rw [hstep] at hmore hlen
    have hroom := extend_room hmore
    rw [extend_of_lt hroom] at hlen
    have hlong : ((a.tok ++ [ch]).length + v.length ≤
        (v.foldl (Scan.step find) ⟨.unquoted, a.tok ++ [ch], a.item⟩).tok.length) := by
      rw [List.length_append, List.length_singleton]
      omega
    obtain ⟨hv, -, hvlen⟩ := ih (a := ⟨.unquoted, a.tok ++ [ch], a.item⟩) h (.inr rfl) hlong
    refine ⟨List.forall_mem_cons.2 ⟨hch, hv⟩, fun hs => by simpa using hquote hs, fun _ => ?_⟩
    rw [List.length_cons]
    have hsize : gclToksize = 256 := rfl
    cases v with
    | nil =>
      rw [List.length_nil]
      omega
    | cons x v =>
      have hfit := hvlen (List.cons_ne_nil x v)
      rw [List.length_append, List.length_singleton] at hfit
      rw [List.length_cons] at hfit ⊢
      omega

/-- **A value that is read back as it was is plain and not too long.** -/
lemma plain_of_read {i : ℤ} {v : List UInt8}
    (h : tokString (v.foldl (Scan.step find) ⟨.initial, [], some i⟩).tok = v) :
    PlainText v ∧ v.length < gclToksize := by
  set tok := (v.foldl (Scan.step find) ⟨.initial, [], some i⟩).tok with htok
  have hle : v.length ≤ tok.length := by
    conv_lhs => rw [← h, tokString]
    exact (List.takeWhile_prefix _).length_le
  obtain ⟨hchar, hhead, hlen⟩ := plain_of_length find
    (a := ⟨.initial, [], some i⟩) rfl (.inl rfl) (by simpa using hle)
  refine ⟨⟨fun ch hch => ?_, hhead rfl⟩, ?_⟩
  · obtain ⟨h1, h2, h3⟩ := hchar ch hch
    refine ⟨h1, h2, h3, ?_⟩
    rw [← h, tokString] at hch
    simpa using List.mem_takeWhile_imp hch
  · cases v with
    | nil => exact by decide
    | cons ch v => simpa using hlen (by simp)

/-! ## The lines that were written -/

lemma lines_flatMap {ls : List (List UInt8)} (h : ∀ l ∈ ls, newline ∉ l) :
    lines (ls.flatMap (· ++ [newline])) = ls ++ [[]] := by
  induction ls with
  | nil => rfl
  | cons l ls ih =>
    rw [List.forall_mem_cons] at h
    rw [List.flatMap_cons, List.append_assoc, List.singleton_append, lines_append,
      lines_of_not_mem h.1, ih h.2, List.singleton_append, List.cons_append]

lemma findSome?_eq_some {α β : Type} {f : α → Option β} {l : List α} {x : α} {b : β}
    (hx : x ∈ l) (hfx : f x = some b) (h : ∀ y ∈ l, f y = none ∨ f y = some b) :
    l.findSome? f = some b := by
  cases hfind : l.findSome? f with
  | none => exact absurd (List.findSome?_eq_none_iff.1 hfind x hx) (by simp [hfx])
  | some b' =>
    obtain ⟨y, hy, hfy⟩ := List.exists_of_findSome?_eq_some hfind
    rcases h y hy with hnone | hsome
    · rw [hnone] at hfy
      cases hfy
    · rw [← hfy, hsome]

/-- A key that is a plain word is looked up as it is. -/
structure PlainKey (key : List UInt8) : Prop where
  plain : PlainText key
  ne_nil : key ≠ []
  length : key.length < gclToksize

/-- What the pair of an item gives to it, and to no other item. -/
lemma entry_pair {key v : List UInt8} {i : ℤ} (hkey : PlainKey key) (hfind : find key = some i) :
    entry find (pair key v) =
      some (i, tokString (v.foldl (Scan.step find) ⟨.initial, [], some i⟩).tok) := by
  have hitem := (foldl_item find (a := ⟨.initial, [], some i⟩) rfl v).1
  rw [entry, scan, pair, hkey.plain.foldl_equals hkey.ne_nil hkey.length, hfind, Scan.entry, hitem]
  rfl

lemma newline_not_mem_pair {key v : List UInt8} (hkey : PlainText key) (hv : newline ∉ v) :
    newline ∉ pair key v := by
  rw [pair, List.mem_append, List.mem_cons, not_or, not_or]
  exact ⟨hkey.newline_not_mem, by decide, hv⟩

lemma newline_not_mem_step {a : Scan} {ch : UInt8} (ha : newline ∉ a.tok) (hch : newline ≠ ch) :
    newline ∉ (a.step find ch).tok := by
  have hput : newline ∉ extend a.tok ch := by
    unfold extend
    split_ifs
    · rw [List.mem_append, List.mem_singleton, not_or]
      exact ⟨ha, hch⟩
    · exact ha
  have hsep : newline ∉ (a.separate find).tok := by
    unfold Scan.separate
    cases a.item with
    | some _ => exact ha
    | none =>
      dsimp only
      split_ifs
      · exact ha
      · exact List.not_mem_nil
  unfold Scan.step
  cases a.state with
  | initial => dsimp only; split_ifs <;> assumption
  | quoted => dsimp only; split_ifs <;> assumption
  | unquoted => dsimp only; split_ifs <;> assumption
  | comment => exact ha
  | handleSep => exact ha
  | handleNewline => exact ha

lemma newline_not_mem_foldl {a : Scan} (ha : newline ∉ a.tok) {l : List UInt8}
    (hl : newline ∉ l) : newline ∉ (l.foldl (Scan.step find) a).tok := by
  induction l generalizing a with
  | nil => exact ha
  | cons ch l ih =>
    rw [List.mem_cons, not_or] at hl
    exact ih (newline_not_mem_step ha hl.1) hl.2

/-- A string that a line gives to an item has no newline. -/
lemma newline_not_mem_assigns {i : ℤ} {l v : List UInt8} (hl : newline ∉ l)
    (h : assigns find i l = some v) : newline ∉ v := by
  rw [assigns_eq_some_iff, entry, Scan.entry, Option.map_eq_some_iff] at h
  obtain ⟨j, -, hj⟩ := h
  rw [← (Prod.mk.inj hj).2, tokString]
  intro hmem
  exact newline_not_mem_foldl (a := .fresh) List.not_mem_nil hl (List.takeWhile_subset _ hmem)

/-- A string that a file gives to an item without a value has no newline. -/
lemma newline_not_mem_given {text v : List UInt8} {i : ℤ} (h : given find none text i = some v) :
    newline ∉ v := by
  obtain ⟨ls, last, -, hlines, hls, hlast⟩ := lines_spec text
  rw [given, (lines_split hlines).1, (lines_split hlines).2, Option.none_or,
    Option.or_eq_some_iff] at h
  rcases h with h | ⟨-, h⟩
  · exact newline_not_mem_assigns hlast h
  · obtain ⟨l, hl, hassigns⟩ := List.exists_of_findSome?_eq_some h
    exact newline_not_mem_assigns (hls l hl) hassigns

lemma exists_segment (v rest : List UInt8) :
    ∃ seg tail, v ++ newline :: rest = seg ++ newline :: tail ∧ newline ∉ seg := by
  induction v with
  | nil => exact ⟨[], rest, rfl, List.not_mem_nil⟩
  | cons ch v ih =>
    by_cases hch : ch = newline
    · exact ⟨[], v ++ newline :: rest, by rw [hch]; rfl, List.not_mem_nil⟩
    · obtain ⟨seg, tail, heq, hseg⟩ := ih
      refine ⟨ch :: seg, tail, by rw [List.cons_append, heq]; rfl, ?_⟩
      rw [List.mem_cons, not_or]
      exact ⟨Ne.symm hch, hseg⟩

lemma exists_before {ls : List (List UInt8)} {l : List UInt8} (h : l ∈ ls) :
    ∃ before after, ls.flatMap (· ++ [newline]) = before ++ (l ++ newline :: after) ∧
      AtBoundary before := by
  obtain ⟨s, t, rfl⟩ := List.append_of_mem h
  refine ⟨s.flatMap (· ++ [newline]), t.flatMap (· ++ [newline]), ?_, ?_⟩
  · rw [List.flatMap_append, List.flatMap_cons, List.append_assoc, List.singleton_append]
  · rcases List.eq_nil_or_concat s with rfl | ⟨s', x, rfl⟩
    · exact .inl rfl
    · right
      exact ⟨s'.flatMap (· ++ [newline]) ++ x, by simp⟩

/-- **The line of an item assigns it**, even if the value has a newline in it. -/
lemma given_of_pair {ls : List (List UInt8)} {key v : List UInt8} {i : ℤ} (hkey : PlainKey key)
    (hfind : find key = some i) (h : pair key v ∈ ls) :
    ∃ w, given find none (ls.flatMap (· ++ [newline])) i = some w := by
  obtain ⟨before, after, htext, hbefore⟩ := exists_before h
  obtain ⟨seg, tail, hseg, hnewline⟩ := exists_segment v after
  have hline : pair key v ++ newline :: after = pair key seg ++ newline :: tail := by
    rw [pair, pair, List.append_assoc, List.append_assoc, List.cons_append, List.cons_append,
      hseg]
  have hended := (hbefore.lines_split (pair key seg ++ newline :: tail)).1
  rw [(lines_line (newline_not_mem_pair hkey.plain hnewline) tail).1] at hended
  have hassigns := assigns_eq_some_iff.2 (entry_pair (v := seg) hkey hfind)
  cases hgiven : given find none (ls.flatMap (· ++ [newline])) i with
  | some w => exact ⟨w, rfl⟩
  | none =>
    rw [given, htext, hline, hended, Option.none_or, Option.or_eq_none_iff,
      List.findSome?_eq_none_iff] at hgiven
    have hnone := hgiven.2 (pair key seg) (by simp)
    rw [hassigns] at hnone
    cases hnone

/-! ## The table that is read back -/

lemma gclGet_values (w : ℤ → Option (List UInt8)) (key : List UInt8) :
    gclGet (fun i => { c i with value := w i }) n key =
      (search c n key).bind fun i => (w i).or (c i).dval := by
  have hsearch : search (fun i => { c i with value := w i }) n key = search c n key := by
    apply search_congr
    intro i
    rfl
  rw [gclGet, hsearch]
  cases search c n key <;> rfl

/-- Two assignments give the same results of `gcl_get` if they do so at every item. -/
lemma gclGet_congr_iff (h : Ascending c n) {w w' : ℤ → Option (List UInt8)} :
    (∀ key, gclGet (fun i => { c i with value := w i }) n key =
        gclGet (fun i => { c i with value := w' i }) n key) ↔
      ∀ i : ℤ, 0 ≤ i → i < n → (w i).or (c i).dval = (w' i).or (c i).dval := by
  simp only [gclGet_values]
  constructor
  · intro hget i h0 hn
    have hi := hget (c i).key
    rwa [h.search_iff.2 ⟨h0, hn, rfl⟩, Option.bind_some, Option.bind_some] at hi
  · intro hvalues key
    cases hsearch : search c n key with
    | none => rfl
    | some i =>
      obtain ⟨h0, hn, -⟩ := h.search_iff.1 hsearch
      exact hvalues i h0 hn

lemma gclInit_fresh (h : Ascending c n) {mem : ℕ → Bool} {text : List UInt8}
    (hmem : (gclInit mem n (freshTable c) (some text)).1 ≠ enomem) :
    (gclInit mem n (freshTable c) (some text)).2 =
      fun i => { c i with value := given (search c n) none text i } := by
  have hfresh : Ascending (freshTable c) n := h
  rw [gclInit_table hfresh hmem]
  funext i
  have hnone : (cleared (freshTable c) n i).value = none := by
    rw [cleared]
    split_ifs <;> rfl
  rw [hnone]
  unfold freshTable
  rw [search_withValues]
  rfl

/-- The pairs of the table with the values `v`. -/
def pairs (c : Table) (n : ℕ) (v : ℤ → List UInt8) : List (List UInt8) :=
  (List.range n).map fun d : ℕ => pair (c d).key (v d)

lemma mem_pairs {v : ℤ → List UInt8} {l : List UInt8} :
    l ∈ pairs c n v ↔ ∃ i : ℤ, 0 ≤ i ∧ i < n ∧ pair (c i).key (v i) = l := by
  unfold pairs
  rw [List.mem_map]
  constructor
  · rintro ⟨d, hd, hl⟩
    exact ⟨d, by omega, by simpa using hd, hl⟩
  · rintro ⟨i, h0, hn, hl⟩
    refine ⟨i.toNat, by rw [List.mem_range]; omega, ?_⟩
    rwa [Int.toNat_of_nonneg h0]

/-- **What a saved table gives to an item**, if no value has a newline in it. -/
lemma given_pairs (h : Ascending c n) {v : ℤ → List UInt8}
    (hkeys : ∀ i : ℤ, 0 ≤ i → i < n → PlainKey (c i).key)
    (hv : ∀ i : ℤ, 0 ≤ i → i < n → newline ∉ v i) {i : ℤ} (h0 : 0 ≤ i) (hn : i < n) :
    given (search c n) none ((pairs c n v).flatMap (· ++ [newline])) i =
      some (tokString ((v i).foldl (Scan.step (search c n)) ⟨.initial, [], some i⟩).tok) := by
  have hentry (j : ℤ) (hj : 0 ≤ j) (hjn : j < n) := entry_pair (v := v j) (hkeys j hj hjn)
    (h.search_iff.2 ⟨hj, hjn, rfl⟩)
  have hlines : ∀ l ∈ pairs c n v, newline ∉ l := by
    intro l hl
    obtain ⟨j, hj, hjn, rfl⟩ := mem_pairs.1 hl
    exact newline_not_mem_pair (hkeys j hj hjn).plain (hv j hj hjn)
  obtain ⟨hended, hlast⟩ := lines_split (lines_flatMap hlines)
  rw [given, hended, hlast, assigns_nil, Option.none_or, Option.none_or]
  apply findSome?_eq_some (mem_pairs.2 ⟨i, h0, hn, rfl⟩) (assigns_eq_some_iff.2 (hentry i h0 hn))
  intro l hl
  obtain ⟨j, hj, hjn, rfl⟩ := mem_pairs.1 hl
  by_cases hji : j = i
  · subst hji
    exact .inr (assigns_eq_some_iff.2 (hentry j hj hjn))
  · left
    rw [assigns, hentry j hj hjn]
    exact if_neg hji

/-! ## The round trip -/

/-- The string that is saved for an item. -/
def savedValue (c : Table) (n : ℕ) (content : List UInt8) (i : ℤ) : List UInt8 :=
  (effective c n content i).getD []

lemma savedValue_eq {i : ℤ} {v : List UInt8} (h : effective c n content i = some v) :
    savedValue c n content i = v := by
  rw [savedValue, h, Option.getD_some]

/-- The table after a call that did not run out of memory. -/
def loaded (c : Table) (n : ℕ) (content : List UInt8) : Table :=
  fun i => { c i with value := given (search c n) (cleared c n i).value content i }

lemma sprintf_loaded {i : ℤ} {line : List UInt8} :
    sprintf (loaded c n content i) = some line ↔
      ∃ v, effective c n content i = some v ∧ line = pair (c i).key v ++ [newline] ∧
        line.length < gclBufsize :=
  sprintf_eq_some

/-- The text that is saved. -/
def savedText (c : Table) (n : ℕ) (content : List UInt8) : List UInt8 :=
  (pairs c n (savedValue c n content)).flatMap (· ++ [newline])

/-- Every item has something to be saved, and its pair fits into the buffer. -/
def Fits (c : Table) (n : ℕ) (content : List UInt8) : Prop :=
  ∀ i : ℤ, 0 ≤ i → i < n →
    ∃ v, effective c n content i = some v ∧
      (pair (c i).key v ++ [newline]).length < gclBufsize

/-- What `gcl_sync` wrote, when every pair fits into its buffer. -/
lemma Fits.gclSync (h : Fits c n content) (opened : Bool) (fwrite : ℤ → ℕ) :
    ∃ r, gclSync opened fwrite (loaded c n content) n = some r ∧
      (r.1 = 1 → r.2 = savedText c n content) := by
  cases opened with
  | false => exact ⟨(0, []), rfl, fun h1 => absurd h1 (by decide)⟩
  | true =>
    have hline : ∀ j : ℤ, 0 ≤ j → j < 0 + n → sprintf (loaded c n content j) =
        some (pair (c j).key (savedValue c n content j) ++ [newline]) := by
      intro j h0 hn
      rw [zero_add] at hn
      obtain ⟨v, hv, hlen⟩ := h j h0 hn
      rw [savedValue_eq hv]
      exact sprintf_loaded.2 ⟨v, hv, rfl, hlen⟩
    obtain ⟨r, hr, htext⟩ := gclSyncFrom_spec fwrite n 0 [] hline
    refine ⟨r, hr, fun h1 => ?_⟩
    rw [htext h1, savedText, pairs, List.flatMap_map, List.nil_append]
    simp only [zero_add]

/-- What is read back is the same exactly when it is so at every item. -/
lemma gclGet_loaded_iff (h : Ascending c n) {text : List UInt8} :
    (∀ key, gclGet (fun i => { c i with value := given (search c n) none text i }) n key =
        gclGet (loaded c n content) n key) ↔
      ∀ i : ℤ, 0 ≤ i → i < n →
        (given (search c n) none text i).or (c i).dval = effective c n content i :=
  gclGet_congr_iff h

/-- The keys are plain words that fit into the token buffer. -/
def PlainKeys (c : Table) (n : ℕ) : Prop := ∀ i : ℤ, 0 ≤ i → i < n → PlainKey (c i).key

/-- What the file or the default gives to each item is plain and fits into the token buffer. -/
def PlainValues (c : Table) (n : ℕ) (content : List UInt8) : Prop :=
  ∀ i : ℤ, 0 ≤ i → i < n →
    ∃ v, effective c n content i = some v ∧ PlainText v ∧ v.length < gclToksize

/-- **What comes back in general**: each item gets what the saved text gives to it, line by line. -/
lemma roundTrips_iff (h : Ascending c n) :
    RoundTrips c n content ↔
      Fits c n content ∧ ∀ i : ℤ, 0 ≤ i → i < n →
        (given (search c n) none (savedText c n content) i).or (c i).dval =
          effective c n content i := by
  constructor
  · intro htrip
    have hload : gclInit (fun _ => true) n c (some content) = (0, loaded c n content) :=
      gclInit_ample h content
    have htrip' := htrip (fun _ => true) (by rw [hload]) true (fun _ => gclBufsize)
    rw [hload] at htrip'
    obtain ⟨r, hr, hget⟩ := htrip'
    obtain ⟨h1, hlines⟩ := gclSyncFrom_some hr
    have hfits : Fits c n content := by
      intro i h0 hn
      obtain ⟨line, hline⟩ := hlines i h0 (by rwa [zero_add])
      obtain ⟨v, hv, rfl, hlen⟩ := sprintf_loaded.1 hline
      exact ⟨v, hv, hlen⟩
    refine ⟨hfits, ?_⟩
    obtain ⟨r', hr', htext⟩ := hfits.gclSync true (fun _ => gclBufsize)
    obtain rfl : r = r' := Option.some.inj (hr.symm.trans hr')
    have hread : (gclInit (fun _ => true) n (freshTable c) (some r.2)).1 = 0 := by
      rw [gclInit_ample (c := freshTable c) h r.2]
    have hne : (gclInit (fun _ => true) n (freshTable c) (some r.2)).1 ≠ enomem := by
      rw [hread]
      exact zero_ne_enomem
    have hsame := hget h1 (fun _ => true) hread
    rwa [gclInit_fresh h hne, gclGet_loaded_iff h, htext h1] at hsame
  · rintro ⟨hfits, hvalues⟩ mem hmem opened fwrite
    have hne : (gclInit mem n c (some content)).1 ≠ enomem := by
      rw [hmem]
      exact zero_ne_enomem
    have hload : (gclInit mem n c (some content)).2 = loaded c n content := gclInit_table h hne
    rw [hload]
    obtain ⟨r, hr, htext⟩ := hfits.gclSync opened fwrite
    refine ⟨r, hr, fun h1 mem' hmem' => ?_⟩
    have hne' : (gclInit mem' n (freshTable c) (some r.2)).1 ≠ enomem := by
      rw [hmem']
      exact zero_ne_enomem
    rw [gclInit_fresh h hne', htext h1]
    exact (gclGet_loaded_iff h).2 hvalues

/-- **A plain table is read back as it was saved.** -/
lemma PlainValues.roundTrips (hvalues : PlainValues c n content) (h : Ascending c n)
    (hkeys : PlainKeys c n) : RoundTrips c n content := by
  have hplain (i : ℤ) (h0 : 0 ≤ i) (hn : i < n) :
      effective c n content i = some (savedValue c n content i) ∧
        PlainText (savedValue c n content i) ∧
          (savedValue c n content i).length < gclToksize := by
    obtain ⟨v, hv, hv'⟩ := hvalues i h0 hn
    rw [savedValue_eq hv]
    exact ⟨hv, hv'⟩
  rw [roundTrips_iff h]
  refine ⟨fun i h0 hn => ?_, fun i h0 hn => ?_⟩
  · obtain ⟨heff, -, hlen⟩ := hplain i h0 hn
    have hkey := (hkeys i h0 hn).length
    have hsize : gclToksize = 256 := rfl
    refine ⟨_, heff, ?_⟩
    rw [pair, List.length_append, List.length_append, List.length_cons, List.length_singleton,
      gclBufsize]
    omega
  · obtain ⟨heff, hvi, hlen⟩ := hplain i h0 hn
    obtain ⟨st, hfold, -⟩ := hvi.foldl hlen (search c n) (some i)
    rw [savedText, given_pairs h hkeys (fun j hj hjn => (hplain j hj hjn).2.1.newline_not_mem)
      h0 hn, hfold, hvi.tokString_eq, Option.some_or, heff]

/-- **Only a plain table is read back as it was saved**, if its keys are plain. -/
lemma RoundTrips.plain (htrip : RoundTrips c n content) (h : Ascending c n)
    (hkeys : PlainKeys c n) : PlainValues c n content := by
  obtain ⟨-, hsame⟩ := (roundTrips_iff h).1 htrip
  -- the line of each item is read, up to the first newline
  have hassigned (i : ℤ) (h0 : 0 ≤ i) (hn : i < n) :
      effective c n content i = some (savedValue c n content i) ∧
        given (search c n) none (savedText c n content) i =
          some (savedValue c n content i) := by
    obtain ⟨w, hw⟩ := given_of_pair (hkeys i h0 hn) (h.search_iff.2 ⟨h0, hn, rfl⟩)
      (mem_pairs.2 ⟨i, h0, hn, rfl⟩ : pair (c i).key (savedValue c n content i) ∈ _)
    have hi := hsame i h0 hn
    rw [savedText, hw, Option.some_or] at hi
    rw [savedValue_eq hi.symm]
    exact ⟨hi.symm, hw⟩
  have hnewline (i : ℤ) (h0 : 0 ≤ i) (hn : i < n) : newline ∉ savedValue c n content i :=
    newline_not_mem_given (hassigned i h0 hn).2
  intro i h0 hn
  obtain ⟨heff, hgiven⟩ := hassigned i h0 hn
  rw [savedText, given_pairs h hkeys hnewline h0 hn] at hgiven
  exact ⟨_, heff, plain_of_read (Option.some.inj hgiven)⟩

/-- **A saved table reads back exactly when the lines that were written give each item what it
had**; where the keys are plain this is so exactly when the values are plain as well. -/
theorem saved_reads_back_iff (c : Table) (n : ℕ) (content : List UInt8) (h : Ascending c n) :
    (RoundTrips c n content ↔
        Fits c n content ∧ ∀ i : ℤ, 0 ≤ i → i < n →
          (given (search c n) none (savedText c n content) i).or (c i).dval =
            effective c n content i) ∧
      (PlainKeys c n → (RoundTrips c n content ↔ PlainValues c n content)) :=
  ⟨roundTrips_iff h, fun hkeys =>
    ⟨fun htrip => htrip.plain h hkeys, fun hvalues => hvalues.roundTrips h hkeys⟩⟩

/-- Two items `a` and `b` with the default `1`. -/
def twoDefaults : Table := fun i => ⟨if i = 0 then [97] else [98], some [49], none⟩

/-- `a=5` is read back. -/
theorem saved_reads_back_sample : RoundTrips twoDefaults 2 [97, 61, 53, 10] := by
  have hasc : Ascending twoDefaults 2 := ascend_spec.1.1 (by decide +kernel)
  have hchar (ch : UInt8) (hch : ch ∈ [53, 49, 97, 98]) : PlainChar ch := by
    have hall : ∀ x ∈ ([53, 49, 97, 98] : List UInt8),
        x ≠ hash ∧ x ≠ equals ∧ isspace x = false ∧ x ≠ 0 := by decide +kernel
    obtain ⟨h1, h2, h3, h4⟩ := hall ch hch
    exact ⟨h1, h2, h3, h4⟩
  have hplain (ch : UInt8) (hch : ch ∈ [53, 49, 97, 98]) (hquote : ch ≠ quote) :
      PlainText [ch] :=
    ⟨List.forall_mem_singleton.2 (hchar ch hch), by simpa using hquote⟩
  have hkeys : PlainKeys twoDefaults 2 := by
    intro i _ _
    unfold twoDefaults
    dsimp only
    split_ifs
    · exact ⟨hplain 97 (by decide) (by decide), by decide, by decide⟩
    · exact ⟨hplain 98 (by decide) (by decide), by decide, by decide⟩
  apply ((saved_reads_back_iff twoDefaults 2 [97, 61, 53, 10] hasc).2 hkeys).2
  intro i h0 hn
  obtain rfl | rfl : i = 0 ∨ i = 1 := by omega
  · exact ⟨[53], by decide +kernel, hplain 53 (by decide) (by decide), by decide⟩
  · exact ⟨[49], by decide +kernel, hplain 49 (by decide) (by decide), by decide⟩

/-- `a="x y"` is saved as `a=x y`, which is read back as `xy`. -/
theorem saved_value_changes :
    gclGet (gclInit (fun _ => true) 2 twoDefaults
        (some [97, 61, 34, 120, 32, 121, 34, 10])).2 2 [97] = some [120, 32, 121] ∧
      gclSync true (fun _ => gclBufsize) (gclInit (fun _ => true) 2 twoDefaults
        (some [97, 61, 34, 120, 32, 121, 34, 10])).2 2 =
          some (1, [97, 61, 120, 32, 121, 10, 98, 61, 49, 10]) ∧
      gclGet (gclInit (fun _ => true) 2 (freshTable twoDefaults)
        (some [97, 61, 120, 32, 121, 10, 98, 61, 49, 10])).2 2 [97] = some [120, 121] ∧
      ¬ RoundTrips twoDefaults 2 [97, 61, 34, 120, 32, 121, 34, 10] := by
  have hload : gclGet (gclInit (fun _ => true) 2 twoDefaults
      (some [97, 61, 34, 120, 32, 121, 34, 10])).2 2 [97] = some [120, 32, 121] := by
    decide +kernel
  have hsync : gclSync true (fun _ => gclBufsize) (gclInit (fun _ => true) 2 twoDefaults
      (some [97, 61, 34, 120, 32, 121, 34, 10])).2 2 =
        some (1, [97, 61, 120, 32, 121, 10, 98, 61, 49, 10]) := by
    decide +kernel
  have hread : gclGet (gclInit (fun _ => true) 2 (freshTable twoDefaults)
      (some [97, 61, 120, 32, 121, 10, 98, 61, 49, 10])).2 2 [97] = some [120, 121] := by
    decide +kernel
  refine ⟨hload, hsync, hread, fun htrip => ?_⟩
  obtain ⟨r, hr, hget⟩ := htrip (fun _ => true) (by decide +kernel) true (fun _ => gclBufsize)
  obtain rfl := Option.some.inj (hsync.symm.trans hr)
  have hsame := hget rfl (fun _ => true) (by decide +kernel) [97]
  rw [hload] at hsame
  exact absurd (hread.symm.trans hsame) (by decide)

end Saving

end LinuxC.Gcl
