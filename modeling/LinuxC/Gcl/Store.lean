import LinuxC.Framework.DefaultMap
import LinuxC.Gcl.Table

/-!
# The items are a map with defaults

`gcl_set`, `gcl_reset` and `gcl_get` go through the search.  On a table in order they are the
operations of a map with defaults (`storeStep_refines`), so that after any calls an item has the
value that was stored last (`store_is_map`).  In these runs every call of `strdup` finds memory.

The index of the middle is the half of an `int` sum.  In a table of at most `2 ^ 30` items the sum
does not overflow, and the search is the one of the model (`searchInt_eq`).
-/

namespace LinuxC.Gcl

open DefaultMap (Op Result lastStored)
open Uapi (strcmp strcmp_self strcmp_eq_zero)

/-! ## The source -/

/-- `gcl_set`; `mem` says whether `strdup` finds memory. -/
def gclSet (mem : Bool) (c : Table) (n : ℕ) (key value : List UInt8) : ℤ × Table :=
  match search c n key with
  | none => (-1, c)
  | some i =>
      match (c i).value with
      | some v =>
          if strcmp value v = 0 then (0, c)
          else if mem then (1, c.setValue i (some value))
          else (-1, c)
      | none => if mem then (1, c.setValue i (some value)) else (-1, c)

/-- `gcl_reset`.  Without a default, what happens is undefined. -/
def gclReset (mem : Bool) (c : Table) (n : ℕ) (key : List UInt8) : Option (ℤ × Table) :=
  match search c n key with
  | none => some (-1, c)
  | some i =>
      match (c i).dval with
      | none => none
      | some d =>
          match (c i).value with
          | some v =>
              if strcmp d v = 0 then some (0, c)
              else if mem then some (1, c.setValue i (some d))
              else some (-1, c)
          | none => if mem then some (0, c.setValue i (some d)) else some (-1, c)

/-- One call, with memory for every value. -/
def storeStep (n : ℕ) (c : Table) :
    Op (List UInt8) (List UInt8) → Option (Table × List (Result (List UInt8)))
  | .set key value =>
      let r := gclSet true c n key value
      some (r.2, [.code r.1])
  | .reset key => (gclReset true c n key).map fun r => (r.2, [.code r.1])
  | .get key => some (c, [.value (gclGet c n key)])

section Store

variable {c c' : Table} {n : ℕ} {key : List UInt8} {i : ℤ}

/-! ## The calls by the item -/

lemma strcmp_eq_zero_iff {a b : List UInt8} : strcmp a b = 0 ↔ b = a := by
  constructor
  · intro h
    exact (strcmp_eq_zero h).symm
  · rintro rfl
    exact strcmp_self b

lemma gclSet_of_none (mem : Bool) (h : search c n key = none) (value : List UInt8) :
    gclSet mem c n key value = (-1, c) := by
  simp only [gclSet, h]

lemma gclSet_of_search (mem : Bool) (h : search c n key = some i) (value : List UInt8) :
    gclSet mem c n key value =
      if (c i).value = some value then (0, c)
      else if mem then (1, c.setValue i (some value)) else (-1, c) := by
  simp only [gclSet, h]
  cases (c i).value with
  | none => simp only [reduceCtorEq, if_false]
  | some v => simp only [Option.some.injEq, strcmp_eq_zero_iff]

lemma gclReset_of_none (mem : Bool) (h : search c n key = none) :
    gclReset mem c n key = some (-1, c) := by
  simp only [gclReset, h]

lemma gclReset_of_noDefault (mem : Bool) (h : search c n key = some i) (hd : (c i).dval = none) :
    gclReset mem c n key = none := by
  simp only [gclReset, h, hd]

lemma gclReset_of_search (mem : Bool) {d : List UInt8} (h : search c n key = some i)
    (hd : (c i).dval = some d) :
    gclReset mem c n key = some
      (if (c i).value = some d then (0, c)
      else if mem then (if (c i).value = none then 0 else 1, c.setValue i (some d))
      else (-1, c)) := by
  simp only [gclReset, h, hd]
  cases (c i).value with
  | none =>
    simp only [reduceCtorEq, if_false, if_true]
    split_ifs <;> rfl
  | some v =>
    simp only [Option.some.injEq, strcmp_eq_zero_iff, reduceCtorEq, if_false]
    split_ifs <;> rfl

/-! ## The map -/

/-- The values of the items by their keys. -/
def storedIn (n : ℕ) (c : Table) (key : List UInt8) : Option (List UInt8) :=
  (search c n key).bind fun i => (c i).value

/-- The keys of the items, and their defaults. -/
def defaults (n : ℕ) (c : Table) (key : List UInt8) : Option (Option (List UInt8)) :=
  (search c n key).map fun i => (c i).dval

lemma storedIn_of_search (h : search c n key = some i) : storedIn n c key = (c i).value := by
  rw [storedIn, h, Option.bind_some]

lemma defaults_of_search (h : search c n key = some i) : defaults n c key = some (c i).dval := by
  rw [defaults, h, Option.map_some]

lemma defaults_of_none (h : search c n key = none) : defaults n c key = none := by
  rw [defaults, h, Option.map_none]

lemma setValue_of_eq {v : Option (List UInt8)} (h : (c i).value = v) : c.setValue i v = c := by
  rw [← h]
  exact Function.update_eq_self i c

/-- **A value is stored for one key.** -/
lemma Ascending.storedIn_setValue (h : Ascending c n) (hi : search c n key = some i)
    (v : Option (List UInt8)) :
    storedIn n (c.setValue i v) = Function.update (storedIn n c) key v := by
  funext key'
  have hsearch : search (c.setValue i v) n key' = search c n key' :=
    search_congr (fun _ => setValue_key) key'
  by_cases hkey : key' = key
  · subst hkey
    rw [Function.update_self, storedIn_of_search (hsearch.trans hi), setValue_self]
  · rw [Function.update_of_ne hkey, storedIn, storedIn, hsearch]
    cases hj : search c n key' with
    | none => rfl
    | some j =>
      have hne : j ≠ i := by
        rintro rfl
        exact hkey ((h.search_iff.mp hj).2.2.symm.trans (h.search_iff.mp hi).2.2)
      rw [Option.bind_some, Option.bind_some, setValue_of_ne hne]

lemma defaults_setValue (i : ℤ) (v : Option (List UInt8)) :
    defaults n (c.setValue i v) = defaults n c := by
  funext key
  rw [defaults, defaults, search_congr (fun _ => setValue_key) key]
  exact congrArg (Option.map · _) (funext fun _ => setValue_dval)

lemma Ascending.setValue (h : Ascending c n) (i : ℤ) (v : Option (List UInt8)) :
    Ascending (c.setValue i v) n := by
  intro j hj hjn
  rw [setValue_key, setValue_key]
  exact h j hj hjn

lemma gclGet_eq (c : Table) (n : ℕ) (key : List UInt8) :
    gclGet c n key = (defaults n c key).bind fun d => (storedIn n c key).or d := by
  unfold gclGet
  cases hi : search c n key with
  | none => rw [defaults_of_none hi, Option.bind_none]
  | some i => rw [defaults_of_search hi, storedIn_of_search hi, Option.bind_some]

/-! ## The refinement -/

/-- The table behind a call is in order, with the same keys and defaults. -/
structure Same (n : ℕ) (c c' : Table) : Prop where
  ascending : Ascending c' n
  defaults : defaults n c' = defaults n c

lemma Ascending.same (h : Ascending c n) : Same n c c := ⟨h, rfl⟩

lemma Ascending.same_setValue (h : Ascending c n) (i : ℤ) (v : Option (List UInt8)) :
    Same n c (c.setValue i v) := ⟨h.setValue i v, defaults_setValue i v⟩

variable {op : Op (List UInt8) (List UInt8)} {es : List (Result (List UInt8))}

/-- **One call is the operation of the map.** -/
lemma storeStep_refines (h : Ascending c n) (op : Op (List UInt8) (List UInt8)) :
    (storeStep n c op).map (fun r => (storedIn n r.1, r.2)) =
      DefaultMap.step (defaults n c) (storedIn n c) op := by
  cases op with
  | set key value =>
    cases hi : search c n key with
    | none =>
      simp only [storeStep, DefaultMap.step, gclSet_of_none true hi, defaults_of_none hi,
        Option.map_some]
    | some i =>
      simp only [storeStep, DefaultMap.step, gclSet_of_search true hi, defaults_of_search hi,
        storedIn_of_search hi, if_true]
      split_ifs
      · rfl
      · rw [Option.map_some, h.storedIn_setValue hi]
  | reset key =>
    cases hi : search c n key with
    | none =>
      simp only [storeStep, DefaultMap.step, gclReset_of_none true hi, defaults_of_none hi,
        Option.map_some]
    | some i =>
      cases hd : (c i).dval with
      | none =>
        simp only [storeStep, DefaultMap.step, gclReset_of_noDefault true hi hd,
          defaults_of_search hi, hd, Option.map_none]
      | some d =>
        simp only [storeStep, DefaultMap.step, gclReset_of_search true hi hd,
          defaults_of_search hi, hd, storedIn_of_search hi, if_true, Option.map_some,
          ← h.storedIn_setValue hi]
        by_cases hsame : (c i).value = some d
        · rw [if_pos hsame, if_pos (.inr hsame), setValue_of_eq hsame]
        · rw [if_neg hsame]
          by_cases hnone : (c i).value = none
          · rw [if_pos hnone, if_pos (.inl hnone)]
          · rw [if_neg hnone, if_neg (not_or.mpr ⟨hnone, hsame⟩)]
  | get key =>
    simp only [storeStep, DefaultMap.step, Option.map_some, gclGet_eq]

lemma storeStep_same (h : Ascending c n) (hstep : storeStep n c op = some (c', es)) :
    Same n c c' := by
  cases op with
  | set key value =>
    obtain ⟨rfl, -⟩ := Prod.mk.inj (Option.some.inj hstep)
    cases hi : search c n key with
    | none =>
      rw [gclSet_of_none true hi]
      exact h.same
    | some i =>
      rw [gclSet_of_search true hi]
      simp only [if_true]
      split_ifs
      · exact h.same
      · exact h.same_setValue i _
  | reset key =>
    obtain ⟨r, hr, heq⟩ := Option.map_eq_some_iff.mp hstep
    obtain ⟨rfl, -⟩ := Prod.mk.inj heq
    cases hi : search c n key with
    | none =>
      rw [gclReset_of_none true hi] at hr
      rw [← Option.some.inj hr]
      exact h.same
    | some i =>
      cases hd : (c i).dval with
      | none =>
        rw [gclReset_of_noDefault true hi hd] at hr
        cases hr
      | some d =>
        rw [gclReset_of_search true hi hd] at hr
        rw [← Option.some.inj hr]
        simp only [if_true]
        split_ifs
        · exact h.same
        · exact h.same_setValue i _
        · exact h.same_setValue i _
  | get key =>
    obtain ⟨rfl, -⟩ := Prod.mk.inj (Option.some.inj hstep)
    exact h.same

/-- **A run of calls is a run of the map.** -/
lemma run_refines (h : Ascending c n) {ops : List (Op (List UInt8) (List UInt8))}
    (hrun : run (storeStep n) ops c = some (c', es)) :
    run (DefaultMap.step (defaults n c)) ops (storedIn n c) = some (storedIn n c', es) ∧
      Same n c c' := by
  induction ops generalizing c es with
  | nil =>
    obtain ⟨rfl, rfl⟩ := Prod.mk.inj (Option.some.inj hrun)
    exact ⟨rfl, h.same⟩
  | cons op ops ih =>
    obtain ⟨c₁, es₁, es₂, hstep, hrun₁, rfl⟩ := run_cons.mp hrun
    have hsame := storeStep_same h hstep
    obtain ⟨hmap, hsame'⟩ := ih hsame.ascending hrun₁
    have hone := storeStep_refines h op
    rw [hstep, Option.map_some] at hone
    rw [hsame.defaults] at hmap
    exact ⟨run_cons.mpr ⟨_, es₁, es₂, hone.symm, hmap, rfl⟩, hsame'.ascending,
      hsame'.defaults.trans hsame.defaults⟩

/-- An item of the table has the key. -/
def HasKey (n : ℕ) (c : Table) (i : ℤ) (key : List UInt8) : Prop :=
  0 ≤ i ∧ i < n ∧ (c i).key = key

/-- What is stored for the item `i` of `c` after some calls. -/
def storedAfter (c : Table) (i : ℤ) (ops : List (Op (List UInt8) (List UInt8))) :
    Option (List UInt8) := lastStored (c i).key (c i).dval (c i).value ops

section Run

variable {ops : List (Op (List UInt8) (List UInt8))}

/-- What is stored for an item after a run. -/
lemma run_storedIn (h : Ascending c n) (hrun : run (storeStep n) ops c = some (c', es))
    (hi : HasKey n c i key) : storedIn n c' key = storedAfter c i ops := by
  obtain ⟨hmap, -⟩ := run_refines h hrun
  have hsearch := h.search_iff.mpr hi
  rw [DefaultMap.run_stored (defaults_of_search hsearch) hmap, storedIn_of_search hsearch,
    storedAfter, hi.2.2]

lemma Ascending.search_eq_none_iff (h : Ascending c n) :
    search c n key = none ↔ ∀ i, ¬ HasKey n c i key := by
  constructor
  · intro hnone i hi
    have hsome := h.search_iff.mpr hi
    rw [hnone] at hsome
    cases hsome
  · intro hno
    cases hi : search c n key with
    | none => rfl
    | some i => exact absurd (h.search_iff.mp hi) (hno i)

/-- The search finds the only item with the key. -/
lemma Ascending.hasKey_iff (h : Ascending c n) (hi : search c n key = some i) {j : ℤ} :
    HasKey n c j key ↔ j = i := by
  rw [HasKey, ← h.search_iff, hi, Option.some.injEq, eq_comm]

lemma Ascending.forall_hasKey (h : Ascending c n) (hi : search c n key = some i)
    {p : ℤ → Prop} : (∀ j, HasKey n c j key → p j) ↔ p i := by
  simp only [h.hasKey_iff hi, forall_eq]

lemma Ascending.exists_hasKey (h : Ascending c n) (hi : search c n key = some i)
    {p : ℤ → Prop} : (∃ j, HasKey n c j key ∧ p j) ↔ p i := by
  simp only [h.hasKey_iff hi, exists_eq_left]

lemma snd_storeStep (h : Ascending c n) (op : Op (List UInt8) (List UInt8)) :
    (storeStep n c op).map Prod.snd =
      (DefaultMap.step (defaults n c) (storedIn n c) op).map Prod.snd := by
  rw [← storeStep_refines h op, Option.map_map]
  rfl

/-- **No call changes what a call for another key returns.** -/
lemma storeStep_other (h : Ascending c n) (hstep : storeStep n c op = some (c', es))
    {op' : Op (List UInt8) (List UInt8)} (hne : op'.key ≠ op.key) :
    (storeStep n c' op').map Prod.snd = (storeStep n c op').map Prod.snd := by
  have hsame := storeStep_same h hstep
  have hone := storeStep_refines h op
  rw [hstep, Option.map_some] at hone
  rw [snd_storeStep hsame.ascending, snd_storeStep h, hsame.defaults]
  exact DefaultMap.step_other hone.symm hne

lemma Same.set_code (h : Same n c c') (key value : List UInt8) :
    (gclSet true c' n key value).1 =
      (Gcl.defaults n c key).elim (-1) fun _ => if storedIn n c' key = some value then 0 else 1 := by
  rw [← h.defaults]
  cases hi : search c' n key with
  | none => rw [gclSet_of_none true hi, defaults_of_none hi, Option.elim_none]
  | some i =>
    rw [gclSet_of_search true hi, defaults_of_search hi, Option.elim_some, storedIn_of_search hi]
    simp only [if_true]
    split_ifs <;> rfl

end Run

/-- **The configuration store.**  After any calls on a table in order, of at most `2 ^ 30` items, the
search is that of the source, and an item has what was stored for it last, which is the value last
set, or the default after a reset, or what it had before the calls, and without that its default.
`gcl_set` distinguishes unknown keys and equal values, and no call changes what one for another key
returns. -/
theorem store_is_map (h : Ascending c n) (hn : n ≤ 2 ^ 30)
    {ops : List (Op (List UInt8) (List UInt8))}
    (hrun : run (storeStep n) ops c = some (c', es)) :
    (∀ key, searchInt c' n key = search c' n key) ∧
    (∀ key i, HasKey n c i key → gclGet c' n key = (storedAfter c i ops).or (c i).dval) ∧
    (∀ key, gclGet c' n key = none ↔
      ∀ i, HasKey n c i key → storedAfter c i ops = none ∧ (c i).dval = none) ∧
    (∀ key value,
      ((gclSet true c' n key value).1 = -1 ↔ ∀ i, ¬ HasKey n c i key) ∧
      ((gclSet true c' n key value).1 = 0 ↔
        ∃ i, HasKey n c i key ∧ storedAfter c i ops = some value) ∧
      ((gclSet true c' n key value).1 = 1 ↔
        ∃ i, HasKey n c i key ∧ storedAfter c i ops ≠ some value)) ∧
    ∀ op c'' es', storeStep n c' op = some (c'', es') → ∀ op', op'.key ≠ op.key →
      (storeStep n c'' op').map Prod.snd = (storeStep n c' op').map Prod.snd := by
  obtain ⟨-, hsame⟩ := run_refines h hrun
  have hget : ∀ key i, HasKey n c i key → gclGet c' n key = (storedAfter c i ops).or (c i).dval := by
    intro key i hi
    rw [gclGet_eq, hsame.defaults, defaults_of_search (h.search_iff.mpr hi), Option.bind_some,
      run_storedIn h hrun hi]
  refine ⟨searchInt_eq hn c', hget, fun key => ?_, fun key value => ?_,
    fun op c'' es' hstep op' hne => storeStep_other hsame.ascending hstep hne⟩
  · cases hi : search c n key with
    | none =>
      rw [gclGet_eq, hsame.defaults, defaults_of_none hi, Option.bind_none]
      exact iff_of_true rfl fun i hkey => absurd hkey (h.search_eq_none_iff.mp hi i)
    | some i =>
      rw [hget key i (h.search_iff.mp hi), Option.or_eq_none_iff, h.forall_hasKey hi]
  · rw [hsame.set_code key value]
    cases hi : search c n key with
    | none =>
      have hno := h.search_eq_none_iff.mp hi
      rw [defaults_of_none hi, Option.elim_none]
      exact ⟨iff_of_true rfl hno, iff_of_false (by decide) fun ⟨i, hkey, _⟩ => hno i hkey,
        iff_of_false (by decide) fun ⟨i, hkey, _⟩ => hno i hkey⟩
    | some i =>
      have hkey : HasKey n c i key := h.search_iff.mp hi
      rw [defaults_of_search hi, Option.elim_some, run_storedIn h hrun hkey, h.exists_hasKey hi,
        h.exists_hasKey hi]
      split_ifs with heq
      · exact ⟨iff_of_false (by decide) fun hno => hno i hkey, iff_of_true rfl heq,
          iff_of_false (by decide) fun hne => hne heq⟩
      · exact ⟨iff_of_false (by decide) fun hno => hno i hkey, iff_of_false (by decide) heq,
          iff_of_true rfl heq⟩

/-- The items `a` and `b` with the defaults `1` and `2`. -/
def sampleItems : Table := fun i =>
  if i = 0 then ⟨[97], some [49], none⟩ else ⟨[98], some [50], none⟩

/-- `a` and `b` are set, `b` is reset, `u` is unknown: `a` has its value, and `b` its default. -/
theorem store_is_map_sample : ∃ c', run (storeStep 2)
      [.set [97] [53], .set [98] [54], .get [98], .reset [98], .set [117] [55], .get [117],
        .set [97] [53]] sampleItems =
        some (c', [.code 1, .code 1, .value (some [54]), .code 1, .code (-1), .value none,
          .code 0]) ∧
    gclGet c' 2 [97] = some [53] ∧ gclGet c' 2 [98] = some [50] ∧ gclGet c' 2 [117] = none ∧
    (gclSet true c' 2 [98] [50]).1 = 0 := by
  have h : Ascending sampleItems 2 := ascend_spec.1.mp (by decide +kernel)
  have heval : (run (storeStep 2) [.set [97] [53], .set [98] [54], .get [98], .reset [98],
      .set [117] [55], .get [117], .set [97] [53]] sampleItems).map Prod.snd =
      some [.code 1, .code 1, .value (some [54]), .code 1, .code (-1), .value none, .code 0] := by
    decide +kernel
  obtain ⟨⟨c', es⟩, hrun, rfl⟩ := Option.map_eq_some_iff.mp heval
  obtain ⟨-, hget, hnull, hcode, -⟩ := store_is_map h (by decide) hrun
  have hb : HasKey 2 sampleItems 1 [98] := ⟨by decide, by decide, rfl⟩
  refine ⟨c', hrun, hget [97] 0 ⟨le_rfl, by decide, rfl⟩, hget [98] 1 hb, ?_, ?_⟩
  · refine (hnull [117]).mpr fun i hi => absurd hi.2.2 ?_
    unfold sampleItems
    split_ifs <;> decide
  · exact (hcode [98] [50]).2.1.mpr ⟨1, hb, by decide⟩

/-- An item without a default: `gcl_get` returns `NULL` for a key that is there. -/
theorem gclGet_null_of_known : ¬ ∀ c c' n ops es key, Ascending c n →
    run (storeStep n) ops c = some (c', es) →
      (gclGet c' n key = none ↔ ∀ i, ¬ HasKey n c i key) := by
  intro hall
  have h := hall (fun _ => ⟨[97], none, none⟩) _ 1 [] [] [97] (fun i hi hin => by omega) rfl
  exact h.mp rfl 0 ⟨le_rfl, by decide, rfl⟩

end Store

end LinuxC.Gcl
