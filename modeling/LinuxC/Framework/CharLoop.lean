import Mathlib.Data.List.Basic
import Mathlib.Logic.Function.Basic

/-!
# Loops over the characters of a file

A file is read into a buffer again and again, and a loop goes over the characters of the buffer.  A
turn of the loop looks at a character and may leave it for the next turn; it may also leave both
loops.  `bufLoop` and `fileLoop` are these loops, with a bound on the turns for one buffer.

If the turn that follows on one that leaves the character takes it (`TwoTurns`), two turns for each
character are enough, and the loops are a fold over the file, wherever the buffers end
(`fileLoop_eq`).

A turn that writes to arrays is traced: `traced` collects the writes, and what every turn keeps of
the state and of the writes so far is kept by the whole run (`foldl_traced`).
-/

namespace LinuxC.CharLoop

variable {α σ ω : Type} (stop : σ → Bool) (turn : α → σ → σ × Bool)

/-! ## The loops -/

/-- The loop over a buffer: the state at its end, and the characters that are not taken. -/
def bufLoop : ℕ → List α → σ → Option (σ × List α)
  | _, [], s => some (s, [])
  | 0, _ :: _, _ => none
  | k + 1, ch :: buf, s =>
      let r := turn ch s
      if stop r.1 then some (r.1, ch :: buf)
      else bufLoop k (if r.2 then buf else ch :: buf) r.1

/-- The loop over the buffers of a file: the state at its end, and the characters that are not
taken. -/
def fileLoop (turns : ℕ) : List (List α) → σ → Option (σ × List α)
  | [], s => some (s, [])
  | buf :: bufs, s =>
      match bufLoop stop turn turns buf s with
      | none => none
      | some (s, rest) =>
          if stop s then some (s, rest ++ bufs.flatten) else fileLoop turns bufs s

/-- The turns at one character. -/
def feed (s : σ) (ch : α) : σ :=
  if stop s then s
  else
    let r := turn ch s
    if r.2 then r.1 else (turn ch r.1).1

/-- A turn that leaves the character goes on, and the next one takes it. -/
structure TwoTurns : Prop where
  goesOn : ∀ ch s, (turn ch s).2 = false → stop s = false → stop (turn ch s).1 = false
  taken : ∀ ch s, (turn ch s).2 = false → (turn ch (turn ch s).1).2 = true

variable {stop turn}

section Feed

variable {s : σ} {ch : α}

lemma feed_of_stop (h : stop s = true) : feed stop turn s ch = s := if_pos h

lemma foldl_feed_of_stop (h : stop s = true) (cs : List α) : cs.foldl (feed stop turn) s = s := by
  induction cs with
  | nil => rfl
  | cons ch cs ih => rw [List.foldl_cons, feed_of_stop h, ih]

lemma feed_of_taken (hs : stop s = false) (h : (turn ch s).2 = true) :
    feed stop turn s ch = (turn ch s).1 := by
  simp only [feed, hs, h, if_true, Bool.false_eq_true, if_false]

lemma feed_of_left (hs : stop s = false) (h : (turn ch s).2 = false) :
    feed stop turn s ch = (turn ch (turn ch s).1).1 := by
  simp only [feed, hs, h, Bool.false_eq_true, if_false]

/-- What every turn keeps is kept at every character. -/
lemma feed_invariant {I : σ → Prop} (hturn : ∀ ch s, I s → I (turn ch s).1) (h : I s) :
    I (feed stop turn s ch) := by
  cases hs : stop s with
  | true => rwa [feed_of_stop hs]
  | false =>
    cases htaken : (turn ch s).2 with
    | true =>
      rw [feed_of_taken hs htaken]
      exact hturn ch s h
    | false =>
      rw [feed_of_left hs htaken]
      exact hturn ch _ (hturn ch s h)

/-- What every turn keeps is kept by the whole run. -/
lemma foldl_invariant {I : σ → Prop} (hturn : ∀ ch s, I s → I (turn ch s).1) (h : I s)
    (cs : List α) : I (cs.foldl (feed stop turn) s) := by
  induction cs generalizing s with
  | nil => exact h
  | cons ch cs ih => exact ih (feed_invariant hturn h)

end Feed

/-! ## The loops are a fold -/

/-- The turn that takes the character, in the loop. -/
lemma bufLoop_of_taken {k : ℕ} {ch : α} {buf : List α} {s : σ} (h : (turn ch s).2 = true)
    (hstop : stop (turn ch s).1 = false) :
    bufLoop stop turn (k + 1) (ch :: buf) s = bufLoop stop turn k buf (turn ch s).1 := by
  rw [bufLoop, hstop, h]
  rfl

lemma bufLoop_of_left {k : ℕ} {ch : α} {buf : List α} {s : σ} (h : (turn ch s).2 = false)
    (hstop : stop (turn ch s).1 = false) :
    bufLoop stop turn (k + 1) (ch :: buf) s = bufLoop stop turn k (ch :: buf) (turn ch s).1 := by
  rw [bufLoop, hstop, h]
  rfl

lemma bufLoop_of_stop {k : ℕ} {ch : α} {buf : List α} {s : σ} (hstop : stop (turn ch s).1 = true) :
    bufLoop stop turn (k + 1) (ch :: buf) s = some ((turn ch s).1, ch :: buf) := by
  rw [bufLoop, hstop]
  rfl

/-- A loop ends with the state `t`, having taken all characters unless `t` leaves the loop. -/
def Ends (stop : σ → Bool) (r : Option (σ × List α)) (cs : List α) (t : σ) : Prop :=
  ∃ rest, r = some (t, rest) ∧ rest <:+ cs ∧ (stop t = false → rest = [])

lemma Ends.cons {r : Option (σ × List α)} {cs : List α} {t : σ} (h : Ends stop r cs t) (ch : α) :
    Ends stop r (ch :: cs) t := by
  obtain ⟨rest, hr, hsuffix, hnil⟩ := h
  exact ⟨rest, hr, hsuffix.trans (List.suffix_cons ch cs), hnil⟩

/-- **Two turns for each character are enough for a buffer.** -/
lemma bufLoop_eq (h : TwoTurns stop turn) {k : ℕ} {s : σ} {buf : List α} (hs : stop s = false)
    (hk : 2 * buf.length ≤ k) :
    Ends stop (bufLoop stop turn k buf s) buf (buf.foldl (feed stop turn) s) := by
  induction buf generalizing k s with
  | nil =>
    refine ⟨[], ?_, List.suffix_rfl, fun _ => rfl⟩
    cases k <;> rfl
  | cons ch buf ih =>
    rw [List.length_cons] at hk
    -- The turn that takes the character, from any state and with one turn spent or none.
    have hlast : ∀ k s, 2 * buf.length + 1 ≤ k → (turn ch s).2 = true →
        Ends stop (bufLoop stop turn k (ch :: buf) s) (ch :: buf)
          (buf.foldl (feed stop turn) (turn ch s).1) := by
      intro k s hk htaken
      obtain ⟨k, rfl⟩ : ∃ j, k = j + 1 := ⟨k - 1, by omega⟩
      cases hstop : stop (turn ch s).1 with
      | true =>
        rw [bufLoop_of_stop hstop, foldl_feed_of_stop hstop]
        exact ⟨_, rfl, List.suffix_rfl, fun hfalse => absurd (hstop.symm.trans hfalse) (by decide)⟩
      | false =>
        rw [bufLoop_of_taken htaken hstop]
        exact (ih hstop (by omega)).cons ch
    rw [List.foldl_cons]
    cases htaken : (turn ch s).2 with
    | true =>
      rw [feed_of_taken hs htaken]
      exact hlast k s (by omega) htaken
    | false =>
      have hstop := h.goesOn ch s htaken hs
      obtain ⟨k, rfl⟩ : ∃ j, k = j + 1 := ⟨k - 1, by omega⟩
      rw [bufLoop_of_left htaken hstop, feed_of_left hs htaken]
      exact hlast k _ (by omega) (h.taken ch s htaken)

/-- **The loops are a fold over the file**, wherever its buffers end. -/
theorem fileLoop_eq (h : TwoTurns stop turn) {turns : ℕ} {s : σ} {bufs : List (List α)}
    (hs : stop s = false) (hturns : ∀ buf ∈ bufs, 2 * buf.length ≤ turns) :
    Ends stop (fileLoop stop turn turns bufs s) bufs.flatten
      (bufs.flatten.foldl (feed stop turn) s) := by
  induction bufs generalizing s with
  | nil => exact ⟨[], rfl, List.suffix_rfl, fun _ => rfl⟩
  | cons buf bufs ih =>
    rw [List.forall_mem_cons] at hturns
    obtain ⟨rest, hbuf, hsuffix, hnil⟩ := bufLoop_eq h hs hturns.1
    rw [List.flatten_cons, List.foldl_append]
    generalize buf.foldl (feed stop turn) s = t at *
    cases hstop : stop t with
    | true =>
      rw [foldl_feed_of_stop hstop]
      refine ⟨rest ++ bufs.flatten, ?_, ?_, fun hfalse => ?_⟩
      · simp only [fileLoop, hbuf, hstop, if_true]
      · obtain ⟨taken, rfl⟩ := hsuffix
        exact ⟨taken, (List.append_assoc ..).symm⟩
      · exact absurd (hstop.symm.trans hfalse) (by decide)
    | false =>
      obtain ⟨rest', hfile, hsuffix', hnil'⟩ := ih hstop hturns.2
      refine ⟨rest', ?_, hsuffix'.trans (List.suffix_append ..), hnil'⟩
      simp only [fileLoop, hbuf, hstop, Bool.false_eq_true, if_false, hfile]

/-! ## Writes to arrays -/

/-- A write of a character to one of some arrays. -/
structure Write (A : Type) where
  array : A
  index : ℕ
  byte : UInt8

/-- The arrays after some writes. -/
def perform {A : Type} [DecidableEq A] (ws : List (Write A)) (m : A → ℕ → UInt8) : A → ℕ → UInt8 :=
  ws.foldl
    (fun m w => Function.update m w.array (Function.update (m w.array) w.index w.byte)) m

lemma perform_append {A : Type} [DecidableEq A] (ws ws' : List (Write A)) (m : A → ℕ → UInt8) :
    perform (ws ++ ws') m = perform ws' (perform ws m) := List.foldl_append ..

/-- The writes are inside of arrays of `n` characters. -/
def Within {A : Type} (n : ℕ) (ws : List (Write A)) : Prop := ∀ w ∈ ws, w.index < n

section Within

variable {A : Type} {n : ℕ} {w : Write A} {ws ws' : List (Write A)}

lemma within_nil : Within n ([] : List (Write A)) := fun _ hw => absurd hw List.not_mem_nil

lemma Within.cons (hws : Within n ws) (hw : w.index < n) : Within n (w :: ws) :=
  List.forall_mem_cons.mpr ⟨hw, hws⟩

lemma Within.append (h : Within n ws) (h' : Within n ws') : Within n (ws ++ ws') :=
  List.forall_mem_append.mpr ⟨h, h'⟩

end Within

/-- A turn that also collects what it does. -/
def traced (turn : α → σ → σ × Bool) (acts : α → σ → List ω) (ch : α) (s : σ × List ω) :
    (σ × List ω) × Bool :=
  (((turn ch s.1).1, s.2 ++ acts ch s.1), (turn ch s.1).2)

lemma TwoTurns.traced (h : TwoTurns stop turn) (acts : α → σ → List ω) :
    TwoTurns (fun s => stop s.1) (traced turn acts) :=
  ⟨fun ch s => h.goesOn ch s.1, fun ch s => h.taken ch s.1⟩

lemma fst_feed_traced (acts : α → σ → List ω) (s : σ × List ω) (ch : α) :
    (feed (fun s => stop s.1) (traced turn acts) s ch).1 = feed stop turn s.1 ch := by
  cases hs : stop s.1 with
  | true => simp only [feed, hs, if_true]
  | false =>
    cases htaken : (turn ch s.1).2 with
    | true => simp only [feed, traced, hs, htaken, if_true, Bool.false_eq_true, if_false]
    | false => simp only [feed, traced, hs, htaken, Bool.false_eq_true, if_false]

lemma fst_foldl_traced (stop : σ → Bool) (turn : α → σ → σ × Bool) (acts : α → σ → List ω)
    (s : σ × List ω) (cs : List α) :
    (cs.foldl (feed (fun s => stop s.1) (traced turn acts)) s).1 =
      cs.foldl (feed stop turn) s.1 := by
  induction cs generalizing s with
  | nil => rfl
  | cons ch cs ih => rw [List.foldl_cons, List.foldl_cons, ih, fst_feed_traced]

/-- **What every turn keeps of the state and of what was done so far, the whole run keeps.** -/
lemma foldl_traced (stop : σ → Bool) {acts : α → σ → List ω} (I : σ → List ω → Prop)
    (hturn : ∀ ch s ws, I s ws → I (turn ch s).1 (ws ++ acts ch s)) {s : σ} (h : I s [])
    (cs : List α) :
    I (cs.foldl (feed (fun s => stop s.1) (traced turn acts)) (s, [])).1
      (cs.foldl (feed (fun s => stop s.1) (traced turn acts)) (s, [])).2 :=
  foldl_invariant (I := fun s : σ × List ω => I s.1 s.2) (fun ch s => hturn ch s.1 s.2) h cs

end LinuxC.CharLoop
