import Mathlib.Data.List.Basic

/-!
# Runs of labelled transition systems

A system is a partial step function: in a state, a label either cannot happen, or leads to one
state and shows some events.  Non-determinism is in the choice of the labels, so that a run is
a list of labels and can be evaluated.

`Along` restricts a run to steps that meet a condition on the state before the step and the
label.  `run_safe` is the one induction over runs: what every step preserves, a run preserves.
-/

namespace LinuxC

variable {S L E : Type} (step : S → L → Option (S × List E))

/-- The state after a run, with the events of the run. -/
def run : List L → S → Option (S × List E)
  | [], s => some (s, [])
  | l :: ls, s => (step s l).bind fun r => (run ls r.1).map fun r' => (r'.1, r.2 ++ r'.2)

/-- Every step of the run meets the condition. -/
def Along (ok : S → L → Prop) : List L → S → Prop
  | [], _ => True
  | l :: ls, s => ok s l ∧ ∀ s' es, step s l = some (s', es) → Along ok ls s'

/-- On given labels the condition can be checked. -/
instance decidableAlong (ok : S → L → Prop) [∀ s l, Decidable (ok s l)] :
    ∀ (ls : List L) (s : S), Decidable (Along step ok ls s)
  | [], _ => .isTrue trivial
  | l :: ls, s =>
      match h : step s l with
      | none =>
          decidable_of_iff (ok s l) ⟨fun hl => ⟨hl, by simp [h]⟩, fun hl => hl.1⟩
      | some r =>
          have := decidableAlong ok ls r.1
          decidable_of_iff (ok s l ∧ Along step ok ls r.1)
            ⟨fun hl => ⟨hl.1, fun s' es hs => by
              obtain rfl : r = (s', es) := Option.some.inj (h.symm.trans hs)
              exact hl.2⟩, fun hl => ⟨hl.1, hl.2 r.1 r.2 h⟩⟩

variable {step}

@[simp] lemma run_nil (s : S) : run step [] s = some (s, []) := rfl

lemma run_cons {l : L} {ls : List L} {s s' : S} {es : List E} :
    run step (l :: ls) s = some (s', es) ↔
      ∃ s₁ es₁ es₂, step s l = some (s₁, es₁) ∧ run step ls s₁ = some (s', es₂) ∧
        es = es₁ ++ es₂ := by
  constructor
  · intro h
    obtain ⟨⟨s₁, es₁⟩, hstep, h⟩ := Option.bind_eq_some_iff.mp h
    obtain ⟨⟨s₂, es₂⟩, hrun, h⟩ := Option.map_eq_some_iff.mp h
    obtain ⟨rfl, rfl⟩ := Prod.mk.inj h
    exact ⟨s₁, es₁, es₂, hstep, hrun, rfl⟩
  · rintro ⟨s₁, es₁, es₂, hstep, hrun, rfl⟩
    simp [run, hstep, hrun]

lemma run_append {ls ls' : List L} {s s' : S} {es : List E} :
    run step (ls ++ ls') s = some (s', es) ↔
      ∃ s₁ es₁ es₂, run step ls s = some (s₁, es₁) ∧ run step ls' s₁ = some (s', es₂) ∧
        es = es₁ ++ es₂ := by
  induction ls generalizing s es with
  | nil => simp
  | cons l ls ih =>
      rw [List.cons_append, run_cons]
      constructor
      · rintro ⟨t, e₁, e₂, hstep, hrun, rfl⟩
        obtain ⟨u, e₃, e₄, h₃, h₄, rfl⟩ := ih.mp hrun
        exact ⟨u, e₁ ++ e₃, e₄, run_cons.mpr ⟨t, e₁, e₃, hstep, h₃, rfl⟩, h₄,
          (List.append_assoc ..).symm⟩
      · rintro ⟨u, e₃, e₄, h₃, h₄, rfl⟩
        obtain ⟨t, e₁, e₂, hstep, hrun, rfl⟩ := run_cons.mp h₃
        exact ⟨t, e₁, e₂ ++ e₄, hstep, ih.mpr ⟨u, e₂, e₄, hrun, h₄, rfl⟩,
          List.append_assoc ..⟩

lemma Along.append {ok : S → L → Prop} {ls ls' : List L} {s : S}
    (h : Along step ok (ls ++ ls') s) :
    Along step ok ls s ∧
      ∀ s' es, run step ls s = some (s', es) → Along step ok ls' s' := by
  induction ls generalizing s with
  | nil =>
      refine ⟨trivial, fun s' es hrun => ?_⟩
      obtain ⟨rfl, -⟩ := Prod.mk.inj (Option.some.inj hrun)
      exact h
  | cons l ls ih =>
      refine ⟨⟨h.1, fun t et ht => (ih (h.2 t et ht)).1⟩, fun s' es hrun => ?_⟩
      obtain ⟨t, e₁, e₂, hstep, hrest, rfl⟩ := run_cons.mp hrun
      exact (ih (h.2 t e₁ hstep)).2 s' e₂ hrest

lemma along_append {ok : S → L → Prop} {ls ls' : List L} {s : S} (h : Along step ok ls s)
    (h' : ∀ s' es, run step ls s = some (s', es) → Along step ok ls' s') :
    Along step ok (ls ++ ls') s := by
  induction ls generalizing s with
  | nil => exact h' s [] rfl
  | cons l ls ih =>
      refine ⟨h.1, fun t et ht => ih (h.2 t et ht) fun s' es hrun => ?_⟩
      exact h' s' (et ++ es) (run_cons.mpr ⟨t, et, es, ht, hrun, rfl⟩)

lemma Along.and {ok ok' : S → L → Prop} {ls : List L} {s : S} (h : Along step ok ls s)
    (h' : Along step ok' ls s) : Along step (fun s l => ok s l ∧ ok' s l) ls s := by
  induction ls generalizing s with
  | nil => trivial
  | cons l ls ih =>
      exact ⟨⟨h.1, h'.1⟩, fun s' es hs => ih (h.2 s' es hs) (h'.2 s' es hs)⟩

lemma Along.mono {ok ok' : S → L → Prop} (himp : ∀ s l, ok s l → ok' s l) {ls : List L} {s : S}
    (h : Along step ok ls s) : Along step ok' ls s := by
  induction ls generalizing s with
  | nil => trivial
  | cons l ls ih => exact ⟨himp s l h.1, fun s' es hs => ih (h.2 s' es hs)⟩

lemma along_of_forall {P : L → Prop} {ls : List L} (h : ∀ l ∈ ls, P l) (s : S) :
    Along step (fun _ l => P l) ls s := by
  induction ls generalizing s with
  | nil => trivial
  | cons l ls ih =>
      exact ⟨h l (by simp), fun s' _ _ => ih (fun l' hl' => h l' (by simp [hl'])) s'⟩

/-- **Invariants of runs.**  If every step from a state with the invariant that meets the
condition keeps the invariant and shows only events with the property `P`, so does a run. -/
lemma run_safe {ok : S → L → Prop} {I : S → Prop} {P : E → Prop}
    (hstep : ∀ {s l s' es}, I s → ok s l → step s l = some (s', es) →
      I s' ∧ ∀ e ∈ es, P e)
    {ls : List L} {s s' : S} {es : List E} (hs : I s) (hok : Along step ok ls s)
    (hrun : run step ls s = some (s', es)) : I s' ∧ ∀ e ∈ es, P e := by
  induction ls generalizing s es with
  | nil =>
      obtain ⟨rfl, rfl⟩ := Prod.mk.inj (Option.some.inj hrun)
      exact ⟨hs, by simp⟩
  | cons l ls ih =>
      obtain ⟨s₁, es₁, es₂, h₁, h₂, rfl⟩ := run_cons.mp hrun
      obtain ⟨hs₁, hes₁⟩ := hstep hs hok.1 h₁
      obtain ⟨hs', hes₂⟩ := ih hs₁ (hok.2 s₁ es₁ h₁) h₂
      refine ⟨hs', fun e he => ?_⟩
      rcases List.mem_append.mp he with he | he
      · exact hes₁ e he
      · exact hes₂ e he

lemma run_invariant {ok : S → L → Prop} {I : S → Prop}
    (hstep : ∀ {s l s' es}, I s → ok s l → step s l = some (s', es) → I s')
    {ls : List L} {s s' : S} {es : List E} (hs : I s) (hok : Along step ok ls s)
    (hrun : run step ls s = some (s', es)) : I s' :=
  (run_safe (P := fun _ => True) (fun h1 h2 h3 => ⟨hstep h1 h2 h3, by simp⟩) hs hok hrun).1

/-- **What steps do, runs do**, if it composes: `Q s s' es` says what may happen between two states
with the events `es`. -/
lemma run_composes {ok : S → L → Prop} {I : S → Prop} {Q : S → S → List E → Prop}
    (hrefl : ∀ s, Q s s [])
    (htrans : ∀ {s s₁ s₂ es₁ es₂}, Q s s₁ es₁ → Q s₁ s₂ es₂ → Q s s₂ (es₁ ++ es₂))
    (hstep : ∀ {s l s' es}, I s → ok s l → step s l = some (s', es) → I s' ∧ Q s s' es)
    {ls : List L} {s s' : S} {es : List E} (hs : I s) (hok : Along step ok ls s)
    (hrun : run step ls s = some (s', es)) : I s' ∧ Q s s' es := by
  induction ls generalizing s es with
  | nil =>
      obtain ⟨rfl, rfl⟩ := Prod.mk.inj (Option.some.inj hrun)
      exact ⟨hs, hrefl s⟩
  | cons l ls ih =>
      obtain ⟨s₁, es₁, es₂, h₁, h₂, rfl⟩ := run_cons.mp hrun
      obtain ⟨hs₁, hq₁⟩ := hstep hs hok.1 h₁
      obtain ⟨hs', hq₂⟩ := ih hs₁ (hok.2 s₁ es₁ h₁) h₂
      exact ⟨hs', htrans hq₁ hq₂⟩

/-- A run without events of some kind is a run of steps without such events. -/
lemma along_of_events {Q : E → Prop} {ls : List L} {s s' : S} {es : List E}
    (hrun : run step ls s = some (s', es)) (hes : ∀ e ∈ es, Q e) :
    Along step (fun s l => ∀ s' es, step s l = some (s', es) → ∀ e ∈ es, Q e) ls s := by
  induction ls generalizing s es with
  | nil => trivial
  | cons l ls ih =>
      obtain ⟨s₁, es₁, es₂, h₁, h₂, rfl⟩ := run_cons.mp hrun
      refine ⟨fun t et ht e he => ?_, fun t et ht => ?_⟩
      · rw [h₁] at ht
        obtain ⟨rfl, rfl⟩ := Prod.mk.inj (Option.some.inj ht)
        exact hes e (List.mem_append_left _ he)
      · rw [h₁] at ht
        obtain ⟨rfl, rfl⟩ := Prod.mk.inj (Option.some.inj ht)
        exact ih h₂ fun e he => hes e (List.mem_append_right _ he)

end LinuxC
