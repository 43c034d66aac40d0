import LinuxC.Framework.Transition
import Mathlib.Data.Int.Notation
import Mathlib.Logic.Function.Basic

/-!
# Maps with defaults

A map has a fixed set of keys, each with a default, which may be missing.  It stores a value for
some of its keys; a key without a stored value has its default.  `lastStored` says what is stored
after a run: the value of the last operation that wrote to the key.
-/

namespace LinuxC.DefaultMap

variable {K V : Type}

/-- The operations. -/
inductive Op (K V : Type)
  | set (key : K) (value : V)
  | reset (key : K)
  | get (key : K)
  deriving DecidableEq

/-- The key of an operation. -/
def Op.key : Op K V → K
  | .set key _ => key
  | .reset key => key
  | .get key => key

/-- What an operation returns: a code, or the value for the key. -/
inductive Result (V : Type)
  | code (r : ℤ)
  | value (v : Option V)
  deriving DecidableEq

section Map

variable [DecidableEq K] [DecidableEq V]

/-- One operation on a map that stores `s`.  The defaults of the keys are `dflt`; a reset to a
default that is missing is undefined. -/
def step (dflt : K → Option (Option V)) (s : K → Option V) :
    Op K V → Option ((K → Option V) × List (Result V))
  | .set key value =>
      match dflt key with
      | none => some (s, [.code (-1)])
      | some _ =>
          if s key = some value then some (s, [.code 0])
          else some (Function.update s key (some value), [.code 1])
  | .reset key =>
      match dflt key with
      | none => some (s, [.code (-1)])
      | some none => none
      | some (some d) =>
          if s key = none ∨ s key = some d then
            some (Function.update s key (some d), [.code 0])
          else some (Function.update s key (some d), [.code 1])
  | .get key => some (s, [.value ((dflt key).bind fun d => (s key).or d)])

/-- What is stored for the key of an operation behind it, if the key has the default `d`. -/
def Op.stores (d : Option V) (op : Op K V) (v : Option V) : Option V :=
  match op with
  | .set _ w => some w
  | .reset _ => d
  | .get _ => v

/-- What is stored for a key with the default `d` after some operations, if it was `v` before. -/
def lastStored (key : K) (d v : Option V) (ops : List (Op K V)) : Option V :=
  ops.foldl (fun v op => if op.key = key then op.stores d v else v) v

variable {dflt : K → Option (Option V)} {s s' : K → Option V} {op : Op K V}
  {es : List (Result V)} {key : K}

/-- **What an operation does to the map**: it writes to its key, if that is one of the map. -/
lemma step_state (h : step dflt s op = some (s', es)) :
    s' = ((dflt op.key).elim s fun d => Function.update s op.key (op.stores d (s op.key))) := by
  cases op with
  | set k v =>
    change s' = (dflt k).elim s fun d => Function.update s k (some v)
    cases hd : dflt k with
    | none =>
      simp only [step, hd] at h
      exact (Prod.mk.inj (Option.some.inj h)).1.symm
    | some d =>
      simp only [step, hd] at h
      split_ifs at h with hsame
      · rw [Option.elim_some, ← hsame, Function.update_eq_self]
        exact (Prod.mk.inj (Option.some.inj h)).1.symm
      · exact (Prod.mk.inj (Option.some.inj h)).1.symm
  | reset k =>
    change s' = (dflt k).elim s fun d => Function.update s k d
    cases hd : dflt k with
    | none =>
      simp only [step, hd] at h
      exact (Prod.mk.inj (Option.some.inj h)).1.symm
    | some d =>
      cases d with
      | none =>
        simp only [step, hd] at h
        cases h
      | some d =>
        simp only [step, hd] at h
        split_ifs at h
        · exact (Prod.mk.inj (Option.some.inj h)).1.symm
        · exact (Prod.mk.inj (Option.some.inj h)).1.symm
  | get k =>
    change s' = (dflt k).elim s fun d => Function.update s k (s k)
    rw [← (Prod.mk.inj (Option.some.inj h)).1]
    cases dflt k with
    | none => rfl
    | some d => exact (Function.update_eq_self k s).symm

lemma step_of_ne (h : step dflt s op = some (s', es)) (hne : key ≠ op.key) : s' key = s key := by
  rw [step_state h]
  cases dflt op.key with
  | none => rfl
  | some d => exact Function.update_of_ne hne _ s

/-- What an operation returns depends on what is stored for its key only. -/
lemma step_congr {t : K → Option V} (op : Op K V) (h : s op.key = t op.key) :
    (step dflt s op).map Prod.snd = (step dflt t op).map Prod.snd := by
  cases op with
  | set k v =>
    change s k = t k at h
    cases hd : dflt k with
    | none => simp only [step, hd, Option.map_some]
    | some d =>
      simp only [step, hd, h]
      split_ifs <;> rfl
  | reset k =>
    change s k = t k at h
    cases hd : dflt k with
    | none => simp only [step, hd, Option.map_some]
    | some d =>
      cases d with
      | none => simp only [step, hd, Option.map_none]
      | some d =>
        simp only [step, hd, h]
        split_ifs <;> rfl
  | get k =>
    change s k = t k at h
    simp only [step, h, Option.map_some]

/-- **An operation does not change what another key's operation returns.** -/
lemma step_other (h : step dflt s op = some (s', es)) {op' : Op K V} (hne : op'.key ≠ op.key) :
    (step dflt s' op').map Prod.snd = (step dflt s op').map Prod.snd :=
  step_congr op' (step_of_ne h hne)

lemma step_stored {d : Option V} (hd : dflt key = some d) (h : step dflt s op = some (s', es)) :
    s' key = lastStored key d (s key) [op] := by
  change s' key = if op.key = key then op.stores d (s key) else s key
  split_ifs with hkey
  · rw [step_state h, hkey, hd, Option.elim_some, Function.update_self]
  · exact step_of_ne h (Ne.symm hkey)

/-- **After a run a key has what was stored for it last.** -/
theorem run_stored {d : Option V} (hd : dflt key = some d) {ops : List (Op K V)}
    (h : run (step dflt) ops s = some (s', es)) : s' key = lastStored key d (s key) ops := by
  induction ops generalizing s es with
  | nil =>
    obtain ⟨rfl, -⟩ := Prod.mk.inj (Option.some.inj h)
    rfl
  | cons op ops ih =>
    obtain ⟨s₁, es₁, es₂, hstep, hrun, -⟩ := run_cons.mp h
    rw [ih hrun, step_stored hd hstep]
    rfl

end Map

end LinuxC.DefaultMap
