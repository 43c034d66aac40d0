import Mathlib.Data.List.Nodup

/-!
# An event bus

Members join with the topics they want to hear of, and leave.  A message that is pushed with a topic
goes to the members with this topic: to all of them, in the order in which they joined, or, if a
destination is named, to the first one that answers to it.

This is what a program that delivers events is for, without the way it does so.
-/

namespace LinuxC

/-- A member. -/
structure Member (I N : Type) where
  id : I
  topics : List N

/-- What happens on a bus; a destination is a property of members. -/
inductive BusOp (I N M : Type)
  | join (m : Member I N)
  | leave (i : I)
  | push (dest : Option (I → Bool)) (topic : N) (msg : M)

/-- The members in the order in which they joined, and what each of them has got. -/
structure Bus (I N M : Type) where
  members : List (Member I N)
  log : I → List (N × M)

namespace Bus

variable {I N M : Type} [DecidableEq I] [BEq N] [LawfulBEq N]

/-- The members that a message is for. -/
def addressees (dest : Option (I → Bool)) (topic : N) (members : List (Member I N)) : List I :=
  let wanting := (members.filter fun m => topic ∈ m.topics).map Member.id
  match dest with
  | none => wanting
  | some good => (wanting.find? good).toList

/-- One operation. -/
def apply (b : Bus I N M) : BusOp I N M → Bus I N M
  | .join m => { b with members := b.members ++ [m] }
  | .leave i => { b with members := b.members.filter fun m => m.id ≠ i }
  | .push dest topic msg =>
      { b with
        log := fun i =>
          b.log i ++ if i ∈ addressees dest topic b.members then [(topic, msg)] else [] }

/-- The bus after some operations. -/
def after (ops : List (BusOp I N M)) : Bus I N M := ops.foldl apply ⟨[], fun _ => []⟩

omit [DecidableEq I] in
lemma exists_of_mem_addressees {dest : Option (I → Bool)} {topic : N} {members : List (Member I N)}
    {i : I} (h : i ∈ addressees dest topic members) :
    ∃ m ∈ members, m.id = i ∧ topic ∈ m.topics := by
  have hwanting : i ∈ (members.filter fun m => topic ∈ m.topics).map Member.id := by
    cases dest with
    | none => exact h
    | some good => exact List.mem_of_find?_eq_some (Option.mem_toList.mp h)
  obtain ⟨m, hm, hid⟩ := List.mem_map.mp hwanting
  obtain ⟨hmem, htopic⟩ := List.mem_filter.mp hm
  exact ⟨m, hmem, hid, of_decide_eq_true htopic⟩

omit [DecidableEq I] in
lemma nodup_addressees {dest : Option (I → Bool)} {topic : N} {members : List (Member I N)}
    (h : (members.map Member.id).Nodup) : (addressees dest topic members).Nodup := by
  cases dest with
  | none => exact h.sublist (List.filter_sublist.map _)
  | some good =>
      rw [addressees]
      cases List.find? good _ <;> simp

end Bus

end LinuxC
