import LinuxC.Bst.Visit
import LinuxC.Uapi.Events

/-!
# The allocations of a registration (`uapi/broker.c`)

`uapi_broker_subscriber_register` allocates a subscriber, its array of nodes, a copy of the names,
and an event for every name that is new.  When one of these fails it calls
`uapi_broker_subscriber_unregister` on the subscriber, of which not all fields are written yet; here
such a field is `none`, and reading it ends the clean-up without a result.

`broker_registration_atomic_iff` says when a registration is made as a whole or not at all.  Besides
the fields that are not written there is the table: every tenth new event it is balanced and printed,
and the printing returns only if the table is not too large for the stack of its iterator.
-/

namespace LinuxC.Uapi

open Bst

variable {P : Type}

/-! ## The registration -/

/-- Which of the allocations succeed. -/
structure Memory where
  /-- `malloc(sizeof(struct uapi_subscriber))` -/
  subscriber : Bool
  /-- `calloc(r->count, sizeof(struct uapi_subscriber_node))`, if the product does not overflow -/
  nodes : Bool
  /-- `strdup(r->events)` -/
  events : Bool
  /-- `malloc(sizeof(*event_entry))`, for the event `i` -/
  entry : ℕ → Bool
  /-- `strdup(event)`, for the event `i` -/
  name : ℕ → Bool

/-- There is no memory for the event `i`. -/
def Memory.oom (m : Memory) (i : ℕ) : Bool := !(m.entry i && m.name i)

/-- The fields of a new subscriber that the clean-up reads, `none` where nothing was written: whether
the two pointers are not null, and the number of the nodes. -/
structure Fields where
  nodes : Option Bool
  events : Option Bool
  count : Option ℕ

/-- `uapi_broker_subscriber_unregister` on a new subscriber; `event i` is `nodes[i].event`. -/
def Fields.unregister (s : ℕ) (sevr : P) (event : ℕ → Option UapiEvent) (v : Fields)
    (b : UapiBroker P) : Option (UapiBroker P) := do
  let links ←
    if ← v.nodes then do
      let count ← v.count
      pure (unlinkNodes s ⟨sevr, count, event⟩ count 0 b.links)
    else pure b.links
  let _ ← v.events
  pure { b with links := links, subscriber := Function.update b.subscriber s none }

/-- `uapi_broker_subscriber_register` with its allocations: true with the broker if it returns zero,
false if it returns `-1`, and nothing if the clean-up reads a field that was not written.  For a
negative count the product in `calloc` overflows. -/
def subscriberRegister (m : Memory) (fuel : ℕ) (sevr : P) (r : UapiRegister) (b : UapiBroker P) :
    Except Fault (Option (Bool × UapiBroker P)) :=
  let s := b.allocated
  let err (v : Fields) (event : ℕ → Option UapiEvent) (b : UapiBroker P) :=
    (v.unregister s sevr event b).map fun b => (false, b)
  if m.subscriber = false then .ok (some (false, b))
  else if (m.nodes && decide (0 ≤ r.count)) = false then
    .ok (err ⟨some false, none, none⟩ (fun _ => none) b)
  else if m.events = false then .ok (err ⟨some true, some false, none⟩ (fun _ => none) b)
  else do
    let res ← registerEvents m.oom fuel s 0 r.names (b.newSubscriber sevr r.count.toNat)
    if res.1 then .ok (some res)
    else
      .ok (err ⟨some true, some true, some r.count.toNat⟩
        (fun i => (res.2.subscriber s).bind fun u => u.event i) res.2)

inductive Call (P : Type)
  | register (m : Memory) (fuel : ℕ) (sevr : P) (r : UapiRegister)
  | unregister (s : ℕ)

/-- One call, and whether a registration was accepted.  There is no step when a loop does not end,
or when a subscriber goes that is not there. -/
def callStep (b : UapiBroker P) : Call P → Option (UapiBroker P × List Bool)
  | .register m fuel sevr r =>
      match subscriberRegister m fuel sevr r b with
      | .ok (some (done, b)) => some (b, [done])
      | _ => none
  | .unregister s =>
      (b.subscriber s).map fun u => (uapiBrokerSubscriberUnregister s u b, [])

/-! ## The property -/

/-- **The broker holds the events `E`**, and `L` gives the list of every event. -/
structure Filed (b : UapiBroker P) (E : List UapiEvent) (L : UapiEvent → List EventLink) :
    Prop where
  tree : ∃ T, IsTree uapiEventCompareFunc b.etable T ∧ T.nodes = E
  lists : b.links.FamilyOn {e | e ∈ E} .head L
  other : ∀ e, e ∉ E → L e = []
  addr : ∀ e ∈ E, e.addr < b.allocated
  node : ∀ e a, a ∈ L e ↔ ∃ s u i, a = .node s i ∧ b.subscriber s = some u ∧ u.event i = some e
  filled : ∀ s u, b.subscriber s = some u → s < b.allocated ∧
    ∃ m ≤ u.count, ∀ i, (u.event i).isSome = true ↔ i < m
  maxHeight : b.etable.maxHeight = uapiBrokerBstHeight
  imbalance : b.etableImbalance < uapiBrokerBstHeight

/-- The nodes that a registration adds to the list of an event, from the index `i` on. -/
def added (s : ℕ) : ℕ → List (List UInt8) → UapiEvent → List EventLink
  | _, [], _ => []
  | i, name :: names, e => (if name = e.name then [.node s i] else []) ++ added s (i + 1) names e

/-- **All or nothing**: either there is one node more for every name, in the list of the event with
this name, or all lists are as before. -/
def Atomic (E : List UapiEvent) (L : UapiEvent → List EventLink) (s : ℕ)
    (names : List (List UInt8)) : Option (Bool × UapiBroker P) → Prop
  | none => False
  | some (true, b) => ∃ E' L', E ⊆ E' ∧ Filed b E' L' ∧
      (∀ e ∈ E', L' e = L e ++ added s 0 names e) ∧ ∀ name ∈ names, ∃ e ∈ E', e.name = name
  | some (false, b) => ∃ E', E ⊆ E' ∧ Filed b E' L

/-- **The table is small enough** whenever it is printed: when a new event brings the imbalance to
the height, there are less than `2 ^ 11` events.  `known` has the names of the events. -/
def Printable (oom : ℕ → Bool) : ℕ → List (List UInt8) → List (List UInt8) → ℕ → Prop
  | _, [], _, _ => True
  | i, name :: names, known, imbalance =>
      if known.contains name then Printable oom (i + 1) names known imbalance
      else if oom i then True
      else if uapiBrokerBstHeight ≤ imbalance + 1 then
        known.length + 1 < 2 ^ (uapiBrokerBstHeight + 1) ∧
          Printable oom (i + 1) names (name :: known) 0
      else Printable oom (i + 1) names (name :: known) (imbalance + 1)

/-- The first three allocations succeed, and the table can be printed. -/
def Provided (m : Memory) (r : UapiRegister) (E : List UapiEvent) (imbalance : ℕ) : Prop :=
  (m.nodes = true ∧ 0 ≤ r.count) ∧ m.events = true ∧
    Printable m.oom 0 r.names (E.map UapiEvent.name) imbalance

/-! ## Printing the table -/

section Print

variable {t : BstTable UapiEvent} {T : Tree UapiEvent} {it : BstIterator UapiEvent} {x : UapiEvent}
  {rest : List UapiEvent} {fuel : ℕ}

/-- **If the printing returns**, the last event was reached. -/
lemma printfLoop_placed (pre : List UapiEvent) {r : BstIterator UapiEvent × BstTable UapiEvent}
    (h : IsTree uapiEventCompareFunc t T) (hlow : Lowest T) (hx : Placed x t T it)
    (hnodes : T.nodes = pre ++ x :: rest) (heq : printfLoop fuel (some x) it t = .ok r) :
    (∃ T', IsTree uapiEventCompareFunc r.2 T' ∧ T'.nodes = T.nodes) ∧
      r.2.maxHeight = t.maxHeight ∧ T.nodes.length < 2 ^ (t.maxHeight + 1) := by
  induction rest generalizing fuel t T it x pre with
  | nil =>
      have hfits := hx.lowest h hlow hnodes
      cases fuel with
      | zero => cases heq
      | succ fuel =>
          obtain ⟨r₁, hnext, heq⟩ := ok_of_bind heq
          obtain ⟨T₁, hT₁, hnodes₁, -, hmax, hadj, -⟩ := h.step_placed hlow ⟨hx.node, .inl hx⟩ hnext
          rw [hadj.next h.holds.nodup hnodes] at heq
          cases fuel with
          | zero => cases heq
          | succ fuel =>
              obtain rfl := Except.ok.inj heq
              exact ⟨⟨T₁, hT₁, hnodes₁⟩, hmax, hfits⟩
  | cons y rest ih =>
      cases fuel with
      | zero => cases heq
      | succ fuel =>
          obtain ⟨r₁, hnext, heq⟩ := ok_of_bind heq
          obtain ⟨T₁, hT₁, hnodes₁, hlow₁, hmax, hadj, hplaced⟩ :=
            h.step_placed hlow ⟨hx.node, .inl hx⟩ hnext
          have hy : r₁.1 = some y := hadj.next h.holds.nodup hnodes
          rw [hy] at heq
          have hsplit : T₁.nodes = (pre ++ [x]) ++ y :: rest := by
            rw [hnodes₁, hnodes, List.append_assoc, List.singleton_append]
          obtain ⟨⟨T', hT', hnodes'⟩, hmax', hfits⟩ := ih _ hT₁ hlow₁ (hplaced y hy) hsplit heq
          refine ⟨⟨T', hT', hnodes'.trans hnodes₁⟩, hmax'.trans hmax, ?_⟩
          rwa [hnodes₁, hmax] at hfits

/-- **In a small table** the printing returns. -/
lemma printfLoop_returns (pre : List UapiEvent) (h : IsTree uapiEventCompareFunc t T)
    (hlow : Lowest T) (hfits : T.nodes.length < 2 ^ (t.maxHeight + 1)) (hx : Placed x t T it)
    (hnodes : T.nodes = pre ++ x :: rest) (hfuel : t.count + rest.length + 3 ≤ fuel) :
    ∃ r, printfLoop fuel (some x) it t = .ok r := by
  induction rest generalizing fuel t T it x pre with
  | nil =>
      obtain ⟨fuel, rfl⟩ : ∃ k, fuel = k + 1 + 1 := ⟨fuel - 2, by omega⟩
      obtain ⟨r₁, hnext⟩ : ∃ r, bstIteratorNext uapiEventCompareFunc (fuel + 1) it t = .ok r :=
        h.step_returns comparator_event hlow hfits hx (by simp at hfuel; omega)
      obtain ⟨T₁, -, -, -, -, hadj, -⟩ := h.step_placed hlow ⟨hx.node, .inl hx⟩ hnext
      refine ⟨r₁.2, ?_⟩
      rw [printfLoop, hnext]
      change printfLoop (fuel + 1) r₁.1 r₁.2.1 r₁.2.2 = _
      rw [hadj.next h.holds.nodup hnodes]
      rfl
  | cons y rest ih =>
      rw [List.length_cons] at hfuel
      obtain ⟨fuel, rfl⟩ : ∃ k, fuel = k + 1 + 1 := ⟨fuel - 2, by omega⟩
      obtain ⟨r₁, hnext⟩ : ∃ r, bstIteratorNext uapiEventCompareFunc (fuel + 1) it t = .ok r :=
        h.step_returns comparator_event hlow hfits hx (by omega)
      obtain ⟨T₁, hT₁, hnodes₁, hlow₁, hmax, hadj, hplaced⟩ :=
        h.step_placed hlow ⟨hx.node, .inl hx⟩ hnext
      have hy : r₁.1 = some y := hadj.next h.holds.nodup hnodes
      have hsplit : T₁.nodes = (pre ++ [x]) ++ y :: rest := by
        rw [hnodes₁, hnodes, List.append_assoc, List.singleton_append]
      have hcount : r₁.2.2.count = t.count := by rw [hT₁.count, h.count, hnodes₁]
      obtain ⟨r, hr⟩ : ∃ r, printfLoop (fuel + 1) (some y) r₁.2.1 r₁.2.2 = .ok r :=
        ih _ hT₁ hlow₁ (by rwa [hnodes₁, hmax]) (hplaced y hy) hsplit (by omega)
      refine ⟨r, ?_⟩
      rw [printfLoop, hnext]
      change printfLoop (fuel + 1) r₁.1 r₁.2.1 r₁.2.2 = _
      rwa [hy]

variable {b b' : UapiBroker P}

/-- What `uapi_broker_table_balance` leaves alone, if it returns. -/
structure TableKept (T : Tree UapiEvent) (b b' : UapiBroker P) : Prop where
  tree : ∃ T', IsTree uapiEventCompareFunc b'.etable T' ∧ T'.nodes = T.nodes
  maxHeight : b'.etable.maxHeight = b.etable.maxHeight
  links : b'.links = b.links
  subscriber : b'.subscriber = b.subscriber
  allocated : b'.allocated = b.allocated

/-- **Balancing and printing**, if it returns. -/
lemma tableBalance_of_eq (heq : uapiBrokerTableBalance fuel b = .ok b')
    (h : IsTree uapiEventCompareFunc b.etable T)
    (hfull : b.etable.maxHeight ≤ b.etableImbalance) :
    TableKept T b b' ∧ b'.etableImbalance = 0 ∧
      T.nodes.length < 2 ^ (b.etable.maxHeight + 1) := by
  rw [uapiBrokerTableBalance, if_pos hfull] at heq
  obtain ⟨t₁, hbalance, heq⟩ := ok_of_bind heq
  obtain ⟨r₁, hfirst, heq⟩ := ok_of_bind heq
  obtain ⟨r₂, hloop, heq⟩ := ok_of_bind heq
  obtain rfl := Except.ok.inj heq
  obtain ⟨T₁, hT₁, hnodes₁, hlow₁, hmax₁, -⟩ := h.balance_filled_of_eq hbalance
  rw [h.count, ← hnodes₁] at hlow₁
  obtain ⟨T₂, hT₂, hnodes₂, hlow₂, hmax₂, hend, hplaced⟩ := hT₁.end_placed hlow₁ hfirst
  obtain ⟨⟨T₃, hT₃, hnodes₃⟩, hmax₃, hfits⟩ :
      (∃ T₃, IsTree uapiEventCompareFunc r₂.2 T₃ ∧ T₃.nodes = T₂.nodes) ∧
        r₂.2.maxHeight = r₁.2.2.maxHeight ∧
        T₂.nodes.length < 2 ^ (r₁.2.2.maxHeight + 1) := by
    rw [← hnodes₂] at hend
    cases hT : T₂.nodes with
    | nil =>
        rw [hT] at hend
        have hnone : r₁.1 = none := hend
        rw [hnone] at hloop
        cases fuel with
        | zero => cases hloop
        | succ fuel =>
            obtain rfl := Except.ok.inj hloop
            exact ⟨⟨T₂, hT₂, hT⟩, rfl, Nat.two_pow_pos _⟩
    | cons x rest =>
        rw [hT] at hend
        have hx : r₁.1 = some x := hend
        rw [hx] at hloop
        rw [← hT]
        exact printfLoop_placed [] hT₂ hlow₂ (hplaced x hx) hT hloop
  have hnodes : T₃.nodes = T.nodes := hnodes₃.trans (hnodes₂.trans hnodes₁)
  refine ⟨⟨⟨T₃, hT₃, hnodes⟩, hmax₃.trans (hmax₂.trans hmax₁), rfl, rfl, rfl⟩, rfl, ?_⟩
  rwa [hnodes₂, hnodes₁, hmax₂, hmax₁] at hfits

/-- **In a small table** balancing and printing return. -/
lemma print_returns (h : IsTree uapiEventCompareFunc t T)
    (hfits : T.nodes.length < 2 ^ (t.maxHeight + 1)) (hfuel : 2 * T.nodes.length + 4 ≤ fuel)
    (it : BstIterator UapiEvent) : ∃ t₁ r₁ r₂, bstBalance fuel t = .ok t₁ ∧
      bstIteratorFirst fuel it t₁ = .ok r₁ ∧ printfLoop fuel r₁.1 r₁.2.1 r₁.2.2 = .ok r₂ := by
  have hcount := h.count
  obtain ⟨t₁, T₁, hbalance, hT₁, hnodes₁, hlow₁, -, hmax₁, hcount₁⟩ :=
    h.balance_filled (by omega : 2 * t.count < fuel)
  rw [h.count, ← hnodes₁] at hlow₁
  obtain ⟨k, rfl⟩ : ∃ k, fuel = k + 1 := ⟨fuel - 1, by omega⟩
  rw [← hnodes₁, ← hmax₁] at hfits
  obtain ⟨r₁, hfirst⟩ := hT₁.end_returns hlow₁ hfits .left it (by omega : t₁.count < k)
  obtain ⟨T₂, hT₂, hnodes₂, hlow₂, hmax₂, hend, hplaced⟩ := hT₁.end_placed hlow₁ hfirst
  have hcount₂ := hT₂.count
  rw [← hnodes₂] at hend
  cases hT : T₂.nodes with
  | nil =>
      rw [hT] at hend
      have hnone : r₁.1 = none := hend
      refine ⟨t₁, r₁, (r₁.2.1, r₁.2.2), hbalance, hfirst, ?_⟩
      rw [hnone]
      rfl
  | cons x rest =>
      rw [hT] at hend
      have hx : r₁.1 = some x := hend
      have hlength : T₂.nodes.length = rest.length + 1 := by rw [hT, List.length_cons]
      rw [← hnodes₂, ← hmax₂] at hfits
      rw [hnodes₂, hnodes₁] at hcount₂ hlength
      obtain ⟨r₂, hloop⟩ : ∃ r₂, printfLoop (k + 1) (some x) r₁.2.1 r₁.2.2 = .ok r₂ :=
        printfLoop_returns [] hT₂ hlow₂ hfits (hplaced x hx) hT (by omega)
      rw [← hx] at hloop
      exact ⟨t₁, r₁, r₂, hbalance, hfirst, hloop⟩

lemma tableBalance_returns (h : IsTree uapiEventCompareFunc b.etable T)
    (hfits : b.etable.maxHeight ≤ b.etableImbalance →
      T.nodes.length < 2 ^ (b.etable.maxHeight + 1))
    (hfuel : 2 * T.nodes.length + 4 ≤ fuel) :
    ∃ b', uapiBrokerTableBalance fuel b = .ok b' := by
  rw [uapiBrokerTableBalance]
  split_ifs with hfull
  · obtain ⟨t₁, r₁, r₂, hbalance, hfirst, hloop⟩ :=
      print_returns h (hfits hfull) hfuel b.iterator
    refine ⟨{ b with etableImbalance := 0, iterator := r₂.1, etable := r₂.2 }, ?_⟩
    rw [hbalance]
    change (bstIteratorFirst fuel b.iterator t₁ >>= _) = _
    rw [hfirst]
    change (printfLoop fuel r₁.1 r₁.2.1 r₁.2.2 >>= _) = _
    rw [hloop]
    rfl
  · exact ⟨b, rfl⟩

end Print

/-! ## The steps -/

section Steps

variable {b b' : UapiBroker P} {E : List UapiEvent} {L : UapiEvent → List EventLink} {s i : ℕ}
  {u : UapiSubscriber P} {e : UapiEvent} {name : List UInt8} {fuel : ℕ}

lemma filed_init (link : UapiEvent → Dir → Option UapiEvent) (stack : ℕ → Option UapiEvent)
    (links : Links EventLink) :
    Filed (uapiBrokerInit link stack links : UapiBroker P) [] fun _ => [] where
  tree := ⟨.nil, ⟨⟨rfl, trivial, by simp⟩, by simp [Sorted], rfl⟩, rfl⟩
  lists := ⟨fun j => absurd j.2 (by simp), fun j => absurd j.2 (by simp)⟩
  other := fun _ _ => rfl
  addr := by simp
  node := by simp [uapiBrokerInit]
  filled := by simp [uapiBrokerInit]
  maxHeight := rfl
  imbalance := Nat.succ_pos _

lemma Filed.newSubscriber (h : Filed b E L) (p : P) (count : ℕ) :
    Filed (b.newSubscriber p count) E L where
  tree := h.tree
  lists := h.lists
  other := h.other
  addr := fun e he => Nat.lt_succ_of_lt (h.addr e he)
  node := by
    intro e a
    rw [h.node e a]
    constructor
    · rintro ⟨s, u, i, ha, hu, hevent⟩
      have hne : s ≠ b.allocated := (h.filled s u hu).1.ne
      exact ⟨s, u, i, ha, (Function.update_of_ne hne ..).trans hu, hevent⟩
    · rintro ⟨s, u, i, ha, hu, hevent⟩
      change Function.update b.subscriber b.allocated _ s = some u at hu
      rw [Function.update_apply] at hu
      split_ifs at hu
      · obtain rfl := Option.some.inj hu
        cases hevent
      · exact ⟨s, u, i, ha, hu, hevent⟩
  filled := by
    intro s u hu
    change Function.update b.subscriber b.allocated _ s = some u at hu
    rw [Function.update_apply] at hu
    split_ifs at hu with hs
    · obtain rfl := Option.some.inj hu
      exact ⟨hs ▸ Nat.lt_succ_self _, 0, Nat.zero_le _, by simp⟩
    · obtain ⟨hlt, hrest⟩ := h.filled s u hu
      exact ⟨Nat.lt_succ_of_lt hlt, hrest⟩
  maxHeight := h.maxHeight
  imbalance := h.imbalance

lemma filled_update {event : ℕ → Option UapiEvent} (hi : ∀ j, (event j).isSome = true ↔ j < i)
    (e : UapiEvent) (j : ℕ) :
    (Function.update event i (some e) j).isSome = true ↔ j < i + 1 := by
  rw [Function.update_apply]
  split_ifs with hj
  · simp [hj]
  · rw [hi j]
    omega

lemma mem_update_append {A B : Type} [DecidableEq A] {L : A → List B} {x : A} {y : B} {x' : A}
    {a : B} : a ∈ Function.update L x (L x ++ [y]) x' ↔ a ∈ L x' ∨ a = y ∧ x' = x := by
  rw [Function.update_apply]
  split_ifs with hx
  · subst hx
    simp
  · simp [hx]

/-- The nodes with an event after one more is set in `u`, in a place that was free. -/
lemma exists_node_update {subscriber : ℕ → Option (UapiSubscriber P)} {s i : ℕ} {e e' : UapiEvent}
    {u : UapiSubscriber P} {a : EventLink} (hu : subscriber s = some u) (hnone : u.event i = none) :
    (∃ s' u' i', a = .node s' i' ∧ Function.update subscriber s
        (some { u with event := Function.update u.event i (some e) }) s' = some u' ∧
          u'.event i' = some e') ↔
      (∃ s' u' i', a = .node s' i' ∧ subscriber s' = some u' ∧ u'.event i' = some e') ∨
        a = .node s i ∧ e' = e := by
  constructor
  · rintro ⟨s', u', i', ha, hu', hevent⟩
    rw [Function.update_apply] at hu'
    split_ifs at hu' with hs
    · subst hs
      obtain rfl := Option.some.inj hu'
      change Function.update u.event i (some e) i' = some e' at hevent
      rw [Function.update_apply] at hevent
      split_ifs at hevent with hii
      · subst hii
        exact .inr ⟨ha, (Option.some.inj hevent).symm⟩
      · exact .inl ⟨s', u, i', ha, hu, hevent⟩
    · exact .inl ⟨s', u', i', ha, hu', hevent⟩
  · rintro (⟨s', u', i', ha, hu', hevent⟩ | ⟨rfl, rfl⟩)
    · by_cases hs : s' = s
      · subst hs
        obtain rfl := Option.some.inj (hu.symm.trans hu')
        have hne : i' ≠ i := by
          rintro rfl
          rw [hnone] at hevent
          cases hevent
        exact ⟨s', _, i', ha, Function.update_self .., (Function.update_of_ne hne ..).trans hevent⟩
      · exact ⟨s', u', i', ha, (Function.update_of_ne hs ..).trans hu', hevent⟩
    · exact ⟨s, _, i, rfl, Function.update_self .., Function.update_self ..⟩

/-- **One more node**: it is in no list yet, and goes to the end of the one of `e`. -/
lemma Filed.add (h : Filed b E L) (he : e ∈ E) (hu : b.subscriber s = some u)
    (hi : ∀ j, (u.event j).isSome = true ↔ j < i) (hroom : i < u.count)
    (htree : ∃ T, IsTree uapiEventCompareFunc b'.etable T ∧ T.nodes = E)
    (hlinks : b'.links = (b.link s i e).links) (hsub : b'.subscriber = (b.setNode s i e).subscriber)
    (halloc : b'.allocated = b.allocated) (hmax : b'.etable.maxHeight = uapiBrokerBstHeight)
    (himbalance : b'.etableImbalance < uapiBrokerBstHeight) :
    Filed b' E (Function.update L e (L e ++ [.node s i])) := by
  have hset : b'.subscriber =
      Function.update b.subscriber s
        (some { u with event := Function.update u.event i (some e) }) := by
    rw [hsub, UapiBroker.setNode, hu]
    rfl
  have hnone : u.event i = none := by
    have hnot := (hi i).not.mpr (lt_irrefl i)
    simpa using hnot
  have hfresh : ∀ e', .node s i ∉ L e' := by
    intro e' hmem
    obtain ⟨s', u', i', ha, hu', hevent⟩ := (h.node e' _).mp hmem
    obtain ⟨rfl, rfl⟩ := EventLink.node.inj ha
    obtain rfl := Option.some.inj (hu.symm.trans hu')
    rw [hnone] at hevent
    cases hevent
  refine ⟨htree, ?_, ?_, ?_, ?_, ?_, hmax, himbalance⟩
  · rw [hlinks]
    apply familyOn_listAddTail h.lists he
    intro e' _ hmem
    rcases List.mem_cons.mp hmem with hhead | hmem
    · cases hhead
    · exact hfresh e' hmem
  · intro e' he'
    have hne : e' ≠ e := fun heq => he' (heq ▸ he)
    rw [Function.update_of_ne hne]
    exact h.other e' he'
  · rw [halloc]
    exact h.addr
  · intro e' a
    rw [mem_update_append, hset, exists_node_update hu hnone]
    exact or_congr_left (h.node e' a)
  · intro s' u' hu'
    rw [hset, Function.update_apply] at hu'
    rw [halloc]
    split_ifs at hu' with hs
    · subst hs
      obtain rfl := Option.some.inj hu'
      exact ⟨(h.filled s' u hu).1, i + 1, hroom, filled_update hi e⟩
    · exact h.filled s' u' hu'

/-- **A new event**, with an empty list. -/
lemma Filed.newEvent (h : Filed b E L) (hnone : ∀ m ∈ E, m.name ≠ name) :
    ∃ t E', bstInsert uapiEventCompareFunc (b.etable.count + 1) ⟨b.allocated, name⟩ b.etable =
        .ok (t, ⟨b.allocated, name⟩) ∧
      E'.Perm (⟨b.allocated, name⟩ :: E) ∧ Filed { b.newEvent name with etable := t } E' L := by
  obtain ⟨T, hT, rfl⟩ := h.tree
  have hnew : ∀ m ∈ T.nodes, uapiEventCompareFunc ⟨b.allocated, name⟩ m ≠ 0 :=
    fun m hm h0 => hnone m hm (strcmp_eq_zero h0).symm
  obtain ⟨t, T', hinsert, htree, ⟨ys, zs, hold, hadded⟩, hmax⟩ :=
    hT.insert_new comparator_event hnew (Nat.lt_succ_self _)
  have hperm : T'.nodes.Perm (⟨b.allocated, name⟩ :: T.nodes) := by
    rw [hold, hadded]
    exact List.perm_middle
  have hfree : (⟨b.allocated, name⟩ : UapiEvent) ∉ T.nodes := by
    intro hmem
    exact absurd (h.addr _ hmem) (lt_irrefl _)
  refine ⟨t, T'.nodes, hinsert, hperm, ⟨T', htree, rfl⟩, ?_, ?_, ?_, h.node, ?_,
    hmax.trans h.maxHeight, h.imbalance⟩
  · have hset : {m | m ∈ T'.nodes} = insert ⟨b.allocated, name⟩ {m | m ∈ T.nodes} := by
      ext m
      exact hperm.mem_iff.trans List.mem_cons
    rw [hset]
    apply familyOn_initListHead h.lists (h.other _ hfree)
    intro m hm hmem
    rcases List.mem_cons.mp hmem with hhead | hmem
    · exact hfree (EventLink.head.inj hhead ▸ hm)
    · obtain ⟨s, u, i, ha, -⟩ := (h.node m _).mp hmem
      cases ha
  · intro e he
    exact h.other e fun hmem => he (hperm.mem_iff.mpr (List.mem_cons_of_mem _ hmem))
  · intro e he
    change e.addr < b.allocated + 1
    rcases List.mem_cons.mp (hperm.mem_iff.mp he) with rfl | he
    · exact Nat.lt_succ_self _
    · exact Nat.lt_succ_of_lt (h.addr e he)
  · intro s u hu
    obtain ⟨hlt, hrest⟩ := h.filled s u hu
    exact ⟨Nat.lt_succ_of_lt hlt, hrest⟩

def ofSubscriber (s : ℕ) : EventLink → Bool
  | .node s' _ => s' = s
  | _ => false

/-- **A subscriber goes**, with all its nodes. -/
lemma Filed.unregister (h : Filed b E L) (hu : b.subscriber s = some u) :
    Filed (uapiBrokerSubscriberUnregister s u b) E
      fun e => (L e).filter fun a => ¬ ofSubscriber s a = true := by
  obtain ⟨-, m, hm, hevent⟩ := h.filled s u hu
  have hnodes : ∀ e, (L e).filter (fun a => a ∉ firstNodes s m) =
      (L e).filter fun a => ¬ ofSubscriber s a = true := by
    intro e
    apply List.filter_congr
    intro a ha
    obtain ⟨s', u', i, rfl, hu', hevent'⟩ := (h.node e a).mp ha
    rw [decide_eq_decide, not_iff_not, mem_firstNodes, ofSubscriber, decide_eq_true_iff]
    apply and_iff_left_of_imp
    rintro rfl
    obtain rfl := Option.some.inj (hu.symm.trans hu')
    exact (hevent i).mp (by rw [hevent']; rfl)
  refine ⟨h.tree, ?_, ?_, h.addr, ?_, ?_, h.maxHeight, h.imbalance⟩
  · have hstart : b.links.FamilyOn {e | e ∈ E} .head
        fun e => (L e).filter fun a => a ∉ firstNodes s 0 :=
      h.lists.of_eq fun e => by simp [firstNodes]
    have hin : ∀ i < m, ∃ e ∈ {e | e ∈ E}, .node s i ∈ L e := by
      intro i hi
      obtain ⟨e, he⟩ := Option.isSome_iff_exists.mp ((hevent i).mpr hi)
      have hmem : .node s i ∈ L e := (h.node e _).mpr ⟨s, u, i, rfl, hu, he⟩
      refine ⟨e, ?_, hmem⟩
      by_contra hnot
      rw [h.other e hnot] at hmem
      cases hmem
    have hend := unlinkNodes_family (n := u.count) hin hevent (Nat.zero_le _) (by omega) hstart
    exact hend.of_eq fun e => (hnodes e).symm
  · intro e he
    rw [h.other e he]
    rfl
  · intro e a
    rw [List.mem_filter, h.node e a, decide_eq_true_iff]
    constructor
    · rintro ⟨⟨s', u', i, rfl, hu', hevent'⟩, hne⟩
      have hs : s' ≠ s := by
        rintro rfl
        exact hne (decide_eq_true rfl)
      exact ⟨s', u', i, rfl, (Function.update_of_ne hs ..).trans hu', hevent'⟩
    · rintro ⟨s', u', i, rfl, hu', hevent'⟩
      change Function.update b.subscriber s none s' = some u' at hu'
      rw [Function.update_apply] at hu'
      split_ifs at hu' with hs
      exact ⟨⟨s', u', i, rfl, hu', hevent'⟩, fun heq => hs (of_decide_eq_true heq)⟩
  · intro s' u' hu'
    change Function.update b.subscriber s none s' = some u' at hu'
    rw [Function.update_apply] at hu'
    split_ifs at hu'
    exact h.filled s' u' hu'

end Steps

/-! ## The rounds of the loop -/

/-- The events and the imbalance after a round for a name. -/
inductive Grows (oom : Bool) (name : List UInt8) (E : List UapiEvent) (imbalance : ℕ) :
    List UapiEvent → ℕ → Prop
  | known : name ∈ E.map UapiEvent.name → Grows oom name E imbalance E imbalance
  | quiet {a : ℕ} {E' : List UapiEvent} : name ∉ E.map UapiEvent.name → oom = false →
      ¬ uapiBrokerBstHeight ≤ imbalance + 1 → E'.Perm (⟨a, name⟩ :: E) →
      Grows oom name E imbalance E' (imbalance + 1)
  | printed {a : ℕ} {E' : List UapiEvent} : name ∉ E.map UapiEvent.name → oom = false →
      uapiBrokerBstHeight ≤ imbalance + 1 → E.length + 1 < 2 ^ (uapiBrokerBstHeight + 1) →
      E'.Perm (⟨a, name⟩ :: E) → Grows oom name E imbalance E' 0

section Rounds

variable {b b' : UapiBroker P} {E E' : List UapiEvent} {L : UapiEvent → List EventLink} {s i : ℕ}
  {u : UapiSubscriber P} {name : List UInt8} {names : List (List UInt8)} {fuel imbalance : ℕ}
  {imbalance' : ℕ}

lemma Grows.length_le {oom : Bool} (h : Grows oom name E imbalance E' imbalance') :
    E'.length ≤ E.length + 1 := by
  cases h with
  | known => exact Nat.le_succ _
  | quiet _ _ _ hperm => exact hperm.length_eq.le
  | printed _ _ _ _ hperm => exact hperm.length_eq.le

lemma Grows.subset {oom : Bool} (h : Grows oom name E imbalance E' imbalance') : E ⊆ E' := by
  cases h with
  | known => exact List.Subset.refl _
  | quiet _ _ _ hperm => exact fun e he => hperm.mem_iff.mpr (List.mem_cons_of_mem _ he)
  | printed _ _ _ _ hperm => exact fun e he => hperm.mem_iff.mpr (List.mem_cons_of_mem _ he)

lemma printable_perm {oom : ℕ → Bool} {known known' : List (List UInt8)}
    (h : known.Perm known') :
    Printable oom i names known imbalance ↔ Printable oom i names known' imbalance := by
  induction names generalizing i known known' imbalance with
  | nil => exact Iff.rfl
  | cons name names ih =>
      simp only [Printable, List.contains_iff_mem, h.mem_iff, h.length_eq, ih h, ih (h.cons name)]

/-- A name that is not known makes an event, if there is memory for it. -/
lemma printable_of_notMem {oom : ℕ → Bool} {known : List (List UInt8)} (hnew : name ∉ known) :
    Printable oom i (name :: names) known imbalance ↔
      if oom i then True
      else if uapiBrokerBstHeight ≤ imbalance + 1 then
        known.length + 1 < 2 ^ (uapiBrokerBstHeight + 1) ∧
          Printable oom (i + 1) names (name :: known) 0
      else Printable oom (i + 1) names (name :: known) (imbalance + 1) := by
  rw [Printable, if_neg (mt List.contains_iff_mem.mp hnew)]

lemma Grows.printable {oom : ℕ → Bool} (h : Grows (oom i) name E imbalance E' imbalance') :
    Printable oom i (name :: names) (E.map UapiEvent.name) imbalance ↔
      Printable oom (i + 1) names (E'.map UapiEvent.name) imbalance' := by
  have hnames {a : ℕ} (hperm : E'.Perm (⟨a, name⟩ :: E)) :
      (name :: E.map UapiEvent.name).Perm (E'.map UapiEvent.name) :=
    (hperm.map UapiEvent.name).symm
  cases h with
  | known hknown => rw [Printable, if_pos (List.contains_iff_mem.mpr hknown)]
  | quiet hnew hoom hlow hperm =>
      rw [printable_of_notMem hnew, hoom, if_neg Bool.false_ne_true, if_neg hlow]
      exact printable_perm (hnames hperm)
  | printed hnew hoom hfull hsize hperm =>
      rw [printable_of_notMem hnew, hoom, if_neg Bool.false_ne_true, if_pos hfull, List.length_map,
        and_iff_right hsize]
      exact printable_perm (hnames hperm)

lemma Filed.find (h : Filed b E L) (name : List UInt8) :
    (∃ e ∈ E, e.name = name ∧ b.find name = .ok (some e)) ∨
      name ∉ E.map UapiEvent.name ∧ b.find name = .ok none := by
  obtain ⟨T, hT, rfl⟩ := h.tree
  obtain ⟨r, hfind, hspec⟩ := find_of_tree hT name
  cases r with
  | some e =>
      obtain ⟨he, hname⟩ := (hspec e).mp rfl
      exact .inl ⟨e, he, hname, hfind⟩
  | none =>
      refine .inr ⟨fun hmem => ?_, hfind⟩
      obtain ⟨e, he, hname⟩ := List.mem_map.mp hmem
      cases (hspec e).mpr ⟨he, hname⟩

/-- **A round that fails** finds no memory for a new event. -/
lemma Filed.round_none {oom : Bool} (h : Filed b E L)
    (heq : registerEvent oom fuel s i name b = .ok none) :
    oom = true ∧ name ∉ E.map UapiEvent.name := by
  rcases h.find name with ⟨e, -, -, hfind⟩ | ⟨hnew, hfind⟩
  · rw [registerEvent_known hfind] at heq
    cases heq
  · cases oom with
    | true => exact ⟨rfl, hnew⟩
    | false =>
        obtain ⟨t, E', hinsert, -⟩ := h.newEvent fun m hm hname =>
          hnew (List.mem_map.mpr ⟨m, hm, hname⟩)
        rw [registerEvent_new hfind hinsert] at heq
        obtain ⟨b₁, -, heq⟩ := ok_of_bind heq
        cases heq

/-- **A round** puts one more node at the end of one list. -/
lemma Filed.round {oom : Bool} (h : Filed b E L) (hu : b.subscriber s = some u)
    (hi : ∀ j, (u.event j).isSome = true ↔ j < i) (hroom : i < u.count)
    (heq : registerEvent oom fuel s i name b = .ok (some b')) :
    ∃ E' e, Grows oom name E b.etableImbalance E' b'.etableImbalance ∧ e ∈ E' ∧ e.name = name ∧
      Filed b' E' (Function.update L e (L e ++ [.node s i])) ∧
      b'.subscriber s = some { u with event := Function.update u.event i (some e) } := by
  have hset {b₁ : UapiBroker P} (e : UapiEvent) (hsub : b₁.subscriber = b.subscriber) :
      (b₁.setNode s i e).subscriber s =
        some { u with event := Function.update u.event i (some e) } := by
    change Function.update b₁.subscriber s _ s = _
    rw [Function.update_self, hsub, hu]
    rfl
  rcases h.find name with ⟨e, he, hname, hfind⟩ | ⟨hnew, hfind⟩
  · rw [registerEvent_known hfind] at heq
    obtain rfl := Option.some.inj (Except.ok.inj heq)
    have hadd : Filed ((b.link s i e).setNode s i e) E
        (Function.update L e (L e ++ [.node s i])) :=
      h.add he hu hi hroom h.tree rfl rfl rfl h.maxHeight h.imbalance
    exact ⟨E, e, .known (List.mem_map.mpr ⟨e, he, hname⟩), he, hname, hadd, hset e rfl⟩
  · cases oom with
    | true =>
        rw [registerEvent_oom hfind] at heq
        cases heq
    | false =>
        obtain ⟨t, E', hinsert, hperm, hgrown⟩ := h.newEvent fun m hm hname =>
          hnew (List.mem_map.mpr ⟨m, hm, hname⟩)
        rw [registerEvent_new hfind hinsert] at heq
        obtain ⟨b₁, hbalance, heq⟩ := ok_of_bind heq
        obtain rfl := Option.some.inj (Except.ok.inj heq)
        have he : (⟨b.allocated, name⟩ : UapiEvent) ∈ E' :=
          hperm.mem_iff.mpr List.mem_cons_self
        obtain ⟨T, hT, hnodes⟩ := hgrown.tree
        have hmax : t.maxHeight = uapiBrokerBstHeight := hgrown.maxHeight
        have hlow := h.imbalance
        by_cases hfull : t.maxHeight ≤ b.etableImbalance + 1
        · obtain ⟨⟨⟨T₁, hT₁, hnodes₁⟩, hmax₁, hlinks₁, hsub₁, halloc₁⟩, hzero, hfits⟩ :=
            tableBalance_of_eq hbalance hT hfull
          have hsize : E.length + 1 < 2 ^ (uapiBrokerBstHeight + 1) := by
            rw [hnodes, hperm.length_eq, List.length_cons] at hfits
            exact hmax ▸ hfits
          have hadd : Filed (b₁.setNode s i ⟨b.allocated, name⟩) E'
              (Function.update L ⟨b.allocated, name⟩ (L ⟨b.allocated, name⟩ ++ [.node s i])) := by
            refine hgrown.add he hu hi hroom ⟨T₁, hT₁, hnodes₁.trans hnodes⟩ hlinks₁ ?_ halloc₁
              (hmax₁.trans hmax) ?_
            · change Function.update b₁.subscriber s _ = Function.update b.subscriber s _
              rw [hsub₁]
              rfl
            · change b₁.etableImbalance < _
              rw [hzero]
              exact Nat.succ_pos _
          have hgrows : Grows false name E b.etableImbalance E' b₁.etableImbalance := by
            rw [hzero]
            exact .printed hnew rfl (hmax ▸ hfull) hsize hperm
          exact ⟨E', _, hgrows, he, rfl, hadd, hset _ hsub₁⟩
        · rw [uapiBrokerTableBalance, if_neg hfull] at hbalance
          obtain rfl := Except.ok.inj hbalance
          have himb : b.etableImbalance + 1 < uapiBrokerBstHeight := by omega
          have hadd : Filed (UapiBroker.setNode s i ⟨b.allocated, name⟩
              { (b.newEvent name).link s i ⟨b.allocated, name⟩ with
                etable := t, etableImbalance := b.etableImbalance + 1 }) E'
              (Function.update L ⟨b.allocated, name⟩ (L ⟨b.allocated, name⟩ ++ [.node s i])) :=
            hgrown.add he hu hi hroom ⟨T, hT, hnodes⟩ rfl rfl rfl hmax himb
          exact ⟨E', _, .quiet hnew rfl (by omega) hperm, he, rfl, hadd, hset _ rfl⟩

/-- **A round returns** if the table can be printed. -/
lemma Filed.round_returns {oom : Bool} (h : Filed b E L)
    (hprint : name ∉ E.map UapiEvent.name → oom = false →
      uapiBrokerBstHeight ≤ b.etableImbalance + 1 →
        E.length + 1 < 2 ^ (uapiBrokerBstHeight + 1))
    (hfuel : 2 * (E.length + 1) + 4 ≤ fuel) :
    ∃ r, registerEvent oom fuel s i name b = .ok r := by
  rcases h.find name with ⟨e, -, -, hfind⟩ | ⟨hnew, hfind⟩
  · exact ⟨_, registerEvent_known hfind⟩
  · cases oom with
    | true => exact ⟨none, registerEvent_oom hfind⟩
    | false =>
        obtain ⟨t, E', hinsert, hperm, hgrown⟩ := h.newEvent fun m hm hname =>
          hnew (List.mem_map.mpr ⟨m, hm, hname⟩)
        obtain ⟨T, hT, hnodes⟩ := hgrown.tree
        have hlength : T.nodes.length = E.length + 1 := by
          rw [hnodes, hperm.length_eq, List.length_cons]
        have hmax : t.maxHeight = uapiBrokerBstHeight := hgrown.maxHeight
        have hfits : t.maxHeight ≤ b.etableImbalance + 1 →
            T.nodes.length < 2 ^ (t.maxHeight + 1) := by
          rw [hlength, hmax]
          exact hprint hnew rfl
        obtain ⟨b₁, hbalance⟩ : ∃ b₁, uapiBrokerTableBalance fuel
            { (b.newEvent name).link s i ⟨b.allocated, name⟩ with
              etable := t, etableImbalance := b.etableImbalance + 1 } = .ok b₁ :=
          tableBalance_returns hT hfits (by omega)
        rw [registerEvent_new hfind hinsert, hbalance]
        exact ⟨_, rfl⟩

/-- A node more in the list of `e`, by its name. -/
lemma update_eq_added {L' : UapiEvent → List EventLink} {e e' : UapiEvent} (h : Filed b E L')
    (he : e ∈ E) (he' : e' ∈ E) : Function.update L e (L e ++ [.node s i]) e' =
      L e' ++ if e.name = e'.name then [.node s i] else [] := by
  obtain ⟨T, hT, rfl⟩ := h.tree
  rw [Function.update_apply]
  by_cases hee : e' = e
  · rw [if_pos hee, if_pos (congrArg UapiEvent.name hee).symm, hee]
  · have hname : e.name ≠ e'.name := by
      intro hname
      refine hee (comparator_event.unique hT.sorted he' he (comparator_event.self e') ?_)
      rw [uapiEventCompareFunc, hname, strcmp_self]
    rw [if_neg hee, if_neg hname, List.append_nil]

/-- The loop from the index `i` on, with the result `res`: some of the names, or all, are done. -/
structure Filled (E : List UapiEvent) (L : UapiEvent → List EventLink) (s i : ℕ)
    (names : List (List UInt8)) (count : ℕ) (res : Bool × UapiBroker P) : Prop where
  filed : ∃ E' L' k, E ⊆ E' ∧ Filed res.2 E' L' ∧
    (∀ e ∈ E', L' e = L e ++ added s i (names.take k) e) ∧
    (res.1 = true → names.length ≤ k ∧ ∀ name ∈ names, ∃ e ∈ E', e.name = name)
  subscriber : ∃ u', res.2.subscriber s = some u' ∧ u'.count = count

lemma Filed.rounds {oom : ℕ → Bool} {res : Bool × UapiBroker P} (h : Filed b E L)
    (hu : b.subscriber s = some u) (hi : ∀ j, (u.event j).isSome = true ↔ j < i)
    (hroom : i + names.length ≤ u.count) (heq : registerEvents oom fuel s i names b = .ok res) :
    Filled E L s i names u.count res ∧
      Printable oom i names (E.map UapiEvent.name) b.etableImbalance := by
  induction names generalizing b E L u i with
  | nil =>
      obtain rfl := Except.ok.inj heq
      refine ⟨⟨⟨E, L, 0, List.Subset.refl _, h, fun e _ => ?_, fun _ => ⟨le_rfl, by simp⟩⟩, u, hu,
        rfl⟩, trivial⟩
      exact (List.append_nil _).symm
  | cons name names ih =>
      rw [List.length_cons] at hroom
      obtain ⟨r, hround, heq⟩ := ok_of_bind heq
      cases r with
      | none =>
          obtain rfl := Except.ok.inj heq
          obtain ⟨hoom, hnew⟩ := h.round_none hround
          refine ⟨⟨⟨E, L, 0, List.Subset.refl _, h, fun e _ => ?_, fun hdone => by cases hdone⟩, u,
            hu, rfl⟩, ?_⟩
          · exact (List.append_nil _).symm
          · rw [printable_of_notMem hnew, hoom, if_pos rfl]
            trivial
      | some b₁ =>
          obtain ⟨E₁, e, hgrows, he, hname, hfiled, hu₁⟩ := h.round hu hi (by omega) hround
          have hi₁ := filled_update hi e
          have hroom₁ : i + 1 + names.length ≤ u.count := by omega
          obtain ⟨⟨⟨E', L', k, hsub, hfiled', hlists, hall⟩, hsubscriber⟩, hprint⟩ :=
            ih hfiled hu₁ hi₁ hroom₁ heq
          refine ⟨⟨⟨E', L', k + 1, fun e' he' => hsub (hgrows.subset he'), hfiled', ?_, ?_⟩,
            hsubscriber⟩, hgrows.printable.mpr hprint⟩
          · intro e' he'
            rw [hlists e' he', update_eq_added hfiled' (hsub he) he', List.take_succ_cons, added,
              List.append_assoc, hname]
          · intro hdone
            obtain ⟨hk, hnames⟩ := hall hdone
            exact ⟨Nat.succ_le_succ hk, List.forall_mem_cons.mpr ⟨⟨e, hsub he, hname⟩, hnames⟩⟩

/-- **The loop returns** if the table can be printed. -/
lemma Filed.rounds_return {oom : ℕ → Bool} (h : Filed b E L) (hu : b.subscriber s = some u)
    (hi : ∀ j, (u.event j).isSome = true ↔ j < i) (hroom : i + names.length ≤ u.count)
    (hprint : Printable oom i names (E.map UapiEvent.name) b.etableImbalance)
    (hfuel : 2 * (E.length + names.length) + 4 ≤ fuel) :
    ∃ res, registerEvents oom fuel s i names b = .ok res := by
  induction names generalizing b E L u i with
  | nil => exact ⟨_, rfl⟩
  | cons name names ih =>
      rw [List.length_cons] at hroom hfuel
      have hsize : name ∉ E.map UapiEvent.name → oom i = false →
          uapiBrokerBstHeight ≤ b.etableImbalance + 1 →
            E.length + 1 < 2 ^ (uapiBrokerBstHeight + 1) := by
        intro hnew hoom hfull
        rw [printable_of_notMem hnew, hoom, if_neg Bool.false_ne_true, if_pos hfull,
          List.length_map] at hprint
        exact hprint.1
      obtain ⟨r, hround⟩ := h.round_returns (s := s) (i := i) hsize
        (by omega : 2 * (E.length + 1) + 4 ≤ fuel)
      cases r with
      | none =>
          refine ⟨(false, b), ?_⟩
          rw [registerEvents, hround]
          rfl
      | some b₁ =>
          obtain ⟨E₁, e, hgrows, -, -, hfiled, hu₁⟩ := h.round hu hi (by omega) hround
          have hi₁ := filled_update hi e
          have hroom₁ : i + 1 + names.length ≤ u.count := by omega
          have hlength := hgrows.length_le
          obtain ⟨res, hres⟩ := ih hfiled hu₁ hi₁ hroom₁ (hgrows.printable.mp hprint) (by omega)
          refine ⟨res, ?_⟩
          rw [registerEvents, hround]
          exact hres

lemma filter_added (i : ℕ) (names : List (List UInt8)) (e : UapiEvent) :
    (added s i names e).filter (fun a => ¬ ofSubscriber s a = true) = [] := by
  induction names generalizing i with
  | nil => rfl
  | cons name names ih =>
      rw [added, List.filter_append, ih, List.append_nil]
      split_ifs
      · simp [ofSubscriber]
      · rfl

/-- The loop of the clean-up only looks at the events of the nodes. -/
lemma unlinkNodes_congr {u v : UapiSubscriber P} (h : u.event = v.event) (n k : ℕ)
    (l : Links EventLink) : unlinkNodes s u n k l = unlinkNodes s v n k l := by
  induction n generalizing k l with
  | zero => rfl
  | succ n ih => rw [unlinkNodes, unlinkNodes, h, ih]

/-- **The clean-up after the loop** leaves the lists as they were before. -/
lemma Filed.undone {res : Bool × UapiBroker P} {count : ℕ} (h : Filed b E L)
    (hfilled : Filled E L b.allocated i names count res) (sevr : P) :
    ∃ b', Fields.unregister b.allocated sevr
        (fun j => (res.2.subscriber b.allocated).bind fun u => u.event j)
        ⟨some true, some true, some count⟩ res.2 = some b' ∧ ∃ E', E ⊆ E' ∧ Filed b' E' L := by
  obtain ⟨⟨E', L', k, hsub, hfiled, hlists, -⟩, u, hu, rfl⟩ := hfilled
  have hclean := hfiled.unregister hu
  have hback : (fun e => (L' e).filter fun a => ¬ ofSubscriber b.allocated a = true) = L := by
    funext e
    by_cases he : e ∈ E'
    · rw [hlists e he, List.filter_append, filter_added, List.append_nil]
      apply List.filter_eq_self.mpr
      intro a ha
      obtain ⟨s', u', j, rfl, hu', -⟩ := (h.node e a).mp ha
      have hne : s' ≠ b.allocated := (h.filled s' u' hu').1.ne
      simp [ofSubscriber, hne]
    · rw [hfiled.other e he, h.other e fun hmem => he (hsub hmem)]
      rfl
  rw [hback] at hclean
  have hlinks : unlinkNodes b.allocated ⟨sevr, u.count, u.event⟩ u.count 0 res.2.links =
      unlinkNodes b.allocated u u.count 0 res.2.links := by
    apply unlinkNodes_congr
    rfl
  refine ⟨uapiBrokerSubscriberUnregister b.allocated u res.2, ?_, E', hsub, hclean⟩
  rw [hu, uapiBrokerSubscriberUnregister, ← hlinks]
  rfl

lemma subscriberRegister_eq {m : Memory} {r : UapiRegister} (hsubscriber : m.subscriber = true)
    (hnodes : m.nodes = true ∧ 0 ≤ r.count) (hevents : m.events = true) (sevr : P) :
    subscriberRegister m fuel sevr r b = (do
      let res ← registerEvents m.oom fuel b.allocated 0 r.names (b.newSubscriber sevr r.count.toNat)
      if res.1 then .ok (some res)
      else .ok ((Fields.unregister b.allocated sevr
        (fun i => (res.2.subscriber b.allocated).bind fun u => u.event i)
        ⟨some true, some true, some r.count.toNat⟩ res.2).map fun b => (false, b))) := by
  unfold subscriberRegister
  simp only [hsubscriber, hnodes.1, hnodes.2, hevents, decide_true, Bool.and_self,
    Bool.true_eq_false, if_false]

lemma Filed.atomic {m : Memory} {r : UapiRegister} {res : Bool × UapiBroker P} (h : Filed b E L)
    (hsubscriber : m.subscriber = true) (hnodes : m.nodes = true ∧ 0 ≤ r.count)
    (hevents : m.events = true) {sevr : P}
    (hloop : registerEvents m.oom fuel b.allocated 0 r.names
      (b.newSubscriber sevr r.count.toNat) = .ok res) :
    (∃ out, subscriberRegister m fuel sevr r b = .ok out ∧
      Atomic E L b.allocated r.names out) ∧
      Printable m.oom 0 r.names (E.map UapiEvent.name) b.etableImbalance := by
  obtain ⟨hfilled, hprint⟩ := (h.newSubscriber sevr r.count.toNat).rounds
    (Function.update_self ..) (by simp) (by
      rw [Nat.zero_add]
      exact length_eventNames_le _ _) hloop
  refine ⟨?_, hprint⟩
  rw [subscriberRegister_eq hsubscriber hnodes hevents, hloop]
  obtain ⟨done, b₁⟩ := res
  cases done with
  | true =>
      obtain ⟨⟨E', L', k, hsub, hfiled, hlists, hall⟩, -⟩ := hfilled
      obtain ⟨hk, hnamed⟩ := hall rfl
      refine ⟨some (true, b₁), rfl, E', L', hsub, hfiled, fun e he => ?_, hnamed⟩
      rw [hlists e he, List.take_of_length_le hk]
  | false =>
      obtain ⟨b', heval, E', hsub, hfiled⟩ := h.undone hfilled sevr
      refine ⟨some (false, b'), ?_, E', hsub, hfiled⟩
      change Except.ok (Option.map _ (Fields.unregister _ _ _ _ b₁)) = _
      rw [heval]
      rfl

/-- **A registration that returns** reads a field that was not written, or is atomic. -/
lemma Filed.register_of_eq {m : Memory} {r : UapiRegister} {sevr : P}
    {out : Option (Bool × UapiBroker P)} (h : Filed b E L)
    (heq : subscriberRegister m fuel sevr r b = .ok out) :
    out = none ∨ Atomic E L b.allocated r.names out ∧
      (m.subscriber = true → Provided m r E b.etableImbalance) := by
  by_cases hsubscriber : m.subscriber = true
  · by_cases hnodes : m.nodes = true ∧ 0 ≤ r.count
    · by_cases hevents : m.events = true
      · have hcall := heq
        rw [subscriberRegister_eq hsubscriber hnodes hevents] at hcall
        obtain ⟨res, hloop, -⟩ := ok_of_bind hcall
        obtain ⟨⟨out', heq', hatomic⟩, hprint⟩ := h.atomic hsubscriber hnodes hevents hloop
        obtain rfl := Except.ok.inj (heq.symm.trans heq')
        exact .inr ⟨hatomic, fun _ => ⟨hnodes, hevents, hprint⟩⟩
      · -- the number of the nodes is read
        simp only [subscriberRegister, hsubscriber, hnodes.1, hnodes.2, decide_true,
          Bool.and_self, Bool.true_eq_false, if_false, eq_false_of_ne_true hevents,
          if_true] at heq
        exact .inl (Except.ok.inj heq).symm
    · -- the pointer to the names is read
      have hfails : (m.nodes && decide (0 ≤ r.count)) = false := by
        rw [Bool.eq_false_iff, Ne, Bool.and_eq_true, decide_eq_true_iff]
        exact hnodes
      simp only [subscriberRegister, hsubscriber, hfails, Bool.true_eq_false, if_false,
        if_true] at heq
      exact .inl (Except.ok.inj heq).symm
  · simp only [subscriberRegister, eq_false_of_ne_true hsubscriber, if_true] at heq
    obtain rfl := Except.ok.inj heq
    exact .inr ⟨⟨E, List.Subset.refl _, h⟩, fun htrue => absurd htrue hsubscriber⟩

lemma Filed.atomic_iff (h : Filed b E L) (m : Memory) (sevr : P) (r : UapiRegister) :
    Returns (fun fuel => subscriberRegister m fuel sevr r b)
        (Atomic E L b.allocated r.names) ↔
      (m.subscriber = true → Provided m r E b.etableImbalance) := by
  constructor
  · rintro ⟨k, hk⟩
    obtain ⟨out, heval, hatomic⟩ := hk k le_rfl
    rcases h.register_of_eq heval with rfl | ⟨-, hprovided⟩
    · exact hatomic.elim
    · exact hprovided
  · intro hprovided
    refine ⟨2 * (E.length + r.names.length) + 4, fun fuel hfuel => ?_⟩
    by_cases hsubscriber : m.subscriber = true
    · obtain ⟨hnodes, hevents, hprint⟩ := hprovided hsubscriber
      have hroom : 0 + r.names.length ≤ r.count.toNat := by
        rw [Nat.zero_add]
        exact length_eventNames_le _ _
      obtain ⟨res, hloop⟩ : ∃ res, registerEvents m.oom fuel b.allocated 0 r.names
          (b.newSubscriber sevr r.count.toNat) = .ok res :=
        (h.newSubscriber sevr r.count.toNat).rounds_return (Function.update_self ..) (by simp)
          hroom hprint hfuel
      exact (h.atomic hsubscriber hnodes hevents hloop).1
    · refine ⟨some (false, b), ?_, E, List.Subset.refl _, h⟩
      simp only [subscriberRegister, eq_false_of_ne_true hsubscriber, if_true]

end Rounds

/-! ## Histories -/

section Histories

variable {b b' : UapiBroker P} {E : List UapiEvent} {L : UapiEvent → List EventLink}

lemma filed_step {l : Call P} {es : List Bool} (h : ∃ E L, Filed b E L)
    (hstep : callStep b l = some (b', es)) : ∃ E L, Filed b' E L := by
  obtain ⟨E, L, h⟩ := h
  cases l with
  | register m fuel sevr r =>
      rw [callStep] at hstep
      split at hstep
      · rename_i done b₁ heq
        obtain ⟨rfl, -⟩ := Prod.mk.inj (Option.some.inj hstep)
        rcases h.register_of_eq heq with hnone | ⟨hatomic, -⟩
        · cases hnone
        · cases done with
          | true =>
              obtain ⟨E', L', -, hfiled, -⟩ := hatomic
              exact ⟨E', L', hfiled⟩
          | false =>
              obtain ⟨E', -, hfiled⟩ := hatomic
              exact ⟨E', L, hfiled⟩
      · cases hstep
  | unregister s =>
      obtain ⟨u, hu, heq⟩ := Option.map_eq_some_iff.mp hstep
      obtain ⟨rfl, -⟩ := Prod.mk.inj heq
      exact ⟨E, _, h.unregister hu⟩

end Histories

/-- **A registration is made as a whole or not at all** in every state of the broker, if and only if
the subscriber is not allocated, or its nodes and the copy of the names are, too, and the table is
small enough whenever it is printed. -/
theorem broker_registration_atomic_iff {link : UapiEvent → Dir → Option UapiEvent}
    {stack : ℕ → Option UapiEvent} {links : Links EventLink} {ls : List (Call P)} {es : List Bool}
    {b : UapiBroker P} (hrun : run callStep ls (uapiBrokerInit link stack links) = some (b, es)) :
    ∃ E L, Filed b E L ∧ ∀ (m : Memory) (sevr : P) (r : UapiRegister),
      Returns (fun fuel => subscriberRegister m fuel sevr r b)
          (Atomic E L b.allocated r.names) ↔
        (m.subscriber = true → Provided m r E b.etableImbalance) := by
  obtain ⟨E, L, h⟩ : ∃ E L, Filed b E L :=
    run_invariant (fun h _ hstep => filed_step h hstep) ⟨[], _, filed_init link stack links⟩
      (along_of_forall (P := fun _ => True) (fun _ _ => trivial) _) hrun
  exact ⟨E, L, h, h.atomic_iff⟩

/-- All allocations succeed. -/
def ample : Memory := ⟨true, true, true, fun _ => true, fun _ => true⟩

/-- After the registration for `a`, one for `b` and `a` of which the second event finds no memory. -/
theorem broker_registration_atomic_iff_sample :
    ∃ (b : UapiBroker ℕ) (E : List UapiEvent) (L : UapiEvent → List EventLink),
      run callStep [.register ample 0 7 ⟨1, [97]⟩] emptyBroker = some (b, [true]) ∧ Filed b E L ∧
      Returns (fun fuel =>
          subscriberRegister { ample with name := fun _ => false } fuel 8 ⟨2, [98, 9, 97]⟩ b)
        (Atomic E L b.allocated [[98], [97]]) := by
  have heval : (run callStep [.register ample 0 7 ⟨1, [97]⟩] emptyBroker).map
      (fun r => (r.2, r.1.etableImbalance)) = some ([true], 1) := by decide +kernel
  obtain ⟨⟨b, es⟩, hrun, hes⟩ := Option.map_eq_some_iff.mp heval
  obtain ⟨rfl, himbalance⟩ := Prod.mk.inj hes
  obtain ⟨E, L, hfiled, hiff⟩ := broker_registration_atomic_iff hrun
  refine ⟨b, E, L, hrun, hfiled, (hiff _ 8 ⟨2, [98, 9, 97]⟩).mpr fun _ => ?_⟩
  refine ⟨⟨rfl, by decide⟩, rfl, ?_⟩
  have hoom : ∀ i, Memory.oom { ample with name := fun _ => false } i = true := fun _ => rfl
  change Printable _ 0 [[98], [97]] _ _
  simp only [Printable, hoom, if_true, ite_self]

/-- Without memory for the nodes the clean-up reads the pointer to the names, and without memory for
the copy of the names it reads their number; neither was written. -/
theorem unwritten_fields_read :
    (∀ fuel,
      subscriberRegister { ample with nodes := false } fuel 7 ⟨1, [97]⟩ emptyBroker = .ok none ∧
      subscriberRegister { ample with events := false } fuel 7 ⟨1, [97]⟩ emptyBroker = .ok none ∧
      subscriberRegister ample fuel 7 ⟨-1, [97]⟩ emptyBroker = .ok none) ∧
    ¬ Returns (fun fuel => subscriberRegister ample fuel 7 ⟨-1, [97]⟩ emptyBroker)
      (Atomic [] (fun _ => []) emptyBroker.allocated []) := by
  refine ⟨fun fuel => ⟨rfl, rfl, rfl⟩, ?_⟩
  rintro ⟨k, hk⟩
  obtain ⟨out, heval, hatomic⟩ := hk k le_rfl
  obtain rfl : none = out := Except.ok.inj heval
  exact hatomic

end LinuxC.Uapi
