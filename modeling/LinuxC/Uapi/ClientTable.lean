import LinuxC.Bst.OrderedSet
import LinuxC.Uapi.Allocation

/-!
# The table of a client's events (`uapi/uapi_client.c`)

While `uapi_event_register` writes the names for the broker it puts the nodes of the events into a
search tree of its own.  A node whose name is there already is left out.  When the registration fails
the nodes are taken out again, the last one first, by their names; `bst_remove` is asked to remove
the node itself and no other with the same name (`IsTree.remove_self`).

There is one table, in a static variable.  A client that has registered cannot do so again, and such
a call leaves the table alone.  The lock is released before the nodes are taken out:
`registerSection` is what a call does under the lock, and `eventRegister` the whole call when no
other thread comes in between.
-/

namespace LinuxC.Uapi

open Bst

/-! ## The functions -/

/-- What a call of `uapi_event_register` gets from outside. -/
structure Outside where
  /-- memory for the table -/
  table : Bool
  /-- memory for its iterator -/
  iterator : Bool
  /-- `realloc` to this size -/
  realloc : ℕ → Bool
  /-- `ipc_subscriber_register` with this payload -/
  accepted : List UInt8 → Bool
  /-- the array on the stack -/
  stack : Mem
  /-- what new memory of a size holds -/
  fresh : ℕ → Mem
  /-- the stack of the iterator -/
  entries : ℕ → Option UapiEvent

/-- The pointer `subs->iterator`. -/
inductive IteratorPtr
  | null
  | live
  | freed
  deriving DecidableEq

/-- The variables `uapic_subs`, of which it only matters whether it is set, and `singleton`; `made`
says that `singleton.table` is a table, and `held` what `singleton.iterator` points to.  A
`struct uapic_event` is compared as an event of the broker is. -/
structure Client where
  registered : Bool
  made : Bool
  table : BstTable UapiEvent
  iterator : BstIterator UapiEvent
  held : IteratorPtr

/-- `uapic_event_table_create`; false is its error.  When `bst_create` fails, the iterator of the
table before is freed, and the pointer stays what it is. -/
def uapicEventTableCreate (o : Outside) (height : ℕ) (c : Client) : Except Fault (Bool × Client) :=
  let t := bstCreate c.table.link height
  if o.table then
    if o.iterator then
      .ok (true, { c with
        made := true, table := t, iterator := bstIteratorInit o.entries t, held := .live })
    else
      -- `bst_destroy` frees the new table
      .ok (false, { c with made := false, held := .null })
  else
    match c.held with
    | .null => .ok (false, { c with made := false })
    | .live => .ok (false, { c with made := false, held := .freed })
    | .freed => .error .doubleFree

/-- The variables of the loop. -/
structure Building where
  i : ℕ
  encoder : Encoder
  table : BstTable UapiEvent

/-- The loop of `uapi_event_register`; false is its error. -/
def eventLoop (o : Outside) (events : List UapiEvent) :
    ℕ → Building → Except Fault (Bool × Building)
  | 0, _ => .error .fuel
  | fuel + 1, v =>
      match events[v.i]? with
      | none => .ok (true, v)
      | some event =>
          if uapiEventMaxLength < event.name.length then .ok (false, v)
          else
            let e := v.encoder.put event.name
            let ssize := (eventText event.name).length
            if e.offs + ssize < e.size then do
              let r ← bstInsert uapiEventCompareFunc (v.table.count + 1) event v.table
              eventLoop o events fuel ⟨v.i + 1, e.advance ssize, r.1⟩
            else if o.realloc (2 * e.size) then
              eventLoop o events fuel ⟨v.i, e.grow o.fresh, v.table⟩
            else .ok (false, ⟨v.i, e, v.table⟩)

/-- A turn of `while (i) bst_remove(subs->table, &events[--i].node, 1)`. -/
def undoTurn (events : List UapiEvent) (i : ℕ) (t : BstTable UapiEvent) :
    Except Fault (BstTable UapiEvent) :=
  match events[i]? with
  | none => .error .null
  | some event => do
      let r ← bstRemove uapiEventCompareFunc (t.count + 1) event true t
      .ok r.1

def undoLoop (events : List UapiEvent) : ℕ → BstTable UapiEvent → Except Fault (BstTable UapiEvent)
  | 0, t => .ok t
  | i + 1, t => do
      let t ← undoTurn events i t
      undoLoop events i t

def uapicEventTablePrintf (fuel : ℕ) (it : BstIterator UapiEvent) (t : BstTable UapiEvent) :
    Except Fault (BstIterator UapiEvent × BstTable UapiEvent) := do
  let r ← bstIteratorFirst fuel it t
  printfLoop fuel r.1 r.2.1 r.2.2

/-- A call of `uapi_event_register` when it has released the lock: what it will return, the index of
its loop, and the variables. -/
structure AtRelease where
  ret : ℤ
  i : ℕ
  client : Client

/-- `uapi_event_register` from `uapic_lock_acquire` to `uapic_lock_release`. -/
def registerSection (o : Outside) (fuel : ℕ) (events : List UapiEvent) (c : Client) :
    Except Fault AtRelease :=
  if c.registered then .ok ⟨-1, 0, c⟩
  else do
    let r ← uapicEventTableCreate o (fhs events.length) c
    if r.1 = false then .ok ⟨-1, 0, r.2⟩
    else do
      let names := events.map UapiEvent.name
      let v ← eventLoop o events fuel ⟨0, .start o.stack names, r.2.table⟩
      if v.1 && o.accepted v.2.encoder.payload then do
        let t ← bstBalance fuel v.2.table
        let p ← uapicEventTablePrintf fuel r.2.iterator t
        .ok ⟨0, v.2.i, { r.2 with registered := true, table := p.2, iterator := p.1 }⟩
      else .ok ⟨-1, v.2.i, { r.2 with table := v.2.table }⟩

/-- `uapi_event_register`, when nothing happens between the release of the lock and its end. -/
def eventRegister (o : Outside) (fuel : ℕ) (events : List UapiEvent) (c : Client) :
    Except Fault (ℤ × Client) := do
  let s ← registerSection o fuel events c
  if s.ret = 0 then .ok (0, s.client)
  else do
    let t ← undoLoop events s.i s.client.table
    .ok (s.ret, { s.client with table := t })

/-- The variables at the start; the arguments are what the memory holds. -/
def clientInit (table : BstTable UapiEvent) (iterator : BstIterator UapiEvent) : Client :=
  ⟨false, false, table, iterator, .null⟩

/-- Memory for everything, and a broker whose answer is the parameter. -/
def sampleOutside (accepted : Bool) : Outside :=
  ⟨true, true, fun _ => true, fun _ => accepted, zeros, freshZeros, fun _ => none⟩

/-! ## The table while it is built -/

section Table

variable {o : Outside} {events : List UapiEvent} {fuel i : ℕ} {t : BstTable UapiEvent}
  {T : Tree UapiEvent} {v : Building}

/-- The table holds nodes of the events before `i`. -/
def HoldsFirst (events : List UapiEvent) (i : ℕ) (t : BstTable UapiEvent) : Prop :=
  ∃ T, IsTree uapiEventCompareFunc t T ∧ ∀ e ∈ T.nodes, e ∈ events.take i

lemma HoldsFirst.empty (h : HoldsFirst events 0 t) : IsTree uapiEventCompareFunc t .nil := by
  obtain ⟨T, hT, hsub⟩ := h
  rw [List.take_zero] at hsub
  have hnil : T.nodes = [] := List.eq_nil_iff_forall_not_mem.mpr fun e he => by cases hsub e he
  rwa [Tree.eq_nil_of_nodes hnil] at hT

/-- **Taking a node out**: the last one of those that may be in the table. -/
lemma undoTurn_spec (h : HoldsFirst events (i + 1) t) (hlt : i < events.length) :
    ∃ t', undoTurn events i t = .ok t' ∧ HoldsFirst events i t' := by
  obtain ⟨T, hT, hsub⟩ := h
  obtain ⟨t', r, T', hremove, hT', hmem⟩ :=
    hT.remove_self comparator_event events[i] (Nat.lt_succ_self _)
  refine ⟨t', ?_, T', hT', fun e he => ?_⟩
  · rw [undoTurn, List.getElem?_eq_getElem hlt]
    change (bstRemove uapiEventCompareFunc (t.count + 1) events[i] true t >>= _) = _
    rw [hremove]
    rfl
  · obtain ⟨heT, hne⟩ := (hmem e).mp he
    have htake := hsub e heT
    rw [List.take_succ_eq_append_getElem hlt, List.mem_append, List.mem_singleton] at htake
    exact htake.resolve_right hne

/-- The array is large enough for what is written, and not smaller than the one on the stack. -/
def Roomy (e : Encoder) : Prop := e.offs < e.size ∧ 1024 ≤ e.size

lemma roomy_start (stack : Mem) (names : List (List UInt8)) : Roomy (.start stack names) := by
  constructor
  · change 4 < 1024
    decide
  · exact le_rfl

/-- A turn in which the name of the event is written. -/
lemma eventLoop_insert (o : Outside) (fuel : ℕ) (h : HoldsFirst events v.i v.table)
    (hlt : v.i < events.length)
    (hname : ¬ uapiEventMaxLength < events[v.i].name.length)
    (hfit : v.encoder.offs + (eventText events[v.i].name).length < v.encoder.size) :
    ∃ t, eventLoop o events (fuel + 1) v = eventLoop o events fuel
        ⟨v.i + 1, (v.encoder.put events[v.i].name).advance (eventText events[v.i].name).length, t⟩ ∧
      HoldsFirst events (v.i + 1) t ∧ t.maxHeight = v.table.maxHeight := by
  obtain ⟨T, hT, hsub⟩ := h
  obtain ⟨t, m, T', hinsert, hT', hmax, hmem⟩ :=
    hT.insert_mem comparator_event events[v.i] (Nat.lt_succ_self _)
  refine ⟨t, ?_, ⟨T', hT', fun e he => ?_⟩, hmax⟩
  · rw [eventLoop, List.getElem?_eq_getElem hlt]
    simp only [if_neg hname]
    change (if v.encoder.offs + _ < v.encoder.size then _ else _) = _
    rw [if_pos hfit, hinsert]
    rfl
  · rw [List.take_succ_eq_append_getElem hlt, List.mem_append, List.mem_singleton]
    exact (hmem e he).symm.imp_left (hsub e)

/-- The loop ends, and what is in the table then are nodes of the events before the index. -/
def Ends (o : Outside) (events : List UapiEvent) (maxHeight fuel : ℕ) (v : Building) : Prop :=
  ∃ done v', eventLoop o events fuel v = .ok (done, v') ∧ HoldsFirst events v'.i v'.table ∧
    v'.i ≤ events.length ∧ v'.table.maxHeight = maxHeight

/-- **The loop ends**: a name is written in its first turn, or in the second one when the buffer has
become larger. -/
lemma eventLoop_ends {k maxHeight : ℕ} (h : HoldsFirst events v.i v.table)
    (hk : v.i + k = events.length) (hmax : v.table.maxHeight = maxHeight)
    (hroomy : Roomy v.encoder) (hfuel : 2 * k + 1 ≤ fuel) : Ends o events maxHeight fuel v := by
  induction k generalizing v fuel with
  | zero =>
      obtain ⟨fuel, rfl⟩ : ∃ n, fuel = n + 1 := ⟨fuel - 1, by omega⟩
      refine ⟨true, v, ?_, h, by omega, hmax⟩
      rw [eventLoop, List.getElem?_eq_none (by omega)]
  | succ k ih =>
      obtain ⟨fuel, rfl⟩ : ∃ n, fuel = n + 1 + 1 := ⟨fuel - 2, by omega⟩
      have hlt : v.i < events.length := by omega
      by_cases hname : uapiEventMaxLength < events[v.i].name.length
      · refine ⟨false, v, ?_, h, hlt.le, hmax⟩
        rw [eventLoop, List.getElem?_eq_getElem hlt]
        simp only [if_pos hname]
      · have hshort : (eventText events[v.i].name).length ≤ 32 := by
          rw [length_eventText]
          exact Nat.succ_le_succ (not_lt.mp hname)
        obtain ⟨hoffs, hsize⟩ := hroomy
        by_cases hfit : v.encoder.offs + (eventText events[v.i].name).length < v.encoder.size
        · obtain ⟨t₁, hturn, hfirst, hmax₁⟩ := eventLoop_insert o (fuel + 1) h hlt hname hfit
          have hrest : Ends o events maxHeight (fuel + 1) ⟨v.i + 1,
              (v.encoder.put events[v.i].name).advance (eventText events[v.i].name).length, t₁⟩ :=
            ih hfirst (by dsimp only; omega) (hmax₁.trans hmax) ⟨hfit, hsize⟩ (by omega)
          rwa [Ends, hturn]
        · have hgrow : eventLoop o events (fuel + 1 + 1) v =
              if o.realloc (2 * v.encoder.size) then
                eventLoop o events (fuel + 1)
                  ⟨v.i, (v.encoder.put events[v.i].name).grow o.fresh, v.table⟩
              else .ok (false, ⟨v.i, v.encoder.put events[v.i].name, v.table⟩) := by
            rw [eventLoop, List.getElem?_eq_getElem hlt]
            simp only [if_neg hname]
            change (if v.encoder.offs + _ < v.encoder.size then _ else _) = _
            rw [if_neg hfit]
            rfl
          rw [Ends, hgrow]
          split_ifs
          · -- the name fits into the larger buffer
            have hfit₂ : v.encoder.offs + (eventText events[v.i].name).length <
                2 * v.encoder.size := by omega
            have hsize₂ : 1024 ≤ 2 * v.encoder.size := by omega
            obtain ⟨t₁, hturn, hfirst, hmax₁⟩ := eventLoop_insert o fuel
              (v := ⟨v.i, (v.encoder.put events[v.i].name).grow o.fresh, v.table⟩) h hlt hname hfit₂
            have hrest : Ends o events maxHeight fuel ⟨v.i + 1,
                (((v.encoder.put events[v.i].name).grow o.fresh).put events[v.i].name).advance
                  (eventText events[v.i].name).length, t₁⟩ :=
              ih hfirst (by dsimp only; omega) (hmax₁.trans hmax) ⟨hfit₂, hsize₂⟩ (by omega)
            rwa [hturn]
          · exact ⟨false, _, rfl, h, hlt.le, hmax⟩

end Table

/-! ## Under the lock -/

section Register

variable {o : Outside} {events : List UapiEvent} {c : Client} {fuel : ℕ} {r : AtRelease}

/-- The number of nodes in the table is at most that of the events. -/
lemma length_le_of_holdsFirst {T : Tree UapiEvent} {i : ℕ} (hnodup : T.nodes.Nodup)
    (hsub : ∀ e ∈ T.nodes, e ∈ events.take i) : T.nodes.length ≤ events.length := by
  have hle := (List.subperm_of_subset hnodup hsub).length_le
  rw [List.length_take] at hle
  exact hle.trans (Nat.min_le_right _ _)

/-- What a call has done when it releases the lock: it was refused, since the client is registered or
there is no memory for a table; it has registered; or it has failed, and its table holds nodes of the
events before `i`. -/
inductive Sectioned (o : Outside) (events : List UapiEvent) (c : Client) : AtRelease → Prop
  | refused (h : c.registered = true) : Sectioned o events c ⟨-1, 0, c⟩
  | noMemory (h : c.registered = false) (c' : Client) (hreg : c'.registered = false)
      (hmade : c'.made = false) : Sectioned o events c ⟨-1, 0, c'⟩
  | done (h : c.registered = false) (i : ℕ) (c' : Client) (hreg : c'.registered = true)
      (hmade : c'.made = true) : Sectioned o events c ⟨0, i, c'⟩
  | failed (h : c.registered = false) (i : ℕ) (c' : Client) (hreg : c'.registered = false)
      (hmade : c'.made = true) (hi : i ≤ events.length) (hfirst : HoldsFirst events i c'.table) :
      Sectioned o events c ⟨-1, i, c'⟩

/-- `bst_create` has memory, or there is no iterator that was freed before. -/
def Creatable (o : Outside) (c : Client) : Prop :=
  c.registered = false → c.held = .freed → o.table = true

lemma tableCreate_returns (h : Creatable o c) (hregistered : c.registered = false) (height : ℕ) :
    ∃ done c', uapicEventTableCreate o height c = .ok (done, c') ∧ c'.registered = false ∧
      c'.made = done ∧ (done = true → c'.table = bstCreate c.table.link height) := by
  unfold uapicEventTableCreate
  cases htable : o.table with
  | true =>
      cases o.iterator with
      | true => exact ⟨_, _, rfl, hregistered, rfl, fun _ => rfl⟩
      | false => exact ⟨_, _, rfl, hregistered, rfl, fun hdone => by cases hdone⟩
  | false =>
      cases hheld : c.held with
      | null => exact ⟨_, _, rfl, hregistered, rfl, fun hdone => by cases hdone⟩
      | live => exact ⟨_, _, rfl, hregistered, rfl, fun hdone => by cases hdone⟩
      | freed =>
          have hmemory := h hregistered hheld
          rw [htable] at hmemory
          cases hmemory

lemma tableCreate_ok {height : ℕ} {r : Bool × Client}
    (h : uapicEventTableCreate o height c = .ok r) :
    r.1 = (o.table && o.iterator) ∧ r.2.registered = c.registered ∧
      (r.1 = true → r.2.table = bstCreate c.table.link height) := by
  unfold uapicEventTableCreate at h
  cases htable : o.table with
  | true =>
      cases hiterator : o.iterator with
      | true =>
          simp only [htable, hiterator, if_true] at h
          obtain rfl := Except.ok.inj h
          exact ⟨rfl, rfl, fun _ => rfl⟩
      | false =>
          simp only [htable, hiterator, if_true, Bool.false_eq_true, if_false] at h
          obtain rfl := Except.ok.inj h
          exact ⟨rfl, rfl, fun hdone => by cases hdone⟩
  | false =>
      simp only [htable, Bool.false_eq_true, if_false] at h
      cases hheld : c.held with
      | freed =>
          rw [hheld] at h
          cases h
      | _ =>
          rw [hheld] at h
          obtain rfl := Except.ok.inj h
          exact ⟨rfl, rfl, fun hdone => by cases hdone⟩

/-- The whole call is the part under the lock, and the loop if that has failed. -/
lemma eventRegister_ok {r : ℤ × Client} (h : eventRegister o fuel events c = .ok r) :
    ∃ s, registerSection o fuel events c = .ok s ∧ r.1 = s.ret ∧
      (s.ret = 0 → r.2 = s.client) ∧
      (s.ret ≠ 0 → ∃ t, undoLoop events s.i s.client.table = .ok t ∧
        r.2 = { s.client with table := t }) := by
  obtain ⟨s, hsection, h⟩ := ok_of_bind h
  refine ⟨s, hsection, ?_⟩
  split_ifs at h with hret
  · obtain rfl := Except.ok.inj h
    exact ⟨hret.symm, fun _ => rfl, fun hne => absurd hret hne⟩
  · obtain ⟨t, hundo, h⟩ := ok_of_bind h
    obtain rfl := Except.ok.inj h
    exact ⟨rfl, fun heq => absurd heq hret, fun _ => ⟨t, hundo, rfl⟩⟩

/-- **The call comes to its release of the lock.** -/
lemma registerSection_returns (h : Creatable o c) (hfuel : 2 * events.length + 4 ≤ fuel) :
    ∃ r, registerSection o fuel events c = .ok r ∧ Sectioned o events c r := by
  unfold registerSection
  cases hregistered : c.registered with
  | true => exact ⟨_, rfl, .refused hregistered⟩
  | false =>
      obtain ⟨created, c₁, hcreate, hreg₁, hmade₁, htable₁⟩ :=
        tableCreate_returns h hregistered (fhs events.length)
      simp only [hcreate, bind, Except.bind, Bool.false_eq_true, if_false]
      cases created with
      | false => exact ⟨_, rfl, .noMemory hregistered c₁ hreg₁ hmade₁⟩
      | true =>
          have hempty : HoldsFirst events 0 (bstCreate c.table.link (fhs events.length)) :=
            ⟨.nil, ⟨⟨rfl, trivial, by simp⟩, by simp [Sorted], rfl⟩, by simp⟩
          obtain ⟨done, v, hloop, hfirst, hi, hmax⟩ : Ends o events (fhs events.length) fuel
              ⟨0, .start o.stack (events.map UapiEvent.name),
                bstCreate c.table.link (fhs events.length)⟩ :=
            eventLoop_ends hempty (Nat.zero_add _) rfl (roomy_start _ _) (by omega)
          rw [htable₁ rfl]
          simp only [hloop, Bool.true_eq_false, if_false]
          by_cases haccepted : (done && o.accepted v.encoder.payload) = true
          · -- the table of a successful registration
            obtain ⟨T, hT, hsub⟩ := hfirst
            have hlength := length_le_of_holdsFirst hT.holds.nodup hsub
            have hfits : T.nodes.length < 2 ^ (v.table.maxHeight + 1) := by
              rw [hmax, Nat.pow_succ]
              have hless := lt_two_pow_fhs events.length
              omega
            obtain ⟨t₁, r₁, r₂, hbalance, hfirst₁, hprint⟩ := print_returns hT hfits
              (by omega : 2 * T.nodes.length + 4 ≤ fuel) c₁.iterator
            refine ⟨⟨0, v.i, { c₁ with registered := true, table := r₂.2, iterator := r₂.1 }⟩, ?_,
              .done hregistered v.i _ rfl hmade₁⟩
            simp only [haccepted, hbalance, uapicEventTablePrintf, hfirst₁, hprint, bind,
              Except.bind, if_true]
          · refine ⟨⟨-1, v.i, { c₁ with table := v.table }⟩, ?_,
              .failed hregistered v.i _ hreg₁ hmade₁ hi hfirst⟩
            simp only [haccepted, Bool.false_eq_true, if_false]

end Register

end LinuxC.Uapi
