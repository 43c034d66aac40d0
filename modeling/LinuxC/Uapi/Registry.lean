import LinuxC.Bst.Retry
import LinuxC.Framework.Transition
import LinuxC.Uapi.ClientTable

/-!
# Registrations by several threads (`uapi/uapi_client.c`)

Any thread of a process may call `uapi_event_register`.  What a call does under the lock is one
step.  A call that fails has released the lock when it takes its nodes out again, and takes them out
of `subs->table`, whatever table that is by then: each of these turns is a step of its own, between
which the other threads do theirs.

A call whose nodes are out of the table when the next one gets the lock leaves nothing linked
(`failed_registration_unlinks`).  If another call comes first, its new table takes the place of the
table with the nodes, and they stay linked there (`failed_registration_linked`).
-/

namespace LinuxC.Uapi

open Bst

/-! ## The system -/

/-- A call that has failed and released the lock: the nodes before `i` are still to be taken out.
`table` is the number of the table that the call has made. -/
structure Undoing where
  events : List UapiEvent
  i : ℕ
  table : ℕ

/-- A call that has returned, with the number of the table that it has made. -/
structure Returned where
  ret : ℤ
  events : List UapiEvent
  table : Option ℕ

/-- The variables, the tables that were `subs->table` before, the calls that are taking out their
nodes, and those that have returned. -/
structure Registry where
  client : Client
  replaced : List (BstTable UapiEvent)
  undoing : List Undoing
  returned : List Returned

/-- The table with this number.  The links are in the nodes, so they are those of the memory as it is
now. -/
def Registry.tableAt (s : Registry) (k : ℕ) : BstTable UapiEvent :=
  match s.replaced[k]? with
  | some t => { t with link := s.client.table.link }
  | none => s.client.table

/-- A thread makes the call up to its release of the lock, or the call at the place `j` of `undoing`
takes out a node. -/
inductive RegistryLabel
  | call (o : Outside) (events : List UapiEvent)
  | undo (j : ℕ)

/-- The tables that were `subs->table` when a call has written to it, which it does unless the client
is registered. -/
def Registry.retired (s : Registry) : List (BstTable UapiEvent) :=
  if s.client.made && !s.client.registered then s.replaced ++ [s.client.table] else s.replaced

/-- A call, up to its release of the lock.  Its loops get as many turns as they ever need. -/
def Registry.call (o : Outside) (events : List UapiEvent) (s : Registry) : Option Registry :=
  match registerSection o (2 * events.length + 4) events s.client with
  | .error _ => none
  | .ok r =>
      let table :=
        if r.client.made && !s.client.registered then some s.retired.length else none
      if r.ret = 0 ∨ r.i = 0 then
        some ⟨r.client, s.retired, s.undoing, s.returned ++ [⟨r.ret, events, table⟩]⟩
      else some ⟨r.client, s.retired, s.undoing ++ [⟨events, r.i, s.retired.length⟩], s.returned⟩

/-- A turn of the loop of a call, on the table that `subs->table` is now. -/
def Registry.undo (j : ℕ) (s : Registry) : Option Registry :=
  match s.undoing[j]? with
  | none => none
  | some u =>
      if s.client.made then
        match undoTurn u.events (u.i - 1) s.client.table with
        | .error _ => none
        | .ok t =>
            let client := { s.client with table := t }
            if u.i - 1 = 0 then
              some ⟨client, s.replaced, s.undoing.eraseIdx j,
                s.returned ++ [⟨-1, u.events, some u.table⟩]⟩
            else some ⟨client, s.replaced, s.undoing.set j { u with i := u.i - 1 }, s.returned⟩
      else none

/-- One step.  There is none where the program ends or follows a pointer to no table. -/
def registryStep (s : Registry) : RegistryLabel → Option (Registry × List Empty)
  | .call o events => (s.call o events).map fun s => (s, [])
  | .undo j => (s.undo j).map fun s => (s, [])

/-- The start. -/
def Registry.init (table : BstTable UapiEvent) (iterator : BstIterator UapiEvent) : Registry :=
  ⟨clientInit table iterator, [], [], []⟩

/-- **No call comes in between**: a call gets the lock when no other one is taking out its nodes.
And `bst_create` does not fail once more when the iterator has been freed by a failure of it. -/
def Alone (s : Registry) : RegistryLabel → Prop
  | .call o _ => s.undoing = [] ∧ Creatable o s.client
  | .undo _ => True

instance (s : Registry) (l : RegistryLabel) : Decidable (Alone s l) :=
  match l with
  | .call o _ => inferInstanceAs
      (Decidable (s.undoing = [] ∧ (s.client.registered = false → s.client.held = .freed →
        o.table = true)))
  | .undo _ => .isTrue trivial

/-- **The nodes of failed registrations are unlinked**: a call that has returned `-1` has none of its
nodes in the table that it has made.  After a success nothing changes any more. -/
structure Unlinked (s : Registry) : Prop where
  result : ∀ x ∈ s.returned, x.ret = 0 ∨ x.ret = -1
  unlinked : ∀ x ∈ s.returned, x.ret = -1 → ∀ k, x.table = some k →
    ∃ T, IsTree uapiEventCompareFunc (s.tableAt k) T ∧ ∀ e ∈ x.events, e ∉ T.nodes
  kept : (∃ x ∈ s.returned, x.ret = 0) → ∀ l s' es, registryStep s l = some (s', es) →
    s'.client = s.client

/-- **Every call goes on**: it comes to its release of the lock, and takes its nodes out. -/
structure Proceeds (s : Registry) : Prop where
  call : ∀ (o : Outside) (events : List UapiEvent), s.undoing = [] → Creatable o s.client →
    registryStep s (.call o events) ≠ none
  undo : ∀ j < s.undoing.length, registryStep s (.undo j) ≠ none

/-! ## The invariant -/

def Cleared (t : BstTable UapiEvent) : Prop := t.root = none ∧ t.count = 0

lemma Cleared.isTree {t : BstTable UapiEvent} (h : Cleared t)
    (link : UapiEvent → Dir → Option UapiEvent) :
    IsTree uapiEventCompareFunc { t with link := link } .nil :=
  ⟨⟨h.1, trivial, List.nodup_nil⟩, List.Pairwise.nil, h.2⟩

lemma HoldsFirst.cleared {events : List UapiEvent} {t : BstTable UapiEvent}
    (h : HoldsFirst events 0 t) : Cleared t :=
  ⟨h.empty.holds.root, h.empty.count⟩

/-- What the calls are doing.  The table of a client that is not registered is empty, or there is one
call that takes its nodes out of it. -/
inductive Phase (s : Registry) : Prop
  | registered (hreg : s.client.registered = true) (hundoing : s.undoing = [])
  | free (hreg : s.client.registered = false) (hundoing : s.undoing = [])
      (htable : s.client.made = true → Cleared s.client.table)
  | undoing (hreg : s.client.registered = false) (hmade : s.client.made = true) (u : Undoing)
      (hundoing : s.undoing = [u]) (hpos : 0 < u.i) (hi : u.i ≤ u.events.length)
      (hfirst : HoldsFirst u.events u.i s.client.table) (hnumber : u.table = s.replaced.length)

lemma Phase.of_returned {s : Registry} (h : Phase s) (xs : List Returned) :
    Phase { s with returned := xs } := by
  cases h with
  | registered hreg hundoing => exact .registered hreg hundoing
  | free hreg hundoing htable => exact .free hreg hundoing htable
  | undoing hreg hmade u hundoing hpos hi hfirst hnumber =>
      exact .undoing hreg hmade u hundoing hpos hi hfirst hnumber

/-- **The invariant**: the calls are in one of the phases, the tables that were replaced are empty,
and a call that has returned `-1` has made one of these, or the present table while nobody works on
it. -/
structure Orderly (s : Registry) : Prop where
  phase : Phase s
  replaced : ∀ t ∈ s.replaced, Cleared t
  result : ∀ x ∈ s.returned, x.ret = 0 ∨ x.ret = -1
  success : (∃ x ∈ s.returned, x.ret = 0) → s.client.registered = true
  number : ∀ x ∈ s.returned, x.ret = -1 → ∀ k, x.table = some k → k < s.replaced.length ∨
    k = s.replaced.length ∧ s.client.registered = false ∧ s.client.made = true ∧ s.undoing = []

section Invariant

variable {s s' : Registry} {o : Outside} {events : List UapiEvent} {j : ℕ}

lemma orderly_init (table : BstTable UapiEvent) (iterator : BstIterator UapiEvent) :
    Orderly (.init table iterator) where
  phase := .free rfl rfl fun h => by cases h
  replaced := fun t ht => by cases ht
  result := fun x hx => by cases hx
  success := fun ⟨x, hx, _⟩ => by cases hx
  number := fun x hx => by cases hx

lemma Orderly.fails {table : Option ℕ} (h : Orderly s)
    (hnumber : ∀ k, table = some k → k = s.replaced.length ∧ s.client.registered = false ∧
      s.client.made = true ∧ s.undoing = []) :
    Orderly { s with returned := s.returned ++ [⟨-1, events, table⟩] } := by
  have hcases : ∀ x ∈ s.returned ++ [⟨-1, events, table⟩],
      x ∈ s.returned ∨ x = ⟨-1, events, table⟩ := by simp
  refine ⟨h.phase.of_returned _, h.replaced, fun x hx => ?_, ?_, fun x hx hret k hk => ?_⟩
  · rcases hcases x hx with hold | rfl
    · exact h.result x hold
    · exact .inr rfl
  · rintro ⟨x, hx, hzero⟩
    rcases hcases x hx with hold | rfl
    · exact h.success ⟨x, hold, hzero⟩
    · cases hzero
  · rcases hcases x hx with hold | rfl
    · exact h.number x hold hret k hk
    · exact .inr (hnumber k hk)

lemma Orderly.succeeds {table : Option ℕ} (h : Orderly s) (hreg : s.client.registered = true) :
    Orderly { s with returned := s.returned ++ [⟨0, events, table⟩] } := by
  have hcases : ∀ x ∈ s.returned ++ [⟨0, events, table⟩],
      x ∈ s.returned ∨ x = ⟨0, events, table⟩ := by simp
  refine ⟨h.phase.of_returned _, h.replaced, fun x hx => ?_, fun _ => hreg,
    fun x hx hret k hk => ?_⟩
  · rcases hcases x hx with hold | rfl
    · exact h.result x hold
    · exact .inl rfl
  · rcases hcases x hx with hold | rfl
    · exact h.number x hold hret k hk
    · cases hret

/-- **The tables are replaced.**  The one of a client that is not registered is empty, and every call
that has failed has made one of those that were replaced. -/
lemma Orderly.retire (h : Orderly s) (hreg : s.client.registered = false)
    (hundoing : s.undoing = []) :
    (∀ t ∈ s.retired, Cleared t) ∧ (∀ x ∈ s.returned, x.ret ≠ 0) ∧
      ∀ x ∈ s.returned, x.ret = -1 → ∀ k, x.table = some k → k < s.retired.length := by
  have hcleared : s.client.made = true → Cleared s.client.table := by
    cases h.phase with
    | registered hreg' => rw [hreg] at hreg'; cases hreg'
    | free _ _ htable => exact htable
    | undoing _ _ u hundoing' => rw [hundoing] at hundoing'; cases hundoing'
  refine ⟨fun t ht => ?_, fun x hx hzero => ?_, fun x hx hret k hk => ?_⟩
  · unfold Registry.retired at ht
    split_ifs at ht with hmade
    · rcases List.mem_append.mp ht with hold | hnew
      · exact h.replaced t hold
      · rw [List.mem_singleton.mp hnew]
        exact hcleared (by simp_all)
    · exact h.replaced t ht
  · have hset := h.success ⟨x, hx, hzero⟩
    rw [hreg] at hset
    cases hset
  · have hlength : s.replaced.length ≤ s.retired.length := by
      unfold Registry.retired
      split_ifs
      · simp
      · exact le_rfl
    rcases h.number x hx hret k hk with hlt | ⟨rfl, -, hmade, -⟩
    · exact hlt.trans_le hlength
    · simp [Registry.retired, hmade, hreg]

/-- **The section of a call**: whatever it makes of the client, the records stay in order when the
control is where one of the phases has it. -/
lemma Orderly.locked (h : Orderly s) (hreg : s.client.registered = false)
    (hundoing : s.undoing = []) {c' : Client} {us : List Undoing}
    (hphase : Phase ⟨c', s.retired, us, s.returned⟩) :
    Orderly ⟨c', s.retired, us, s.returned⟩ := by
  obtain ⟨hretired, hnone, hnumber⟩ := h.retire hreg hundoing
  exact ⟨hphase, hretired, h.result, fun ⟨x, hx, hzero⟩ => absurd hzero (hnone x hx),
    fun x hx hret k hk => .inl (hnumber x hx hret k hk)⟩

/-- **A call**, with no other one taking out its nodes. -/
lemma Orderly.call (h : Orderly s) (hundoing : s.undoing = []) (hcreate : Creatable o s.client)
    (events : List UapiEvent) : ∃ s', s.call o events = some s' ∧ Orderly s' ∧
      (s.client.registered = true → s'.client = s.client) := by
  obtain ⟨r, hsection, hcase⟩ : ∃ r,
      registerSection o (2 * events.length + 4) events s.client = .ok r ∧
        Sectioned o events s.client r :=
    registerSection_returns hcreate le_rfl
  have hkept : ∀ {c' : Client}, s.client.registered = false →
      s.client.registered = true → c' = s.client := by
    intro c' hreg hset
    rw [hreg] at hset
    cases hset
  unfold Registry.call
  simp only [hsection]
  cases hcase with
  | refused hreg =>
      refine ⟨_, if_pos (.inr rfl), ?_, fun _ => rfl⟩
      have hretired : s.retired = s.replaced := by simp [Registry.retired, hreg]
      rw [hretired]
      exact h.fails fun k hk => by simp [hreg] at hk
  | noMemory hreg c' hreg' hmade' =>
      refine ⟨_, if_pos (.inr rfl), ?_, hkept hreg⟩
      have hold := h.locked hreg hundoing
        (.free hreg' hundoing fun hmade => by rw [hmade'] at hmade; cases hmade)
      exact hold.fails fun k hk => by simp [hmade'] at hk
  | done hreg i c' hreg' hmade' =>
      refine ⟨_, if_pos (.inl rfl), ?_, hkept hreg⟩
      exact (h.locked hreg hundoing (.registered hreg' hundoing)).succeeds hreg'
  | failed hreg i c' hreg' hmade' hi hfirst =>
      by_cases hzero : i = 0
      · -- no node was put into the table
        subst hzero
        refine ⟨_, if_pos (.inr rfl), ?_, hkept hreg⟩
        have hold := h.locked hreg hundoing (.free hreg' hundoing fun _ => hfirst.cleared)
        refine hold.fails fun k hk => ?_
        have hlast : k = s.retired.length := by simpa [hmade', hreg, eq_comm] using hk
        exact ⟨hlast, hreg', hmade', hundoing⟩
      · refine ⟨_, if_neg (by simp [hzero]), ?_, hkept hreg⟩
        exact h.locked hreg hundoing (.undoing hreg' hmade' ⟨events, i, s.retired.length⟩
          (by simp [hundoing]) (Nat.pos_of_ne_zero hzero) hi hfirst rfl)

lemma Orderly.undo (h : Orderly s) (hj : j < s.undoing.length) :
    ∃ s', s.undo j = some s' ∧ Orderly s' ∧ s.client.registered = false := by
  cases h.phase with
  | registered _ hundoing => simp [hundoing] at hj
  | free _ hundoing => simp [hundoing] at hj
  | undoing hreg hmade u hundoing hpos hi hfirst hnumber =>
      obtain rfl : j = 0 := by simpa [hundoing] using hj
      obtain ⟨i, hsucc⟩ : ∃ i, u.i = i + 1 := ⟨u.i - 1, by omega⟩
      rw [hsucc] at hfirst hi
      obtain ⟨t, hturn, hfirst'⟩ := undoTurn_spec hfirst hi
      have hold : ∀ x ∈ s.returned, x.ret = -1 → ∀ k, x.table = some k → k < s.replaced.length := by
        intro x hx hret k hk
        rcases h.number x hx hret k hk with hlt | ⟨-, -, -, hnone⟩
        · exact hlt
        · rw [hundoing] at hnone
          cases hnone
      have hnone : (∃ x ∈ s.returned, x.ret = 0) → s.client.registered = true := h.success
      simp only [Registry.undo, hundoing, List.getElem?_cons_zero, hsucc, Nat.add_sub_cancel, hturn]
      rw [if_pos hmade]
      by_cases hzero : i = 0
      · -- the last turn
        subst hzero
        refine ⟨_, if_pos rfl, ?_, hreg⟩
        have hleft : Orderly ⟨{ s.client with table := t }, s.replaced, [], s.returned⟩ :=
          ⟨.free hreg rfl fun _ => hfirst'.cleared, h.replaced, h.result, hnone,
            fun x hx hret k hk => .inl (hold x hx hret k hk)⟩
        refine hleft.fails fun k hk => ?_
        have hlast : k = s.replaced.length := by
          rw [← Option.some.inj hk, hnumber]
        exact ⟨hlast, hreg, hmade, rfl⟩
      · refine ⟨_, if_neg hzero, ?_, hreg⟩
        exact ⟨.undoing hreg hmade { u with i := i } rfl (Nat.pos_of_ne_zero hzero)
          (Nat.le_of_succ_le hi) hfirst' hnumber, h.replaced, h.result, hnone,
          fun x hx hret k hk => .inl (hold x hx hret k hk)⟩

/-- **One step** that no call disturbs. -/
lemma Orderly.step {l : RegistryLabel} {es : List Empty} (h : Orderly s) (hok : Alone s l)
    (hstep : registryStep s l = some (s', es)) : Orderly s' := by
  cases l with
  | call o events =>
      obtain ⟨s₁, hcall, horderly, -⟩ := h.call hok.1 hok.2 events
      obtain ⟨s₂, hcall', heq⟩ := Option.map_eq_some_iff.mp hstep
      obtain ⟨rfl, -⟩ := Prod.mk.inj heq
      obtain rfl := Option.some.inj (hcall.symm.trans hcall')
      exact horderly
  | undo j =>
      obtain ⟨s₂, hundo', heq⟩ := Option.map_eq_some_iff.mp hstep
      obtain ⟨rfl, -⟩ := Prod.mk.inj heq
      have hj : j < s.undoing.length := by
        by_contra hle
        rw [Registry.undo, List.getElem?_eq_none (not_lt.mp hle)] at hundo'
        cases hundo'
      obtain ⟨s₁, hundo, horderly, -⟩ := h.undo hj
      obtain rfl := Option.some.inj (hundo.symm.trans hundo')
      exact horderly

/-- What the invariant says of the tables of the calls that have failed. -/
lemma Orderly.unlinked (h : Orderly s) : Unlinked s where
  result := h.result
  unlinked x hx hret k hk := by
    refine ⟨.nil, ?_, fun e _ he => by cases he⟩
    unfold Registry.tableAt
    rcases h.number x hx hret k hk with hlt | ⟨rfl, hreg, hmade, hundoing⟩
    · rw [List.getElem?_eq_getElem hlt]
      exact (h.replaced _ (List.getElem_mem hlt)).isTree _
    · rw [List.getElem?_eq_none le_rfl]
      cases h.phase with
      | registered hreg' => rw [hreg] at hreg'; cases hreg'
      | free _ _ htable => exact (htable hmade).isTree s.client.table.link
      | undoing _ _ u hundoing' => rw [hundoing] at hundoing'; cases hundoing'
  kept hsuccess l s' es hstep := by
    have hset := h.success hsuccess
    have hundoing : s.undoing = [] := by
      cases h.phase with
      | registered _ hundoing => exact hundoing
      | free hreg => rw [hset] at hreg; cases hreg
      | undoing hreg => rw [hset] at hreg; cases hreg
    cases l with
    | call o events =>
        have hcreate : Creatable o s.client := fun hreg => by rw [hset] at hreg; cases hreg
        obtain ⟨s₁, hcall, -, hkept⟩ := h.call hundoing hcreate events
        obtain ⟨s₂, hcall', heq⟩ := Option.map_eq_some_iff.mp hstep
        obtain ⟨rfl, -⟩ := Prod.mk.inj heq
        obtain rfl := Option.some.inj (hcall.symm.trans hcall')
        exact hkept hset
    | undo j => simp [registryStep, Registry.undo, hundoing] at hstep

lemma Orderly.proceeds (h : Orderly s) : Proceeds s where
  call o events hundoing hcreate := by
    obtain ⟨s', hcall, -⟩ := h.call hundoing hcreate events
    simp [registryStep, hcall]
  undo j hj := by
    obtain ⟨s', hundo, -⟩ := h.undo hj
    simp [registryStep, hundo]

end Invariant

/-! ## The result -/

/-- **A failed registration takes the caller's nodes out of its table**, and leaves the nodes of an
earlier successful one alone: in every run in which no call gets the lock before the nodes of another
one are out, for all events and all failures. -/
theorem failed_registration_unlinks {table : BstTable UapiEvent} {iterator : BstIterator UapiEvent}
    {ls : List RegistryLabel} {s : Registry} {es : List Empty}
    (halone : Along registryStep Alone ls (.init table iterator))
    (hrun : run registryStep ls (.init table iterator) = some (s, es)) :
    Unlinked s ∧ Proceeds s := by
  have horderly : Orderly s :=
    run_invariant (fun h hok hstep => h.step hok hstep) (orderly_init table iterator) halone hrun
  exact ⟨horderly.unlinked, horderly.proceeds⟩

/-- The variables of a process at the start. -/
def sampleRegistry : Registry := .init (bstCreate (fun _ _ => none) 0) ⟨none, fun _ => none, 0, 0⟩

/-- Two nodes named `a` and one named `b`: the broker refuses them, they are taken out, the broker
takes them, and a third call is too late. -/
def sampleTurns : List RegistryLabel :=
  [.call (sampleOutside false) [⟨1, [97]⟩, ⟨2, [98]⟩, ⟨3, [97]⟩], .undo 0, .undo 0, .undo 0,
    .call (sampleOutside true) [⟨1, [97]⟩, ⟨2, [98]⟩, ⟨3, [97]⟩],
    .call (sampleOutside true) [⟨4, [99]⟩]]

theorem failed_registration_unlinks_sample : ∃ s,
    run registryStep sampleTurns sampleRegistry = some (s, []) ∧
      s.returned.map Returned.ret = [-1, 0, -1] ∧ Unlinked s ∧ Proceeds s := by
  have hrets : (run registryStep sampleTurns sampleRegistry).map
      (fun r => r.1.returned.map Returned.ret) = some [-1, 0, -1] := by decide +kernel
  obtain ⟨⟨s, es⟩, hrun, hret⟩ := Option.map_eq_some_iff.mp hrets
  obtain rfl : es = [] := by
    cases es with
    | nil => rfl
    | cons e es => exact e.elim
  have halone : Along registryStep Alone sampleTurns sampleRegistry := by decide +kernel
  exact ⟨s, hrun, hret, failed_registration_unlinks halone hrun⟩

/-- **A call comes in between.**  The broker refuses the nodes `a` and `b`; before they are taken out
another thread registers the node `c`.  The nodes are looked for in its table, and stay linked in the
one that was made for them. -/
theorem failed_registration_linked :
    ¬ ∀ (ls : List RegistryLabel) (s : Registry) (es : List Empty),
      run registryStep ls sampleRegistry = some (s, es) → Unlinked s := by
  intro hall
  have heval : (run registryStep
      [.call (sampleOutside false) [⟨1, [97]⟩, ⟨2, [98]⟩],
        .call (sampleOutside true) [⟨3, [99]⟩], .undo 0, .undo 0] sampleRegistry).map
      (fun r => (r.1.returned.map fun x => (x.ret, x.events, x.table), (r.1.tableAt 0).root)) =
        some ([(0, [⟨3, [99]⟩], some 1), (-1, [⟨1, [97]⟩, ⟨2, [98]⟩], some 0)],
          some ⟨1, [97]⟩) := by decide +kernel
  obtain ⟨⟨s, es⟩, hrun, hdata⟩ := Option.map_eq_some_iff.mp heval
  obtain ⟨hreturned, hroot⟩ := Prod.mk.inj hdata
  obtain ⟨x, hx, hcall⟩ : ∃ x ∈ s.returned,
      (x.ret, x.events, x.table) = (-1, [⟨1, [97]⟩, ⟨2, [98]⟩], some 0) := by
    rw [← List.mem_map, hreturned]
    simp
  obtain ⟨hret, htable⟩ := Prod.mk.inj hcall
  obtain ⟨hevents, htable⟩ := Prod.mk.inj htable
  obtain ⟨T, hT, hfree⟩ := (hall _ s es hrun).unlinked x hx hret 0 htable
  -- the node `a` is the root of the table
  refine hfree ⟨1, [97]⟩ (by simp [hevents]) ?_
  exact Tree.mem_nodes_of_root? (hT.holds.root.symm.trans hroot)

end LinuxC.Uapi
