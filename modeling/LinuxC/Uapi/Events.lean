import LinuxC.Uapi.Broker

/-!
# The lists of the events

`Exact regs b` relates the broker to the registrations in force: the table is an ordered tree, and
the list of an event has one node for every registration that names the event, in their order.
`Exact.register_event` is one round of a registration, for which the registration under way counts
with the names that were treated already; `Exact.unregister` takes a registration out again.

`broker_lists_exact` is about whole histories of the broker, and says to whom a broadcast is
forwarded.
-/

namespace LinuxC.Uapi

open Bst

/-! ## Names -/

lemma strcmp_self (a : List UInt8) : strcmp a a = 0 := by
  induction a with
  | nil => rfl
  | cons x a ih => simp [strcmp, ih]

lemma strcmp_eq_zero {a b : List UInt8} (h : strcmp a b = 0) : a = b := by
  induction a generalizing b with
  | nil =>
      cases b with
      | nil => rfl
      | cons y b => simp [strcmp] at h
  | cons x a ih =>
      cases b with
      | nil => simp [strcmp] at h
      | cons y b =>
          rw [strcmp] at h
          split_ifs at h with hxy
          · rw [hxy, ih h]
          · have : x.toNat = y.toNat := by omega
            exact absurd (UInt8.toNat_inj.mp this) hxy

lemma strcmp_swap (a b : List UInt8) : 0 < strcmp a b ↔ strcmp b a < 0 := by
  induction a generalizing b with
  | nil => cases b <;> simp [strcmp]
  | cons x a ih =>
      cases b with
      | nil => simp [strcmp]
      | cons y b =>
          rw [strcmp, strcmp]
          by_cases hxy : x = y
          · rw [if_pos hxy, if_pos hxy.symm]
            exact ih b
          · rw [if_neg hxy, if_neg (Ne.symm hxy)]
            omega

lemma strcmp_trans {a b c : List UInt8} (hab : strcmp a b ≤ 0) (hbc : strcmp b c < 0) :
    strcmp a c < 0 := by
  induction a generalizing b c with
  | nil =>
      cases c with
      | nil => cases b <;> simp [strcmp] at hbc
      | cons z c => simp [strcmp]
  | cons x a ih =>
      cases b with
      | nil => simp [strcmp] at hab
      | cons y b =>
          cases c with
          | nil => simp [strcmp] at hbc
          | cons z c =>
              rw [strcmp] at hab hbc ⊢
              by_cases hxy : x = y
              · subst hxy
                rw [if_pos rfl] at hab
                split_ifs at hbc ⊢
                · exact ih hab hbc
                · exact hbc
              · rw [if_neg hxy] at hab
                have hne : x.toNat ≠ y.toNat := fun h => hxy (UInt8.toNat_inj.mp h)
                by_cases hyz : y = z
                · subst hyz
                  rw [if_neg hxy]
                  omega
                · rw [if_neg hyz] at hbc
                  have hxz : x ≠ z := by
                    rintro rfl
                    omega
                  rw [if_neg hxz]
                  omega

lemma comparator_event : Comparator uapiEventCompareFunc :=
  ⟨fun a b => strcmp_swap a.name b.name, fun _ _ _ => strcmp_trans⟩

/-- The search by name agrees with the order of the events. -/
lemma consistent_event : Rb.Consistent uapiEventCompareFunc uapiEventSearchFunc where
  below := fun _ _ _ hab hia => strcmp_trans hia hab
  above := by
    intro name a b hab hib
    by_contra hia
    have hlt : strcmp name b.name < 0 := strcmp_trans (not_lt.mp hia) hab
    exact absurd hib (not_le.mpr hlt)

/-! ## Registrations -/

variable {P : Type}

/-- The node of a registration in the list of the event with a name. -/
def nodeOf (name : List UInt8) (g : Registration P) : Option EventLink :=
  if name ∈ g.names then some (.node g.id (g.names.idxOf name)) else none

/-- The list that an event should have: the nodes that the registrations in force have for its name,
in the order of the registrations. -/
def listOf (regs : List (Registration P)) (e : UapiEvent) : List EventLink :=
  regs.filterMap (nodeOf e.name)

/-- The table is an ordered tree of the events `T`, with the lists of the registrations. -/
structure Held (regs : List (Registration P)) (b : UapiBroker P) (T : Tree UapiEvent) : Prop where
  tree : IsTree uapiEventCompareFunc b.etable T
  lists : b.links.FamilyOn {e | e ∈ T.nodes} .head (listOf regs)
  addr : ∀ e ∈ T.nodes, e.addr < b.allocated
  named : ∀ g ∈ regs, ∀ name ∈ g.names, ∃ e ∈ T.nodes, e.name = name

/-- The subscribers of the broker are those of the registrations in force.  The array of a
subscriber has a node for every name of its registration, and the nodes that are filled in are
exactly these. -/
structure Enrolled (regs : List (Registration P)) (b : UapiBroker P) : Prop where
  nodup : (regs.map Registration.id).Nodup
  id_lt : ∀ g ∈ regs, g.id < b.allocated
  names : ∀ g ∈ regs, g.names.Nodup
  record : ∀ g ∈ regs, ∃ u, b.subscriber g.id = some u ∧ u.sevr = g.sevr ∧
    g.names.length ≤ u.count ∧ ∀ i, (u.event i).isSome = true ↔ i < g.names.length
  owner : ∀ s u, b.subscriber s = some u → ∃ g ∈ regs, g.id = s

/-- **The broker and the registrations agree**: the table holds an event for every name in force,
every event has the list that it should have, and the subscribers are those of the registrations.
-/
def Exact (regs : List (Registration P)) (b : UapiBroker P) : Prop :=
  (∃ T, Held regs b T) ∧ Enrolled regs b

lemma exact_init (link : UapiEvent → Dir → Option UapiEvent) (stack : ℕ → Option UapiEvent)
    (links : Links EventLink) : Exact [] (uapiBrokerInit link stack links : UapiBroker P) := by
  refine ⟨⟨.nil, ⟨⟨⟨rfl, trivial, by simp⟩, by simp [Sorted], rfl⟩, ?_, by simp, by simp⟩⟩, ?_⟩
  · exact ⟨fun i => absurd i.2 (by simp), fun i => absurd i.2 (by simp)⟩
  · constructor <;> simp [uapiBrokerInit]

section Lists

variable {regs : List (Registration P)} {g : Registration P} {e : UapiEvent} {a : EventLink}
  {name : List UInt8} {pre : List (List UInt8)} {s : ℕ} {p : P}

lemma mem_listOf (h : a ∈ listOf regs e) :
    ∃ g ∈ regs, e.name ∈ g.names ∧ a = .node g.id (g.names.idxOf e.name) := by
  obtain ⟨g, hg, ha⟩ := List.mem_filterMap.mp h
  unfold nodeOf at ha
  split_ifs at ha with hname
  exact ⟨g, hg, hname, (Option.some.inj ha).symm⟩

lemma node_mem_listOf (hg : g ∈ regs) (hname : e.name ∈ g.names) :
    .node g.id (g.names.idxOf e.name) ∈ listOf regs e :=
  List.mem_filterMap.mpr ⟨g, hg, if_pos hname⟩

lemma listOf_append (regs : List (Registration P)) (g : Registration P) (e : UapiEvent) :
    listOf (regs ++ [g]) e = listOf regs e ++ (nodeOf e.name g).toList := by
  rw [listOf, List.filterMap_append]
  cases h : nodeOf e.name g <;> simp [listOf, h]

/-- **One more name** of the registration under way. -/
lemma listOf_snoc (hname : name ∉ pre) :
    listOf (regs ++ [⟨s, p, pre ++ [name]⟩]) e =
      if e.name = name then listOf (regs ++ [⟨s, p, pre⟩]) e ++ [.node s pre.length]
      else listOf (regs ++ [⟨s, p, pre⟩]) e := by
  rw [listOf_append, listOf_append]
  split_ifs with he
  · subst he
    simp [nodeOf, hname, List.idxOf_append]
  · by_cases hmem : e.name ∈ pre
    · simp [nodeOf, hmem, List.idxOf_append]
    · simp [nodeOf, hmem, he]

lemma listOf_eq_nil (h : ∀ g ∈ regs, e.name ∉ g.names) : listOf regs e = [] := by
  by_contra hne
  obtain ⟨a, rest, hcons⟩ := List.exists_cons_of_ne_nil hne
  have ha : a ∈ listOf regs e := by simp [hcons]
  obtain ⟨g, hg, hname, -⟩ := mem_listOf ha
  exact h g hg hname

/-- The next node of the registration under way is in no list. -/
lemma node_notMem_listOf (hnodup : ((regs ++ [g]).map Registration.id).Nodup) (e : UapiEvent) :
    .node g.id g.names.length ∉ listOf (regs ++ [g]) e := by
  intro hmem
  obtain ⟨g', hg', hname, heq⟩ := mem_listOf hmem
  obtain ⟨hid, hidx⟩ := EventLink.node.inj heq
  rcases List.mem_append.mp hg' with hold | hlast
  · -- the other registrations have other numbers
    rw [List.map_append, List.nodup_append] at hnodup
    exact hnodup.2.2 g'.id (List.mem_map_of_mem hold) g.id (by simp) hid.symm
  · obtain rfl := List.mem_singleton.mp hlast
    have hlt := List.idxOf_lt_length_of_mem hname
    omega

end Lists

section Round

variable {regs : List (Registration P)} {b b' : UapiBroker P} {T T' : Tree UapiEvent}
  {name : List UInt8} {e : UapiEvent} {pre : List (List UInt8)} {s : ℕ} {p : P} {fuel : ℕ}

/-- **The search** finds the event with the name. -/
lemma find_of_tree (h : IsTree uapiEventCompareFunc b.etable T) (name : List UInt8) :
    ∃ r, b.find name = .ok r ∧ ∀ m, r = some m ↔ m ∈ T.nodes ∧ m.name = name := by
  obtain ⟨r, hr, hspec⟩ := h.search consistent_event name (Nat.lt_succ_self _)
  refine ⟨r, hr, fun m => (hspec m).trans (and_congr_right fun _ => ⟨fun h0 => ?_, fun h0 => ?_⟩)⟩
  · exact (strcmp_eq_zero h0).symm
  · rw [uapiEventSearchFunc, h0, strcmp_self]

lemma Held.find (h : Held regs b T) (name : List UInt8) :
    ∃ r, b.find name = .ok r ∧ ∀ m, r = some m ↔ m ∈ T.nodes ∧ m.name = name :=
  find_of_tree h.tree name

lemma Held.unique (h : Held regs b T) {e e' : UapiEvent} (he : e ∈ T.nodes) (he' : e' ∈ T.nodes)
    (hname : e.name = e'.name) : e = e' := by
  apply comparator_event.unique h.tree.sorted he he' (comparator_event.self e)
  rw [uapiEventCompareFunc, hname, strcmp_self]

lemma Held.sameNodes (h : Held regs b T) (htree : IsTree uapiEventCompareFunc b'.etable T')
    (hnodes : T'.nodes = T.nodes) (hlinks : b'.links = b.links)
    (halloc : b'.allocated = b.allocated) : Held regs b' T' := by
  refine ⟨htree, ?_, ?_, ?_⟩
  · rw [hlinks, hnodes]
    exact h.lists
  · rw [halloc, hnodes]
    exact h.addr
  · rw [hnodes]
    exact h.named

/-- **A node is linked** into the list of an event with the next name. -/
lemma Held.link (h : Held (regs ++ [⟨s, p, pre⟩]) b T) (he : e ∈ T.nodes) (hpre : e.name ∉ pre)
    (hnodup : ((regs ++ [⟨s, p, pre⟩] : List (Registration P)).map Registration.id).Nodup) :
    Held (regs ++ [⟨s, p, pre ++ [e.name]⟩]) (b.link s pre.length e) T := by
  refine ⟨h.tree, ?_, h.addr, fun g hg name hname => ?_⟩
  · have hfresh : ∀ j ∈ {e | e ∈ T.nodes},
        EventLink.node s pre.length ∉ .head j :: listOf (regs ++ [⟨s, p, pre⟩]) j := by
      intro j _ hmem
      rcases List.mem_cons.mp hmem with hhead | hmem
      · cases hhead
      · exact node_notMem_listOf hnodup j hmem
    have hlinked := familyOn_listAddTail h.lists he hfresh
    apply hlinked.of_eq
    intro e'
    rw [listOf_snoc hpre, Function.update_apply]
    by_cases hee : (e' : UapiEvent) = e
    · rw [if_pos (congrArg UapiEvent.name hee), if_pos hee, hee]
    · rw [if_neg fun hname => hee (h.unique e'.2 he hname), if_neg hee]
  · rcases List.mem_append.mp hg with hg | hg
    · exact h.named g (List.mem_append_left _ hg) name hname
    · obtain rfl := List.mem_singleton.mp hg
      rcases List.mem_append.mp hname with hname | hname
      · exact h.named ⟨s, p, pre⟩ (by simp) name hname
      · exact ⟨e, he, (List.mem_singleton.mp hname).symm⟩

/-- **A new event**, with an empty list. -/
lemma Held.newEvent (h : Held regs b T) (hnone : ∀ m ∈ T.nodes, m.name ≠ name)
    {t : BstTable UapiEvent} (htree : IsTree uapiEventCompareFunc t T')
    (hnodes : ∀ m, m ∈ T'.nodes ↔ m = ⟨b.allocated, name⟩ ∨ m ∈ T.nodes) :
    Held regs { b.newEvent name with etable := t } T' := by
  have hfree : ∀ m ∈ T.nodes, (⟨b.allocated, name⟩ : UapiEvent) ≠ m := by
    rintro m hm rfl
    exact absurd (h.addr _ hm) (lt_irrefl _)
  have hempty : listOf regs ⟨b.allocated, name⟩ = [] := by
    apply listOf_eq_nil
    intro g hg hname
    obtain ⟨m, hm, hmname⟩ := h.named g hg name hname
    exact hnone m hm hmname
  refine ⟨htree, ?_, fun m hm => ?_, fun g hg name' hname' => ?_⟩
  · have hset : {m | m ∈ T'.nodes} = insert ⟨b.allocated, name⟩ {m | m ∈ T.nodes} := by
      ext m
      exact hnodes m
    rw [hset]
    apply familyOn_initListHead h.lists hempty
    intro m hm hmem
    rcases List.mem_cons.mp hmem with hhead | hmem
    · exact hfree m hm (EventLink.head.inj hhead)
    · obtain ⟨g, -, -, heq⟩ := mem_listOf hmem
      cases heq
  · change m.addr < b.allocated + 1
    rcases (hnodes m).mp hm with rfl | hm
    · exact Nat.lt_succ_self _
    · exact Nat.lt_succ_of_lt (h.addr m hm)
  · obtain ⟨m, hm, hmname⟩ := h.named g hg name' hname'
    exact ⟨m, (hnodes m).mpr (.inr hm), hmname⟩

/-- **Balancing and printing** leave the lists and the subscribers alone. -/
lemma printfLoop_keeps {n : Option UapiEvent} {it : BstIterator UapiEvent} {t : BstTable UapiEvent}
    {r : BstIterator UapiEvent × BstTable UapiEvent} (h : IsTree uapiEventCompareFunc t T)
    (heq : printfLoop fuel n it t = .ok r) : SameNodes uapiEventCompareFunc T r.2 := by
  induction fuel generalizing n it t T with
  | zero => cases heq
  | succ fuel ih =>
      cases n with
      | none =>
          obtain rfl := Except.ok.inj heq
          exact ⟨T, h, rfl⟩
      | some e =>
          rw [printfLoop] at heq
          obtain ⟨r₁, hnext, heq⟩ := ok_of_bind heq
          obtain ⟨T₁, hT₁, hnodes⟩ := h.iteratorStep_of_eq hnext
          exact (ih hT₁ heq).trans hnodes

lemma tableBalance_keeps (h : IsTree uapiEventCompareFunc b.etable T)
    (heq : uapiBrokerTableBalance fuel b = .ok b') :
    SameNodes uapiEventCompareFunc T b'.etable ∧ b'.links = b.links ∧
      b'.subscriber = b.subscriber ∧ b'.allocated = b.allocated := by
  unfold uapiBrokerTableBalance at heq
  split_ifs at heq
  · obtain ⟨t₁, hbalance, heq⟩ := ok_of_bind heq
    unfold uapiEventTablePrintf at heq
    obtain ⟨r₁, hfirst, heq⟩ := ok_of_bind heq
    obtain ⟨r₂, hloop, heq⟩ := ok_of_bind heq
    obtain rfl := Except.ok.inj heq
    obtain ⟨T₁, hT₁, hnodes₁⟩ := h.balance_of_eq hbalance
    obtain ⟨T₂, hT₂, hnodes₂⟩ := hT₁.iteratorEnd_of_eq hfirst
    exact ⟨(printfLoop_keeps hT₂ hloop).trans (hnodes₂.trans hnodes₁), rfl, rfl, rfl⟩
  · obtain rfl := Except.ok.inj heq
    exact ⟨⟨T, h, rfl⟩, rfl, rfl, rfl⟩

/-- The subscribers do not depend on the table and the lists. -/
lemma Enrolled.of_eq (h : Enrolled regs b) (hsub : b'.subscriber = b.subscriber)
    (halloc : b.allocated ≤ b'.allocated) : Enrolled regs b' where
  nodup := h.nodup
  id_lt := fun g hg => lt_of_lt_of_le (h.id_lt g hg) halloc
  names := h.names
  record := by
    rw [hsub]
    exact h.record
  owner := by
    rw [hsub]
    exact h.owner

/-- **A node is filled in** for the next name. -/
lemma Enrolled.setNode (h : Enrolled (regs ++ [⟨s, p, pre⟩]) b)
    (hroom : ∀ u, b.subscriber s = some u → pre.length < u.count) (hname : name ∉ pre) :
    Enrolled (regs ++ [⟨s, p, pre ++ [name]⟩]) (b.setNode s pre.length e) := by
  have hids : (regs ++ [⟨s, p, pre ++ [name]⟩] : List (Registration P)).map Registration.id =
      (regs ++ [⟨s, p, pre⟩] : List (Registration P)).map Registration.id := by simp
  have hother : ∀ g ∈ regs, g.id ≠ s := by
    intro g hg
    have hnodup := h.nodup
    rw [List.map_append, List.nodup_append] at hnodup
    exact hnodup.2.2 g.id (List.mem_map_of_mem hg) s (by simp)
  refine ⟨hids ▸ h.nodup, fun g hg => ?_, fun g hg => ?_, fun g hg => ?_, fun s' u hu => ?_⟩
  · rcases List.mem_append.mp hg with hg | hg
    · exact h.id_lt g (List.mem_append_left _ hg)
    · obtain rfl := List.mem_singleton.mp hg
      exact h.id_lt ⟨s, p, pre⟩ (by simp)
  · rcases List.mem_append.mp hg with hg | hg
    · exact h.names g (List.mem_append_left _ hg)
    · obtain rfl := List.mem_singleton.mp hg
      have hnodup := h.names ⟨s, p, pre⟩ (by simp)
      exact List.nodup_append.mpr ⟨hnodup, by simp, by
        intro a ha a' ha'
        rw [List.mem_singleton.mp ha']
        rintro rfl
        exact hname ha⟩
  · rcases List.mem_append.mp hg with hg | hg
    · obtain ⟨u, hu, hrest⟩ := h.record g (List.mem_append_left _ hg)
      exact ⟨u, (Function.update_of_ne (hother g hg) ..).trans hu, hrest⟩
    · obtain rfl := List.mem_singleton.mp hg
      obtain ⟨u, hu, hsevr, -, hevent⟩ := h.record ⟨s, p, pre⟩ (by simp)
      refine ⟨{ u with event := Function.update u.event pre.length (some e) }, ?_, hsevr, ?_, ?_⟩
      · change Function.update b.subscriber s _ s = _
        rw [Function.update_self, show b.subscriber s = some u from hu]
        rfl
      · rw [List.length_append]
        exact hroom u hu
      · intro i
        change (Function.update u.event pre.length (some e) i).isSome = true ↔ _
        rw [List.length_append, List.length_singleton, Function.update_apply]
        split_ifs with hi
        · simp [hi]
        · rw [hevent i]
          change i < pre.length ↔ _
          omega
  · by_cases hs : s' = s
    · subst hs
      exact ⟨⟨s', p, pre ++ [name]⟩, by simp, rfl⟩
    · have hu' : b.subscriber s' = some u := (Function.update_of_ne hs ..).symm.trans hu
      obtain ⟨g, hg, hid⟩ := h.owner s' u hu'
      rcases List.mem_append.mp hg with hg | hg
      · exact ⟨g, List.mem_append_left _ hg, hid⟩
      · obtain rfl := List.mem_singleton.mp hg
        exact absurd hid.symm hs

/-- The sizes of the arrays do not change. -/
def SameCount (b b' : UapiBroker P) (s : ℕ) : Prop :=
  ∀ u', b'.subscriber s = some u' → ∃ u, b.subscriber s = some u ∧ u'.count = u.count

lemma sameCount_setNode (b : UapiBroker P) (s i : ℕ) (e : UapiEvent) :
    SameCount b (b.setNode s i e) s := by
  intro u' hu'
  change Function.update b.subscriber s _ s = some u' at hu'
  rw [Function.update_self] at hu'
  obtain ⟨u, hu, rfl⟩ := Option.map_eq_some_iff.mp hu'
  exact ⟨u, hu, rfl⟩

section RegisterEvent

variable {i : ℕ}

lemma registerEvent_known {oom : Bool} {e : UapiEvent} (hfind : b.find name = .ok (some e)) :
    registerEvent oom fuel s i name b = .ok (some ((b.link s i e).setNode s i e)) := by
  unfold registerEvent
  rw [hfind]
  rfl

lemma registerEvent_oom (hfind : b.find name = .ok none) :
    registerEvent true fuel s i name b = .ok none := by
  unfold registerEvent
  rw [hfind]
  rfl

lemma registerEvent_new {t : BstTable UapiEvent} (hfind : b.find name = .ok none)
    (hinsert : bstInsert uapiEventCompareFunc (b.etable.count + 1) ⟨b.allocated, name⟩ b.etable =
      .ok (t, ⟨b.allocated, name⟩)) :
    registerEvent false fuel s i name b =
      (uapiBrokerTableBalance fuel { (b.newEvent name).link s i ⟨b.allocated, name⟩ with
        etable := t, etableImbalance := b.etableImbalance + 1 } >>= fun b' =>
          .ok (some (b'.setNode s i ⟨b.allocated, name⟩))) := by
  unfold registerEvent
  rw [hfind]
  change (bstInsert uapiEventCompareFunc (b.etable.count + 1) ⟨b.allocated, name⟩ b.etable >>= _) = _
  rw [hinsert]
  rfl

end RegisterEvent

lemma Exact.register_event {oom : Bool} (h : Exact (regs ++ [⟨s, p, pre⟩]) b)
    (hroom : ∀ u, b.subscriber s = some u → pre.length < u.count) (hname : name ∉ pre)
    (heq : registerEvent oom fuel s pre.length name b = .ok (some b')) :
    Exact (regs ++ [⟨s, p, pre ++ [name]⟩]) b' ∧ SameCount b b' s := by
  obtain ⟨⟨T, hheld⟩, henr⟩ := h
  obtain ⟨r, hfind, hspec⟩ := hheld.find name
  cases r with
  | some e =>
      rw [registerEvent_known hfind] at heq
      obtain rfl := Option.some.inj (Except.ok.inj heq)
      obtain ⟨he, rfl⟩ := (hspec e).mp rfl
      have hlink := hheld.link he hname henr.nodup
      have henr' : Enrolled (regs ++ [⟨s, p, pre⟩]) (b.link s pre.length e) :=
        henr.of_eq rfl (le_refl _)
      have hcount : SameCount b ((b.link s pre.length e).setNode s pre.length e) s :=
        sameCount_setNode (b.link s pre.length e) s pre.length e
      exact ⟨⟨⟨T, hlink.sameNodes hlink.tree rfl rfl rfl⟩, henr'.setNode hroom hname⟩, hcount⟩
  | none =>
      cases oom with
      | true =>
        rw [registerEvent_oom hfind] at heq
        cases heq
      | false =>
        have hnone : ∀ m ∈ T.nodes, m.name ≠ name := fun m hm hmname => by
          have := (hspec m).mpr ⟨hm, hmname⟩
          cases this
        have hnew : ∀ m ∈ T.nodes, uapiEventCompareFunc ⟨b.allocated, name⟩ m ≠ 0 :=
          fun m hm h0 => hnone m hm (strcmp_eq_zero h0).symm
        obtain ⟨t, T', hinsert, htree, ⟨ys, zs, hold, hadded⟩, -⟩ :=
          hheld.tree.insert_new comparator_event hnew (Nat.lt_succ_self _)
        have hnodes : ∀ m, m ∈ T'.nodes ↔ m = ⟨b.allocated, name⟩ ∨ m ∈ T.nodes := by
          intro m
          rw [hold, hadded]
          simp only [List.mem_append, List.mem_cons]
          tauto
        have hlink := (hheld.newEvent hnone htree hnodes).link ((hnodes _).mpr (.inl rfl)) hname
          henr.nodup
        rw [registerEvent_new hfind hinsert] at heq
        obtain ⟨b₁, hbalance, heq⟩ := ok_of_bind heq
        obtain rfl := Option.some.inj (Except.ok.inj heq)
        obtain ⟨⟨T₁, hT₁, hnodes₁⟩, hlinks₁, hsub₁, halloc₁⟩ := tableBalance_keeps htree hbalance
        have henr₁ : Enrolled (regs ++ [⟨s, p, pre⟩]) b₁ :=
          henr.of_eq hsub₁ (halloc₁ ▸ Nat.le_succ _)
        have hroom₁ : ∀ u, b₁.subscriber s = some u → pre.length < u.count := by
          rw [hsub₁]
          exact hroom
        have hheld₁ := hlink.sameNodes hT₁ hnodes₁ hlinks₁ halloc₁
        refine ⟨⟨⟨T₁, hheld₁.sameNodes hT₁ rfl rfl rfl⟩, henr₁.setNode hroom₁ hname⟩, ?_⟩
        intro u' hu'
        obtain ⟨u, hu, hcount⟩ := sameCount_setNode b₁ s pre.length _ u' hu'
        exact ⟨u, by rwa [hsub₁] at hu, hcount⟩

/-- **The rounds of a registration.**  After an error some of the names are registered. -/
lemma Exact.register_events {oom : ℕ → Bool} {names : List (List UInt8)}
    {r : Bool × UapiBroker P} (h : Exact (regs ++ [⟨s, p, pre⟩]) b)
    (hroom : ∀ u, b.subscriber s = some u → pre.length + names.length ≤ u.count)
    (hnames : (pre ++ names).Nodup)
    (heq : registerEvents oom fuel s pre.length names b = .ok r) :
    (r.1 = true → Exact (regs ++ [⟨s, p, pre ++ names⟩]) r.2) ∧
      (r.1 = false → ∃ pre', Exact (regs ++ [⟨s, p, pre'⟩]) r.2) := by
  induction names generalizing b pre with
  | nil =>
      obtain rfl := Except.ok.inj heq
      rw [List.append_nil]
      exact ⟨fun _ => h, fun hf => by cases hf⟩
  | cons name names ih =>
      rw [registerEvents] at heq
      obtain ⟨b₁, hround, heq⟩ := ok_of_bind heq
      cases b₁ with
      | none =>
          obtain rfl := Except.ok.inj heq
          exact ⟨fun hf => (by cases hf), fun _ => ⟨pre, h⟩⟩
      | some b₁ =>
          have hsplit : pre ++ name :: names = (pre ++ [name]) ++ names := by simp
          have hname : name ∉ pre := fun hmem =>
            (List.nodup_append.mp hnames).2.2 name hmem name (by simp) rfl
          have hroom₀ : ∀ u, b.subscriber s = some u → pre.length < u.count := by
            intro u hu
            have := hroom u hu
            rw [List.length_cons] at this
            omega
          obtain ⟨h₁, hcount⟩ := h.register_event hroom₀ hname hround
          have hroom₁ : ∀ u, b₁.subscriber s = some u →
              (pre ++ [name]).length + names.length ≤ u.count := by
            intro u' hu'
            obtain ⟨u, hu, hsame⟩ := hcount u' hu'
            have := hroom u hu
            rw [List.length_cons] at this
            rw [hsame, List.length_append, List.length_singleton]
            omega
          rw [hsplit] at hnames ⊢
          apply ih h₁ hroom₁ hnames
          rwa [List.length_append, List.length_singleton]

end Round

/-! ## Unregistration -/

section Unregister

variable {regs : List (Registration P)} {b : UapiBroker P} {T : Tree UapiEvent}
  {u : UapiSubscriber P} {g : Registration P} {s : ℕ} {l : Links EventLink}

/-- The nodes of the subscriber up to an index. -/
def firstNodes (s k : ℕ) : List EventLink := (List.range k).map (EventLink.node s)

def listWithout (regs : List (Registration P)) (ns : List EventLink) (e : UapiEvent) :
    List EventLink := (listOf regs e).filter fun a => a ∉ ns

lemma mem_firstNodes {s' i k : ℕ} : EventLink.node s' i ∈ firstNodes s k ↔ s' = s ∧ i < k := by
  unfold firstNodes
  constructor
  · intro h
    obtain ⟨j, hj, heq⟩ := List.mem_map.mp h
    obtain ⟨rfl, rfl⟩ := EventLink.node.inj heq
    exact ⟨rfl, List.mem_range.mp hj⟩
  · rintro ⟨rfl, hi⟩
    exact List.mem_map_of_mem (List.mem_range.mpr hi)

lemma firstNodes_succ (s k : ℕ) : firstNodes s (k + 1) = firstNodes s k ++ [.node s k] := by
  simp [firstNodes, List.range_succ]

lemma filter_firstNodes_erase {k : ℕ} {xs : List EventLink}
    (hnodup : (xs.filter fun a => a ∉ firstNodes s k).Nodup) :
    xs.filter (fun a => a ∉ firstNodes s (k + 1)) =
      (xs.filter fun a => a ∉ firstNodes s k).erase (.node s k) := by
  rw [hnodup.erase_eq_filter, List.filter_filter]
  apply List.filter_congr
  intro a _
  by_cases ha : a = .node s k
  · simp [firstNodes_succ, ha]
  · simp [firstNodes_succ, ha]

/-- **All nodes of a registration are gone.** -/
lemma listWithout_all {k : ℕ} (hlength : ∀ g ∈ regs, g.id = s → g.names.length ≤ k)
    (e : UapiEvent) :
    listWithout regs (firstNodes s k) e = listOf (regs.filter fun g => g.id ≠ s) e := by
  unfold listWithout listOf
  rw [List.filter_filterMap, List.filterMap_filter]
  apply List.filterMap_congr
  intro g hg
  unfold nodeOf
  by_cases hname : e.name ∈ g.names
  · have hlt := List.idxOf_lt_length_of_mem hname
    by_cases hid : g.id = s
    · have hmem : EventLink.node g.id (g.names.idxOf e.name) ∈ firstNodes s k :=
        mem_firstNodes.mpr ⟨hid, lt_of_lt_of_le hlt (hlength g hg hid)⟩
      simp [hname, hid, hid ▸ hmem]
    · have hmem : EventLink.node g.id (g.names.idxOf e.name) ∉ firstNodes s k :=
        fun hmem => hid (mem_firstNodes.mp hmem).1
      simp [hname, hid, hmem]
  · simp [hname]

/-- **The loop of `uapi_broker_subscriber_unregister`** takes the nodes out one by one: `u` has
filled in `m` of them, and they are in lists. -/
lemma unlinkNodes_family {events : Set UapiEvent} {L : UapiEvent → List EventLink} {n k m : ℕ}
    (hnode : ∀ i < m, ∃ e ∈ events, .node s i ∈ L e)
    (hevent : ∀ i, (u.event i).isSome = true ↔ i < m) (hk : k ≤ m) (hn : m ≤ k + n)
    (hlists : l.FamilyOn events .head fun e => (L e).filter fun a => a ∉ firstNodes s k) :
    (unlinkNodes s u n k l).FamilyOn events .head
      fun e => (L e).filter fun a => a ∉ firstNodes s m := by
  induction n generalizing k l with
  | zero =>
      obtain rfl : k = m := by omega
      exact hlists
  | succ n ih =>
      rw [unlinkNodes]
      split_ifs with hsome
      · have hlt := (hevent k).mp hsome
        apply ih (by omega) (by omega)
        obtain ⟨e, he, hmem⟩ := hnode k hlt
        have hmem' : EventLink.node s k ∈ (L e).filter fun a => a ∉ firstNodes s k :=
          List.mem_filter.mpr ⟨hmem, by simp [mem_firstNodes]⟩
        have hdel := familyOn_listDel hlists he .poison hmem' fun e' _ hhead => by cases hhead
        refine hdel.of_eq fun e' => filter_firstNodes_erase ?_
        exact (List.nodup_cons.mp (hlists.ring e').nodup).2
      · have hend : ¬ k < m := fun hlt => hsome ((hevent k).mpr hlt)
        obtain rfl : k = m := by omega
        exact hlists

/-- The nodes of a registration are in the lists of the events that it names. -/
lemma unlinkNodes_spec {n : ℕ} (hg : g ∈ regs) (hnames : g.names.Nodup)
    (hnamed : ∀ name ∈ g.names, ∃ e ∈ T.nodes, e.name = name)
    (hevent : ∀ i, (u.event i).isSome = true ↔ i < g.names.length) (hn : g.names.length ≤ n)
    (hlists : l.FamilyOn {e | e ∈ T.nodes} .head (listWithout regs (firstNodes g.id 0))) :
    (unlinkNodes g.id u n 0 l).FamilyOn {e | e ∈ T.nodes} .head
      (listWithout regs (firstNodes g.id g.names.length)) := by
  refine unlinkNodes_family (fun i hi => ?_) hevent (Nat.zero_le _) (by omega) hlists
  obtain ⟨e, he, hname⟩ := hnamed g.names[i] (List.getElem_mem hi)
  have hidx : g.names.idxOf e.name = i := by rw [hname, hnames.idxOf_getElem]
  have hmem := node_mem_listOf hg (hname ▸ List.getElem_mem hi : e.name ∈ g.names)
  rw [hidx] at hmem
  exact ⟨e, he, hmem⟩

lemma Exact.unregister (h : Exact regs b) (hu : b.subscriber s = some u) :
    Exact (regs.filter fun g => g.id ≠ s) (uapiBrokerSubscriberUnregister s u b) := by
  obtain ⟨⟨T, hheld⟩, henr⟩ := h
  obtain ⟨g, hg, rfl⟩ := henr.owner s u hu
  obtain ⟨u', hu', -, hcount, hevent⟩ := henr.record g hg
  obtain rfl : u = u' := Option.some.inj (hu.symm.trans hu')
  have hsub : ∀ g' ∈ regs.filter fun g' => g'.id ≠ g.id, g' ∈ regs ∧ g'.id ≠ g.id := by
    intro g' hg'
    obtain ⟨hmem, hne⟩ := List.mem_filter.mp hg'
    exact ⟨hmem, by simpa using hne⟩
  have hlength : ∀ g' ∈ regs, g'.id = g.id → g'.names.length ≤ g.names.length := by
    intro g' hg' hid
    rw [List.inj_on_of_nodup_map henr.nodup hg' hg hid]
  refine ⟨⟨T, hheld.tree, ?_, hheld.addr, fun g' hg' => hheld.named g' (hsub g' hg').1⟩, ?_⟩
  · have hstart : b.links.FamilyOn {e | e ∈ T.nodes} .head
        (listWithout regs (firstNodes g.id 0)) :=
      hheld.lists.of_eq fun e => by simp [listWithout, firstNodes]
    have hend := unlinkNodes_spec (n := u.count) hg (henr.names g hg) (hheld.named g hg) hevent
      hcount hstart
    exact hend.of_eq fun e => (listWithout_all hlength e).symm
  · refine ⟨?_, fun g' hg' => henr.id_lt g' (hsub g' hg').1,
      fun g' hg' => henr.names g' (hsub g' hg').1, fun g' hg' => ?_, fun s' v hv => ?_⟩
    · exact henr.nodup.sublist (List.filter_sublist.map _)
    · obtain ⟨v, hv, hrest⟩ := henr.record g' (hsub g' hg').1
      exact ⟨v, (Function.update_of_ne (hsub g' hg').2 ..).trans hv, hrest⟩
    · change Function.update b.subscriber g.id none s' = some v at hv
      rw [Function.update_apply] at hv
      split_ifs at hv with hs
      obtain ⟨g', hg', hid⟩ := henr.owner s' v hv
      exact ⟨g', List.mem_filter.mpr ⟨hg', by simpa [hid] using hs⟩, hid⟩

end Unregister

/-! ## Histories -/

section Histories

variable {regs : List (Registration P)} {b b' : UapiBroker P} {T : Tree UapiEvent} {w w' : World P}

lemma length_eventNames_le (n : ℕ) (events : List UInt8) : (eventNames n events).length ≤ n := by
  induction n generalizing events with
  | zero => exact le_refl _
  | succ n ih =>
      rw [eventNames]
      split_ifs
      · rw [List.length_cons]
        exact Nat.succ_le_succ (ih _)
      · rw [List.length_singleton]
        omega

lemma Exact.newSubscriber (h : Exact regs b) (p : P) (count : ℕ) :
    Exact (regs ++ [⟨b.allocated, p, []⟩]) (b.newSubscriber p count) := by
  obtain ⟨⟨T, hheld⟩, henr⟩ := h
  have hother : ∀ g ∈ regs, g.id ≠ b.allocated := fun g hg => (henr.id_lt g hg).ne
  refine ⟨⟨T, hheld.tree, ?_, fun e he => Nat.lt_succ_of_lt (hheld.addr e he), ?_⟩, ?_⟩
  · apply hheld.lists.of_eq
    intro e
    rw [listOf_append]
    simp [nodeOf]
  · intro g hg name hname
    rcases List.mem_append.mp hg with hg | hg
    · exact hheld.named g hg name hname
    · obtain rfl := List.mem_singleton.mp hg
      cases hname
  · refine ⟨?_, fun g hg => ?_, fun g hg => ?_, fun g hg => ?_, fun s u hu => ?_⟩
    · rw [List.map_append]
      refine List.nodup_append.mpr ⟨henr.nodup, by simp, fun i hi j hj => ?_⟩
      obtain ⟨g, hg, rfl⟩ := List.mem_map.mp hi
      rw [List.mem_singleton.mp hj]
      exact hother g hg
    · rcases List.mem_append.mp hg with hg | hg
      · exact Nat.lt_succ_of_lt (henr.id_lt g hg)
      · obtain rfl := List.mem_singleton.mp hg
        exact Nat.lt_succ_self _
    · rcases List.mem_append.mp hg with hg | hg
      · exact henr.names g hg
      · obtain rfl := List.mem_singleton.mp hg
        exact List.nodup_nil
    · rcases List.mem_append.mp hg with hg | hg
      · obtain ⟨u, hu, hrest⟩ := henr.record g hg
        exact ⟨u, (Function.update_of_ne (hother g hg) ..).trans hu, hrest⟩
      · obtain rfl := List.mem_singleton.mp hg
        exact ⟨⟨p, count, fun _ => none⟩, Function.update_self .., rfl, Nat.zero_le _, by simp⟩
    · by_cases hs : s = b.allocated
      · subst hs
        exact ⟨⟨b.allocated, p, []⟩, by simp, rfl⟩
      · have hu' : b.subscriber s = some u := (Function.update_of_ne hs ..).symm.trans hu
        obtain ⟨g, hg, hid⟩ := henr.owner s u hu'
        exact ⟨g, List.mem_append_left _ hg, hid⟩

/-- **A registration**, with its error path. -/
lemma Exact.register {oom : ℕ → Bool} {fuel : ℕ} {p : P} {r : UapiRegister}
    {res : Bool × UapiBroker P} (h : Exact regs b) (hnames : r.names.Nodup)
    (heq : uapiBrokerSubscriberRegister oom fuel p r b = .ok res) :
    Exact (if res.1 then regs ++ [⟨b.allocated, p, r.names⟩] else regs) res.2 := by
  unfold uapiBrokerSubscriberRegister at heq
  split_ifs at heq
  · obtain rfl := Except.ok.inj heq
    exact h
  · obtain ⟨r₁, hloop, heq⟩ := ok_of_bind heq
    have hroom : ∀ u, (b.newSubscriber p r.count.toNat).subscriber b.allocated = some u →
        ([] : List (List UInt8)).length + r.names.length ≤ u.count := by
      intro u hu
      change Function.update b.subscriber b.allocated _ b.allocated = some u at hu
      rw [Function.update_self] at hu
      obtain rfl := Option.some.inj hu
      rw [List.length_nil, Nat.zero_add]
      exact length_eventNames_le _ _
    obtain ⟨hdone, hfailed⟩ := (h.newSubscriber p r.count.toNat).register_events hroom
      (by rwa [List.nil_append]) hloop
    split_ifs at heq with hflag
    · obtain rfl := Except.ok.inj heq
      rw [if_pos hflag]
      exact hdone hflag
    · obtain rfl := Except.ok.inj heq
      obtain ⟨pre, hexact⟩ := hfailed (by simpa using hflag)
      obtain ⟨u, hu, -⟩ := hexact.2.record ⟨b.allocated, p, pre⟩ (by simp)
      have hundone := hexact.unregister hu
      have hregs : (regs ++ [⟨b.allocated, p, pre⟩] : List (Registration P)).filter
          (fun g => g.id ≠ b.allocated) = regs := by
        rw [List.filter_append, List.filter_eq_self.mpr fun g hg => by
          simpa using (h.2.id_lt g hg).ne]
        simp
      rw [hregs] at hundone
      change Exact regs ((r₁.2.subscriber b.allocated).elim r₁.2 _)
      rw [show r₁.2.subscriber b.allocated = some u from hu]
      exact hundone

/-- The names of a registration differ. -/
def Op.Distinct : Op P → Prop
  | .register _ r _ _ => r.names.Nodup
  | .unregister _ => True

lemma exact_step {l : Op P} {es : List Bool} (h : Exact w.regs w.broker) (hl : l.Distinct)
    (hstep : step w l = some (w', es)) : Exact w'.regs w'.broker := by
  cases l with
  | register p r oom fuel =>
      rw [step] at hstep
      cases hreg : uapiBrokerSubscriberRegister oom fuel p r w.broker with
      | error f =>
          rw [hreg] at hstep
          cases hstep
      | ok res =>
          rw [hreg] at hstep
          obtain ⟨rfl, -⟩ := Prod.mk.inj (Option.some.inj hstep)
          exact h.register hl hreg
  | unregister s =>
      obtain ⟨u, hu, heq⟩ := Option.map_eq_some_iff.mp hstep
      obtain ⟨rfl, -⟩ := Prod.mk.inj heq
      exact h.unregister hu

lemma length_listOf_le (h : Enrolled regs b) (e : UapiEvent) :
    (listOf regs e).length ≤ b.allocated := by
  have hids : (regs.map Registration.id).length ≤ (List.range b.allocated).length := by
    refine (List.subperm_of_subset h.nodup fun i hi => ?_).length_le
    obtain ⟨g, hg, rfl⟩ := List.mem_map.mp hi
    exact List.mem_range.mpr (h.id_lt g hg)
  rw [List.length_map, List.length_range] at hids
  exact (List.length_filterMap_le _ _).trans hids

lemma filterMap_sevrOf (h : Enrolled regs b) (e : UapiEvent) :
    (listOf regs e).filterMap b.sevrOf =
      (regs.filter fun g => e.name ∈ g.names).map Registration.sevr := by
  rw [listOf, List.filterMap_filterMap, ← List.filterMap_eq_map, List.filterMap_filter]
  apply List.filterMap_congr
  intro g hg
  obtain ⟨u, hu, hsevr, -⟩ := h.record g hg
  by_cases hname : e.name ∈ g.names
  · simp [nodeOf, hname, UapiBroker.sevrOf, hu, hsevr]
  · simp [nodeOf, hname]

/-- **A broadcast** goes to the subscribers that named the event. -/
lemma Held.deliver (h : Held regs b T) (henr : Enrolled regs b) (identity : P → ℤ)
    (name : List UInt8) : uapiBrokerEventDeliver identity ⟨ipcToBroadcast, name⟩ b =
      .ok ((regs.filter fun g => name ∈ g.names).map Registration.sevr) := by
  obtain ⟨r, hfind, hspec⟩ := h.find name
  unfold uapiBrokerEventDeliver
  change (b.find name >>= _) = _
  rw [hfind]
  cases r with
  | none =>
      have hnobody : (regs.filter fun g => name ∈ g.names) = [] := by
        apply List.filter_eq_nil_iff.mpr
        intro g hg hname
        obtain ⟨e, he, hename⟩ := h.named g hg name (by simpa using hname)
        cases (hspec e).mpr ⟨he, hename⟩
      rw [hnobody]
      rfl
  | some e =>
      obtain ⟨he, rfl⟩ := (hspec e).mp rfl
      have hwalk : listForEach b.allocated (.head e) b.links = some (listOf regs e) :=
        (h.lists.ring ⟨e, he⟩).walk (length_listOf_le henr e)
      simp only [bind, Except.bind, if_true, hwalk, filterMap_sevrOf henr e]

/-- **The lists of the broker are exact.**  After every sequence of registrations with distinct names
and of unregistrations, the table is an ordered tree with at most one event of a given name; the list
of that event has one node for each registration in force that names it, in the order of the
registrations, and no other; and a broadcast is forwarded once to each of their subscribers, in this
order, and to nobody else. -/
theorem broker_lists_exact {link : UapiEvent → Dir → Option UapiEvent}
    {stack : ℕ → Option UapiEvent} {links : Links EventLink} {ls : List (Op P)} {es : List Bool}
    (hrun : run step ls ⟨uapiBrokerInit link stack links, []⟩ = some (w, es))
    (hnames : ∀ l ∈ ls, l.Distinct) (name : List UInt8) :
    ∃ T, IsTree uapiEventCompareFunc w.broker.etable T ∧
      (∀ e ∈ T.nodes, ∀ e' ∈ T.nodes, e.name = name → e'.name = name → e = e') ∧
      (∀ e ∈ T.nodes, e.name = name →
        listForEach w.broker.allocated (.head e) w.broker.links =
          some (w.regs.filterMap (nodeOf name))) ∧
      ∀ identity : P → ℤ, uapiBrokerEventDeliver identity ⟨ipcToBroadcast, name⟩ w.broker =
        .ok ((w.regs.filter fun g => name ∈ g.names).map Registration.sevr) := by
  obtain ⟨⟨T, hheld⟩, henr⟩ : Exact w.regs w.broker :=
    run_invariant (I := fun w => Exact w.regs w.broker) (fun h hl hstep => exact_step h hl hstep)
      (exact_init link stack links) (along_of_forall hnames _) hrun
  refine ⟨T, hheld.tree, fun e he e' he' hname hname' => ?_, fun e he hname => ?_,
    fun identity => ?_⟩
  · exact hheld.unique he he' (hname.trans hname'.symm)
  · subst hname
    exact (hheld.lists.ring ⟨e, he⟩).walk (length_listOf_le henr e)
  · exact hheld.deliver henr identity name

end Histories

/-- A broker whose memory holds nothing of interest. -/
def emptyBroker : UapiBroker ℕ := uapiBrokerInit (fun _ _ => none) (fun _ => none) ⟨id, id⟩

/-- The handle `7` names `a` and `b`; `8` and `9` name `b`; then `8` goes. -/
def sampleCalls : List (Op ℕ) :=
  [.register 7 ⟨2, [97, 9, 98]⟩ (fun _ => false) 0, .register 8 ⟨1, [98]⟩ (fun _ => false) 0,
    .register 9 ⟨1, [98]⟩ (fun _ => false) 0, .unregister 3]

/-- A broadcast of `b` goes to `7` and to `9`. -/
theorem broker_lists_exact_sample : ∃ (w : World ℕ) (es : List Bool),
    run step sampleCalls ⟨emptyBroker, []⟩ = some (w, es) ∧
      (∀ l ∈ sampleCalls, l.Distinct) ∧
      uapiBrokerEventDeliver Int.ofNat ⟨ipcToBroadcast, [98]⟩ w.broker = .ok [7, 9] := by
  have heval : (run step sampleCalls ⟨emptyBroker, []⟩).map (fun r =>
      (r.1.regs.filter fun g => [98] ∈ g.names).map Registration.sevr) = some [7, 9] := by
    decide +kernel
  obtain ⟨⟨w, es⟩, hrun, hregs⟩ := Option.map_eq_some_iff.mp heval
  have hnames : ∀ l ∈ sampleCalls, l.Distinct := by
    have hnodup : (eventNames 2 [97, 9, 98]).Nodup ∧ (eventNames 1 [98]).Nodup := by decide
    simp only [sampleCalls, List.mem_cons, List.not_mem_nil, or_false, forall_eq_or_imp,
      forall_eq]
    exact ⟨hnodup.1, hnodup.2, hnodup.2, trivial⟩
  obtain ⟨T, -, -, -, hdeliver⟩ := broker_lists_exact hrun hnames [98]
  refine ⟨w, es, hrun, hnames, (hdeliver Int.ofNat).trans ?_⟩
  exact congrArg Except.ok hregs

end LinuxC.Uapi
