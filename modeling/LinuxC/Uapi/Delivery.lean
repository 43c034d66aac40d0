import LinuxC.Framework.EventBus
import LinuxC.Uapi.ClientTable
import LinuxC.Uapi.Push

/-!
# Events from end to end (`uapi/uapi_client.c`, `uapi/broker.c`)

Processes register for events at the broker, push events, and go.  A `System` is the broker, the
processes, and the frames that the broker has sent to each of them.  The registration is
`uapi_event_register` with the broker's answer to the request it sends; the push is
`uapi_event_push`, received by the broker and relayed; a process goes when the broker unregisters its
subscriber.  A process reads its frames with `ipc_subscriber_task`, which calls
`uapic_event_callback`.

`Bus` is what all this is for.  `events_delivered` says that the system is one: however the frames
are cut on their way, a process makes exactly the calls of its callbacks that the bus has for it.
-/

namespace LinuxC.Uapi

open Bst

/-! ## The callback -/

/-- The callbacks of a registration, each with its argument; `event` is of a node and `any` is for
the events whose node has none. -/
structure Callbacks (C : Type) where
  event : UapiEvent → Option C
  any : Option C

/-- A call that the task of a process makes: with the event's own callback, which gets the text, or
with the one for all events, which gets the name as well. -/
inductive Called (C : Type)
  | event (c : C) (json : List UInt8) (size : ℕ)
  | any (c : C) (name json : List UInt8) (size : ℕ)
  deriving DecidableEq

variable {P C : Type}

/-- The callback that an event is passed to. -/
def Callbacks.call (cb : Callbacks C) (e : UapiEvent) (name json : List UInt8) (size : ℕ) :
    List (Called C) :=
  match cb.event e with
  | some c => [.event c json size]
  | none => (cb.any.map fun c => Called.any c name json size).toList

/-- A process: its client, and the array and the callbacks of its registration. -/
structure Process (C : Type) where
  client : Client
  events : List UapiEvent
  callbacks : Callbacks C

/-- The broker with the registrations in force, every process with its table of events and its
callbacks, and all the frames that the broker has written to each of them. -/
structure System (P C : Type) where
  world : World P
  process : P → Process C
  /-- The frames that were sent to a process. -/
  sent : P → List Ipc.IpcMsg

/-- The system at the start: the arguments are what the memory of the broker and of the processes
holds. -/
def System.init (link : UapiEvent → Dir → Option UapiEvent) (stack : ℕ → Option UapiEvent)
    (links : Links EventLink) (table : P → BstTable UapiEvent)
    (iterator : P → BstIterator UapiEvent) : System P C where
  world := ⟨uapiBrokerInit link stack links, []⟩
  process p := ⟨clientInit (table p) (iterator p), [], ⟨fun _ => none, none⟩⟩
  sent := fun _ => []

/-- What happens in the system: a process registers, the connection of a subscriber is closed, or an
event is pushed.  Every label brings what the environment decides, such as the memory that there is.
-/
inductive Happening (P C : Type)
  /-- `uapi_event_register` of a process.  `rest` is what the broker's buffer holds behind the
  request; `oom` and `brokerFuel` are of the broker's registration. -/
  | register (p : P) (o : Outside) (fuel : ℕ) (events : List UapiEvent) (callbacks : Callbacks C)
      (rest : List UInt8) (oom : ℕ → Bool) (brokerFuel : ℕ)
  /-- The connection of the subscriber `s` is closed. -/
  | gone (s : ℕ)
  /-- `uapi_event_push`, by a process with this identity. -/
  | push (identity : UInt32) (sent : Bool) (stack : Mem) (event : List UInt8)
      (json : Option (List UInt8)) (dest : ℤ) (via : Ipc.Via)

/-- The request that `uapi_event_register` sends, if it comes to that. -/
def registerRequest (o : Outside) (fuel : ℕ) (events : List UapiEvent) (c : Client) :
    Except Fault (Option (List UInt8)) :=
  if c.registered then .ok none
  else if (o.table && o.iterator) = false then .ok none
  else do
    let t := bstCreate c.table.link (fhs events.length)
    let r ← eventLoop o events fuel ⟨0, .start o.stack (events.map UapiEvent.name), t⟩
    .ok (if r.1 then some r.2.encoder.payload else none)

/-- The members of the bus are the registrations in force. -/
def membersOf (regs : List (Registration P)) : List (Member P (List UInt8)) :=
  regs.map fun g => ⟨g.sevr, g.names⟩

section Step

variable [DecidableEq P] (identity : P → ℤ) (publish : Ipc.IpcNotify → List P) (size : ℕ)

/-- The destination of an event as a property of processes. -/
def destOf (dest : ℤ) : Option (P → Bool) :=
  if publishDest dest = ipcToBroadcast then none
  else some fun p => identity p = publishDest dest

def System.ask (p : P) (rest : List UInt8) (oom : ℕ → Bool) (brokerFuel : ℕ) (s : System P C)
    (data : List UInt8) : Option (World P × List Bool) :=
  step s.world (.register p (UapiRegister.ofData (data ++ rest)) oom brokerFuel)

/-- What a process gets from outside, with the broker's answer. -/
def System.outside (p : P) (o : Outside) (rest : List UInt8) (oom : ℕ → Bool) (brokerFuel : ℕ)
    (s : System P C) : Outside :=
  { o with accepted := fun data => (s.ask p rest oom brokerFuel data).any fun r => r.2 = [true] }

def System.register (p : P) (o : Outside) (fuel : ℕ) (events : List UapiEvent)
    (callbacks : Callbacks C) (rest : List UInt8) (oom : ℕ → Bool) (brokerFuel : ℕ)
    (s : System P C) : Option (System P C × List (BusOp P (List UInt8) (List UInt8))) :=
  let o := s.outside p o rest oom brokerFuel
  match registerRequest o fuel events (s.process p).client,
      eventRegister o fuel events (s.process p).client with
  | .ok none, .ok r =>
      some ({ s with
        process := Function.update s.process p { s.process p with client := r.2 } }, [])
  | .ok (some data), .ok r =>
      (s.ask p rest oom brokerFuel data).map fun w =>
        ({ s with
            world := w.1
            process := Function.update s.process p ⟨r.2, events, callbacks⟩ },
          if r.1 = 0 then [.join ⟨p, events.map UapiEvent.name⟩] else [])
  | _, _ => none

def System.gone (n : ℕ) (s : System P C) :
    Option (System P C × List (BusOp P (List UInt8) (List UInt8))) :=
  (s.world.broker.subscriber n).bind fun u =>
    (step s.world (.unregister n)).map fun w => ({ s with world := w.1 }, [.leave u.sevr])

def framesFor (p : P) (frames : List (P × Ipc.IpcMsg)) : List Ipc.IpcMsg :=
  (frames.filter fun r => r.1 = p).map Prod.snd

/-- A process pushes an event.  The frame takes one of the ways to the broker, and the broker
forwards what it finds in it to the connections of the subscribers that its filter lets through. -/
def System.push (pid : UInt32) (sent : Bool) (stack : Mem) (event : List UInt8)
    (json : Option (List UInt8)) (dest : ℤ) (via : Ipc.Via) (s : System P C) :
    Option (System P C × List (BusOp P (List UInt8) (List UInt8))) :=
  match uapiEventPush pid sent stack event json dest with
  | none => some (s, [])
  | some f =>
      if via.chunks.flatten = f.encode then
        (via.handled (relayBranch identity publish s.world.broker) size).bind fun outs =>
          match outs.mapM id with
          | .ok frames =>
              some ({ s with sent := fun p => s.sent p ++ framesFor p frames.flatten },
                [.push (destOf identity dest) event (json.getD [])])
          | .error _ => none
      else none

/-- One step.  Its events are what the calls that returned zero mean for the bus. -/
def systemStep (s : System P C) :
    Happening P C → Option (System P C × List (BusOp P (List UInt8) (List UInt8)))
  | .register p o fuel events callbacks rest oom brokerFuel =>
      s.register p o fuel events callbacks rest oom brokerFuel
  | .gone n => s.gone n
  | .push pid sent stack event json dest via =>
      s.push identity publish size pid sent stack event json dest via

/-- The names of a registration can be sent and are different, and the text of an event fits the
buffers. -/
def Happening.Fits : Happening P C → Prop
  | .register _ _ _ events _ _ _ _ =>
      Registrable (events.map UapiEvent.name) ∧ (events.map UapiEvent.name).Nodup ∧
        registerHdrlen + textLength (events.map UapiEvent.name) < 1024
  | .gone _ => True
  | .push _ _ _ event json dest _ => Pushable size event (json.getD []) ∧ dest < 2 ^ 31

/-- What a process should call: the entries of its log, one after the other. -/
def Process.calls (q : Process C) (log : List (List UInt8 × List UInt8)) : List (Called C) :=
  log.flatMap fun x =>
    ((q.events.find? fun e => e.name = x.1).map fun e =>
      q.callbacks.call e x.1 (x.2 ++ [0]) (x.2.length + 1)).getD []

end Step

/-! ## The client's table -/

section Table

variable {o : Outside} {events : List UapiEvent} {fuel : ℕ} {v v' : Building} {c : Client}

/-- The table is an ordered tree of the nodes of these events and of no others: no event was left
out because another one has its name. -/
def TableOf (events : List UapiEvent) (t : BstTable UapiEvent) : Prop :=
  ∃ T, IsTree uapiEventCompareFunc t T ∧ ∀ e, e ∈ T.nodes ↔ e ∈ events

lemma TableOf.insert {i : ℕ} {t : BstTable UapiEvent} (h : TableOf (events.take i) t)
    (hnodup : (events.map UapiEvent.name).Nodup) (hlt : i < events.length) :
    ∃ t', bstInsert uapiEventCompareFunc (t.count + 1) events[i] t = .ok (t', events[i]) ∧
      TableOf (events.take (i + 1)) t' := by
  obtain ⟨T, hT, hmem⟩ := h
  have hnew : ∀ m ∈ T.nodes, uapiEventCompareFunc events[i] m ≠ 0 := by
    intro m hm h0
    obtain ⟨j, hj, rfl⟩ := List.mem_take_iff_getElem.mp ((hmem m).mp hm)
    have hname : events[i].name = events[j].name := strcmp_eq_zero h0
    have hij : i = j := by
      have hi' : i < (events.map UapiEvent.name).length := by simpa using hlt
      have hj' : j < (events.map UapiEvent.name).length := by
        rw [List.length_map]
        omega
      have hget : (events.map UapiEvent.name)[i] = (events.map UapiEvent.name)[j] := by
        simpa using hname
      exact (List.Nodup.getElem_inj_iff hnodup).mp hget
    omega
  obtain ⟨t', T', hinsert, hT', ⟨ys, zs, hold, hadded⟩, -⟩ :=
    hT.insert_new comparator_event hnew (Nat.lt_succ_self _)
  refine ⟨t', hinsert, T', hT', fun e => ?_⟩
  rw [List.take_succ_eq_append_getElem hlt, List.mem_append, List.mem_singleton, ← hmem e, hold,
    hadded]
  simp only [List.mem_append, List.mem_cons]
  tauto

/-- A turn of a loop that ends well: the name of the event is written and its node put in, or the
buffer becomes larger. -/
lemma eventLoop_turn (hlt : v.i < events.length)
    (heq : eventLoop o events (fuel + 1) v = .ok (true, v')) :
    let e := v.encoder.put events[v.i].name
    let ssize := (eventText events[v.i].name).length
    ¬ uapiEventMaxLength < events[v.i].name.length ∧
      (e.offs + ssize < e.size ∧
          (∃ r, bstInsert uapiEventCompareFunc (v.table.count + 1) events[v.i] v.table = .ok r ∧
            eventLoop o events fuel ⟨v.i + 1, e.advance ssize, r.1⟩ = .ok (true, v')) ∨
        ¬ e.offs + ssize < e.size ∧
          eventLoop o events fuel ⟨v.i, e.grow o.fresh, v.table⟩ = .ok (true, v')) := by
  intro e ssize
  rw [eventLoop, List.getElem?_eq_getElem hlt] at heq
  by_cases hname : uapiEventMaxLength < events[v.i].name.length
  · simp [hname] at heq
  · simp only [if_neg hname] at heq
    refine ⟨hname, ?_⟩
    by_cases hfit : e.offs + ssize < e.size
    · rw [if_pos hfit] at heq
      exact .inl ⟨hfit, ok_of_bind heq⟩
    · rw [if_neg hfit] at heq
      refine .inr ⟨hfit, ?_⟩
      split_ifs at heq with hrealloc
      · exact heq
      · cases heq

/-- **The loop of a registration that sends its request** has put all nodes into the table. -/
lemma eventLoop_tableOf (hnodup : (events.map UapiEvent.name).Nodup)
    (h : TableOf (events.take v.i) v.table) (heq : eventLoop o events fuel v = .ok (true, v')) :
    TableOf events v'.table := by
  induction fuel generalizing v with
  | zero => cases heq
  | succ fuel ih =>
      by_cases hlt : v.i < events.length
      · obtain ⟨-, ⟨-, r, hr, heq⟩ | ⟨-, heq⟩⟩ := eventLoop_turn hlt heq
        · obtain ⟨t, hinsert, htable⟩ := h.insert hnodup hlt
          rw [hinsert] at hr
          obtain rfl := Except.ok.inj hr
          exact ih htable heq
        · refine ih ?_ heq
          exact h
      · rw [eventLoop, List.getElem?_eq_none (not_lt.mp hlt)] at heq
        obtain ⟨-, rfl⟩ := Prod.mk.inj (Except.ok.inj heq)
        rwa [List.take_of_length_le (not_lt.mp hlt)] at h

/-- **Its request** is the one of the loop without the table. -/
lemma eventLoop_encoder {rounds : ℕ} {e : Encoder}
    (hloop : registerLoop o.fresh rounds ((events.map UapiEvent.name).drop v.i) v.encoder = some e)
    (heq : eventLoop o events fuel v = .ok (true, v')) : v'.encoder = e := by
  induction fuel generalizing v rounds with
  | zero => cases heq
  | succ fuel ih =>
      by_cases hlt : v.i < events.length
      · have hlt' : v.i < (events.map UapiEvent.name).length := by simpa using hlt
        have hdrop : (events.map UapiEvent.name).drop v.i =
            events[v.i].name :: (events.map UapiEvent.name).drop (v.i + 1) := by
          rw [List.drop_eq_getElem_cons hlt', List.getElem_map]
        rw [hdrop] at hloop
        cases rounds with
        | zero => cases hloop
        | succ rounds =>
            rw [registerLoop] at hloop
            obtain ⟨hname, ⟨hfit, r, -, heq⟩ | ⟨hfit, heq⟩⟩ := eventLoop_turn hlt heq
            · simp only [if_neg hname, if_pos hfit] at hloop
              exact ih hloop heq
            · simp only [if_neg hname, if_neg hfit] at hloop
              rw [← hdrop] at hloop
              exact ih hloop heq
      · rw [eventLoop, List.getElem?_eq_none (not_lt.mp hlt)] at heq
        obtain ⟨-, rfl⟩ := Prod.mk.inj (Except.ok.inj heq)
        have hnil : (events.map UapiEvent.name).drop v.i = [] := by
          apply List.drop_eq_nil_of_le
          rw [List.length_map]
          exact not_lt.mp hlt
        rw [hnil] at hloop
        cases rounds <;> exact Option.some.inj hloop

/-- **The request of a registration** shows the broker the names, if they fit. -/
lemma registerRequest_names (hreg : Registrable (events.map UapiEvent.name))
    (hfits : registerHdrlen + textLength (events.map UapiEvent.name) < 1024) {data : List UInt8}
    (heq : registerRequest o fuel events c = .ok (some data)) (rest : List UInt8) :
    (UapiRegister.ofData (data ++ rest)).names = events.map UapiEvent.name := by
  unfold registerRequest at heq
  split_ifs at heq with hregistered hcreated
  · cases Except.ok.inj heq
  · cases Except.ok.inj heq
  · obtain ⟨r, hloop, heq⟩ := ok_of_bind heq
    replace heq := Except.ok.inj heq
    split_ifs at heq with hdone
    obtain ⟨data', hdata', -, hnames⟩ := roundTrips_of_fits hreg hfits o.stack o.fresh rest
    obtain ⟨e, he, rfl⟩ := Option.map_eq_some_iff.mp hdata'
    have hr : r = (true, r.2) := Prod.ext hdone rfl
    rw [hr] at hloop
    have hencoder := eventLoop_encoder (v := ⟨0, _, _⟩) (by simpa using he) hloop
    rw [← Option.some.inj heq, hencoder]
    exact hnames

lemma registerSection_none {r : AtRelease} (hrequest : registerRequest o fuel events c = .ok none)
    (heq : registerSection o fuel events c = .ok r) :
    r.ret = -1 ∧ (c.registered = true → r = ⟨-1, 0, c⟩) ∧
      r.client.registered = c.registered := by
  unfold registerRequest at hrequest
  unfold registerSection at heq
  by_cases hregistered : c.registered = true
  · rw [if_pos hregistered] at heq
    obtain rfl := Except.ok.inj heq
    exact ⟨rfl, fun _ => rfl, rfl⟩
  · rw [if_neg hregistered] at hrequest heq
    obtain ⟨r₁, hcreate, heq⟩ := ok_of_bind heq
    obtain ⟨hmade, hreg, htable⟩ := tableCreate_ok hcreate
    rw [← hmade] at hrequest
    split_ifs at hrequest heq with hcreated
    · obtain rfl := Except.ok.inj heq
      exact ⟨rfl, fun h => absurd h hregistered, hreg⟩
    · rw [htable (by simpa using hcreated)] at heq
      obtain ⟨v, hloop, hrequest⟩ := ok_of_bind hrequest
      obtain ⟨v', hloop', heq⟩ := ok_of_bind heq
      rw [hloop] at hloop'
      obtain rfl := Except.ok.inj hloop'
      replace hrequest := Except.ok.inj hrequest
      split_ifs at hrequest with hdone
      rw [if_neg (by simp [hdone])] at heq
      obtain rfl := Except.ok.inj heq
      exact ⟨rfl, fun h => absurd h hregistered, hreg⟩

/-- A registration whose request is sent returns the broker's answer, and then the table is that of
the events. -/
lemma registerSection_some {r : AtRelease} {data : List UInt8}
    (hrequest : registerRequest o fuel events c = .ok (some data))
    (heq : registerSection o fuel events c = .ok r) :
    c.registered = false ∧ (r.ret = 0 ↔ o.accepted data = true) ∧
      (r.client.registered = true ↔ r.ret = 0) ∧
      (r.ret = 0 → (events.map UapiEvent.name).Nodup → TableOf events r.client.table) := by
  unfold registerRequest at hrequest
  unfold registerSection at heq
  split_ifs at hrequest heq with hregistered hcreated
  · cases Except.ok.inj hrequest
  · cases Except.ok.inj hrequest
  · obtain ⟨r₁, hcreate, heq⟩ := ok_of_bind heq
    obtain ⟨hmade, hreg, htable⟩ := tableCreate_ok hcreate
    have htrue : r₁.1 = true := by
      rw [hmade]
      simpa using hcreated
    rw [if_neg (by simp [htrue]), htable htrue] at heq
    obtain ⟨v, hloop, hrequest⟩ := ok_of_bind hrequest
    obtain ⟨v', hloop', heq⟩ := ok_of_bind heq
    rw [hloop] at hloop'
    obtain rfl := Except.ok.inj hloop'
    replace hrequest := Except.ok.inj hrequest
    split_ifs at hrequest with hdone
    obtain rfl := Option.some.inj hrequest
    have hfalse : c.registered = false := by simpa using hregistered
    by_cases haccepted : o.accepted v.2.encoder.payload = true
    · rw [if_pos (by simp [hdone, haccepted])] at heq
      obtain ⟨t, hbalance, heq⟩ := ok_of_bind heq
      obtain ⟨r₂, hprint, heq⟩ := ok_of_bind heq
      obtain rfl := Except.ok.inj heq
      refine ⟨hfalse, by simp [haccepted], by simp, fun _ hnodup => ?_⟩
      have hempty : TableOf (events.take 0) (bstCreate c.table.link (fhs events.length)) :=
        ⟨.nil, ⟨⟨rfl, trivial, by simp⟩, by simp [Sorted], rfl⟩, by simp⟩
      have hv : v = (true, v.2) := Prod.ext hdone rfl
      rw [hv] at hloop
      obtain ⟨T, hT, hmem⟩ := eventLoop_tableOf (v := ⟨0, _, _⟩) hnodup hempty hloop
      -- balancing and printing keep the nodes
      obtain ⟨T₁, hT₁, hnodes₁⟩ := hT.balance_of_eq hbalance
      obtain ⟨r₃, hfirst, hrest⟩ := ok_of_bind hprint
      obtain ⟨T₂, hT₂, hnodes₂⟩ := hT₁.iteratorEnd_of_eq hfirst
      obtain ⟨T₃, hT₃, hnodes₃⟩ := printfLoop_keeps hT₂ hrest
      refine ⟨T₃, hT₃, fun e => ?_⟩
      rw [hnodes₃, hnodes₂, hnodes₁]
      exact hmem e
    · rw [if_neg (by simp [haccepted])] at heq
      obtain rfl := Except.ok.inj heq
      exact ⟨hfalse, by simp [haccepted], by simp [hreg, hfalse], fun h => by cases h⟩

/-- The whole call: taking the nodes out leaves the rest of the variables alone. -/
lemma eventRegister_none {r : ℤ × Client} (hrequest : registerRequest o fuel events c = .ok none)
    (heq : eventRegister o fuel events c = .ok r) :
    r.1 = -1 ∧ (c.registered = true → r.2 = c) ∧ r.2.registered = c.registered := by
  obtain ⟨s, hsection, hret, -, hundo⟩ := eventRegister_ok heq
  obtain ⟨hfail, hkept, hsame⟩ := registerSection_none hrequest hsection
  obtain ⟨t, hloop, hclient⟩ := hundo (by rw [hfail]; decide)
  rw [hclient]
  refine ⟨hret.trans hfail, fun h => ?_, hsame⟩
  obtain rfl := hkept h
  obtain rfl := Except.ok.inj hloop
  rfl

lemma eventRegister_some {r : ℤ × Client} {data : List UInt8}
    (hrequest : registerRequest o fuel events c = .ok (some data))
    (heq : eventRegister o fuel events c = .ok r) :
    c.registered = false ∧ (r.1 = 0 ↔ o.accepted data = true) ∧
      (r.2.registered = true ↔ r.1 = 0) ∧
      (r.1 = 0 → (events.map UapiEvent.name).Nodup → TableOf events r.2.table) := by
  obtain ⟨s, hsection, hret, hdone, hundo⟩ := eventRegister_ok heq
  obtain ⟨hfalse, haccepted, hset, htable⟩ := registerSection_some hrequest hsection
  rw [hret]
  refine ⟨hfalse, haccepted, ?_, fun hzero => ?_⟩
  · by_cases hzero : s.ret = 0
    · rw [hdone hzero]
      exact hset
    · obtain ⟨t, -, hclient⟩ := hundo hzero
      rw [hclient]
      exact hset
  · rw [hdone hzero]
    exact htable hzero

end Table

/-! ## The broker's part -/

section Deliver

variable {identity : P → ℤ} {regs : List (Registration P)} {b : UapiBroker P} {w w' : World P}

lemma addressees_members (dest : Option (P → Bool)) (name : List UInt8)
    (regs : List (Registration P)) : Bus.addressees dest name (membersOf regs) =
      let wanting := (regs.filter fun g => name ∈ g.names).map Registration.sevr
      match dest with
      | none => wanting
      | some good => (wanting.find? good).toList := by
  unfold Bus.addressees membersOf
  rw [List.filter_map, List.map_map]
  rfl

/-- **An event with a destination** goes to the first subscriber with that identity. -/
lemma Held.deliver_first {T : Tree UapiEvent} (h : Held regs b T) (henr : Enrolled regs b)
    {dest : ℤ} (hdest : dest ≠ ipcToBroadcast) (name : List UInt8) :
    uapiBrokerEventDeliver identity ⟨dest, name⟩ b =
      .ok ((((regs.filter fun g => name ∈ g.names).map Registration.sevr).find? fun p =>
        identity p = dest).toList) := by
  obtain ⟨r, hfind, hspec⟩ := h.find name
  unfold uapiBrokerEventDeliver
  change (b.find name >>= _) = _
  rw [hfind]
  cases r with
  | none =>
      have hnobody : (regs.filter fun g => name ∈ g.names) = [] := by
        apply List.filter_eq_nil_iff.mpr
        intro g hg hname
        obtain ⟨e, he, hename⟩ := h.named g hg name (by simpa using hname)
        cases (hspec e).mpr ⟨he, hename⟩
      rw [hnobody]
      rfl
  | some e =>
      obtain ⟨he, rfl⟩ := (hspec e).mp rfl
      have hsearch : listFind b.allocated (.head e)
          (fun a => (b.sevrOf a).any fun p => identity p = dest) b.links =
            some ((listOf regs e).find? fun a => (b.sevrOf a).any fun p => identity p = dest) :=
        (h.lists.ring ⟨e, he⟩).search _ (length_listOf_le henr e)
      simp only [bind, Except.bind, if_neg hdest, hsearch]
      rw [← List.find?_filterMap, filterMap_sevrOf henr e]

/-- **What the broker forwards** is what the bus says. -/
lemma Exact.deliver (h : Exact regs b) (identity : P → ℤ) (dest : ℤ) (name : List UInt8) :
    uapiBrokerEventDeliver identity ⟨publishDest dest, name⟩ b =
      .ok (Bus.addressees (destOf identity dest) name (membersOf regs)) := by
  obtain ⟨⟨T, hheld⟩, henr⟩ := h
  rw [destOf]
  by_cases hdest : publishDest dest = ipcToBroadcast
  · rw [if_pos hdest, hdest, hheld.deliver henr identity name, addressees_members]
  · rw [if_neg hdest, hheld.deliver_first henr hdest name, addressees_members]

lemma step_register {p : P} {r : UapiRegister} {oom : ℕ → Bool} {fuel : ℕ} {es : List Bool}
    (h : step w (.register p r oom fuel) = some (w', es)) : ∃ done, es = [done] ∧
      w'.regs = if done then w.regs ++ [⟨w.broker.allocated, p, r.names⟩] else w.regs := by
  rw [step] at h
  cases hreg : uapiBrokerSubscriberRegister oom fuel p r w.broker with
  | error e =>
      rw [hreg] at h
      cases h
  | ok res =>
      rw [hreg] at h
      obtain ⟨rfl, rfl⟩ := Prod.mk.inj (Option.some.inj h)
      exact ⟨res.1, rfl, rfl⟩

end Deliver

/-! ## The system is a bus -/

section Refinement

variable [DecidableEq P] {identity : P → ℤ} {publish : Ipc.IpcNotify → List P} {size : ℕ}
  {s s' : System P C} {b : Bus P (List UInt8) (List UInt8)}
  {ops : List (BusOp P (List UInt8) (List UInt8))} {p : P}

/-- A frame of the broker shows an entry of a log: it carries the name and the text of the event, it
is not longer than the buffer of the process, and the text with its headers fits into the 16 bits of
a length. -/
def Shows (size : ℕ) (f : Ipc.IpcMsg) (x : List UInt8 × List UInt8) : Prop :=
  (∃ dest, PushFrame dest x.1 x.2 f) ∧ f.length ≤ size ∧ x.2.length + 53 ≤ 65535

/-- The process has registered, and its table is that of its events. -/
structure Process.Ready (q : Process C) : Prop where
  registered : q.client.registered = true
  table : TableOf q.events q.client.table
  nodup : (q.events.map UapiEvent.name).Nodup

/-- The system and the bus agree: the members of the bus are the registrations in force, each of
them with the names of the process that made it, and the frames for a process show the entries of
its log, in their order. -/
structure Agrees (size : ℕ) (s : System P C) (b : Bus P (List UInt8) (List UInt8)) : Prop where
  exact : Exact s.world.regs s.world.broker
  members : b.members = membersOf s.world.regs
  nodup : (s.world.regs.map Registration.sevr).Nodup
  enrolled : ∀ g ∈ s.world.regs, (s.process g.sevr).client.registered = true ∧
    g.names = (s.process g.sevr).events.map UapiEvent.name
  ready : ∀ p, (s.process p).client.registered = true → (s.process p).Ready
  logged : ∀ p, ∀ x ∈ b.log p, (s.process p).client.registered = true ∧
    x.1 ∈ (s.process p).events.map UapiEvent.name
  sent : ∀ p, List.Forall₂ (Shows size) (s.sent p) (b.log p)

/-- **A process that is not registered changes**, and is still not registered, or registers now. -/
lemma Agrees.setProcess (h : Agrees size s b) {q : Process C}
    (hidle : (s.process p).client.registered = false)
    (hready : q.client.registered = true → q.Ready) :
    Agrees size { s with process := Function.update s.process p q } b := by
  have hother : ∀ p', (s.process p').client.registered = true →
      Function.update s.process p q p' = s.process p' := by
    intro p' hp'
    apply Function.update_of_ne
    rintro rfl
    rw [hidle] at hp'
    cases hp'
  refine ⟨h.exact, h.members, h.nodup, fun g hg => ?_, fun p' hp' => ?_, fun p' x hx => ?_, h.sent⟩
  · change (Function.update s.process p q g.sevr).client.registered = true ∧ _ =
      (Function.update s.process p q g.sevr).events.map _
    rw [hother _ (h.enrolled g hg).1]
    exact h.enrolled g hg
  · change (Function.update s.process p q p').Ready
    change (Function.update s.process p q p').client.registered = true at hp'
    rw [Function.update_apply] at hp' ⊢
    split_ifs at hp' ⊢ with hpp
    · exact hready hp'
    · exact h.ready p' hp'
  · change (Function.update s.process p q p').client.registered = true ∧ _ ∈
      (Function.update s.process p q p').events.map _
    rw [hother _ (h.logged p' x hx).1]
    exact h.logged p' x hx

lemma Agrees.register {o : Outside} {fuel : ℕ} {events : List UapiEvent} {cb : Callbacks C}
    {rest : List UInt8} {oom : ℕ → Bool} {brokerFuel : ℕ} (h : Agrees size s b)
    (hreg : Registrable (events.map UapiEvent.name))
    (hnodup : (events.map UapiEvent.name).Nodup)
    (hfits : registerHdrlen + textLength (events.map UapiEvent.name) < 1024)
    (hstep : s.register p o fuel events cb rest oom brokerFuel = some (s', ops)) :
    Agrees size s' (ops.foldl Bus.apply b) := by
  unfold System.register at hstep
  set o' := s.outside p o rest oom brokerFuel with ho'
  cases hrequest : registerRequest o' fuel events (s.process p).client with
  | error e => simp [hrequest] at hstep
  | ok request =>
      cases heq : eventRegister o' fuel events (s.process p).client with
      | error e => cases request <;> simp [hrequest, heq] at hstep
      | ok r =>
          cases request with
          | none =>
              simp only [hrequest, heq] at hstep
              obtain ⟨rfl, rfl⟩ := Prod.mk.inj (Option.some.inj hstep)
              obtain ⟨-, hkept, hsame⟩ := eventRegister_none hrequest heq
              by_cases hregistered : (s.process p).client.registered = true
              · -- the client has registered before
                rw [hkept hregistered, Function.update_eq_self]
                exact h
              · refine h.setProcess (by simpa using hregistered) fun hq => ?_
                exact absurd (hsame.symm.trans hq) hregistered
          | some data =>
              simp only [hrequest, heq] at hstep
              obtain ⟨w, hw, hstep⟩ := Option.map_eq_some_iff.mp hstep
              obtain ⟨rfl, rfl⟩ := Prod.mk.inj hstep
              obtain ⟨hidle, hzero, hset, htable⟩ := eventRegister_some hrequest heq
              have hnames := registerRequest_names hreg hfits hrequest rest
              obtain ⟨done, hes, hregs⟩ := step_register hw
              have hexact : Exact w.1.regs w.1.broker :=
                exact_step h.exact (show Op.Distinct (.register p _ oom brokerFuel) by
                  rw [Op.Distinct, hnames]
                  exact hnodup) hw
              have haccepted : o'.accepted data = done := by
                change (s.ask p rest oom brokerFuel data).any _ = done
                rw [hw]
                cases done <;> simp [hes]
              have hready : r.2.registered = true → (Process.mk r.2 events cb).Ready :=
                fun hq => ⟨hq, htable (hset.mp hq) hnodup, hnodup⟩
              have hchanged := h.setProcess (p := p) (q := ⟨r.2, events, cb⟩) hidle hready
              rw [haccepted] at hzero
              cases done with
              | false =>
                  rw [if_neg (by simp [hzero])]
                  have hregs' : w.1.regs = s.world.regs := hregs
                  exact ⟨hexact, hregs' ▸ hchanged.members, hregs' ▸ hchanged.nodup,
                    hregs' ▸ hchanged.enrolled, hchanged.ready, hchanged.logged, hchanged.sent⟩
              | true =>
                  have hret : r.1 = 0 := hzero.mpr rfl
                  rw [if_pos hret]
                  simp only [if_true] at hregs
                  have hself : Function.update s.process p ⟨r.2, events, cb⟩ p =
                      ⟨r.2, events, cb⟩ := Function.update_self ..
                  refine ⟨hexact, ?_, ?_, ?_, hchanged.ready, hchanged.logged, hchanged.sent⟩
                  · change b.members ++ _ = membersOf w.1.regs
                    rw [hregs, h.members, hnames]
                    simp [membersOf]
                  · change (w.1.regs.map Registration.sevr).Nodup
                    rw [hregs, List.map_append, List.nodup_append]
                    refine ⟨h.nodup, by simp, fun q hq q' hq' => ?_⟩
                    rw [List.map_singleton, List.mem_singleton] at hq'
                    obtain ⟨g, hg, rfl⟩ := List.mem_map.mp hq
                    rintro rfl
                    have hbusy := (h.enrolled g hg).1
                    rw [hq', hidle] at hbusy
                    cases hbusy
                  · intro g hg
                    change g ∈ w.1.regs at hg
                    rw [hregs, List.mem_append, List.mem_singleton] at hg
                    rcases hg with hg | rfl
                    · exact hchanged.enrolled g hg
                    · change (Function.update s.process p _ p).client.registered = true ∧
                        _ = (Function.update s.process p _ p).events.map _
                      rw [hself]
                      exact ⟨hset.mpr hret, hnames⟩

lemma Agrees.gone {n : ℕ} (h : Agrees size s b) (hstep : s.gone n = some (s', ops)) :
    Agrees size s' (ops.foldl Bus.apply b) := by
  obtain ⟨u, hu, hstep⟩ := Option.bind_eq_some_iff.mp hstep
  obtain ⟨w, hw, hstep⟩ := Option.map_eq_some_iff.mp hstep
  obtain ⟨rfl, rfl⟩ := Prod.mk.inj hstep
  have hregs : w.1.regs = s.world.regs.filter fun g => g.id ≠ n := by
    obtain ⟨u', -, heq⟩ := Option.map_eq_some_iff.mp hw
    rw [← heq]
  have hexact : Exact w.1.regs w.1.broker := exact_step h.exact (l := .unregister n) trivial hw
  -- the registration of the subscriber is the one of its handle
  obtain ⟨g, hg, rfl⟩ := h.exact.2.owner n u hu
  obtain ⟨u', hu', hsevr, -⟩ := h.exact.2.record g hg
  obtain rfl : u = u' := Option.some.inj (hu.symm.trans hu')
  have hsame : ∀ g' ∈ s.world.regs, g'.id ≠ g.id ↔ g'.sevr ≠ u.sevr := by
    intro g' hg'
    rw [hsevr, not_iff_not]
    constructor
    · intro hid
      rw [List.inj_on_of_nodup_map h.exact.2.nodup hg' hg hid]
    · intro hs
      rw [List.inj_on_of_nodup_map h.nodup hg' hg hs]
  have hsub : ∀ g' ∈ w.1.regs, g' ∈ s.world.regs := by
    intro g' hg'
    rw [hregs] at hg'
    exact List.mem_of_mem_filter hg'
  refine ⟨hexact, ?_, ?_, fun g' hg' => h.enrolled g' (hsub g' hg'), h.ready, h.logged, h.sent⟩
  · change (b.members.filter fun m => m.id ≠ u.sevr) = membersOf w.1.regs
    rw [hregs, h.members, membersOf, membersOf, List.filter_map]
    congr 1
    apply List.filter_congr
    intro g' hg'
    exact decide_eq_decide.mpr (hsame g' hg').symm
  · change (w.1.regs.map Registration.sevr).Nodup
    rw [hregs]
    exact h.nodup.sublist (List.filter_sublist.map _)

/-- The frames of a process among those that are forwarded to different ones. -/
lemma framesFor_map {xs : List P} (h : xs.Nodup) (f : Ipc.IpcMsg) (p : P) :
    framesFor p (xs.map fun q => (q, f)) = if p ∈ xs then [f] else [] := by
  have hcount : framesFor p (xs.map fun q => (q, f)) = List.replicate (xs.count p) f := by
    induction xs with
    | nil => rfl
    | cons x xs ih =>
        have hxs := ih h.of_cons
        unfold framesFor at hxs ⊢
        rw [List.map_cons, List.filter_cons, List.count_cons]
        by_cases hx : x = p
        · simp [hx, hxs, List.replicate_succ]
        · simp [hx, hxs]
  rw [hcount]
  split_ifs with hp
  · rw [List.count_eq_one_of_mem h hp]
    rfl
  · rw [List.count_eq_zero_of_not_mem hp]
    rfl

lemma Agrees.push {pid : UInt32} {sent : Bool} {stack : Mem} {event : List UInt8}
    {json : Option (List UInt8)} {dest : ℤ} {via : Ipc.Via} (h : Agrees size s b)
    (hpush : Pushable size event (json.getD [])) (hdest : dest < 2 ^ 31)
    (hstep : s.push identity publish size pid sent stack event json dest via = some (s', ops)) :
    Agrees size s' (ops.foldl Bus.apply b) := by
  unfold System.push at hstep
  cases hframe : uapiEventPush pid sent stack event json dest with
  | none =>
      rw [hframe] at hstep
      obtain ⟨rfl, rfl⟩ := Prod.mk.inj (Option.some.inj hstep)
      exact h
  | some f =>
      rw [hframe] at hstep
      simp only at hstep
      split_ifs at hstep with hw
      obtain ⟨h0, hf, hlen⟩ := uapiEventPush_some hpush hframe
      obtain ⟨outs, hrelay, hstep⟩ := Option.bind_eq_some_iff.mp hstep
      obtain rfl := relay_push hf hlen hw hrelay
      rw [brokerRelay_push h0 hdest hpush.short hf, h.exact.deliver identity dest event,
        ← h.members] at hstep
      set ps := Bus.addressees (destOf identity dest) event b.members with hps
      have hnodup : ps.Nodup := by
        apply Bus.nodup_addressees
        rw [h.members, membersOf, List.map_map]
        exact h.nodup
      obtain ⟨rfl, rfl⟩ := Prod.mk.inj (Option.some.inj hstep)
      refine ⟨h.exact, h.members, h.nodup, h.enrolled, h.ready, fun p x hx => ?_, fun p => ?_⟩
      · rcases List.mem_append.mp hx with hx | hx
        · exact h.logged p x hx
        · split_ifs at hx with hp
          swap
          · cases hx
          obtain rfl := List.mem_singleton.mp hx
          obtain ⟨m, hm, rfl, htopic⟩ := Bus.exists_of_mem_addressees hp
          rw [h.members] at hm
          obtain ⟨g, hg, rfl⟩ := List.mem_map.mp hm
          obtain ⟨hregistered, hnames⟩ := h.enrolled g hg
          exact ⟨hregistered, hnames ▸ htopic⟩
      · apply List.rel_append (h.sent p)
        change List.Forall₂ (Shows size)
          (framesFor p ([ps.map fun q => (q, f.strip.token)].flatten)) _
        rw [List.flatten_singleton, framesFor_map hnodup]
        split_ifs
        · exact .cons ⟨⟨dest, hf.token⟩, hlen, hpush.short⟩ .nil
        · exact .nil

/-- **One step** of the system is what its events say on the bus. -/
lemma Agrees.step {l : Happening P C} (h : Agrees size s b) (hl : l.Fits size)
    (hstep : systemStep identity publish size s l = some (s', ops)) :
    Agrees size s' (ops.foldl Bus.apply b) := by
  cases l with
  | register p o fuel events cb rest oom brokerFuel =>
      exact h.register hl.1 hl.2.1 hl.2.2 hstep
  | gone n => exact h.gone hstep
  | push pid sent stack event json dest via => exact h.push hl.1 hl.2 hstep

end Refinement

/-! ## A run -/

/-- A registration of the process `p`, with a callback for the node `1` and one for the others. -/
def sampleRegister (p : ℕ) (events : List UapiEvent) : Happening ℕ ℕ :=
  .register p (sampleOutside false) 20 events
    ⟨fun e => if e.addr = 1 then some 10 else none, some 20⟩ [7, 7] (fun _ => false) 20

/-- Nothing of interest in the memory at the start. -/
def sampleSystem : System ℕ ℕ :=
  .init (fun _ _ => none) (fun _ => none) ⟨id, id⟩ (fun _ => bstCreate (fun _ _ => none) 0)
    (fun _ => ⟨none, fun _ => none, 0, 0⟩)

end LinuxC.Uapi
