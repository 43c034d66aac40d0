import LinuxC.Bst.Stability
import LinuxC.Common.ListHead
import LinuxC.Framework.Transition
import LinuxC.Uapi.Register

/-!
# The broker of `uapi/broker.c`

The broker keeps its events in a binary search tree, ordered by name.  An event has a list of the
subscribers that named it; the nodes of the list lie in an array of the subscriber.  An event stays
in the table when its last subscriber goes.

Objects that are allocated get numbers, and a number is not used twice.  The name of an event does
not change, so it is part of what identifies the event.  `oom` says which allocations of an event
fail, and a loop that is given too few turns ends in `Fault.fuel`, as in the tree.  `World` has,
besides the broker, the registrations that are in force; no function looks at them.
-/

namespace LinuxC.Uapi

open Bst

/-- `strcmp`, of which only the sign matters. -/
def strcmp : List UInt8 → List UInt8 → ℤ
  | [], [] => 0
  | [], _ :: _ => -1
  | _ :: _, [] => 1
  | a :: as, b :: bs => if a = b then strcmp as bs else (a.toNat : ℤ) - b.toNat

structure UapiEvent where
  addr : ℕ
  name : List UInt8
  deriving DecidableEq

def uapiEventCompareFunc (a b : UapiEvent) : ℤ := strcmp a.name b.name

def uapiEventSearchFunc (name : List UInt8) (entry : UapiEvent) : ℤ := strcmp name entry.name

/-- The lists: their heads are in the events, and their nodes in the arrays of the subscribers. -/
inductive EventLink
  | head (e : UapiEvent)
  | node (s i : ℕ)
  /-- `LIST_POISON1` and `LIST_POISON2`. -/
  | poison
  deriving DecidableEq

/-- `struct uapi_subscriber`; `event i` is `nodes[i].event`. -/
structure UapiSubscriber (P : Type) where
  sevr : P
  count : ℕ
  event : ℕ → Option UapiEvent

/-- `struct uapi_broker`, with the memory it works on. -/
structure UapiBroker (P : Type) where
  etableImbalance : ℕ
  etable : BstTable UapiEvent
  iterator : BstIterator UapiEvent
  links : Links EventLink
  subscriber : ℕ → Option (UapiSubscriber P)
  allocated : ℕ

variable {P : Type}

def uapiBrokerBstHeight : ℕ := 10

/-- `uapi_broker_init`; the arguments are what the memory holds. -/
def uapiBrokerInit (link : UapiEvent → Dir → Option UapiEvent) (stack : ℕ → Option UapiEvent)
    (links : Links EventLink) : UapiBroker P where
  etableImbalance := 0
  etable := bstCreate link uapiBrokerBstHeight
  iterator := bstIteratorInit stack (bstCreate link uapiBrokerBstHeight)
  links := links
  subscriber := fun _ => none
  allocated := 0

/-! ## The table -/

/-- The loop of `uapi_event_table_printf`. -/
def printfLoop : ℕ → Option UapiEvent → BstIterator UapiEvent → BstTable UapiEvent →
    Except Fault (BstIterator UapiEvent × BstTable UapiEvent)
  | 0, _, _, _ => .error .fuel
  | _ + 1, none, it, t => .ok (it, t)
  | fuel + 1, some _, it, t => do
      let r ← bstIteratorNext uapiEventCompareFunc fuel it t
      printfLoop fuel r.1 r.2.1 r.2.2

def uapiEventTablePrintf (fuel : ℕ) (b : UapiBroker P) : Except Fault (UapiBroker P) := do
  let r ← bstIteratorFirst fuel b.iterator b.etable
  let r ← printfLoop fuel r.1 r.2.1 r.2.2
  .ok { b with iterator := r.1, etable := r.2 }

def uapiBrokerTableBalance (fuel : ℕ) (b : UapiBroker P) : Except Fault (UapiBroker P) :=
  if b.etable.maxHeight ≤ b.etableImbalance then do
    let etable ← bstBalance fuel b.etable
    uapiEventTablePrintf fuel { b with etableImbalance := 0, etable := etable }
  else .ok b

/-- `bst_search(broker->etable, name)`. -/
def UapiBroker.find (name : List UInt8) (b : UapiBroker P) : Except Fault (Option UapiEvent) :=
  bstSearch uapiEventSearchFunc name b.etable (b.etable.count + 1) b.etable.root

/-! ## Subscribers -/

/-- `list_add_tail(&subscriber->nodes[i].list, &event_entry->head)`. -/
def UapiBroker.link (s i : ℕ) (e : UapiEvent) (b : UapiBroker P) : UapiBroker P :=
  { b with links := listAddTail (.node s i) (.head e) b.links }

/-- `subscriber->nodes[i].event = event_entry`. -/
def UapiBroker.setNode (s i : ℕ) (e : UapiEvent) (b : UapiBroker P) : UapiBroker P :=
  { b with
    subscriber := Function.update b.subscriber s
      ((b.subscriber s).map fun u => { u with event := Function.update u.event i (some e) }) }

/-- A new event is allocated, with an empty list. -/
def UapiBroker.newEvent (name : List UInt8) (b : UapiBroker P) : UapiBroker P :=
  { b with
    links := initListHead (.head ⟨b.allocated, name⟩) b.links
    allocated := b.allocated + 1 }

/-- One round of the loop of `uapi_broker_subscriber_register`; there is no broker when there is no
memory. -/
def registerEvent (oom : Bool) (fuel s i : ℕ) (name : List UInt8) (b : UapiBroker P) :
    Except Fault (Option (UapiBroker P)) := do
  let n ← b.find name
  match n with
  | some e => .ok (some ((b.link s i e).setNode s i e))
  | none =>
      if oom then .ok none
      else do
        let e : UapiEvent := ⟨b.allocated, name⟩
        let b := (b.newEvent name).link s i e
        let r ← bstInsert uapiEventCompareFunc (b.etable.count + 1) e b.etable
        let b ← uapiBrokerTableBalance fuel
          { b with etable := r.1, etableImbalance := b.etableImbalance + 1 }
        .ok (some (b.setNode s i e))

/-- The loop of `uapi_broker_subscriber_register`, from the index `i` on; false is its error. -/
def registerEvents (oom : ℕ → Bool) (fuel s : ℕ) :
    ℕ → List (List UInt8) → UapiBroker P → Except Fault (Bool × UapiBroker P)
  | _, [], b => .ok (true, b)
  | i, name :: names, b => do
      let r ← registerEvent (oom i) fuel s i name b
      match r with
      | some b => registerEvents oom fuel s (i + 1) names b
      | none => .ok (false, b)

/-- The loop of `uapi_broker_subscriber_unregister`, from the index `i` on. -/
def unlinkNodes (s : ℕ) (u : UapiSubscriber P) : ℕ → ℕ → Links EventLink → Links EventLink
  | 0, _, l => l
  | n + 1, i, l =>
      if (u.event i).isSome then unlinkNodes s u n (i + 1) (listDel .poison (.node s i) l) else l

def uapiBrokerSubscriberUnregister (s : ℕ) (u : UapiSubscriber P) (b : UapiBroker P) :
    UapiBroker P :=
  { b with
    links := unlinkNodes s u u.count 0 b.links
    subscriber := Function.update b.subscriber s none }

/-- A new subscriber is allocated. -/
def UapiBroker.newSubscriber (sevr : P) (count : ℕ) (b : UapiBroker P) : UapiBroker P :=
  { b with
    subscriber := Function.update b.subscriber b.allocated (some ⟨sevr, count, fun _ => none⟩)
    allocated := b.allocated + 1 }

/-- `uapi_broker_subscriber_register`; false is its error.  For a negative count `calloc` fails. -/
def uapiBrokerSubscriberRegister (oom : ℕ → Bool) (fuel : ℕ) (sevr : P) (r : UapiRegister)
    (b : UapiBroker P) : Except Fault (Bool × UapiBroker P) :=
  if r.count < 0 then .ok (false, b)
  else do
    let s := b.allocated
    let res ← registerEvents oom fuel s 0 r.names (b.newSubscriber sevr r.count.toNat)
    if res.1 then .ok res
    else
      -- `err`
      .ok (false, (res.2.subscriber s).elim res.2 fun u =>
        uapiBrokerSubscriberUnregister s u res.2)

/-! ## Delivery -/

def ipcToBroadcast : ℤ := 0x7FFFFFFF

/-- What `uapi_broker_event_deliver` reads of a notification. -/
structure UapiNotify where
  dest : ℤ
  event : List UInt8

/-- `node->subscriber->sevr`. -/
def UapiBroker.sevrOf (b : UapiBroker P) : EventLink → Option P
  | .node s _ => (b.subscriber s).map UapiSubscriber.sevr
  | _ => none

/-- `uapi_broker_event_deliver`: the handles that the notification is forwarded to, in order. -/
def uapiBrokerEventDeliver (identity : P → ℤ) (notify : UapiNotify) (b : UapiBroker P) :
    Except Fault (List P) := do
  let n ← b.find notify.event
  match n with
  | none => .ok []
  | some e =>
      if notify.dest = ipcToBroadcast then
        match listForEach b.allocated (.head e) b.links with
        | none => .error .fuel
        | some nodes => .ok (nodes.filterMap b.sevrOf)
      else
        let good := fun a => (b.sevrOf a).any fun p => identity p = notify.dest
        match listFind b.allocated (.head e) good b.links with
        | none => .error .fuel
        | some node => .ok ((node.bind b.sevrOf).toList)

/-! ## Histories -/

/-- A registration that is in force: the subscriber that the broker has allocated for it, the handle
that it forwards to, and the names in the order of the request. -/
structure Registration (P : Type) where
  id : ℕ
  sevr : P
  names : List (List UInt8)

/-- The broker with the registrations in force, in their order. -/
structure World (P : Type) where
  broker : UapiBroker P
  regs : List (Registration P)

/-- The calls of the broker.  `oom` says for which events of a registration there is no memory, and
`fuel` how many turns its loops get; a call that needs more is no step. -/
inductive Op (P : Type)
  | register (sevr : P) (r : UapiRegister) (oom : ℕ → Bool) (fuel : ℕ)
  | unregister (s : ℕ)

/-- One call, with the result of a registration; there is no step when the call does not return. -/
def step (w : World P) : Op P → Option (World P × List Bool)
  | .register sevr r oom fuel =>
      match uapiBrokerSubscriberRegister oom fuel sevr r w.broker with
      | .error _ => none
      | .ok (done, broker) =>
          let regs := if done then w.regs ++ [⟨w.broker.allocated, sevr, r.names⟩] else w.regs
          some (⟨broker, regs⟩, [done])
  | .unregister s =>
      (w.broker.subscriber s).map fun u =>
        (⟨uapiBrokerSubscriberUnregister s u w.broker, w.regs.filter fun g => g.id ≠ s⟩, [])

end LinuxC.Uapi
