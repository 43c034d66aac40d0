import LinuxC.Bst.OrderedSet
import LinuxC.Bst.Walk
import LinuxC.Ipc.ServerLoop
import LinuxC.Uapi.Push

/-!
# The methods of a server (`uapi/uapi_server.c`)

`uapi_ipc_init` puts the entries of a server into a search tree by the names of their methods, and
balances it.  `uapi_ipc_handler` is the handler of the messages: a request is for the method whose
name it starts with, and a list names the methods with their parameters.

A list walks through the tree with the iterator of the table.  `Serves` is what every message leaves
as it is: the nodes of the tree are the entries, of those with one method the first one, and the tree
is low enough for the next walk.
-/

namespace LinuxC.Uapi

open Bst

/-! ## The table -/

/-- `struct uapi_entry`.  The handler of an entry is a parameter below. -/
structure UapiEntry where
  addr : ℕ
  method : List UInt8
  param : List UInt8
  deriving DecidableEq

def uapiComparator (a b : UapiEntry) : ℤ := strcmp a.method b.method

def uapiSearcher (method : List UInt8) (entry : UapiEntry) : ℤ := strcmp method entry.method

/-- `__uapi_table` and `__uapi_path`. -/
structure UapiServer where
  uapi : BstTable UapiEntry
  iterator : BstIterator UapiEntry
  path : List UInt8

/-- What `uapi_ipc_init` gets from outside. -/
structure InitEnv where
  /-- `ipc_server_init` -/
  server : Bool
  /-- memory for the table -/
  table : Bool
  /-- memory for its iterator -/
  iterator : Bool
  /-- what the entries hold in their nodes -/
  link : UapiEntry → Dir → Option UapiEntry
  /-- the stack of the iterator -/
  stack : ℕ → Option UapiEntry

def uapiPathPrefix : List UInt8 := asciiBytes "uapi:"

def isUapiPath (path : List UInt8) : Bool := path.take uapiPathPrefix.length = uapiPathPrefix

/-- `uapi_ipc_init`; nothing is its result `-1`. -/
def uapiIpcInit (env : InitEnv) (fuel : ℕ) (path : List UInt8) (entries : List UapiEntry) :
    Except Fault (Option UapiServer) :=
  if !isUapiPath path then .ok none
  else if !env.server then .ok none
  else if !(env.table && env.iterator) then .ok none
  else do
    let iterator := bstIteratorInit env.stack (bstCreate env.link (fhs entries.length))
    let t ← entryTable uapiComparator env.link fuel entries
    -- `uapi_table_printf`
    let w ← bstWalk uapiComparator fuel iterator t
    .ok (some ⟨w.2.2, w.2.1, path⟩)

/-! ## The messages -/

def uapiMsgRequest : UInt32 := 6000

def uapiMsgList : UInt32 := 6001

def uapiMethodMaxLength : ℕ := 31

/-- `sizeof(struct uapi_request)`. -/
def uapiRequestHdrlen : ℕ := 32

/-- A message with another payload; `data_len` is an `unsigned short`. -/
def withData (msg : Ipc.IpcMsg) (data : List UInt8) : Ipc.IpcMsg :=
  { msg with
    data := data.take (data.length % 2 ^ 16)
    data_lt := by
      rw [List.length_take]
      exact (Nat.min_le_left _ _).trans_lt (Nat.mod_lt _ (by decide)) }

/-- Data that are written into a message: the buffer has `room` bytes from the start of the message,
which nothing compares with the length. -/
def writeData (room : ℕ) (msg : Ipc.IpcMsg) (data : List UInt8) : Except Fault Ipc.IpcMsg :=
  if Ipc.ipcMsgHdrlen + data.length ≤ room then .ok (withData msg data) else .error .overflow

lemma writeData_ok {room : ℕ} {data : List UInt8} (h : Ipc.ipcMsgHdrlen + data.length ≤ room)
    (msg : Ipc.IpcMsg) : writeData room msg data = .ok (withData msg data) := if_pos h

/-- The answer to a request for a method that is not there. -/
def methodNotFound : List UInt8 := asciiBytes "Method not found"

section Handler

variable {J : Type} (parse : List UInt8 → Option J)
  (handler : UapiEntry → Ipc.IpcMsg → Option J → Ipc.IpcMsg)
  (priv : Option (Ipc.IpcMsg → Ipc.IpcMsg)) (room : ℕ)

/-- `uapi_request_handler`.  `parse` is `json_tokener_parse`, and `handler` says how the handler of
an entry leaves the message; `rest` is what stands behind the message. -/
def uapiRequestHandler (s : UapiServer) (msg : Ipc.IpcMsg) (rest : List UInt8) :
    Except Fault Ipc.IpcMsg := do
  let data := msg.data ++ rest
  let n ← bstSearch uapiSearcher (cString data) s.uapi (s.uapi.count + 1) s.uapi.root
  match n with
  | some entry =>
      let msg := handler entry msg (parse (cString (data.drop uapiRequestHdrlen)))
      writeData room msg (msg.data ++ [0])
  | none => writeData room msg (methodNotFound ++ [0])

/-- A string with blanks behind it, for `%-32s`. -/
def alignLeft (width : ℕ) (s : List UInt8) : List UInt8 := s ++ List.replicate (width - s.length) 32

/-- `"\tmethod: %-32s param: %s\n"`. -/
def methodLine (entry : UapiEntry) : List UInt8 :=
  asciiBytes "\tmethod: " ++ alignLeft 32 entry.method ++ asciiBytes " param: " ++ entry.param ++
    [10]

/-- The text of a list. -/
def listText (path : List UInt8) (entries : List UapiEntry) : List UInt8 :=
  asciiBytes "Path [" ++ path ++ asciiBytes "]:\n" ++ entries.flatMap methodLine

/-- `uapi_list_handler`.  The text is written with `sprintf`, however long it becomes. -/
def uapiListHandler (s : UapiServer) (msg : Ipc.IpcMsg) :
    Except Fault (Ipc.IpcMsg × UapiServer) := do
  let w ← bstWalk uapiComparator (2 * s.uapi.count + 4) s.iterator s.uapi
  let reply ← writeData room msg (listText s.path w.1 ++ [0])
  .ok (reply, { s with uapi := w.2.2, iterator := w.2.1 })

def uapiIpcHandler (s : UapiServer) (msg : Ipc.IpcMsg) (rest : List UInt8) :
    Except Fault (Ipc.IpcMsg × UapiServer) :=
  if msg.msgId = uapiMsgRequest then do
    let reply ← uapiRequestHandler parse handler room s msg rest
    .ok (reply, s)
  else if msg.msgId = uapiMsgList then uapiListHandler room s msg
  else
    match priv with
    | some priv => .ok (priv msg, s)
    | none => .ok (msg, s)

/-- A message comes in, with what stands behind it.  The event is the message afterwards. -/
def uapiServerStep (s : UapiServer) (l : Ipc.IpcMsg × List UInt8) :
    Option (UapiServer × List Ipc.IpcMsg) :=
  match uapiIpcHandler parse handler priv room s l.1 l.2 with
  | .ok (msg, s) => some (s, [msg])
  | .error _ => none

end Handler

/-! ## Entries with one method -/

/-- The nodes are the entries, of those with one method the first. -/
def FirstOf (es xs : List UapiEntry) : Prop :=
  ∀ e, e ∈ xs ↔ es.find? (fun m => m.method = e.method) = some e

lemma comparator_uapi : Comparator uapiComparator :=
  ⟨fun a b => strcmp_swap a.method b.method, fun _ _ _ => strcmp_trans⟩

/-- A search by a name agrees with the order by the names. -/
lemma consistent_strcmp {N : Type} (name : N → List UInt8) :
    Rb.Consistent (fun a b : N => strcmp (name a) (name b)) fun item a => strcmp item (name a) where
  below := fun _ _ _ hab hia => strcmp_trans hia hab
  above := by
    intro item a b hab hib
    by_contra hia
    have hlt : strcmp item (name b) < 0 := strcmp_trans (not_lt.mp hia) hab
    exact absurd hib (not_le.mpr hlt)

lemma FirstOf.known {es xs : List UapiEntry} (h : FirstOf es xs) {n m : UapiEntry} (hm : m ∈ xs)
    (hname : m.method = n.method) : FirstOf (es ++ [n]) xs := by
  intro e
  rw [h e, List.find?_append]
  by_cases he : n.method = e.method
  · have hsome := (h m).mp hm
    rw [hname, he] at hsome
    rw [hsome]
    rfl
  · rw [List.find?_singleton, if_neg (by simpa using he), Option.or_none]

lemma FirstOf.new {es xs ys zs : List UapiEntry} {n : UapiEntry} (h : FirstOf es (ys ++ zs))
    (hxs : xs = ys ++ n :: zs) (hnew : ∀ m ∈ ys ++ zs, m.method ≠ n.method) :
    FirstOf (es ++ [n]) xs := by
  intro e
  have hmem : e ∈ xs ↔ e = n ∨ e ∈ ys ++ zs := by
    rw [hxs, List.mem_append, List.mem_append, List.mem_cons]
    tauto
  rw [hmem, h e, List.find?_append]
  by_cases he : n.method = e.method
  · -- no entry before it has this method
    have hnone : es.find? (fun m => m.method = e.method) = none := by
      rw [Option.eq_none_iff_forall_ne_some]
      intro m hm
      have hname : m.method = e.method := by simpa using List.find?_some hm
      exact hnew m ((h m).mpr (hname ▸ hm)) (hname.trans he.symm)
    rw [hnone, List.find?_singleton, if_pos (by simpa using he)]
    simp [eq_comm]
  · rw [List.find?_singleton, if_neg (by simpa using he), Option.or_none]
    refine or_iff_right ?_
    rintro rfl
    exact he rfl

/-- **The loop of the insertions** keeps the first entry with each method. -/
lemma insertEntries_first {es ns : List UapiEntry} {t : BstTable UapiEntry} {T : Tree UapiEntry}
    (h : IsTree uapiComparator t T) (hfirst : FirstOf es T.nodes) {fuel : ℕ}
    (hfuel : t.count + ns.length < fuel) :
    ∃ t' T', insertEntries uapiComparator fuel ns t = .ok t' ∧ IsTree uapiComparator t' T' ∧
      FirstOf (es ++ ns) T'.nodes ∧ t'.count ≤ t.count + ns.length ∧ t'.maxHeight = t.maxHeight := by
  induction ns generalizing es t T with
  | nil =>
      rw [List.append_nil]
      exact ⟨t, T, rfl, h, hfirst, le_rfl, rfl⟩
  | cons n ns ih =>
      rw [List.length_cons] at hfuel ⊢
      obtain ⟨t₁, T₁, r, heval, h₁, hfirst₁, hcount, hmax⟩ : ∃ t₁ T₁ r,
          bstInsert uapiComparator fuel n t = .ok (t₁, r) ∧ IsTree uapiComparator t₁ T₁ ∧
          FirstOf (es ++ [n]) T₁.nodes ∧ t₁.count ≤ t.count + 1 ∧ t₁.maxHeight = t.maxHeight := by
        by_cases hequal : ∃ m ∈ T.nodes, uapiComparator n m = 0
        · obtain ⟨m, hm, hnm⟩ := hequal
          have hname : m.method = n.method := (strcmp_eq_zero hnm).symm
          exact ⟨t, T, m, h.insert_equal comparator_uapi hm hnm (by omega), h,
            hfirst.known hm hname, Nat.le_succ _, rfl⟩
        · push Not at hequal
          obtain ⟨t₁, T₁, heval, h₁, ⟨ys, zs, hold, hadded⟩, hmax⟩ :=
            h.insert_new comparator_uapi hequal (by omega : t.count < fuel)
          have hnew : ∀ m ∈ ys ++ zs, m.method ≠ n.method := by
            intro m hm hname
            apply hequal m (hold ▸ hm)
            rw [uapiComparator, hname, strcmp_self]
          refine ⟨t₁, T₁, n, heval, h₁, (hold ▸ hfirst).new hadded hnew, ?_, hmax⟩
          rw [h₁.count, h.count, hold, hadded]
          simp only [List.length_append, List.length_cons]
          omega
      obtain ⟨t', T', heval', h', hfirst', hcount', hmax'⟩ := ih h₁ hfirst₁ (by omega)
      rw [List.append_assoc, List.singleton_append] at hfirst'
      refine ⟨t', T', ?_, h', hfirst', by omega, hmax'.trans hmax⟩
      rw [insertEntries, heval]
      exact heval'

/-! ## The server -/

section Serves

variable {J : Type} {parse : List UInt8 → Option J}
  {handler : UapiEntry → Ipc.IpcMsg → Option J → Ipc.IpcMsg}
  {priv : Option (Ipc.IpcMsg → Ipc.IpcMsg)} {room : ℕ}
  {es : List UapiEntry} {path : List UInt8} {s s' : UapiServer}

/-- **A server with these entries**, ready for the next message. -/
structure Serves (es : List UapiEntry) (path : List UInt8) (s : UapiServer) : Prop where
  tree : ∃ T, IsTree uapiComparator s.uapi T ∧ FirstOf es T.nodes ∧ Lowest T ∧
    T.nodes.length < 2 ^ (s.uapi.maxHeight + 1)
  path : s.path = path

/-- **The start** succeeds when everything is there that it gets from outside, and the server has the
entries then. -/
lemma uapiIpcInit_serves (env : InitEnv) (path : List UInt8) (es : List UapiEntry) {fuel : ℕ}
    (hfuel : 2 * es.length + 4 ≤ fuel) :
    ∃ r, uapiIpcInit env fuel path es = .ok r ∧
      (r.isSome = true ↔ isUapiPath path = true ∧ env.server = true ∧ env.table = true ∧
        env.iterator = true) ∧
      ∀ s, r = some s → Serves es path s := by
  have hnew : IsTree uapiComparator (bstCreate env.link (fhs es.length)) .nil :=
    ⟨⟨rfl, trivial, List.nodup_nil⟩, List.Pairwise.nil, rfl⟩
  have hzero : (bstCreate env.link (fhs es.length)).count = 0 := rfl
  have hnone : FirstOf [] (Tree.nil : Tree UapiEntry).nodes := by
    intro e
    simp
  obtain ⟨t₁, T₁, heval₁, h₁, hfirst₁, hcount₁, hmax₁⟩ :=
    insertEntries_first hnew hnone (by omega : _ + es.length < fuel)
  obtain ⟨t₂, T₂, heval₂, h₂, hnodes₂, hlow₂, -, hmax₂, hcount₂⟩ :=
    h₁.balance_filled (by omega : 2 * t₁.count < fuel)
  rw [h₁.count, ← hnodes₂] at hlow₂
  have hlength : T₂.nodes.length ≤ es.length := by
    rw [← h₂.count, hcount₂]
    omega
  have hfits : T₂.nodes.length < 2 ^ (t₂.maxHeight + 1) := by
    have hheight : t₁.maxHeight = fhs es.length := hmax₁
    have hless := lt_two_pow_fhs es.length
    rw [hmax₂, hheight, Nat.pow_succ]
    omega
  obtain ⟨w, hw, -, hmax, T, hT, hnodes, hlow⟩ := h₂.walk comparator_uapi hlow₂ hfits
    (bstIteratorInit env.stack (bstCreate env.link (fhs es.length)))
    (by omega : 2 * T₂.nodes.length + 4 ≤ fuel)
  have htable : entryTable uapiComparator env.link fuel es = .ok t₂ := by
    rw [entryTable, heval₁]
    exact heval₂
  unfold uapiIpcInit
  split_ifs with hpath hserver hmemory
  · exact ⟨none, rfl, by simp_all, by simp⟩
  · exact ⟨none, rfl, by simp_all, by simp⟩
  · have hnot : ¬ (env.table = true ∧ env.iterator = true) := by
      rintro ⟨htable, hiterator⟩
      rw [htable, hiterator] at hmemory
      exact absurd hmemory (by decide)
    exact ⟨none, rfl, iff_of_false (by simp) fun h => hnot h.2.2, by simp⟩
  · refine ⟨some ⟨w.2.2, w.2.1, path⟩, ?_, by simp_all, ?_⟩
    · simp only [htable, hw, bind, Except.bind]
    · rintro s ⟨⟩
      refine ⟨⟨T, hT, ?_, hlow, ?_⟩, rfl⟩
      · rw [hnodes, hnodes₂]
        exact hfirst₁
      · rwa [hnodes, hmax]

/-- **A search** finds the first entry with the method. -/
lemma Serves.search (h : Serves es path s) (method : List UInt8) :
    bstSearch uapiSearcher method s.uapi (s.uapi.count + 1) s.uapi.root =
      .ok (es.find? fun m => m.method = method) := by
  obtain ⟨T, hT, hfirst, -, -⟩ := h.tree
  obtain ⟨r, hr, hspec⟩ :=
    hT.search (consistent_strcmp UapiEntry.method) method (Nat.lt_succ_self _)
  have hfound : r = es.find? fun m => m.method = method := by
    apply Option.ext
    intro m
    rw [hspec m, hfirst m]
    constructor
    · rintro ⟨hfind, hzero⟩
      rw [strcmp_eq_zero hzero]
      exact hfind
    · intro hfind
      have hname : m.method = method := by simpa using List.find?_some hfind
      exact ⟨by rw [hname]; exact hfind, by rw [hname, strcmp_self]⟩
  rw [← hfound]
  exact hr

/-- **The request handler** calls the handler of the first entry with the method. -/
lemma Serves.request (h : Serves es path s) (msg : Ipc.IpcMsg) (rest : List UInt8) :
    uapiRequestHandler parse handler room s msg rest =
      match es.find? fun m => m.method = cString (msg.data ++ rest) with
      | some entry =>
          let msg :=
            handler entry msg (parse (cString ((msg.data ++ rest).drop uapiRequestHdrlen)))
          writeData room msg (msg.data ++ [0])
      | none => writeData room msg (methodNotFound ++ [0]) := by
  unfold uapiRequestHandler
  simp only [h.search, bind, Except.bind]

/-- **The list handler** names the nodes in their order. -/
lemma Serves.list (h : Serves es path s) : ∃ xs, Sorted uapiComparator xs ∧ FirstOf es xs ∧
    ∃ s', Serves es path s' ∧ ∀ room msg, uapiListHandler room s msg =
      (writeData room msg (listText path xs ++ [0])).map (·, s') := by
  obtain ⟨T, hT, hfirst, hlow, hfits⟩ := h.tree
  obtain ⟨w, hw, hmet, hmax, T', hT', hnodes, hlow'⟩ :=
    hT.walk comparator_uapi hlow hfits s.iterator
      (by rw [hT.count] : 2 * T.nodes.length + 4 ≤ 2 * s.uapi.count + 4)
  refine ⟨T.nodes, hT.sorted, hfirst, { s with uapi := w.2.2, iterator := w.2.1 },
    ⟨⟨T', hT', ?_, hlow', ?_⟩, h.path⟩, fun room msg => ?_⟩
  · rwa [hnodes]
  · rwa [hnodes, hmax]
  · unfold uapiListHandler
    simp only [hw, bind, Except.bind, hmet, h.path]
    cases writeData room msg (listText path T.nodes ++ [0]) <;> rfl

/-- **Every message** leaves the entries as they are. -/
lemma Serves.step (h : Serves es path s) {l : Ipc.IpcMsg × List UInt8} {replies : List Ipc.IpcMsg}
    (hstep : uapiServerStep parse handler priv room s l = some (s', replies)) :
    Serves es path s' := by
  unfold uapiServerStep uapiIpcHandler at hstep
  by_cases hrequest : l.1.msgId = uapiMsgRequest
  · rw [if_pos hrequest] at hstep
    cases hreply : uapiRequestHandler parse handler room s l.1 l.2 with
    | error e =>
        rw [hreply] at hstep
        cases hstep
    | ok reply =>
        rw [hreply] at hstep
        obtain ⟨rfl, -⟩ := Prod.mk.inj (Option.some.inj hstep)
        exact h
  · rw [if_neg hrequest] at hstep
    by_cases hlist : l.1.msgId = uapiMsgList
    · obtain ⟨xs, -, -, s₁, h₁, hlisted⟩ := h.list
      rw [if_pos hlist, hlisted] at hstep
      cases hreply : writeData room l.1 (listText path xs ++ [0]) with
      | error e =>
          rw [hreply] at hstep
          cases hstep
      | ok reply =>
          rw [hreply] at hstep
          obtain ⟨rfl, -⟩ := Prod.mk.inj (Option.some.inj hstep)
          exact h₁
    · rw [if_neg hlist] at hstep
      cases priv <;>
      · obtain ⟨rfl, -⟩ := Prod.mk.inj (Option.some.inj hstep)
        exact h

lemma Serves.run (h : Serves es path s) {ls : List (Ipc.IpcMsg × List UInt8)}
    {replies : List Ipc.IpcMsg}
    (hrun : run (uapiServerStep parse handler priv room) ls s = some (s', replies)) :
    Serves es path s' := by
  have hok : Along (uapiServerStep parse handler priv room) (fun _ _ => True) ls s :=
    along_of_forall (fun _ _ => trivial) s
  exact run_invariant (fun h _ hstep => h.step hstep) h hok hrun

/-- **A server that was started** has the entries whatever messages it has handled since. -/
lemma serves_of_run {env : InitEnv} {fuel : ℕ} (hfuel : 2 * es.length + 4 ≤ fuel)
    (hinit : uapiIpcInit env fuel path es = .ok (some s)) {ls : List (Ipc.IpcMsg × List UInt8)}
    {replies : List Ipc.IpcMsg}
    (hrun : run (uapiServerStep parse handler priv room) ls s = some (s', replies)) :
    Serves es path s' := by
  obtain ⟨r, hr, -, hs⟩ := uapiIpcInit_serves env path es hfuel
  obtain rfl := Except.ok.inj (hinit.symm.trans hr)
  exact (hs s rfl).run hrun

end Serves

end LinuxC.Uapi
