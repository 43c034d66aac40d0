import LinuxC.Ipc.Request

/-!
# Connections that are kept (`uapi/uapi_client.c`)

With `UAPI_F_MULTIPLEX` a request uses the connection to its server that is in the list
`uapic_head`, and puts a new one there if there is none.  Whenever a request fails its connection is
taken out of the list and closed.

On a connection that is kept after a failure a late reply is taken for the next one
(`stale_reply_returned`).  Here that cannot happen: between two calls nothing is under way or unread
on any connection of the list, so that every reply is the one to its own request
(`multiplexed_replies_match`).

The calls are made one at a time, by one thread or under the lock of `UAPI_F_SAFE`.
-/

namespace LinuxC.Uapi

open Ipc

/-! ## The functions -/

/-- `struct uapic_struct`; `server` is `server_of`. -/
structure Uapic where
  server : List UInt8
  channel : Channel

/-- A call of `uapi_request_multiplex`, with what happens on the connection until it returns. -/
structure MultiplexCall where
  server : List UInt8
  /-- whether `malloc` and `ipc_client_create` succeed -/
  created : Bool
  args : RequestArgs
  labels : List ChannelLabel

/-- A call that has returned: the message it was called with, its result, what `ipc_client_request`
has returned if a reply was to come, and the connection afterwards. -/
structure MultiplexReturn where
  server : List UInt8
  args : RequestArgs
  result : ℤ
  returned : Option Returned
  channel : Channel

/-- `uapi_client_create`: the list, and the place of the client in it. -/
def uapiClientCreate (server : List UInt8) (created : Bool) (head : List Uapic) :
    Option (List Uapic × ℕ) :=
  match head.findIdx? fun u => u.server = server with
  | some i => some (head, i)
  | none => if created then some (⟨server, .init⟩ :: head, 0) else none

/-- A request of the client itself. -/
def isRequest : ChannelLabel → Bool
  | .request _ => true
  | .answer _ => false
  | .recv _ => false
  | .fail _ => false

/-- `ipc_client_request` until it returns: the connection, and the entry of the call in its log.  A
request without a reply has none. -/
def requestReturns (identity : UInt32) (l : MultiplexCall) (c : Channel) :
    Option (Channel × Option Returned) :=
  if l.labels.any isRequest then none
  else
    (run (channelStep identity) (.request l.args :: l.labels) c).bind fun r =>
      if r.1.calling.isSome then none else some (r.1, r.1.log[c.log.length]?)

def uapiRequestMultiplex (identity : UInt32) (l : MultiplexCall) (head : List Uapic) :
    Option (List Uapic × List MultiplexReturn) :=
  match uapiClientCreate l.server l.created head with
  | none => some (head, [⟨l.server, l.args, -1, none, .init⟩])
  | some (head, i) =>
      head[i]?.bind fun u =>
        (requestReturns identity l u.channel).map fun r =>
          if r.2.all fun x => x.code = .success then
            (head.set i ⟨u.server, r.1⟩, [⟨l.server, l.args, 0, r.2, r.1⟩])
          else
            -- `uapi_client_destroy`
            (head.eraseIdx i, [⟨l.server, l.args, -1, r.2, r.1⟩])

/-- A call of a task, which takes the client for its server from the list, or an answer of a server
that comes while no call is made. -/
inductive MultiplexLabel
  | call (l : MultiplexCall)
  /-- A server answers on the connection `i` while there is no call. -/
  | answer (i : ℕ) (reply : IpcMsg)

/-- One step. -/
def multiplexStep (identity : UInt32) (head : List Uapic) :
    MultiplexLabel → Option (List Uapic × List MultiplexReturn)
  | .call l => uapiRequestMultiplex identity l head
  | .answer i reply =>
      head[i]?.bind fun u =>
        (channelStep identity u.channel (.answer reply)).map fun r =>
          (head.set i ⟨u.server, r.1⟩, [])

/-! ## One call -/

section Call

variable {identity : UInt32} {c c' c₀ : Channel} {a : RequestArgs} {ls : List ChannelLabel}
  {es : List Empty}

/-- Nothing is under way or unread, and no call waits. -/
structure Idle (c : Channel) : Prop where
  paired : Paired c
  settled : c.Settled
  calling : c.calling = none

/-- The frame of a request. -/
def frameOf (identity : UInt32) (a : RequestArgs) : IpcMsg :=
  readMsg (sendMsg (requestHeader identity a.msg) 0) 0

/-- The call that has started on `c₀` has returned with this entry, and if it has succeeded the
connection is idle and the entry belongs to its frame. -/
structure HasReturned (frame : IpcMsg) (c₀ c : Channel) (r : Returned) : Prop where
  calling : c.calling = none
  log : c.log = c₀.log ++ [r]
  success : r.code = .success → Idle c ∧ c.requests[r.index]? = some frame

/-- The call of `frame` waits for its reply: nothing has been returned since it began, its request
is the last one of the connection, and there are no more answers than requests. -/
structure Waits (frame : IpcMsg) (c₀ c : Channel) (p : Calling) : Prop where
  calling : c.calling = some p
  paired : Paired c
  log : c.log = c₀.log
  requests : c.requests = c₀.requests ++ [frame]
  answers : c.answers.length ≤ c.requests.length

/-- **A call on its way**: it waits, or has returned, or it was one without a reply. -/
inductive Underway (frame : IpcMsg) (c₀ c : Channel) : Prop
  | waits (p : Calling) (h : Waits frame c₀ c p)
  | returned (r : Returned) (h : HasReturned frame c₀ c r)
  | sent (h : c = c₀)

lemma idle_init : Idle Channel.init := ⟨paired_init, ⟨rfl, rfl⟩, rfl⟩

lemma hasReturned_ret {frame : IpcMsg} (hlog : c.log = c₀.log) (i : ℕ) {code : IpcRequest}
    (hcode : code ≠ .success) (m : Mem) :
    HasReturned frame c₀ (c.ret i code m) ⟨i, code, readMsg m 0⟩ :=
  ⟨rfl, by simp [Channel.ret, hlog], fun h => absurd h hcode⟩

/-- **The start** of a call on an idle connection. -/
lemma Idle.request (h : Idle c) (identity : UInt32) (a : RequestArgs) :
    Underway (frameOf identity a) c (ipcClientRequest identity a c) := by
  have hpaired := h.paired.request h.settled identity a
  simp only [ipcClientRequest, ipcRequest] at hpaired ⊢
  split_ifs at hpaired ⊢
  · exact .returned _ (hasReturned_ret rfl _ (by simp) _)
  · exact .returned _ (hasReturned_ret rfl _ (by simp) _)
  · exact .returned _ (hasReturned_ret rfl _ (by simp) _)
  · cases henter : recvMsgEnter a.size a.tmo (sendMsg (requestHeader identity a.msg) 0) with
    | again w =>
        rw [henter] at hpaired
        refine .waits ⟨c.requests.length, w⟩ ⟨rfl, hpaired, rfl, rfl, ?_⟩
        change c.answers.length ≤ (c.requests ++ [_]).length
        rw [List.length_append, h.settled.1]
        exact Nat.le_succ _
    | done r m =>
        have hcode : requestCode r ≠ .success := by
          rw [recvMsgEnter] at henter
          split_ifs at henter
          obtain ⟨rfl, -⟩ := RecvPass.done.inj henter
          exact requestCode_error _
        exact .returned ⟨c.requests.length, requestCode r, readMsg m 0⟩
          ⟨rfl, rfl, fun h => absurd h hcode⟩
  · exact .sent rfl

/-- **A reception.**  When the reply is there, nothing else is. -/
lemma Waits.recv {frame : IpcMsg} {p : Calling} (h : Waits frame c₀ c p) {n : ℕ} (hpos : 0 < n)
    (hn : n ≤ c.stream.length) :
    Underway frame c₀ (Channel.after { c with stream := c.stream.drop n } p.index
      (p.recv.pass (c.stream.take n))) := by
  have hpaired := h.paired.recv h.calling hpos hn
  obtain ⟨hindex, ⟨-, -, hnil⟩ | ⟨reply, hreply, hstream⟩⟩ := h.paired.calling p h.calling
  · rw [hnil, List.length_nil] at hn
    omega
  cases hpass : p.recv.pass (c.stream.take n) with
  | again w =>
      rw [hpass] at hpaired
      exact .waits ⟨p.index, w⟩ ⟨rfl, hpaired, h.log, h.requests, h.answers⟩
  | done r m =>
      rw [hpass] at hpaired
      refine .returned ⟨p.index, requestCode r, readMsg m 0⟩ ⟨rfl, by simp [Channel.after,
        Channel.ret, h.log], fun hcode => ?_⟩
      cases r with
      | error e => exact absurd hcode (requestCode_error e)
      | ok k =>
          have hsplit : (p.recv.received ++ c.stream.take n) ++ c.stream.drop n =
              reply.encode ++ [] := by
            rw [List.append_assoc, List.take_append_drop, hstream, List.append_nil]
          obtain ⟨⟨rest, -, hrest⟩, -⟩ := Receiving.pass_ok hsplit hpass
          obtain ⟨-, hempty⟩ := List.append_eq_nil_iff.mp hrest
          obtain ⟨hlt, -⟩ := List.getElem?_eq_some_iff.mp hreply
          have hlast : c.requests[p.index]? = some frame := by
            have hlength := congrArg List.length h.requests
            rw [List.length_append, List.length_singleton, ← hindex] at hlength
            rw [h.requests, Nat.succ_injective hlength]
            exact List.getElem?_concat_length
          refine ⟨⟨hpaired, ⟨?_, hempty⟩, rfl⟩, hlast⟩
          change c.answers.length = c.requests.length
          have := h.answers
          omega

/-- **A step** of the connection while the call is on its way. -/
lemma Underway.step {frame : IpcMsg} (h₀ : Idle c₀) (h : Underway frame c₀ c) {l : ChannelLabel}
    (hl : isRequest l = false) (hstep : channelStep identity c l = some (c', es)) :
    Underway frame c₀ c' := by
  -- nobody answers on an idle connection
  have hno : ∀ {d : Channel}, Idle d → ¬ d.answers.length < d.requests.length := by
    intro d hd
    rw [hd.settled.1]
    exact lt_irrefl _
  cases l with
  | request a => cases hl
  | answer reply =>
      simp only [channelStep] at hstep
      split_ifs at hstep with hlt
      obtain ⟨rfl, -⟩ := Prod.mk.inj (Option.some.inj hstep)
      cases h with
      | waits p h =>
          refine .waits p ⟨h.calling, h.paired.answer hlt reply, h.log, h.requests, ?_⟩
          change (c.answers ++ [reply]).length ≤ c.requests.length
          rw [List.length_append]
          exact hlt
      | returned r h =>
          refine .returned r ⟨h.calling, h.log, fun hcode => ?_⟩
          exact absurd hlt (hno (h.success hcode).1)
      | sent h => exact absurd hlt (hno (h ▸ h₀))
  | recv n =>
      obtain ⟨p, hp, hstep⟩ := Option.bind_eq_some_iff.mp hstep
      split_ifs at hstep with hn
      obtain ⟨rfl, -⟩ := Prod.mk.inj (Option.some.inj hstep)
      cases h with
      | waits q h =>
          obtain rfl := Option.some.inj (h.calling.symm.trans hp)
          exact h.recv hn.1 hn.2.1
      | returned r h => exact absurd (h.calling.symm.trans hp) (by simp)
      | sent h =>
          subst h
          exact absurd (h₀.calling.symm.trans hp) (by simp)
  | fail e =>
      obtain ⟨p, hp, hstep⟩ := Option.bind_eq_some_iff.mp hstep
      split_ifs at hstep
      obtain ⟨rfl, -⟩ := Prod.mk.inj (Option.some.inj hstep)
      cases h with
      | waits q h => exact .returned _ (hasReturned_ret h.log _ (requestCode_error e) _)
      | returned r h => exact absurd (h.calling.symm.trans hp) (by simp)
      | sent h =>
          subst h
          exact absurd (h₀.calling.symm.trans hp) (by simp)

/-- **A run** of the connection during a call. -/
lemma Underway.run {frame : IpcMsg} (h₀ : Idle c₀) (h : Underway frame c₀ c)
    (hls : ∀ l ∈ ls, isRequest l = false) (hrun : run (channelStep identity) ls c = some (c', es)) :
    Underway frame c₀ c' :=
  run_invariant (fun h hl hstep => h.step h₀ hl hstep) h (along_of_forall hls c) hrun

/-- What a call returns on an idle connection: it was one without a reply and the connection is as it
was, or it failed, or it has the reply to its own request and the connection is idle again. -/
lemma requestReturns_idle {l : MultiplexCall} {r : Option Returned} (h : Idle c)
    (hcall : requestReturns identity l c = some (c', r)) :
    (r.all fun x => x.code = .success) = true → Idle c' ∧
      ∀ x, r = some x → c'.requests[x.index]? = some (frameOf identity l.args) ∧
        Answered c'.answers x := by
  intro hall
  unfold requestReturns at hcall
  split_ifs at hcall with hlabels
  obtain ⟨⟨d, es⟩, hrun, hcall⟩ := Option.bind_eq_some_iff.mp hcall
  simp only at hcall
  split_ifs at hcall with hwaits
  obtain ⟨rfl, rfl⟩ := Prod.mk.inj (Option.some.inj hcall)
  obtain ⟨c₁, es₁, es₂, hstep, hrest, -⟩ := run_cons.mp hrun
  have hls : ∀ l' ∈ l.labels, isRequest l' = false := by simpa using hlabels
  have hstart : c₁ = ipcClientRequest identity l.args c := by
    simp only [channelStep, h.calling] at hstep
    exact (Prod.mk.inj (Option.some.inj hstep)).1.symm
  have hend : Underway (frameOf identity l.args) c d :=
    (hstart ▸ h.request identity l.args).run h hls hrest
  cases hend with
  | waits p hp => exact absurd (by rw [hp.calling]; rfl) hwaits
  | sent heq =>
      subst heq
      refine ⟨h, fun x hx => ?_⟩
      rw [List.getElem?_eq_none le_rfl] at hx
      cases hx
  | returned r hr =>
      have hentry : d.log[c.log.length]? = some r := by
        rw [hr.log]
        exact List.getElem?_concat_length
      rw [hentry] at hall ⊢
      have hcode : r.code = .success := by simpa using hall
      obtain ⟨hidle, hframe⟩ := hr.success hcode
      refine ⟨hidle, fun x hx => ?_⟩
      obtain rfl := Option.some.inj hx
      refine ⟨hframe, hidle.paired.log r ?_ hcode⟩
      rw [hr.log]
      simp

end Call

/-! ## Every run -/

section Runs

variable {identity : UInt32} {head head' : List Uapic} {es : List MultiplexReturn}

/-- **The list between two calls**: there is one client for a server at most, and no connection has
a call on its way. -/
structure Kept (head : List Uapic) : Prop where
  servers : (head.map Uapic.server).Nodup
  idle : ∀ u ∈ head, Idle u.channel

/-- A call that has succeeded has the reply to its own request, if it has asked for one. -/
def OwnReply (identity : UInt32) (e : MultiplexReturn) : Prop :=
  e.result = 0 → ∀ r, e.returned = some r →
    e.channel.requests[r.index]? = some (frameOf identity e.args) ∧ Answered e.channel.answers r

/-- **The client for a server** is in the list, or new. -/
lemma Kept.create (h : Kept head) {server : List UInt8} {created : Bool} {i : ℕ}
    (hcreate : uapiClientCreate server created head = some (head', i)) :
    Kept head' ∧ ∃ u, head'[i]? = some u ∧ u.server = server := by
  unfold uapiClientCreate at hcreate
  cases hfind : head.findIdx? fun u => u.server = server with
  | some k =>
      rw [hfind] at hcreate
      obtain ⟨rfl, rfl⟩ := Prod.mk.inj (Option.some.inj hcreate)
      obtain ⟨hlt, hserver, -⟩ := List.findIdx?_eq_some_iff_getElem.mp hfind
      exact ⟨h, head[k], List.getElem?_eq_getElem hlt, by simpa using hserver⟩
  | none =>
      rw [hfind] at hcreate
      simp only at hcreate
      split_ifs at hcreate
      obtain ⟨rfl, rfl⟩ := Prod.mk.inj (Option.some.inj hcreate)
      have hnew : server ∉ head.map Uapic.server := by
        intro hmem
        obtain ⟨u, hu, heq⟩ := List.mem_map.mp hmem
        have hnone := List.findIdx?_eq_none_iff.mp hfind u hu
        simp [heq] at hnone
      refine ⟨⟨List.nodup_cons.mpr ⟨hnew, h.servers⟩, fun u hu => ?_⟩, _, rfl, rfl⟩
      rcases List.mem_cons.mp hu with rfl | hu
      · exact idle_init
      · exact h.idle u hu

lemma Kept.set (h : Kept head) {i : ℕ} {u : Uapic} (hu : head[i]? = some u) {c : Channel}
    (hc : Idle c) : Kept (head.set i ⟨u.server, c⟩) := by
  obtain ⟨hlt, rfl⟩ := List.getElem?_eq_some_iff.mp hu
  constructor
  · have hsame : (head.set i ⟨head[i].server, c⟩).map Uapic.server = head.map Uapic.server := by
      rw [List.map_set]
      apply List.ext_getElem?
      intro k
      rw [List.getElem?_set]
      by_cases hk : i = k
      · subst hk
        simp [hlt]
      · simp [hk]
    rw [hsame]
    exact h.servers
  · intro v hv
    rcases List.mem_or_eq_of_mem_set hv with hv | rfl
    · exact h.idle v hv
    · exact hc

lemma Kept.erase (h : Kept head) (i : ℕ) : Kept (head.eraseIdx i) where
  servers := h.servers.sublist ((List.eraseIdx_sublist head i).map _)
  idle := fun u hu => h.idle u ((List.eraseIdx_sublist head i).mem hu)

/-- **One step** keeps the list, and a call that succeeds has its own reply. -/
lemma Kept.step (h : Kept head) {l : MultiplexLabel}
    (hstep : multiplexStep identity head l = some (head', es)) :
    Kept head' ∧ ∀ e ∈ es, OwnReply identity e := by
  cases l with
  | answer i reply =>
      -- no server has anything to answer
      obtain ⟨u, hu, hstep⟩ := Option.bind_eq_some_iff.mp hstep
      obtain ⟨r, hanswer, -⟩ := Option.map_eq_some_iff.mp hstep
      have hidle := h.idle u (List.mem_of_getElem? hu)
      simp only [channelStep] at hanswer
      split_ifs at hanswer with hlt
      rw [hidle.settled.1] at hlt
      exact absurd hlt (lt_irrefl _)
  | call l =>
      simp only [multiplexStep, uapiRequestMultiplex] at hstep
      cases hcreate : uapiClientCreate l.server l.created head with
      | none =>
          rw [hcreate] at hstep
          obtain ⟨rfl, rfl⟩ := Prod.mk.inj (Option.some.inj hstep)
          refine ⟨h, fun e he => ?_⟩
          obtain rfl := List.mem_singleton.mp he
          intro hresult
          cases hresult
      | some r =>
          obtain ⟨head₁, i⟩ := r
          rw [hcreate] at hstep
          obtain ⟨h₁, u, hu, -⟩ := h.create hcreate
          obtain ⟨u', hu', hstep⟩ := Option.bind_eq_some_iff.mp hstep
          obtain rfl := Option.some.inj (hu.symm.trans hu')
          obtain ⟨⟨c, r⟩, hcall, hstep⟩ := Option.map_eq_some_iff.mp hstep
          have hreply := requestReturns_idle (h₁.idle u (List.mem_of_getElem? hu)) hcall
          simp only at hstep
          split_ifs at hstep with hall
          · obtain ⟨rfl, rfl⟩ := Prod.mk.inj hstep
            obtain ⟨hidle, hown⟩ := hreply hall
            refine ⟨h₁.set hu hidle, fun e he => ?_⟩
            obtain rfl := List.mem_singleton.mp he
            exact fun _ => hown
          · obtain ⟨rfl, rfl⟩ := Prod.mk.inj hstep
            refine ⟨h₁.erase i, fun e he => ?_⟩
            obtain rfl := List.mem_singleton.mp he
            intro hresult
            cases hresult

/-- **Replies on connections that are kept.**  Take any run of calls with `UAPI_F_MULTIPLEX` — to any
servers, with any buffers and timeouts, answers after any delay, failures at any time.  There is at
most one connection to a server, nothing is under way or unread on it between the calls, and every
call that has succeeded and asked for a reply has left the server's reply to its own request in the
caller's buffer. -/
theorem multiplexed_replies_match {ls : List MultiplexLabel}
    (hrun : run (multiplexStep identity) ls [] = some (head, es)) :
    (head.map Uapic.server).Nodup ∧ (∀ u ∈ head, u.channel.Settled ∧ u.channel.calling = none) ∧
      ∀ e ∈ es, e.result = 0 → ∀ r, e.returned = some r →
        e.channel.requests[r.index]? = some (frameOf identity e.args) ∧
          ∃ reply, e.channel.answers[r.index]? = some reply ∧ r.msg = reply.strip := by
  have hstart : Kept ([] : List Uapic) := ⟨List.nodup_nil, by simp⟩
  have hok : Along (multiplexStep identity) (fun _ _ => True) ls [] :=
    along_of_forall (fun _ _ => trivial) _
  obtain ⟨hkept, hes⟩ := run_safe (fun h _ hstep => h.step hstep) hstart hok hrun
  exact ⟨hkept.servers, fun u hu => ⟨(hkept.idle u hu).settled, (hkept.idle u hu).calling⟩, hes⟩

/-- A call to the server `a` with a message of the user. -/
def sampleMultiplex (id : UInt32) (labels : List ChannelLabel) : MultiplexLabel :=
  .call ⟨[97], true, sampleArgs id, labels⟩

/-- The first call times out and its connection is closed.  The two calls after it are made on one
new connection. -/
theorem multiplexed_replies_match_sample : ∃ (head : List Uapic) (es : List MultiplexReturn),
    run (multiplexStep 7) [sampleMultiplex 5 [.fail .timeout],
      sampleMultiplex 6 [.answer (sampleReply 6), .recv 14],
      sampleMultiplex 8 [.answer (sampleReply 8), .recv 9, .recv 5]] [] = some (head, es) ∧
    es.map (fun e => (e.result, e.returned.map Returned.index)) =
      [(-1, some 0), (0, some 0), (0, some 1)] ∧
    ∀ e ∈ es, e.result = 0 → ∀ r, e.returned = some r →
      e.channel.requests[r.index]? = some (frameOf 7 e.args) ∧
        ∃ reply, e.channel.answers[r.index]? = some reply ∧ r.msg = reply.strip := by
  have heval : (run (multiplexStep 7) [sampleMultiplex 5 [.fail .timeout],
      sampleMultiplex 6 [.answer (sampleReply 6), .recv 14],
      sampleMultiplex 8 [.answer (sampleReply 8), .recv 9, .recv 5]] []).map
        (fun r => r.2.map fun e => (e.result, e.returned.map Returned.index)) =
      some [(-1, some 0), (0, some 0), (0, some 1)] := by decide +kernel
  obtain ⟨⟨head, es⟩, hrun, hresults⟩ := Option.map_eq_some_iff.mp heval
  exact ⟨head, es, hrun, hresults, (multiplexed_replies_match hrun).2.2⟩

end Runs

end LinuxC.Uapi
