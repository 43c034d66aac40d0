import LinuxC.Ipc.FindMsg

/-!
# The server's receive loop (`ipc_common_socket_handler` in `ipc/ipc_server.c`)

One call of the handler empties the shared buffer, receives, takes every whole message out
of the buffer and hands it to the `switch` on `msg_id`, and goes back to `recv` while the
last message is unfinished.  It returns when the buffer is used up, or leaves through
`__error`.

The kernel is a list of `SockEvent`s: what the socket does next.  The rest of the server — the
branches of the `switch`, the manager hook, `ipc_release` — is a set of `Hooks` over a state
of its own, so that the loop is the same definition whatever these do.  A dispatched message
is passed as a block of memory and an offset, and the dispatch may leave anything at that
place.

The framing theorem `serve_dispatches_frames` says that a stream of messages is dispatched
message by message however the kernel cuts it.  Its invariant is on the queue of the buffer:
what is pending followed by what is still to come is a sequence of whole messages
(`drain_frames` for the inner loop, `handlerRecv_frames` for one call).
-/

namespace LinuxC.Ipc

/-! ## The kernel side -/

/-- The values of `errno` that the receive loop tells apart. -/
inductive Errno
  | eintr
  | econnreset
  | eagain
  | other
  deriving DecidableEq

/-- What a socket does next. -/
inductive SockEvent
  /-- `recv` returns these bytes. -/
  | bytes (bs : List UInt8)
  /-- `recv` returns 0. -/
  | eof
  /-- `recv` returns -1. -/
  | err (e : Errno)
  /-- Nothing arrives: `recv_wait` times out, and `recv` on the non-blocking socket fails. -/
  | idle
  deriving DecidableEq

/-! ## The rest of the server -/

/-- What a branch of the `switch` did. -/
structure Action (σ : Type) where
  state : σ
  /-- What the message's place holds afterwards. -/
  overwrite : List UInt8
  /-- The branch did not go to `__error`. -/
  ok : Bool

/-- The parts of the server that the receive loop calls. -/
structure Hooks (σ : Type) where
  /-- The `switch` on `msg_id`, given the block and the offset of the message. -/
  dispatch : σ → Mem → ℕ → Action σ
  /-- The manager hook with `IPC_CLIENT_SHUTDOWN`, for a subscriber. -/
  shutdown : σ → σ
  /-- `ipc_release`. -/
  release : σ → σ

/-- The buffer and the clone of the core, with the state of the rest of the server. -/
structure Conn (σ : Type) where
  buf : IpcBuf
  clone : Mem
  state : σ

/-- The connection after a dispatch left `bs` where the message `p` was. -/
def Conn.store {σ : Type} (c : Conn σ) (r : FindResult) (p : MsgPtr) (a : Action σ) : Conn σ :=
  match p with
  | .inBuf off =>
      { buf := { r.buf with data := r.buf.data.write off a.overwrite },
        clone := r.clone.getD c.clone, state := a.state }
  | .clone =>
      { buf := r.buf, clone := (r.clone.getD c.clone).write 0 a.overwrite, state := a.state }

variable {σ : Type}

/-! ## The loop over the buffer -/

/-- How the `do … while` loop over the buffer ends. -/
inductive DrainExit
  /-- The buffer is used up. -/
  | returned
  /-- A message is unfinished and there is room to receive more of it. -/
  | wait
  /-- To the label `__error`. -/
  | error
  deriving DecidableEq

/-- The `do … while` loop, with the messages passed to the `switch`.  Every pass takes a
message off the queue, so a fuel above the queue's length is never used up. -/
def drain (h : Hooks σ) : ℕ → Conn σ → Conn σ × List IpcMsg × DrainExit
  | 0, c => (c, [], .returned)
  | fuel + 1, c =>
      let r := findMsg c.buf (some c.clone)
      match r.msg with
      | none => ({ c with buf := r.buf }, [], if r.buf.full then .error else .wait)
      | some p =>
          let a := h.dispatch c.state (r.deref p).1 (r.deref p).2
          let c' := c.store r p a
          if a.ok then
            if c'.buf.hasPending then
              let d := drain h fuel c'
              (d.1, r.messageAt p :: d.2.1, d.2.2)
            else (c', [r.messageAt p], .returned)
          else (c', [r.messageAt p], .error)

/-! ## One call -/

/-- How a call of the handler ends. -/
inductive Exit
  /-- `return 0`. -/
  | returned
  /-- Through `__error`, `return -1`. -/
  | error
  /-- The kernel has no further event: the call has not returned. -/
  | blocked
  /-- The event is not one the kernel can deliver (`IpcBuf.Undeliverable`). -/
  | illegal
  deriving DecidableEq

/-- A call of the handler: the connection afterwards, the messages passed to the `switch`, the
events not consumed. -/
structure Call (σ : Type) where
  conn : Conn σ
  dispatched : List IpcMsg
  events : List SockEvent
  exit : Exit

/-- The label `__error`. -/
def leave (h : Hooks σ) (c : Conn σ) (l : List IpcMsg) (es : List SockEvent) : Call σ :=
  ⟨{ c with state := h.release c.state }, l, es, .error⟩

/-- `recv` returned 0 or failed: the subscriber's manager hook, then `__error`. -/
def hangup (h : Hooks σ) (c : Conn σ) (es : List SockEvent) : Call σ :=
  leave h { c with state := h.shutdown c.state } [] es

/-- From the label `__recv` on. -/
def handlerRecv (h : Hooks σ) : List SockEvent → Conn σ → Call σ
  | [], c => ⟨c, [], [], .blocked⟩
  | e :: es, c =>
      -- a window of no bytes makes `recv` return 0, whatever the socket holds
      if c.buf.window = 0 then hangup h c (e :: es)
      else
        match e with
        | .bytes bs =>
            if c.buf.Undeliverable bs then ⟨c, [], es, .illegal⟩
            else
              let c₁ := { c with buf := c.buf.append bs }
              match drain h (c₁.buf.pending.length + 1) c₁ with
              | (c₂, l, .returned) => ⟨c₂, l, es, .returned⟩
              | (c₂, l, .error) => leave h c₂ l es
              | (c₂, l, .wait) =>
                  match es with
                  | .idle :: es' => leave h c₂ l es'
                  | es' =>
                      let r := handlerRecv h es' c₂
                      { r with dispatched := l ++ r.dispatched }
        | .eof => hangup h c es
        | .err .eintr => handlerRecv h es c
        | .err _ => hangup h c es
        | .idle => hangup h c es

def ipcCommonSocketHandler (h : Hooks σ) (es : List SockEvent) (c : Conn σ) : Call σ :=
  handlerRecv h es { c with buf := c.buf.reset }

/-- The calls that serve a socket: another one whenever the last one returned and the socket
still has something to deliver.  Every call consumes an event, so the number of events is
enough fuel. -/
def serve (h : Hooks σ) : ℕ → List SockEvent → Conn σ → List (Call σ)
  | 0, _, _ => []
  | _ + 1, [], _ => []
  | fuel + 1, e :: es, c =>
      let r := ipcCommonSocketHandler h (e :: es) c
      r :: if r.exit = .returned then serve h fuel r.events r.conn else []

/-! ## Framing -/

/-- The queue behind a dispatched message does not see what the dispatch left at its place. -/
lemma pending_store {c : Conn σ} {f : IpcMsg} {rest : List UInt8} {r : FindResult} {p : MsgPtr}
    (hr : Found c.buf (some c.clone) f rest r p) (a : Action σ) :
    (c.store r p a).buf.pending = rest ∧ (c.store r p a).buf.Ok ∧
      (c.store r p a).buf.size = c.buf.size := by
  cases p with
  | clone => exact ⟨hr.pending, hr.ok, hr.size⟩
  | inBuf off =>
      refine ⟨?_, ⟨hr.ok.head_le, hr.ok.tail_le⟩, hr.size⟩
      have hnil : rest = [] := hr.alone rfl (by simp)
      have hempty : r.buf.tail - r.buf.head = 0 := by
        rw [← IpcBuf.length_pending, hr.pending, hnil, List.length_nil]
      simp [Conn.store, IpcBuf.pending, hempty, hnil]

/-- A pass over an unfinished message leaves the loop to receive more. -/
lemma drain_incomplete (h : Hooks σ) (fuel : ℕ) {c : Conn σ} (hbuf : c.buf.Ok)
    (hne : c.buf.pending ≠ []) (hinc : Incomplete c.buf.pending)
    (hroom : c.buf.pending.length < c.buf.size) :
    drain h (fuel + 1) c = ({ c with buf := moveFront c.buf }, [], .wait) ∧
      (moveFront c.buf).full = false := by
  have hnot := full_moveFront_eq_false hbuf hroom
  refine ⟨?_, hnot⟩
  simp [drain, findMsg_incomplete (some c.clone) hne hinc, hnot]

/-- A pass over a whole message dispatches it; the loop goes on exactly when bytes are left. -/
lemma drain_found (h : Hooks σ) (hok : ∀ s m a, (h.dispatch s m a).ok = true) (fuel : ℕ)
    {c : Conn σ} {f : IpcMsg} {rest : List UInt8} (hbuf : c.buf.Ok)
    (hrest : c.buf.pending = f.encode ++ rest) (hf : f.Friendly) :
    ∃ c' : Conn σ, c'.buf.pending = rest ∧ c'.buf.Ok ∧ c'.buf.size = c.buf.size ∧
      c'.buf.tail = c.buf.tail ∧
      drain h (fuel + 1) c =
        if rest = [] then (c', [f.strip], .returned)
        else ((drain h fuel c').1, f.strip :: (drain h fuel c').2.1, (drain h fuel c').2.2) := by
  obtain ⟨p, hp⟩ := findMsg_found (some c.clone) hbuf hrest hf
  set r := findMsg c.buf (some c.clone) with hr
  obtain ⟨hpend, hbuf', hsize⟩ := pending_store hp
    (h.dispatch c.state (r.deref p).1 (r.deref p).2)
  set c' := c.store r p (h.dispatch c.state (r.deref p).1 (r.deref p).2) with hc'
  have htail : c'.buf.tail = c.buf.tail := by
    have hr' : r.buf.tail = c.buf.tail := tail_findMsg hp.msg
    cases p <;> exact hr'
  refine ⟨c', hpend, hbuf', hsize, htail, ?_⟩
  have hmsg := hp.messageAt
  by_cases hmt : rest = []
  · have hnp : c'.buf.hasPending = false := by
      rw [← Bool.not_eq_true, IpcBuf.hasPending_iff, hpend, hmt]
      simp
    simp [drain, ← hr, hp.msg, hok, ← hc', hnp, hmsg, hmt]
  · have hnp : c'.buf.hasPending = true := by
      rw [IpcBuf.hasPending_iff, hpend]
      exact hmt
    simp [drain, ← hr, hp.msg, hok, ← hc', hnp, hmsg, hmt]

/-- **The loop over the buffer.**  It dispatches a first part of the messages to come, and
ends with an empty queue, or with an unfinished message and room for more of it. -/
lemma drain_frames (h : Hooks σ) (hok : ∀ s m a, (h.dispatch s m a).ok = true) {S : ℕ}
    {more : List UInt8} (frames : List IpcMsg) (hf : ∀ f ∈ frames, f.Friendly) (fuel : ℕ)
    (c : Conn σ) (hfuel : c.buf.pending.length < fuel) (hc : Framed S c.buf more frames)
    (hne : c.buf.pending ≠ []) :
    ∃ done rem, frames = done ++ rem ∧ (drain h fuel c).2.1 = done.map IpcMsg.strip ∧
      Framed S (drain h fuel c).1.buf more rem ∧
      (((drain h fuel c).2.2 = .returned ∧ (drain h fuel c).1.buf.pending = []) ∨
        ((drain h fuel c).2.2 = .wait ∧ more ≠ [] ∧
          (drain h fuel c).1.buf.full = false)) := by
  induction frames generalizing fuel c with
  | nil =>
      have hw := hc.stream
      rw [wire_nil, List.append_eq_nil_iff] at hw
      exact absurd hw.1 hne
  | cons f fs ih =>
      obtain ⟨fuel, rfl⟩ : ∃ n, fuel = n + 1 := ⟨fuel - 1, by omega⟩
      have hfit := hc.fits f (List.mem_cons_self ..)
      have hw := hc.stream
      rw [wire_cons] at hw
      by_cases hlt : c.buf.pending.length < f.length
      · -- the first message is unfinished
        obtain ⟨hdrain, hnot⟩ := drain_incomplete h fuel hc.ok hne (incomplete_of_append hw hlt)
          (by rw [hc.size]; omega)
        rw [hdrain]
        exact ⟨[], f :: fs, rfl, rfl, hc.moveFront, Or.inr ⟨rfl, hc.more_ne_nil hlt, hnot⟩⟩
      · -- the first message is there
        obtain ⟨rest, hrest, hmore⟩ := exists_rest_of_length_le hw (by omega)
        obtain ⟨c', hpend, hbuf', hsize, -, hdrain⟩ :=
          drain_found h hok fuel hc.ok hrest (hf f (List.mem_cons_self ..))
        have hc' : Framed S c'.buf more fs :=
          ⟨hbuf', hsize.trans hc.size, fun g hg => hc.fits g (List.mem_cons_of_mem _ hg),
            by rw [hpend, hmore]⟩
        by_cases hmt : rest = []
        · rw [hdrain, if_pos hmt]
          exact ⟨[f], fs, rfl, rfl, hc', Or.inl ⟨rfl, by rw [hpend, hmt]⟩⟩
        · have hshort : c'.buf.pending.length < fuel := by
            rw [hrest, List.length_append, IpcMsg.length_encode] at hfuel
            have hpos := f.length_pos
            rw [hpend]
            omega
          obtain ⟨done, rem, hsplit, hlog, hframed, hexit⟩ :=
            ih (fun g hg => hf g (List.mem_cons_of_mem _ hg)) fuel c' hshort hc'
              (by rw [hpend]; exact hmt)
          rw [hdrain, if_neg hmt]
          refine ⟨f :: done, rem, by rw [hsplit, List.cons_append], ?_, hframed, hexit⟩
          simp [hlog]

/-- **One call.**  A call that is given the chunks of a stream of messages consumes some of
them, dispatches a first part of the messages, and returns with an empty queue. -/
lemma handlerRecv_frames (h : Hooks σ) (hok : ∀ s m a, (h.dispatch s m a).ok = true) {S : ℕ}
    (chunks : List (List UInt8)) (frames : List IpcMsg) (hf : ∀ f ∈ frames, f.Friendly)
    (c : Conn σ) (hc : Framed S c.buf chunks.flatten frames) (hroom : c.buf.full = false)
    (hne : chunks ≠ [])
    (hlegal : (handlerRecv h (chunks.map .bytes) c).exit ≠ .illegal) :
    ∃ (done rem : List IpcMsg) (rest : List (List UInt8)),
      frames = done ++ rem ∧ rest.length < chunks.length ∧
      (handlerRecv h (chunks.map .bytes) c).events = rest.map .bytes ∧
      (handlerRecv h (chunks.map .bytes) c).dispatched = done.map IpcMsg.strip ∧
      (handlerRecv h (chunks.map .bytes) c).exit = .returned ∧
      (handlerRecv h (chunks.map .bytes) c).conn.buf.pending = [] ∧
      Framed S (handlerRecv h (chunks.map .bytes) c).conn.buf rest.flatten rem := by
  induction chunks generalizing frames c with
  | nil => exact absurd rfl hne
  | cons bs chunks ih =>
      have hwin := IpcBuf.window_ne_zero hroom
      simp only [List.map_cons, handlerRecv, if_neg hwin] at hlegal ⊢
      by_cases hill : c.buf.Undeliverable bs
      · rw [if_pos hill] at hlegal
        exact absurd rfl hlegal
      · rw [if_neg hill] at hlegal ⊢
        rw [IpcBuf.not_undeliverable] at hill
        set c₁ : Conn σ := { c with buf := c.buf.append bs } with hc₁
        have hframed : Framed S c₁.buf chunks.flatten frames := hc.append hill.2.1
        have hpend : c₁.buf.pending ≠ [] := by
          rw [hc₁, IpcBuf.pending_append hc.ok]
          simp [hill.1]
        obtain ⟨done, rem, hsplit, hlog, hdrained, hexit⟩ :=
          drain_frames h hok frames hf (c₁.buf.pending.length + 1) c₁ (Nat.lt_succ_self _) hframed
            hpend
        generalize drain h (c₁.buf.pending.length + 1) c₁ = d at *
        obtain ⟨c₂, l, e⟩ := d
        rcases hexit with ⟨he, hmt⟩ | ⟨he, hmore, hroom₂⟩
        · subst he
          exact ⟨done, rem, chunks, hsplit, by simp, rfl, hlog, rfl, hmt, hdrained⟩
        · subst he
          obtain ⟨b₂, chunks, rfl⟩ : ∃ b cs, chunks = b :: cs := by
            cases chunks with
            | nil => exact absurd rfl hmore
            | cons b cs => exact ⟨b, cs, rfl⟩
          have hf' : ∀ f ∈ rem, f.Friendly := by
            intro f hfm
            exact hf f (by rw [hsplit]; exact List.mem_append_right _ hfm)
          obtain ⟨done', rem', rest, hsplit', hlen, hev, hlog', hret, hmt, hfin⟩ :=
            ih rem hf' c₂ hdrained hroom₂ (by simp) hlegal
          refine ⟨done ++ done', rem', rest, by rw [hsplit, hsplit', List.append_assoc],
            by simp only [List.length_cons] at hlen ⊢; omega, hev, ?_, hret, hmt, hfin⟩
          show l ++ _ = _
          rw [List.map_append, ← hlog]
          exact congrArg (l ++ ·) hlog'

/-- The same for a whole call, which starts from an empty queue. -/
lemma handler_frames (h : Hooks σ) (hok : ∀ s m a, (h.dispatch s m a).ok = true) {S : ℕ}
    (hS : 0 < S) (chunks : List (List UInt8)) (frames : List IpcMsg) (c : Conn σ)
    (hsize : c.buf.size = S) (hf : ∀ f ∈ frames, f.Friendly ∧ f.length ≤ S)
    (hw : chunks.flatten = wire frames) (hne : chunks ≠ [])
    (hlegal : (ipcCommonSocketHandler h (chunks.map .bytes) c).exit ≠ .illegal) :
    ∃ (done rem : List IpcMsg) (rest : List (List UInt8)),
      frames = done ++ rem ∧ rest.length < chunks.length ∧
      (ipcCommonSocketHandler h (chunks.map .bytes) c).events = rest.map .bytes ∧
      (ipcCommonSocketHandler h (chunks.map .bytes) c).dispatched = done.map IpcMsg.strip ∧
      (ipcCommonSocketHandler h (chunks.map .bytes) c).exit = .returned ∧
      (ipcCommonSocketHandler h (chunks.map .bytes) c).conn.buf.pending = [] ∧
      Framed S (ipcCommonSocketHandler h (chunks.map .bytes) c).conn.buf rest.flatten rem :=
  handlerRecv_frames h hok chunks frames (fun f hfm => (hf f hfm).1) _
    (Framed.reset hsize (fun f hfm => (hf f hfm).2) hw) (IpcBuf.full_reset (by omega)) hne hlegal

lemma serve_cons_of_returned (h : Hooks σ) (fuel : ℕ) {e : SockEvent} {es : List SockEvent}
    {c : Conn σ} (hret : (ipcCommonSocketHandler h (e :: es) c).exit = .returned) :
    serve h (fuel + 1) (e :: es) c = ipcCommonSocketHandler h (e :: es) c ::
      serve h fuel (ipcCommonSocketHandler h (e :: es) c).events
        (ipcCommonSocketHandler h (e :: es) c).conn := by
  rw [serve, if_pos hret]

/-- The run lemma of `serve`: from any state between two calls, the calls dispatch the messages
still to come, and every one of them returns with an empty queue. -/
lemma serve_frames (h : Hooks σ) (hok : ∀ s m a, (h.dispatch s m a).ok = true) {S : ℕ}
    (hS : 0 < S) (fuel : ℕ) (chunks : List (List UInt8)) (frames : List IpcMsg)
    (c : Conn σ) (hfuel : chunks.length ≤ fuel) (hsize : c.buf.size = S)
    (hf : ∀ f ∈ frames, f.Friendly ∧ f.length ≤ S) (hw : chunks.flatten = wire frames)
    (hlegal : ∀ r ∈ serve h fuel (chunks.map .bytes) c, r.exit ≠ .illegal) :
    (serve h fuel (chunks.map .bytes) c).flatMap Call.dispatched =
        frames.map IpcMsg.strip ∧
      ∀ r ∈ serve h fuel (chunks.map .bytes) c,
        r.exit = .returned ∧ r.conn.buf.hasPending = false := by
  induction fuel generalizing chunks frames c with
  | zero =>
      have hnil : chunks = [] := List.length_eq_zero_iff.mp (by omega)
      subst hnil
      rw [wire_eq_nil hw.symm]
      simp [serve]
  | succ fuel ih =>
      cases chunks with
      | nil =>
          rw [wire_eq_nil hw.symm]
          simp [serve]
      | cons bs chunks =>
          obtain ⟨done, rem, rest, hsplit, hlen, hev, hlog, hret, hmt, hfin⟩ :=
            handler_frames h hok hS (bs :: chunks) frames c hsize hf hw (by simp)
              (hlegal _ (List.mem_cons_self ..))
          have hserve := serve_cons_of_returned h fuel hret
          rw [List.map_cons] at hev hlog hret hmt hfin hlegal ⊢
          rw [hserve, hev, List.forall_mem_cons] at hlegal
          rw [hserve, hev, List.forall_mem_cons, List.flatMap_cons, hlog, hsplit,
            List.map_append]
          have hw' : rest.flatten = wire rem := by
            rw [← hfin.stream, hmt, List.nil_append]
          have hf' : ∀ f ∈ rem, f.Friendly ∧ f.length ≤ S := by
            intro f hfm
            exact hf f (by rw [hsplit]; exact List.mem_append_right _ hfm)
          obtain ⟨hlogs, hcalls⟩ := ih rest rem _ (by simp only [List.length_cons] at *; omega)
            hfin.size hf' hw' hlegal.2
          refine ⟨by rw [hlogs], ⟨hret, ?_⟩, hcalls⟩
          rw [← Bool.not_eq_true, IpcBuf.hasPending_iff, hmt]
          simp

/-- **Server framing does not depend on chunking.**  Let `frames` be messages with the token
that fit the buffer, and `chunks` a way the kernel cuts their bytes into results of `recv`,
none of them empty, longer than the window it is received into, or so long that the bytes in the
buffer are more than an `int` can count (`hlegal`).  Whatever the dispatch does to the state and to
the message it is given, as long as it does not leave through `__error`: the messages passed to the
`switch` are the frames, in order, each once, without the token; no call leaves through `__error`,
and every call returns with nothing unread in the buffer. -/
theorem serve_dispatches_frames (h : Hooks σ) (hok : ∀ s m a, (h.dispatch s m a).ok = true)
    (c : Conn σ) (hS : ipcMsgHdrlen ≤ c.buf.size) (frames : List IpcMsg)
    (hf : ∀ f ∈ frames, f.Friendly ∧ f.length ≤ c.buf.size) (chunks : List (List UInt8))
    (hw : chunks.flatten = wire frames)
    (hlegal : ∀ r ∈ serve h chunks.length (chunks.map .bytes) c, r.exit ≠ .illegal) :
    (serve h chunks.length (chunks.map .bytes) c).flatMap Call.dispatched =
        frames.map IpcMsg.strip ∧
      ∀ r ∈ serve h chunks.length (chunks.map .bytes) c,
        r.exit = .returned ∧ r.conn.buf.hasPending = false :=
  serve_frames h hok (lt_of_lt_of_le (by decide) hS) chunks.length chunks frames c (le_refl _)
    rfl hf hw hlegal

/-- Hooks that overwrite the message they are given. -/
def erasingHooks : Hooks ℕ where
  dispatch n _ _ := ⟨n + 1, List.replicate 16 0xFF, true⟩
  shutdown n := n
  release n := n

/-- A message of two payload bytes and one without payload. -/
def sampleFrames : List IpcMsg :=
  [⟨1, 0x56CE0007, 0, [42, 43], by decide⟩, ⟨2, 0x56CE0008, 0, [], by decide⟩]

/-- A cut inside the first header and inside the second one. -/
def sampleChunks : List (List UInt8) :=
  [[1, 0, 0, 0, 7, 0, 0xCE], [0x56, 0, 0, 2, 0, 42, 43, 2, 0],
    [0, 0, 8, 0, 0xCE, 0x56, 0, 0, 0, 0]]

/-- The second chunk fills the buffer of sixteen bytes, so that the handler moves the
unfinished message to the front before it receives the third. -/
theorem serve_dispatches_sample :
    sampleChunks.flatten = wire sampleFrames ∧
      (serve erasingHooks sampleChunks.length (sampleChunks.map .bytes)
        ⟨⟨0, 0, 16, fun _ => 0⟩, fun _ => 0, 0⟩).flatMap Call.dispatched =
      sampleFrames.map IpcMsg.strip :=
  ⟨by decide, (serve_dispatches_frames erasingHooks (fun _ _ _ => rfl)
    ⟨⟨0, 0, 16, fun _ => 0⟩, fun _ => 0, 0⟩ (by decide) sampleFrames (by decide) sampleChunks
    (by decide) (by decide +kernel)).1⟩

end LinuxC.Ipc
