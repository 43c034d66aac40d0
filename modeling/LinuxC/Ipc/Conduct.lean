import LinuxC.Ipc.Lifecycle

/-!
# What a client may send

The assertions of the server and the memory of its handles hold out against most of what a client
can send.  There are two exceptions.  `ipc_server_sync` asserts that the handle is a subscriber,
and nothing keeps a requester from sending `IPC_SDK_MSG_SYNC`.  And `ipc_server_unregister` releases
the handle and returns 0, so that the receive loop goes on with it if bytes are left in the buffer.

`civil` follows the bytes of a call up to the first of these.  `handlerRecv_conducted` compares it
with what the call does: an orderly end, a failed assertion, or the use of a released handle.
-/

namespace LinuxC.Ipc

/-! ## The messages of a call -/

/-- What a message of a client comes to, when the handler of the server acts on it.  The answers of
the application are taken from a list, in their order, so that a run can be evaluated. -/
inductive Outcome
  /-- An assertion fails, or a released handle is used. -/
  | misuse
  /-- The call leaves through `__error`. -/
  | closed
  /-- The loop goes on; `gone` says that the handle has been released. -/
  | next (gone : Bool) (answers : List Answer)

/-- The reply to a requester could not be sent. -/
def replyLost (clazz : IpcClass) (answer : Answer) : Bool :=
  decide (clazz = .requester) && decide (0 ≤ answer.result) &&
    decide (answer.msg.flags &&& ipcFlagAsync = 0) &&
    decide (answer.msg.flags &&& ipcFlagReply ≠ 0) && !answer.sent

/-- What a message comes to for a client of the class: behind `IPC_SDK_MSG_UNREGISTER` only
notifications do without the handle. -/
def outcome (clazz : IpcClass) (gone : Bool) (answers : List Answer) (msg : IpcMsg) : Outcome :=
  if msg.msgId = ipcSdkMsgNotify then .next gone answers
  else if gone then .misuse
  else if msg.msgId = ipcSdkMsgConnect ∨ msg.msgId = ipcSdkMsgRegister then .closed
  else if msg.msgId = ipcSdkMsgSync then
    if clazz = .subscriber then .next false answers else .misuse
  else if msg.msgId = ipcSdkMsgUnregister then
    if clazz = .subscriber then .next true answers else .closed
  else if replyLost clazz (answers.headD ⟨-1, msg, false⟩) then .closed
  else .next false answers.tail

inductive Fate
  | misuse
  | closed
  /-- The last message is unfinished. -/
  | unfinished (buf : IpcBuf) (answers : List Answer)

/-- The messages in the buffer, in their order. -/
def fate (clazz : IpcClass) : ℕ → Bool → List Answer → IpcBuf → Fate
  | 0, _, _, _ => .closed
  | fuel + 1, gone, answers, buf =>
      let r := findMsg buf (some blank)
      match r.msg with
      | none =>
          if gone then .misuse
          else if r.buf.full then .closed
          else .unfinished r.buf answers
      | some p =>
          match outcome clazz gone answers (r.messageAt p) with
          | .misuse => .misuse
          | .closed => .closed
          | .next gone' answers' =>
              if r.buf.hasPending then fate clazz fuel gone' answers' r.buf else .closed

/-- The events of a call for a client of the class: no `IPC_SDK_MSG_SYNC` of a requester, and
nothing that needs the handle behind an `IPC_SDK_MSG_UNREGISTER` of a subscriber, unless the call
has ended before. -/
def civil (clazz : IpcClass) : List SockEvent → List Answer → IpcBuf → Bool
  | [], _, _ => true
  | e :: es, answers, buf =>
      if buf.window = 0 then true
      else
        match e with
        | .bytes bs =>
            if buf.Undeliverable bs then true
            else
              match fate clazz ((buf.append bs).pending.length + 1) false answers
                (buf.append bs) with
              | .misuse => false
              | .closed => true
              | .unfinished buf' answers' =>
                  match es with
                  | .idle :: _ => true
                  | es' => civil clazz es' answers' buf'
        | .err .eintr => civil clazz es answers buf
        | _ => true

/-- The states in which a call reads the socket of the handle, in `recv` or `recv_wait`. -/
def socketReads {σ : Type} (h : Hooks σ) : List SockEvent → Conn σ → List σ
  | [], c => [c.state]
  | e :: es, c =>
      if c.buf.window = 0 then [c.state]
      else
        match e with
        | .bytes bs =>
            if c.buf.Undeliverable bs then [c.state]
            else
              let c₁ := { c with buf := c.buf.append bs }
              match drain h (c₁.buf.pending.length + 1) c₁ with
              | (c₂, _, .wait) =>
                  match es with
                  | .idle :: _ => [c.state, c₂.state]
                  | es' => c.state :: c₂.state :: socketReads h es' c₂
              | _ => [c.state]
        | .err .eintr => c.state :: socketReads h es c
        | _ => [c.state]

/-! ## The handler of the user -/

/-- The bits of the class behind the mask of the client. -/
lemma flags_mask (f c : UInt16) (h : ∀ (b : Bool) (i : Fin 16),
    ((b && ipcFlagClientMask.toBitVec[i] || c.toBitVec[i]) &&
      (ipcFlagRequester ||| ipcFlagSubscriber).toBitVec[i]) = c.toBitVec[i]) :
    (f &&& ipcFlagClientMask ||| c) &&& (ipcFlagRequester ||| ipcFlagSubscriber) = c := by
  rw [← UInt16.toBitVec_inj]
  ext i hi
  rw [UInt16.toBitVec_and, UInt16.toBitVec_or, UInt16.toBitVec_and, BitVec.getElem_and,
    BitVec.getElem_or, BitVec.getElem_and]
  exact h f.toBitVec[i] ⟨i, hi⟩

/-- **The assertion of `ipc_handler_invoke`** holds: the class is in the flags. -/
lemma ipcClass_handlerFlags {clazz : IpcClass} {flags flags' : UInt16}
    (h : handlerFlags clazz flags = some flags') : ipcClass flags' = clazz.val := by
  cases clazz with
  | dummy =>
      obtain rfl := Option.some.inj h
      have hclass := flags_mask flags 0 (by decide)
      rw [UInt16.or_zero] at hclass
      rw [ipcClass, hclass]
      decide
  | requester =>
      obtain rfl := Option.some.inj h
      rw [ipcClass, flags_mask flags ipcFlagRequester (by decide)]
      decide
  | subscriber =>
      obtain rfl := Option.some.inj h
      rw [ipcClass, flags_mask flags ipcFlagSubscriber (by decide)]
      decide
  | master => cases h
  | proxy => cases h

/-- `ipc_handler_invoke` for a client fails only where its reply is lost. -/
lemma ipcHandlerInvoke_client {clazz : IpcClass}
    (hclient : clazz = .requester ∨ clazz = .subscriber) (msg : IpcMsg) (answer : Answer) :
    ∃ msg', ipcHandlerInvoke clazz msg answer = some (msg', !replyLost clazz answer) := by
  obtain ⟨flags, hflags⟩ : ∃ flags, handlerFlags clazz msg.flags = some flags := by
    rcases hclient with rfl | rfl
    · exact ⟨_, rfl⟩
    · exact ⟨_, rfl⟩
  unfold ipcHandlerInvoke
  rw [hflags]
  simp only [ipcClass_handlerFlags hflags, ne_eq, not_true, if_false]
  split_ifs with hneg hasync hquiet
  · refine ⟨_, congrArg some (Prod.ext rfl ?_)⟩
    simp [replyLost, Int.not_le.mpr hneg]
  · refine ⟨_, congrArg some (Prod.ext rfl ?_)⟩
    rcases hquiet with hquiet | rfl
    · simp [replyLost, hquiet]
    · simp [replyLost]
  · obtain ⟨hreply, hclazz⟩ := not_or.mp hquiet
    have hclazz : clazz = .requester := hclient.resolve_right hclazz
    refine ⟨_, congrArg some (Prod.ext rfl ?_)⟩
    simp [replyLost, hclazz, Int.not_lt.mp hneg, hasync, hreply]
  · refine ⟨_, congrArg some (Prod.ext rfl ?_)⟩
    simp [replyLost, hasync]

/-! ## What a message does -/

section Messages

variable {filter : Option (IpcNotify → ℤ)} {p : Ptr} {clazz : IpcClass} {stale : List Ptr}
  {aborted gone : Bool} {s : Served}

/-- The server runs, and the handle is alive or has been released by a subscriber. -/
structure Stands (p : Ptr) (clazz : IpcClass) (stale : List Ptr) (aborted gone : Bool)
    (s : Served) : Prop where
  dead : s.core.dead = false
  formed : Formed s.core
  stale : s.core.stale = stale
  aborted : s.core.aborted = aborted
  handle : if gone then s.core.handle p = none ∧ clazz = .subscriber
    else ∃ t, s.core.handle p = some t ∧ t.clazz = clazz

/-- The server does not go on, and nothing was used that had been released. -/
structure Hung (stale : List Ptr) (s : Served) : Prop where
  dead : s.core.dead = true
  stale : s.core.stale = stale

/-- What a message did, next to what it comes to. -/
inductive Dispatched (p : Ptr) (clazz : IpcClass) (stale : List Ptr) (aborted : Bool) :
    Outcome → Served → Bool → Prop
  /-- The list of a topic has no end. -/
  | hung {o : Outcome} {s : Served} (h : Hung stale s) (ha : s.core.aborted = aborted) :
      Dispatched p clazz stale aborted o s false
  /-- An assertion fails. -/
  | abort {s : Served} (hclazz : clazz ≠ .subscriber) (h : Hung stale s) :
      Dispatched p clazz stale aborted .misuse s false
  | closed {s : Served} (h : Stands p clazz stale aborted false s) :
      Dispatched p clazz stale aborted .closed s false
  | next {s : Served} {gone : Bool} (h : Stands p clazz stale aborted gone s) :
      Dispatched p clazz stale aborted (.next gone s.answers) s true
  /-- A released handle is used, or will be by the label `__error`. -/
  | astray {s : Served} {ok : Bool} (hclazz : clazz = .subscriber)
      (h : ok = false ∧ Stands p clazz stale aborted true s ∨
        stale.length < s.core.stale.length) :
      Dispatched p clazz stale aborted .misuse s ok

lemma Stands.of_core (h : Stands p clazz stale aborted gone s) (answers : List Answer) :
    Stands p clazz stale aborted gone { s with answers := answers } :=
  ⟨h.dead, h.formed, h.stale, h.aborted, h.handle⟩

lemma dispatched_broker (h : Stands p clazz stale aborted gone s) (m : Mem) (a : ℕ) :
    Dispatched p clazz stale aborted (.next gone s.answers) (brokerBranch filter m a s).state
      (brokerBranch filter m a s).ok := by
  unfold brokerBranch
  split
  · exact .hung ⟨rfl, h.stale⟩ h.aborted
  · exact .next h

lemma dispatched_sync (h : Stands p clazz stale aborted false s) :
    Dispatched p clazz stale aborted
      (if clazz = .subscriber then .next false s.answers else .misuse)
      { s with core := ipcServerSync p s.core } (!(ipcServerSync p s.core).dead) := by
  obtain ⟨t, ht, rfl⟩ := h.handle
  by_cases hclazz : t.clazz = .subscriber
  · have hform := h.formed.sync p
    obtain ⟨-, hself, hrest⟩ := nodeInitLoop_frame p 64 t.mask 0 0 s.core
    rw [← ipcPeerNodeInit] at hself hrest
    rw [h.formed.sync_peer ht hclazz] at hform ⊢
    have hdead : (ipcServerManager p .sync (ipcPeerNodeInit p t.mask s.core)).dead = false := by
      rw [ipcServerManager, hrest]
      exact h.dead
    rw [hdead, if_pos hclazz]
    refine .next (s := { s with core := _ }) ⟨hdead, hform, ?_, ?_, ?_⟩
    · change (ipcPeerNodeInit p t.mask s.core).stale = stale
      rw [hrest]
      exact h.stale
    · change (ipcPeerNodeInit p t.mask s.core).aborted = aborted
      rw [hrest]
      exact h.aborted
    · rw [ht, Option.map_some, Option.map_eq_some_iff] at hself
      obtain ⟨t', ht', heq⟩ := hself
      exact ⟨t', ht', (Prod.mk.inj heq).1⟩
  · have habort : ipcServerSync p s.core = s.core.abort := by
      simp [ipcServerSync, ht, hclazz]
    rw [habort, if_neg hclazz]
    exact .abort hclazz ⟨rfl, h.stale⟩

lemma dispatched_unregister (h : Stands p clazz stale aborted false s) :
    Dispatched p clazz stale aborted
      (if clazz = .subscriber then .next true s.answers else .closed)
      { s with core := (ipcServerUnregister p s.core).1 } (ipcServerUnregister p s.core).2 := by
  obtain ⟨t, ht, rfl⟩ := h.handle
  by_cases hclazz : t.clazz = .subscriber
  · have hform := h.formed.unregister p
    rw [h.formed.unregister_peer ht hclazz] at hform ⊢
    rw [if_pos hclazz]
    have hmanager : Formed (ipcServerManager p .unregister s.core) := h.formed.manager p _
    obtain ⟨hnone, hdead, hstale, haborted⟩ := hmanager.release_live ht
    have hstands : Stands p t.clazz stale aborted true
        { s with core := ipcRelease p (ipcServerManager p .unregister s.core) } :=
      ⟨hdead.trans h.dead, hform, hstale.trans h.stale, haborted.trans h.aborted, hnone, hclazz⟩
    exact .next hstands
  · have hfail : ipcServerUnregister p s.core = (s.core, false) := by
      simp [ipcServerUnregister, ht, hclazz]
    rw [hfail, if_neg hclazz]
    exact .closed h

/-- A message for the handler of the user, with a live handle. -/
lemma dispatched_invoke (hclient : clazz = .requester ∨ clazz = .subscriber)
    (h : Stands p clazz stale aborted false s) (msg : IpcMsg) :
    Dispatched p clazz stale aborted
      (if replyLost clazz (s.answers.headD ⟨-1, msg, false⟩) then .closed
        else .next false s.answers.tail)
      (invokeBranch p msg s).state (invokeBranch p msg s).ok := by
  obtain ⟨t, ht, rfl⟩ := h.handle
  obtain ⟨msg', hinvoke⟩ := ipcHandlerInvoke_client hclient msg (s.answer msg)
  have hstate : invokeBranch p msg s =
      ⟨{ s with answers := s.answers.tail }, msg'.encode, !replyLost t.clazz (s.answer msg)⟩ := by
    simp only [invokeBranch, ht, hinvoke]
  rw [hstate]
  change Dispatched _ _ _ _ (if replyLost t.clazz (s.answer msg) = true then _ else _) _ _
  cases replyLost t.clazz (s.answer msg) with
  | true => exact .closed (h.of_core _)
  | false => exact .next (h.of_core s.answers.tail)

/-- A message that is no notification, after the release of the handle. -/
lemma dispatched_gone (h : Stands p clazz stale aborted true s) (m : Mem) (a : ℕ)
    (hnotify : (readMsg m a).msgId ≠ ipcSdkMsgNotify) :
    Dispatched p clazz stale aborted .misuse (socketSwitch filter p s m a).state
      (socketSwitch filter p s m a).ok := by
  obtain ⟨hnone, hclazz⟩ := h.handle
  have hlonger : ∀ answers, stale.length <
      ({ core := s.core.useStale p, answers := answers } : Served).core.stale.length := by
    intro answers
    rw [← h.stale]
    simp [IpcCore.useStale]
  unfold socketSwitch
  dsimp only
  by_cases hconnect : (readMsg m a).msgId = ipcSdkMsgConnect
  · rw [if_pos hconnect]
    exact .astray hclazz (.inl ⟨rfl, h⟩)
  by_cases hregister : (readMsg m a).msgId = ipcSdkMsgRegister
  · rw [if_neg hconnect, if_pos hregister]
    exact .astray hclazz (.inl ⟨rfl, h⟩)
  rw [if_neg hconnect, if_neg hregister]
  by_cases hsync : (readMsg m a).msgId = ipcSdkMsgSync
  · have hstale : ipcServerSync p s.core = s.core.useStale p := by
      simp only [ipcServerSync, hnone]
    rw [if_pos hsync, hstale]
    exact .astray hclazz (.inr (hlonger _))
  by_cases hunregister : (readMsg m a).msgId = ipcSdkMsgUnregister
  · have hstale : ipcServerUnregister p s.core = (s.core.useStale p, true) := by
      simp only [ipcServerUnregister, hnone]
    rw [if_neg hsync, if_pos hunregister, hstale]
    exact .astray hclazz (.inr (hlonger _))
  · have hstale : invokeBranch p (readMsg m a) s =
        ⟨{ s with core := s.core.useStale p }, [], true⟩ := by
      simp only [invokeBranch, hnone]
    rw [if_neg hsync, if_neg hunregister, if_neg hnotify, hstale]
    exact .astray hclazz (.inr (hlonger _))

variable (filter) in
/-- **What a message did is what it comes to.** -/
lemma dispatched (hclient : clazz = .requester ∨ clazz = .subscriber)
    (h : Stands p clazz stale aborted gone s) (m : Mem) (a : ℕ) :
    Dispatched p clazz stale aborted (outcome clazz gone s.answers (readMsg m a))
      ((serverHooks filter p).dispatch s m a).state ((serverHooks filter p).dispatch s m a).ok := by
  have hswitch : (serverHooks filter p).dispatch s m a = socketSwitch filter p s m a :=
    if_neg (by simp [h.dead])
  rw [hswitch]
  unfold outcome
  by_cases hnotify : (readMsg m a).msgId = ipcSdkMsgNotify
  · have hids : (readMsg m a).msgId ≠ ipcSdkMsgConnect ∧ (readMsg m a).msgId ≠ ipcSdkMsgRegister ∧
        (readMsg m a).msgId ≠ ipcSdkMsgSync ∧ (readMsg m a).msgId ≠ ipcSdkMsgUnregister := by
      rw [hnotify]
      decide
    unfold socketSwitch
    dsimp only
    rw [if_pos hnotify, if_neg hids.1, if_neg hids.2.1, if_neg hids.2.2.1, if_neg hids.2.2.2,
      if_pos hnotify]
    exact dispatched_broker h m a
  · rw [if_neg hnotify]
    cases gone with
    | true =>
        rw [if_pos rfl]
        exact dispatched_gone h m a hnotify
    | false =>
        unfold socketSwitch
        dsimp only
        rw [if_neg (by simp), if_neg hnotify]
        by_cases hconnect : (readMsg m a).msgId = ipcSdkMsgConnect
        · rw [if_pos (.inl hconnect), if_pos hconnect]
          exact .closed h
        by_cases hregister : (readMsg m a).msgId = ipcSdkMsgRegister
        · rw [if_pos (.inr hregister), if_neg hconnect, if_pos hregister]
          exact .closed h
        rw [if_neg (not_or.mpr ⟨hconnect, hregister⟩), if_neg hconnect, if_neg hregister]
        by_cases hsync : (readMsg m a).msgId = ipcSdkMsgSync
        · rw [if_pos hsync, if_pos hsync]
          exact dispatched_sync h
        rw [if_neg hsync, if_neg hsync]
        by_cases hunregister : (readMsg m a).msgId = ipcSdkMsgUnregister
        · rw [if_pos hunregister, if_pos hunregister]
          exact dispatched_unregister h
        rw [if_neg hunregister, if_neg hunregister]
        exact dispatched_invoke hclient h _

/-! ## The loop over the buffer -/

/-- A released handle has been used when the loop over the buffer ends, or will be. -/
def Astray (filter : Option (IpcNotify → ℤ)) (p : Ptr) (n : ℕ) (exit : DrainExit) (s : Served) :
    Prop :=
  if exit = .error then n < ((serverHooks filter p).release s).core.stale.length
  else n < s.core.stale.length ∨ exit = .wait ∧ s.core.handle p = none

/-- What the loop over the buffer did, next to what its messages come to. -/
inductive Drained (filter : Option (IpcNotify → ℤ)) (p : Ptr) (clazz : IpcClass)
    (stale : List Ptr) (aborted : Bool) : Fate → Conn Served → DrainExit → Prop
  | hung {f : Fate} {c : Conn Served} (h : Hung stale c.state)
      (ha : c.state.core.aborted = aborted) : Drained filter p clazz stale aborted f c .error
  | abort {c : Conn Served} (hclazz : clazz ≠ .subscriber) (h : Hung stale c.state) :
      Drained filter p clazz stale aborted .misuse c .error
  | returned {c : Conn Served} {gone : Bool} (h : Stands p clazz stale aborted gone c.state) :
      Drained filter p clazz stale aborted .closed c .returned
  | error {c : Conn Served} (h : Stands p clazz stale aborted false c.state) :
      Drained filter p clazz stale aborted .closed c .error
  | wait {c : Conn Served} (h : Stands p clazz stale aborted false c.state) :
      Drained filter p clazz stale aborted (.unfinished c.buf c.state.answers) c .wait
  | astray {c : Conn Served} {exit : DrainExit} (hclazz : clazz = .subscriber)
      (h : Astray filter p stale.length exit c.state) :
      Drained filter p clazz stale aborted .misuse c exit

lemma Stands.release_gone (h : Stands p clazz stale aborted true s) :
    stale.length < ((serverHooks filter p).release s).core.stale.length := by
  have hrelease : ((serverHooks filter p).release s).core = s.core.useStale p := by
    simp [serverHooks, h.dead, ipcRelease, h.handle.1]
  rw [hrelease, ← h.stale]
  simp [IpcCore.useStale]

/-! ### The record of uses after release only grows -/

lemma stale_useStale (p : Ptr) (core : IpcCore) :
    core.stale.length ≤ (core.useStale p).stale.length := by
  simp [IpcCore.useStale]

lemma stale_release (p : Ptr) (core : IpcCore) :
    core.stale.length ≤ (ipcRelease p core).stale.length := by
  unfold ipcRelease
  split
  · exact stale_useStale p core
  · split <;> exact Nat.le_refl _

lemma stale_sync (p : Ptr) (core : IpcCore) :
    core.stale.length ≤ (ipcServerSync p core).stale.length := by
  unfold ipcServerSync
  split
  · exact stale_useStale p core
  · rename_i s hs
    obtain ⟨-, -, hrest⟩ := nodeInitLoop_frame p 64 s.mask 0 0 core
    have hnode : (ipcPeerNodeInit p s.mask core).stale = core.stale := by
      rw [ipcPeerNodeInit, hrest]
    split_ifs
    · exact Nat.le_refl _
    · exact Nat.le_refl _
    · exact Nat.le_of_eq (congrArg List.length hnode.symm)

lemma stale_unregister (p : Ptr) (core : IpcCore) :
    core.stale.length ≤ (ipcServerUnregister p core).1.stale.length := by
  unfold ipcServerUnregister
  split
  · exact stale_useStale p core
  · split_ifs
    · exact Nat.le_refl _
    · exact Nat.le_refl _
    · exact stale_release p (ipcServerManager p .unregister core)

variable (filter p) in
lemma stale_dispatch (s : Served) (m : Mem) (a : ℕ) : s.core.stale.length ≤
    ((serverHooks filter p).dispatch s m a).state.core.stale.length := by
  simp only [serverHooks]
  split
  · exact Nat.le_refl _
  · unfold socketSwitch
    dsimp only
    split
    · exact Nat.le_refl _
    split
    · exact Nat.le_refl _
    split
    · exact stale_sync p s.core
    split
    · exact stale_unregister p s.core
    split
    · unfold brokerBranch
      split <;> exact Nat.le_refl _
    · unfold invokeBranch
      split
      · exact stale_useStale p s.core
      · split <;> exact Nat.le_refl _

lemma keeps_stale (filter : Option (IpcNotify → ℤ)) (p : Ptr) (n : ℕ) :
    Keeps (serverHooks filter p) (fun s => n < s.core.stale.length)
      fun s => n < s.core.stale.length := by
  have hleave : ∀ {s : Served}, n < s.core.stale.length →
      n < ((serverHooks filter p).release s).core.stale.length := by
    intro s hs
    simp only [serverHooks]
    split_ifs
    · exact hs
    · exact Nat.lt_of_lt_of_le hs (stale_release p s.core)
  refine ⟨id, fun {s} hs => hleave ?_, hleave, fun {s} m a hs => ?_⟩
  · simp only [serverHooks]
    split_ifs
    · exact hs
    · unfold shutdownPeer
      split
      · exact Nat.lt_of_lt_of_le hs (stale_useStale p s.core)
      · split_ifs <;> exact hs
  · have hs' := Nat.lt_of_lt_of_le hs (stale_dispatch filter p s m a)
    split_ifs
    · exact hs'
    · exact hleave hs'

variable (filter) in
/-- **What the loop over the buffer did is what its messages come to.** -/
lemma drained (hclient : clazz = .requester ∨ clazz = .subscriber) (fuel : ℕ) (gone : Bool)
    (c : Conn Served) (h : Stands p clazz stale aborted gone c.state) :
    Drained filter p clazz stale aborted (fate clazz fuel gone c.state.answers c.buf)
      (drain (serverHooks filter p) fuel c).1 (drain (serverHooks filter p) fuel c).2.2 := by
  induction fuel generalizing gone c with
  | zero => exact .returned h
  | succ fuel ih =>
      obtain ⟨hbuf, hmsg, hat⟩ := findMsg_clone c.buf blank c.clone
      simp only [Ipc.drain, fate]
      rw [← hmsg, ← hbuf]
      rw [← hmsg] at hat
      set r := findMsg c.buf (some c.clone) with hrdef
      cases hm : r.msg with
      | none =>
          dsimp only
          cases gone with
          | true =>
              obtain ⟨hnone, hclazz⟩ := h.handle
              rw [if_pos rfl]
              refine .astray hclazz ?_
              cases r.buf.full with
              | true => exact h.release_gone
              | false => exact .inr ⟨rfl, hnone⟩
          | false =>
              rw [if_neg (by simp)]
              cases r.buf.full with
              | true => exact .error h
              | false => exact .wait (c := { c with buf := r.buf }) h
      | some q =>
          dsimp only
          rw [← hat q hm]
          have hd := dispatched filter hclient h (r.deref q).1 (r.deref q).2
          change Dispatched p clazz stale aborted
            (outcome clazz gone c.state.answers (r.messageAt q)) _ _ at hd
          generalize outcome clazz gone c.state.answers (r.messageAt q) = o at hd ⊢
          generalize (serverHooks filter p).dispatch c.state (r.deref q).1 (r.deref q).2 = a at hd ⊢
          obtain ⟨s', bytes, ok⟩ := a
          have hs' : (c.store r q ⟨s', bytes, ok⟩).state = s' := state_store ..
          dsimp only at hd
          cases hd with
          | hung hhung ha =>
              refine .hung ?_ ?_
              · rw [if_neg (by simp), hs']
                exact hhung
              · rw [if_neg (by simp), hs']
                exact ha
          | abort hclazz hhung =>
              refine .abort hclazz ?_
              rw [if_neg (by simp), hs']
              exact hhung
          | closed hstands =>
              refine .error ?_
              rw [if_neg (by simp), hs']
              exact hstands
          | next hstands =>
              rw [if_pos rfl]
              rw [← hs'] at hstands
              -- the store changes the buffer only behind its last message
              cases q with
              | inBuf off =>
                  have hnot : r.buf.hasPending = false := hasPending_inBuf hm
                  have hnot' : (c.store r (.inBuf off) ⟨s', bytes, true⟩).buf.hasPending = false :=
                    hnot
                  rw [hnot, hnot']
                  exact .returned hstands
              | clone =>
                  rw [buf_store_clone]
                  cases r.buf.hasPending with
                  | false => exact .returned hstands
                  | true => exact ih _ _ hstands
          | astray hclazz hastray =>
              refine .astray hclazz ?_
              rcases hastray with ⟨rfl, hstands⟩ | hlonger
              · rw [← hs'] at hstands
                exact hstands.release_gone
              · rw [← hs'] at hlonger
                have hkeeps := keeps_stale filter p stale.length
                cases ok with
                | false => exact hkeeps.leave hlonger
                | true =>
                    rw [if_pos rfl]
                    cases (c.store r q ⟨s', bytes, true⟩).buf.hasPending with
                    | false => exact .inl hlonger
                    | true =>
                        have hdrain := hkeeps.drain fuel _ hlonger
                        rw [if_pos rfl]
                        unfold Astray
                        dsimp only
                        split_ifs at hdrain ⊢ with herror
                        · exact hdrain
                        · exact .inl hdrain

/-! ## A call -/

/-- What a call did, next to whether its events are civil: the state it leaves, and those in which
it read the socket. -/
inductive Conducted (p : Ptr) (clazz : IpcClass) (stale : List Ptr) (aborted : Bool) :
    Bool → Served → List Served → Prop
  | fine {b : Bool} {s : Served} {reads : List Served} (hb : b = true ∨ s.core.dead = true)
      (hs : s.core.stale = stale) (ha : s.core.aborted = aborted)
      (hreads : ∀ r ∈ reads, r.core.handle p ≠ none) : Conducted p clazz stale aborted b s reads
  | abort {s : Served} {reads : List Served} (hclazz : clazz ≠ .subscriber)
      (hs : s.core.stale = stale) (hreads : ∀ r ∈ reads, r.core.handle p ≠ none) :
      Conducted p clazz stale aborted false s reads
  | astray {s : Served} {reads : List Served} (hclazz : clazz = .subscriber)
      (h : stale.length < s.core.stale.length ∨ ∃ r ∈ reads, r.core.handle p = none) :
      Conducted p clazz stale aborted false s reads

lemma Stands.alive (h : Stands p clazz stale aborted false s) : s.core.handle p ≠ none := by
  obtain ⟨t, ht, -⟩ := h.handle
  simp [ht]

/-- The call reads the socket of a live handle and goes on. -/
lemma Conducted.cons {b : Bool} {s' : Served} {reads : List Served}
    (hs : Stands p clazz stale aborted false s)
    (h : Conducted p clazz stale aborted b s' reads) :
    Conducted p clazz stale aborted b s' (s :: reads) := by
  cases h with
  | fine hb hstale ha hreads =>
      exact .fine hb hstale ha (List.forall_mem_cons.mpr ⟨hs.alive, hreads⟩)
  | abort hclazz hstale hreads =>
      exact .abort hclazz hstale (List.forall_mem_cons.mpr ⟨hs.alive, hreads⟩)
  | astray hclazz h =>
      refine .astray hclazz (h.imp_right ?_)
      rintro ⟨r, hr, hnone⟩
      exact ⟨r, List.mem_cons_of_mem _ hr, hnone⟩

variable (filter) in
lemma Stands.leave (h : Stands p clazz stale aborted false s) :
    ((serverHooks filter p).release s).core.stale = stale ∧
      ((serverHooks filter p).release s).core.aborted = aborted := by
  obtain ⟨t, ht, -⟩ := h.handle
  obtain ⟨-, -, hstale, haborted⟩ := h.formed.release_live ht
  have hrelease : ((serverHooks filter p).release s).core = ipcRelease p s.core := by
    simp [serverHooks, h.dead]
  rw [hrelease]
  exact ⟨hstale.trans h.stale, haborted.trans h.aborted⟩

variable (filter) in
lemma conducted_hangup (h : Stands p clazz stale aborted false s) :
    Conducted p clazz stale aborted true
      ((serverHooks filter p).release ((serverHooks filter p).shutdown s)) [s] := by
  obtain ⟨t, ht, hclazz⟩ := h.handle
  have hshutdown : Stands p clazz stale aborted false ((serverHooks filter p).shutdown s) := by
    have heq : (serverHooks filter p).shutdown s = { s with core := shutdownPeer p s.core } :=
      if_neg (by simp [h.dead])
    rw [heq]
    unfold shutdownPeer
    rw [ht]
    dsimp only
    split_ifs
    · exact ⟨h.dead, h.formed.manager p .shutdown, h.stale, h.aborted, t, ht, hclazz⟩
    · exact ⟨h.dead, h.formed, h.stale, h.aborted, t, ht, hclazz⟩
  obtain ⟨hstale, haborted⟩ := hshutdown.leave filter
  refine .fine (.inl rfl) hstale haborted ?_
  simpa using h.alive

variable (filter) in
/-- **What a call did is what its events come to.** -/
lemma handlerRecv_conducted (hclient : clazz = .requester ∨ clazz = .subscriber)
    (es : List SockEvent) (c : Conn Served) (h : Stands p clazz stale aborted false c.state) :
    Conducted p clazz stale aborted (civil clazz es c.state.answers c.buf)
      (handlerRecv (serverHooks filter p) es c).conn.state
      (socketReads (serverHooks filter p) es c) := by
  have hself : ∀ r ∈ [c.state], r.core.handle p ≠ none := by simpa using h.alive
  induction es generalizing c with
  | nil => exact .fine (.inl rfl) h.stale h.aborted hself
  | cons e es ih =>
      unfold handlerRecv civil socketReads
      by_cases hwindow : c.buf.window = 0
      · rw [if_pos hwindow, if_pos hwindow, if_pos hwindow]
        exact conducted_hangup filter h
      rw [if_neg hwindow, if_neg hwindow, if_neg hwindow]
      cases e with
      | eof => exact conducted_hangup filter h
      | idle => exact conducted_hangup filter h
      | err e =>
          cases e with
          | eintr => exact .cons h (ih c h hself)
          | econnreset => exact conducted_hangup filter h
          | eagain => exact conducted_hangup filter h
          | other => exact conducted_hangup filter h
      | bytes bs =>
          dsimp only
          by_cases hill : c.buf.Undeliverable bs
          · rw [if_pos hill, if_pos hill, if_pos hill]
            exact .fine (.inl rfl) h.stale h.aborted hself
          rw [if_neg hill, if_neg hill, if_neg hill]
          have hd := drained filter hclient ((c.buf.append bs).pending.length + 1) false
            { c with buf := c.buf.append bs } h
          dsimp only at hd
          generalize fate clazz ((c.buf.append bs).pending.length + 1) false c.state.answers
            (c.buf.append bs) = f at hd ⊢
          generalize drain (serverHooks filter p) ((c.buf.append bs).pending.length + 1)
            { c with buf := c.buf.append bs } = d at hd ⊢
          obtain ⟨c₂, l, exit⟩ := d
          dsimp only at hd
          cases hd with
          | hung hhung ha =>
              have hrelease : (serverHooks filter p).release c₂.state = c₂.state :=
                if_pos hhung.dead
              refine .fine (.inr ?_) ?_ ?_ hself
              · exact (congrArg (fun s : Served => s.core.dead) hrelease).trans hhung.dead
              · exact (congrArg (fun s : Served => s.core.stale) hrelease).trans hhung.stale
              · exact (congrArg (fun s : Served => s.core.aborted) hrelease).trans ha
          | abort hclazz hhung =>
              have hrelease : (serverHooks filter p).release c₂.state = c₂.state :=
                if_pos hhung.dead
              refine .abort hclazz ?_ hself
              exact (congrArg (fun s : Served => s.core.stale) hrelease).trans hhung.stale
          | returned hstands => exact .fine (.inl rfl) hstands.stale hstands.aborted hself
          | error hstands =>
              obtain ⟨hstale, haborted⟩ := hstands.leave filter
              exact .fine (.inl rfl) hstale haborted hself
          | wait hstands =>
              have hnext := ih c₂ hstands (by simpa using hstands.alive)
              cases es with
              | nil => exact .cons h (.cons hstands hnext)
              | cons e' es' =>
                  cases e' with
                  | idle =>
                      obtain ⟨hstale, haborted⟩ := hstands.leave filter
                      exact .cons h (.cons hstands (.fine (.inl rfl) hstale haborted (by simp)))
                  | bytes _ => exact .cons h (.cons hstands hnext)
                  | eof => exact .cons h (.cons hstands hnext)
                  | err _ => exact .cons h (.cons hstands hnext)
          | astray hclazz hastray =>
              have hkeeps := keeps_stale filter p stale.length
              refine .astray hclazz ?_
              cases exit with
              | returned => exact .inl (hastray.resolve_right (by simp))
              | error => exact .inl hastray
              | wait =>
                  rcases hastray with hlonger | ⟨-, hnone⟩
                  · left
                    have hnext := hkeeps.handlerRecv es c₂ hlonger
                    cases es with
                    | nil => exact hnext
                    | cons e' es' =>
                        cases e' with
                        | idle => exact hkeeps.leave hlonger
                        | bytes _ => exact hnext
                        | eof => exact hnext
                        | err _ => exact hnext
                  · right
                    refine ⟨c₂.state, ?_, hnone⟩
                    cases es with
                    | nil => simp
                    | cons e' es' => cases e' <;> simp

end Messages

/-! ## Runs -/

section Runs

variable {filter : Option (IpcNotify → ℤ)}

/-- **The rule for the core.**  What the operations for a handle keep is kept whatever its client
sends. -/
lemma keeps_core (p : Ptr) {I : IpcCore → Prop} (hrelease : ∀ {c}, I c → I (ipcRelease p c))
    (hsync : ∀ {c}, I c → I (ipcServerSync p c))
    (hunregister : ∀ {c}, I c → I (ipcServerUnregister p c).1)
    (hsame : ∀ {c c' : IpcCore}, I c → c'.handle = c.handle → c'.brk = c.brk →
      c'.head = c.head → c'.closed = c.closed → I c') :
    Keeps (serverHooks filter p) (fun s => I s.core) fun s => I s.core := by
  have hleave : ∀ {s : Served}, I s.core → I ((serverHooks filter p).release s).core := by
    intro s hs
    simp only [serverHooks]
    split_ifs
    · exact hs
    · exact hrelease hs
  have hdispatch : ∀ {s : Served} (m : Mem) (a : ℕ), I s.core →
      I ((serverHooks filter p).dispatch s m a).state.core := by
    intro s m a hs
    simp only [serverHooks]
    split
    · exact hs
    · unfold socketSwitch
      dsimp only
      split
      · exact hs
      split
      · exact hs
      split
      · exact hsync hs
      split
      · exact hunregister hs
      split
      · unfold brokerBranch
        split
        · exact hsame hs rfl rfl rfl rfl
        · exact hs
      · unfold invokeBranch
        split
        · exact hsame hs rfl rfl rfl rfl
        · split
          · exact hsame hs rfl rfl rfl rfl
          · exact hs
  refine ⟨id, fun {s} hs => hleave ?_, hleave, fun {s} m a hs => ?_⟩
  · simp only [serverHooks]
    split_ifs
    · exact hs
    · unfold shutdownPeer
      split
      · exact hsame hs rfl rfl rfl rfl
      · split_ifs
        · exact hsame hs rfl rfl rfl rfl
        · exact hs
  · split_ifs
    · exact hdispatch m a hs
    · exact hleave (hdispatch m a hs)

lemma keeps_formed (p : Ptr) :
    Keeps (serverHooks filter p) (fun s => Formed s.core) fun s => Formed s.core :=
  keeps_core p (fun h => h.release p) (fun h => h.sync p) (fun h => h.unregister p)
    fun h hhandle hbrk hhead _ => h.congr hhandle hbrk hhead

lemma Formed.masterSwitch {core : IpcCore} (h : Formed core) (sock : ℕ) (env : AcceptEnv)
    (m : Mem) : Formed (masterSwitch filter sock env m core) := by
  unfold Ipc.masterSwitch
  simp only []
  split_ifs
  · exact h.connect sock _ env.connect
  · exact h.register sock _ env.register
  · exact h.close sock
  · exact h.close sock
  · split
    · exact h.congr rfl rfl rfl
    · exact h.close sock
  · split
    · exact h.abort
    · exact h.close sock

lemma Formed.releaseAll (ps : List Ptr) {core : IpcCore} (h : Formed core) :
    Formed (ps.foldl (fun c p => ipcRelease p c) core) := by
  induction ps generalizing core with
  | nil => exact h
  | cons p ps ih => exact ih (h.release p)

lemma Formed.proxy {core : IpcCore} (h : Formed core) (fd : ℕ) (alloc : Bool) :
    Formed (ipcServerProxy fd alloc core) := by
  unfold ipcServerProxy
  split_ifs
  · exact h.sevrInit (by simp) (by simp)
  · exact h

lemma Formed.exit {core : IpcCore} (h : Formed core) : Formed (ipcServerExit core) := by
  unfold ipcServerExit
  split_ifs
  · have hstop : Formed { core with running := false } := h.congr rfl rfl rfl
    exact (hstop.releaseAll core.head).congr rfl rfl rfl
  · exact h

/-- **The handles stay in form**, in every run. -/
lemma Formed.step {s s' : Server} {l : ServerLabel} {es : List Empty} (h : Formed s.core)
    (hstep : serverStep filter s l = some (s', es)) : Formed s'.core := by
  obtain ⟨-, hmoved⟩ := serverStep_moved hstep
  cases hmoved with
  | refused heq =>
      rcases heq with heq | ⟨sock, heq⟩
      · rw [heq]
        exact h
      · rw [heq]
        exact h.close sock
  | accepted sock m heq =>
      rw [heq]
      exact h.masterSwitch sock _ m
  | recv hp heq =>
      rw [heq]
      exact (keeps_formed _).handlerRecv _ _ h
  | proxy heq =>
      rw [heq]
      exact h.proxy _ _
  | exit heq =>
      rw [heq]
      exact h.exit

/-- A client with a live handle is about to be served. -/
lemma stands_client {core : IpcCore} (h : Formed core) (hdead : core.dead = false) {p : Ptr}
    (hp : core.isClient p = true) (answers : List Answer) :
    ∃ t, core.handle p = some t ∧ (t.clazz = .requester ∨ t.clazz = .subscriber) ∧
      Stands p t.clazz core.stale core.aborted false ⟨core, answers⟩ := by
  obtain ⟨t, ht, hclazz⟩ : ∃ t, core.handle p = some t ∧
      (t.clazz = .requester ∨ t.clazz = .subscriber) := by
    simpa [IpcCore.isClient, Option.any_eq_true] using hp
  exact ⟨t, ht, hclazz, hdead, h, rfl, rfl, t, ht, rfl⟩

/-! ### Released handles -/

/-- In the call of the handler, the handle is not used once it has been released: no message is
dispatched with it, its socket is not read, and it is not released again. -/
def UnusedAfterRelease (filter : Option (IpcNotify → ℤ)) (p : Ptr) (events : List SockEvent)
    (answers : List Answer) (s : Server) : Prop :=
  (ipcCommonSocketHandler (serverHooks filter p) events
      ⟨s.buf, s.clone, s.core, answers⟩).conn.state.core.stale = s.core.stale ∧
    ∀ r ∈ socketReads (serverHooks filter p) events ⟨s.buf.reset, s.clone, s.core, answers⟩,
      r.core.handle p ≠ none

/-- **A released handle is not used again**, in any call of the handler in any run, if there is
nothing but notifications behind an `IPC_SDK_MSG_UNREGISTER` of a subscriber in the buffer; and
otherwise it is used, unless the server hangs before that in the list of a topic. -/
theorem released_handle_unused {masterSock : ℕ} {buf : IpcBuf} {clone : Mem}
    {ls : List ServerLabel} {s : Server} {es : List Empty}
    (hrun : run (serverStep filter) ls (Server.boot masterSock buf clone) = some (s, es))
    (hdead : s.core.dead = false) {p : Ptr} (hp : s.core.isClient p = true)
    (events : List SockEvent) (answers : List Answer) :
    ((s.core.isPeer p = true → civil .subscriber events answers s.buf.reset = true) →
        UnusedAfterRelease filter p events answers s) ∧
      ((ipcCommonSocketHandler (serverHooks filter p) events
          ⟨s.buf, s.clone, s.core, answers⟩).conn.state.core.dead = false →
        UnusedAfterRelease filter p events answers s →
        s.core.isPeer p = true → civil .subscriber events answers s.buf.reset = true) := by
  have hform : Formed s.core := run_invariant (I := fun s => Formed s.core)
    (fun h _ hstep => h.step hstep) (formed_boot masterSock)
    (along_of_forall (P := fun _ => True) (fun _ _ => trivial) _) hrun
  obtain ⟨t, ht, hclient, hstands⟩ := stands_client hform hdead hp answers
  have hpeer : s.core.isPeer p = true ↔ t.clazz = .subscriber := by
    simp [IpcCore.isPeer, ht]
  have hcall := handlerRecv_conducted filter hclient events
    ⟨s.buf.reset, s.clone, s.core, answers⟩ hstands
  rw [hpeer]
  generalize hb : civil t.clazz events _ _ = b at hcall
  constructor
  · intro hcivil
    cases hcall with
    | fine _ hs _ hreads => exact ⟨hs, hreads⟩
    | abort _ hs hreads => exact ⟨hs, hreads⟩
    | astray hclazz _ =>
        rw [hclazz, hcivil hclazz] at hb
        cases hb
  · intro halive hunused hclazz
    rw [← hclazz]
    cases hcall with
    | fine hgood _ _ _ =>
        rcases hgood with rfl | hhung
        · exact hb
        · exact absurd (halive.symm.trans hhung) (by simp)
    | abort hother _ _ => exact absurd hclazz hother
    | astray _ hused =>
        rcases hused with hlonger | ⟨r, hr, hnone⟩
        · exact absurd (congrArg List.length hunused.1) (Nat.ne_of_gt hlonger)
        · exact absurd hnone (hunused.2 r hr)

end Runs

/-- A subscriber that sends two messages in one go. -/
def twoFrames (id id' : UInt32) : List SockEvent :=
  [.bytes (requestFrame id [] ++ requestFrame id' [])]

/-- An `IPC_SDK_MSG_UNREGISTER` behind an `IPC_SDK_MSG_SYNC`. -/
theorem released_handle_unused_sample :
    ∃ s es, run (serverStep none) [acceptSubscriber 5] smallServer = some (s, es) ∧
      UnusedAfterRelease none 1 (twoFrames ipcSdkMsgSync ipcSdkMsgUnregister) [] s := by
  obtain ⟨s, es, hrun, hdead, hp, hcivil⟩ : ∃ s es,
      run (serverStep none) [acceptSubscriber 5] smallServer = some (s, es) ∧
        s.core.dead = false ∧ s.core.isClient 1 = true ∧
        civil .subscriber (twoFrames ipcSdkMsgSync ipcSdkMsgUnregister) [] s.buf.reset = true :=
    ⟨_, _, rfl, by decide +kernel, by decide +kernel, by decide +kernel⟩
  exact ⟨s, es, hrun, (released_handle_unused hrun hdead hp _ []).1 fun _ => hcivil⟩

/-- **A released handle is used.**  Two `IPC_SDK_MSG_UNREGISTER` arrive in one go: the first one
releases the handle, and the second one is dispatched with it. -/
theorem released_handle_used :
    ¬ ∀ (ls : List ServerLabel) (s : Server) (es : List Empty) (p : Ptr) (events : List SockEvent),
      run (serverStep none) ls smallServer = some (s, es) → s.core.dead = false →
      s.core.isClient p = true → UnusedAfterRelease none p events [] s := by
  intro h
  have hbad := (h [acceptSubscriber 5] _ _ 1
    (twoFrames ipcSdkMsgUnregister ipcSdkMsgUnregister) rfl (by decide +kernel)
    (by decide +kernel)).1
  exact absurd hbad (by decide +kernel)

/-! ### Assertions -/

section Assertions

variable {filter : Option (IpcNotify → ℤ)}

/-- No assertion has failed, and no handle was used after its release. -/
structure Sound (core : IpcCore) : Prop where
  aborted : core.aborted = false
  stale : core.stale = []

lemma Sound.congr {core core' : IpcCore} (h : Sound core) (haborted : core'.aborted = core.aborted)
    (hstale : core'.stale = core.stale) : Sound core' :=
  ⟨haborted.trans h.aborted, hstale.trans h.stale⟩

lemma Sound.release {core : IpcCore} (hform : Formed core) (h : Sound core) {p : Ptr}
    {t : IpcServer} (ht : core.handle p = some t) : Sound (ipcRelease p core) := by
  obtain ⟨-, -, hstale, haborted⟩ := hform.release_live ht
  exact h.congr haborted hstale

lemma Sound.connect {core : IpcCore} (h : Sound core) (hform : Formed core) (sock : ℕ)
    (msg : IpcMsg) (env : ConnectEnv) : Sound (ipcServerConnect sock msg env core) := by
  unfold ipcServerConnect
  have hnew : Formed (sevrInit ⟨.requester, int32 (leNat (msg.data.take 4)), sock, 0, []⟩ core) :=
    hform.sevrInit (by simp) (by simp)
  dsimp only
  split_ifs
  · exact h.congr rfl rfl
  · exact Sound.release (hnew.manager _ _) (h.congr rfl rfl) (if_pos rfl)
  · exact h.congr rfl rfl
  · exact Sound.release (hnew.manager _ _) (h.congr rfl rfl) (if_pos rfl)

lemma Sound.needBuckets {core : IpcCore} (h : Sound core) : Sound (Ipc.needBuckets core) := by
  unfold Ipc.needBuckets
  split_ifs
  · exact h
  · exact h.congr rfl rfl

/-- **The assertion of `ipc_peer_create`** holds: the mask has been checked. -/
lemma Sound.register {core : IpcCore} (h : Sound core) (hform : Formed core) (sock : ℕ)
    (msg : IpcMsg) (env : RegisterEnv) : Sound (ipcServerRegister sock msg env core) := by
  obtain hreg | ⟨hmask, core', rfl, ⟨-, hreg⟩ | hreg⟩ := ipcServerRegister_cases sock msg env core
  · rw [hreg]
    exact h.congr rfl rfl
  · rw [hreg]
    exact h.needBuckets.congr rfl rfl
  · rw [hreg]
    have hcall := (hform.newPeer hmask sock).manager core.brk (.register env.verdict)
    have hself : (sevrInit (newSubscriber sock msg) (Ipc.needBuckets core)).handle core.brk =
        some (newSubscriber sock msg) := if_pos (needBuckets_brk core).symm
    obtain ⟨-, hpeer⟩ | ⟨-, hpeer | hpeer⟩ := registerPeer_cases core.brk env
      (sevrInit (newSubscriber sock msg) (Ipc.needBuckets core))
    · rw [hpeer]
      exact Sound.release hcall (h.needBuckets.congr rfl rfl) hself
    · rw [hpeer]
      exact h.needBuckets.congr rfl rfl
    · rw [hpeer]
      exact Sound.release (hcall.manager _ _) (h.needBuckets.congr rfl rfl) hself

lemma Sound.masterSwitch {core : IpcCore} (h : Sound core) (hform : Formed core) (sock : ℕ)
    (env : AcceptEnv) (m : Mem) : Sound (masterSwitch filter sock env m core) := by
  unfold Ipc.masterSwitch
  simp only []
  split_ifs
  · exact h.connect hform sock _ env.connect
  · exact h.register hform sock _ env.register
  · exact h.congr rfl rfl
  · exact h.congr rfl rfl
  · split
    · exact h.congr rfl rfl
    · exact h.congr rfl rfl
  · split
    · rename_i hnone
      -- the flags of a dummy say that it is a dummy
      have hflags := ipcClass_handlerFlags
        (show handlerFlags .dummy (readMsg m 0).flags = some _ from rfl)
      unfold ipcHandlerInvoke at hnone
      simp only [handlerFlags] at hnone hflags
      rw [if_neg (by simp [hflags])] at hnone
      split_ifs at hnone
    · exact h.congr rfl rfl

/-- The handles of the list are released one after the other. -/
lemma Sound.releaseAll (ps : List Ptr) (hn : ps.Nodup) {core : IpcCore} (h : Sound core)
    (hform : Formed core) (hlive : ∀ p ∈ ps, core.handle p ≠ none) :
    Sound (ps.foldl (fun c p => ipcRelease p c) core) := by
  induction ps generalizing core with
  | nil => exact h
  | cons p ps ih =>
      obtain ⟨hp, hn⟩ := List.nodup_cons.mp hn
      obtain ⟨t, ht⟩ := Option.ne_none_iff_exists'.mp (hlive p (by simp))
      apply ih hn (Sound.release hform h ht) (hform.release p)
      intro q hq
      rw [handle_ipcRelease_of_ne (by rintro rfl; exact hp hq)]
      exact hlive q (by simp [hq])

/-- **The assertions of `ipc_release`** hold at the end of the server. -/
lemma Sound.exit {core : IpcCore} (h : Sound core) (hform : Formed core) :
    Sound (ipcServerExit core) := by
  unfold ipcServerExit
  split_ifs
  · have hstop : Formed { core with running := false } := hform.congr rfl rfl rfl
    have hsound : Sound { core with running := false } := h.congr rfl rfl
    have hall := Sound.releaseAll core.head hform.nodup hsound hstop
      fun p hp => (hform.listed p).mp hp
    exact hall.congr rfl rfl
  · exact h

/-- What a run has to avoid: a client that is not civil. -/
def Civil (s : Server) : ServerLabel → Prop
  | .recv p events answers =>
      ∀ t ∈ s.core.handle p, civil t.clazz events answers s.buf.reset = true
  | _ => True

instance (s : Server) : (l : ServerLabel) → Decidable (Civil s l)
  | .accept _ => .isTrue trivial
  | .recv p events answers => inferInstanceAs
      (Decidable (∀ t ∈ s.core.handle p, civil t.clazz events answers s.buf.reset = true))
  | .proxy _ _ => .isTrue trivial
  | .exit => .isTrue trivial

lemma Sound.step {s s' : Server} {l : ServerLabel} {es : List Empty} (h : Sound s.core)
    (hform : Formed s.core) (hok : Civil s l) (hstep : serverStep filter s l = some (s', es)) :
    Sound s'.core := by
  obtain ⟨hdead, hmoved⟩ := serverStep_moved hstep
  cases hmoved with
  | refused heq =>
      rcases heq with heq | ⟨sock, heq⟩
      · rw [heq]
        exact h
      · rw [heq]
        exact h.congr rfl rfl
  | accepted sock m heq =>
      rw [heq]
      exact h.masterSwitch hform sock _ m
  | @recv p events answers hp heq =>
      obtain ⟨t, ht, hclient, hstands⟩ := stands_client hform hdead hp answers
      have hcall := handlerRecv_conducted filter hclient events
        ⟨s.buf.reset, s.clone, s.core, answers⟩ hstands
      rw [hok t ht] at hcall
      rw [heq]
      cases hcall with
      | fine _ hs ha _ => exact h.congr ha hs
  | proxy heq =>
      rw [heq]
      unfold ipcServerProxy
      split_ifs
      · exact h.congr rfl rfl
      · exact h
  | exit heq =>
      rw [heq]
      exact h.exit hform

/-- **No client aborts the server.**  In every run in which no requester sends an
`IPC_SDK_MSG_SYNC`, and no subscriber something that needs its handle behind an
`IPC_SDK_MSG_UNREGISTER` in the same buffer, no assertion fails, and none is evaluated for a handle
that has been released. -/
theorem no_client_aborts {masterSock : ℕ} {buf : IpcBuf} {clone : Mem} {ls : List ServerLabel}
    {s : Server} {es : List Empty}
    (hrun : run (serverStep filter) ls (Server.boot masterSock buf clone) = some (s, es))
    (hok : Along (serverStep filter) Civil ls (Server.boot masterSock buf clone)) :
    s.core.aborted = false ∧ s.core.stale = [] := by
  obtain ⟨-, hsound⟩ : Formed s.core ∧ Sound s.core :=
    run_invariant (I := fun s => Formed s.core ∧ Sound s.core)
      (fun h hok hstep => ⟨h.1.step hstep, h.2.step h.1 hok hstep⟩)
      ⟨formed_boot masterSock, rfl, rfl⟩ hok hrun
  exact ⟨hsound.aborted, hsound.stale⟩

end Assertions

/-- A client connects as a requester. -/
def acceptRequester (sock : ℕ) : ServerLabel :=
  .accept {
    sock := some sock
    opts := true
    events := [.bytes (requestFrame ipcSdkMsgConnect [41, 0, 0, 0])]
    connect := ⟨true, 0, true⟩
    register := ⟨⟨true, true, true⟩, 0, true⟩
    answer := ⟨0, readMsg blank 0, true⟩ }

/-- A requester asks for something, and a subscriber synchronises and unregisters in one go. -/
def civilRun : List ServerLabel :=
  [acceptRequester 5, acceptSubscriber 6, .recv 1 [.bytes (requestFrame 300 [1, 2])] [],
    .recv 2 (twoFrames ipcSdkMsgSync ipcSdkMsgUnregister) [], .exit]

theorem no_client_aborts_sample :
    ∃ s es, run (serverStep none) civilRun smallServer = some (s, es) ∧
      s.core.aborted = false ∧ s.core.stale = [] := by
  have hsome : (run (serverStep none) civilRun smallServer).isSome = true := by decide +kernel
  obtain ⟨⟨s, es⟩, hrun⟩ := Option.isSome_iff_exists.mp hsome
  have hok : Along (serverStep none) Civil civilRun smallServer := by decide +kernel
  exact ⟨s, es, hrun, no_client_aborts hrun hok⟩

/-- A requester sends an `IPC_SDK_MSG_SYNC`. -/
def syncRun : List ServerLabel :=
  [acceptRequester 5, .recv 1 [.bytes (requestFrame ipcSdkMsgSync [])] []]

/-- **A client aborts the server.**  A requester sends an `IPC_SDK_MSG_SYNC`. -/
theorem client_aborts :
    ¬ ∀ (ls : List ServerLabel) (s : Server) (es : List Empty),
      run (serverStep none) ls smallServer = some (s, es) → s.core.aborted = false := by
  intro h
  have haborted : (run (serverStep none) syncRun smallServer).map (fun x => x.1.core.aborted) =
      some true := by decide +kernel
  obtain ⟨⟨s, es⟩, hrun, hs⟩ := Option.map_eq_some_iff.mp haborted
  exact Bool.noConfusion ((h syncRun s es hrun).symm.trans hs)

end LinuxC.Ipc
