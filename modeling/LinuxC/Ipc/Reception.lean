import LinuxC.Ipc.SocketHandler

/-!
# What a call of the receive loop comes to

Which way `ipc_common_socket_handler` takes through its loops is decided by the bytes that arrive
and by the results of the `switch`.  `reception` and `orderly` follow the bytes alone: they say
whether a call whose messages are dispatched without a failure stays clear of the label `__error`,
and does not go on with a handle that `IPC_SDK_MSG_UNREGISTER` has released.

Two rules turn facts about the hooks into facts about whole calls.  `Keeps.handlerRecv` is for
any events; `Obeys.handlerRecv` is for orderly ones, and asks less of the hooks.
-/

namespace LinuxC.Ipc

/-! ## The bytes of a call -/

/-- A block of zeros. -/
def blank : Mem := fun _ => 0

/-- What the loop over the buffer comes to, unless the `switch` fails. -/
inductive Reception
  /-- It leaves through `__error`, or goes on with a released handle. -/
  | unruly
  /-- The buffer is used up. -/
  | done
  /-- The last message is unfinished. -/
  | unfinished (buf : IpcBuf)

/-- The messages in the buffer, in their order; `gone` says that one of them was an
`IPC_SDK_MSG_UNREGISTER`.  Behind it only notifications do without the handle. -/
def reception : ℕ → Bool → IpcBuf → Reception
  | 0, _, _ => .done
  | fuel + 1, gone, buf =>
      let r := findMsg buf (some blank)
      match r.msg with
      | none => if gone || r.buf.full then .unruly else .unfinished r.buf
      | some p =>
          let id := (r.messageAt p).msgId
          if id = ipcSdkMsgConnect ∨ id = ipcSdkMsgRegister ∨
              (gone = true ∧ id ≠ ipcSdkMsgNotify) then .unruly
          else if r.buf.hasPending then
            reception fuel (gone || decide (id = ipcSdkMsgUnregister)) r.buf
          else .done

/-- The events of a call: no message without an end fills the buffer, no wait for the end of a
message times out, there is no `IPC_SDK_MSG_CONNECT` or `IPC_SDK_MSG_REGISTER` among the messages,
and nothing that needs the handle behind an `IPC_SDK_MSG_UNREGISTER`. -/
def orderly : List SockEvent → IpcBuf → Bool
  | [], _ => true
  | e :: es, buf =>
      if buf.window = 0 then true
      else
        match e with
        | .bytes bs =>
            if buf.Undeliverable bs then true
            else
              match reception ((buf.append bs).pending.length + 1) false (buf.append bs) with
              | .unruly => false
              | .done => true
              | .unfinished buf' =>
                  match es with
                  | .idle :: _ => false
                  | es' => orderly es' buf'
        | .err .eintr => orderly es buf
        | _ => true

/-! ## The clone does not matter -/

lemma length_readMsg (m : Mem) (a : ℕ) :
    (readMsg m a).length = ipcMsgHdrlen + dataLenAt m a := by
  simp [IpcMsg.length, IpcMsg.dataLen, readMsg]

lemma messageAt_handOut {buf : IpcBuf} {data : Mem} (h : friendly buf.data buf.head = some data)
    (c : Mem) {p : MsgPtr}
    (hp : (handOut { buf with data := data } (some c)
      (ipcMsgHdrlen + dataLenAt buf.data buf.head)).msg = some p) :
    (handOut { buf with data := data } (some c)
      (ipcMsgHdrlen + dataLenAt buf.data buf.head)).messageAt p =
      (readMsg buf.data buf.head).strip := by
  set f := readMsg buf.data buf.head with hf
  have hlen : ipcMsgHdrlen + dataLenAt buf.data buf.head = f.length := (length_readMsg _ _).symm
  have hread := read_eq_encode_readMsg buf.data buf.head
  rw [← hf] at hread
  have hfr : f.Friendly := by
    by_contra hnot
    rw [friendly_of_not_friendly hread hnot] at h
    exact absurd h (by simp)
  obtain ⟨data', hdata', hcontent, -⟩ := friendly_of_friendly hread hfr
  obtain rfl : data' = data := Option.some.inj (hdata'.symm.trans h)
  rw [hlen] at hp ⊢
  apply readMsg_of_read
  rw [f.length_strip]
  simp only [handOut] at hp ⊢
  split_ifs at hp ⊢
  · obtain rfl := Option.some.inj hp
    simp only [FindResult.deref, Option.getD_some]
    rw [Mem.read_write_self _ _ _ (by simp), hcontent]
  · obtain rfl := Option.some.inj hp
    exact hcontent

lemma findMsgLoop_clone (fuel : ℕ) (buf : IpcBuf) (c c' : Mem) :
    (findMsgLoop fuel buf (some c')).buf = (findMsgLoop fuel buf (some c)).buf ∧
      (findMsgLoop fuel buf (some c')).msg = (findMsgLoop fuel buf (some c)).msg ∧
      ∀ p, (findMsgLoop fuel buf (some c)).msg = some p →
        (findMsgLoop fuel buf (some c')).messageAt p =
          (findMsgLoop fuel buf (some c)).messageAt p := by
  induction fuel generalizing buf with
  | zero => exact ⟨rfl, rfl, fun p hp => absurd hp (by simp [findMsgLoop])⟩
  | succ fuel ih =>
      simp only [findMsgLoop]
      split_ifs with h1 h2 h3
      · exact ⟨rfl, rfl, by simp⟩
      · exact ⟨rfl, rfl, by simp⟩
      · exact ⟨rfl, rfl, by simp⟩
      · cases hfr : friendly buf.data buf.head with
        | none => exact ih _
        | some data =>
            simp only []
            have hmsg : ∀ d : Mem, (handOut { buf with data := data } (some d)
                (ipcMsgHdrlen + dataLenAt buf.data buf.head)).msg =
                if ipcMsgHdrlen + dataLenAt buf.data buf.head < buf.tail - buf.head ∨
                  buf.head ≠ 0 then some .clone else some (.inBuf buf.head) := by
              intro d
              simp only [handOut]
              split_ifs <;> rfl
            refine ⟨?_, by rw [hmsg, hmsg], fun p hp => ?_⟩
            · simp only [handOut]
              split_ifs <;> rfl
            · rw [messageAt_handOut hfr c hp, messageAt_handOut hfr c']
              rw [hmsg] at hp ⊢
              exact hp

/-- **`find_msg` does not look at the clone.** -/
lemma findMsg_clone (buf : IpcBuf) (c c' : Mem) :
    (findMsg buf (some c')).buf = (findMsg buf (some c)).buf ∧
      (findMsg buf (some c')).msg = (findMsg buf (some c)).msg ∧
      ∀ p, (findMsg buf (some c)).msg = some p →
        (findMsg buf (some c')).messageAt p = (findMsg buf (some c)).messageAt p :=
  findMsgLoop_clone _ buf c c'

lemma findMsgLoop_inBuf (fuel : ℕ) (buf : IpcBuf) (c : Mem) {off : ℕ}
    (h : (findMsgLoop fuel buf (some c)).msg = some (.inBuf off)) :
    (findMsgLoop fuel buf (some c)).buf.hasPending = false := by
  induction fuel generalizing buf with
  | zero => exact absurd h (by simp [findMsgLoop])
  | succ fuel ih =>
      simp only [findMsgLoop] at h ⊢
      split_ifs at h ⊢ with h1 h2 h3
      cases hfr : friendly buf.data buf.head with
      | none =>
          rw [hfr] at h
          exact ih _ h
      | some data =>
          rw [hfr] at h
          simp only [handOut] at h ⊢
          split_ifs at h ⊢ with hst
          · simp at h
          · simp only [IpcBuf.hasPending, decide_eq_false_iff_not]
            omega

lemma hasPending_inBuf {buf : IpcBuf} {c : Mem} {off : ℕ}
    (h : (findMsg buf (some c)).msg = some (.inBuf off)) :
    (findMsg buf (some c)).buf.hasPending = false :=
  findMsgLoop_inBuf _ buf c h

/-! ## Rules for the hooks -/

variable {σ : Type}

/-- The hooks lead from `P` to `Q` whatever is received: `P` holds while the handle lives. -/
structure Keeps (h : Hooks σ) (P Q : σ → Prop) : Prop where
  weaken : ∀ {s}, P s → Q s
  hangup : ∀ {s}, P s → Q (h.release (h.shutdown s))
  leave : ∀ {s}, P s → Q (h.release s)
  dispatch : ∀ {s} (m : Mem) (a : ℕ), P s →
    if (h.dispatch s m a).ok then P (h.dispatch s m a).state
    else Q (h.release (h.dispatch s m a).state)

/-- The hooks lead from `P` to `Q` if what is received is orderly. -/
structure Obeys (h : Hooks σ) (P Q : σ → Prop) : Prop where
  weaken : ∀ {s}, P s → Q s
  hangup : ∀ {s}, P s → Q (h.release (h.shutdown s))
  dispatch : ∀ {s} (m : Mem) (a : ℕ), P s → msgIdAt m a ≠ ipcSdkMsgConnect →
    msgIdAt m a ≠ ipcSdkMsgRegister → msgIdAt m a ≠ ipcSdkMsgUnregister →
    if (h.dispatch s m a).ok then P (h.dispatch s m a).state
    else Q (h.release (h.dispatch s m a).state)
  unregister : ∀ {s} (m : Mem) (a : ℕ), P s → msgIdAt m a = ipcSdkMsgUnregister →
    if (h.dispatch s m a).ok then Q (h.dispatch s m a).state
    else Q (h.release (h.dispatch s m a).state)
  notify : ∀ {s} (m : Mem) (a : ℕ), Q s → msgIdAt m a = ipcSdkMsgNotify →
    if (h.dispatch s m a).ok then Q (h.dispatch s m a).state
    else Q (h.release (h.dispatch s m a).state)

@[simp] lemma state_store (c : Conn σ) (r : FindResult) (p : MsgPtr) (a : Action σ) :
    (c.store r p a).state = a.state := by
  cases p <;> rfl

@[simp] lemma buf_store_clone (c : Conn σ) (r : FindResult) (a : Action σ) :
    (c.store r .clone a).buf = r.buf := rfl

lemma Keeps.drain {h : Hooks σ} {P Q : σ → Prop} (hk : Keeps h P Q) (fuel : ℕ) (c : Conn σ)
    (hc : P c.state) :
    if (drain h fuel c).2.2 = .error then Q (h.release (drain h fuel c).1.state)
    else P (drain h fuel c).1.state := by
  induction fuel generalizing c with
  | zero => exact hc
  | succ fuel ih =>
      simp only [Ipc.drain]
      cases hm : (findMsg c.buf (some c.clone)).msg with
      | none =>
          simp only []
          cases (findMsg c.buf (some c.clone)).buf.full with
          | false => simpa using hc
          | true => simpa using hk.leave hc
      | some p =>
          simp only []
          set r := findMsg c.buf (some c.clone)
          have hd := hk.dispatch (r.deref p).1 (r.deref p).2 hc
          set a := h.dispatch c.state (r.deref p).1 (r.deref p).2 with ha
          cases hok : a.ok with
          | false => simpa [hok] using hd
          | true =>
              rw [hok, if_pos rfl] at hd
              cases hpend : (c.store r p a).buf.hasPending with
              | false => simpa [hpend] using hd
              | true => simpa [hpend] using ih (c.store r p a) (by rwa [state_store])

lemma Keeps.handlerRecv {h : Hooks σ} {P Q : σ → Prop} (hk : Keeps h P Q) (es : List SockEvent)
    (c : Conn σ) (hc : P c.state) : Q (handlerRecv h es c).conn.state := by
  induction es generalizing c with
  | nil => exact hk.weaken hc
  | cons e es ih =>
      unfold Ipc.handlerRecv
      split_ifs with hwin
      · exact hk.hangup hc
      · cases e with
        | eof => exact hk.hangup hc
        | idle => exact hk.hangup hc
        | err e =>
            cases e with
            | eintr => exact ih c hc
            | econnreset => exact hk.hangup hc
            | eagain => exact hk.hangup hc
            | other => exact hk.hangup hc
        | bytes bs =>
            simp only []
            split_ifs with hill
            · exact hk.weaken hc
            · have hd := hk.drain ((c.buf.append bs).pending.length + 1)
                { c with buf := c.buf.append bs } hc
              generalize Ipc.drain h ((c.buf.append bs).pending.length + 1)
                { c with buf := c.buf.append bs } = d at hd
              obtain ⟨c₂, l, exit⟩ := d
              cases exit with
              | returned => exact hk.weaken hd
              | error => exact hd
              | wait =>
                  cases es with
                  | nil => exact ih c₂ hd
                  | cons e' es' =>
                      cases e' with
                      | idle => exact hk.leave hd
                      | bytes _ => exact ih c₂ hd
                      | eof => exact ih c₂ hd
                      | err _ => exact ih c₂ hd

/-- What a state has to satisfy while the messages of the buffer are dispatched: `P` with the
handle, `Q` once an `IPC_SDK_MSG_UNREGISTER` has released it. -/
def Alive (P Q : σ → Prop) (gone : Bool) (s : σ) : Prop := if gone then Q s else P s

lemma Obeys.message {h : Hooks σ} {P Q : σ → Prop} (ho : Obeys h P Q) {gone : Bool} {s : σ}
    (m : Mem) (a : ℕ) (hs : Alive P Q gone s)
    (hid : ¬ (msgIdAt m a = ipcSdkMsgConnect ∨ msgIdAt m a = ipcSdkMsgRegister ∨
      (gone = true ∧ msgIdAt m a ≠ ipcSdkMsgNotify))) :
    if (h.dispatch s m a).ok then
      Alive P Q (gone || decide (msgIdAt m a = ipcSdkMsgUnregister)) (h.dispatch s m a).state
    else Q (h.release (h.dispatch s m a).state) := by
  obtain ⟨hconn, hreg, hgone⟩ : msgIdAt m a ≠ ipcSdkMsgConnect ∧
      msgIdAt m a ≠ ipcSdkMsgRegister ∧ (gone = true → msgIdAt m a = ipcSdkMsgNotify) := by
    simpa only [not_or, not_and, not_not] using hid
  cases gone with
  | true => simpa [Alive] using ho.notify m a hs (hgone rfl)
  | false =>
      by_cases hun : msgIdAt m a = ipcSdkMsgUnregister
      · simpa [Alive, hun] using ho.unregister m a hs hun
      · simpa [Alive, hun] using ho.dispatch m a hs hconn hreg hun

lemma Obeys.drain {h : Hooks σ} {P Q : σ → Prop} (ho : Obeys h P Q) (fuel : ℕ) (gone : Bool)
    (c : Conn σ) (hc : Alive P Q gone c.state) (hr : reception fuel gone c.buf ≠ .unruly) :
    match (drain h fuel c).2.2 with
    | .returned => Q (drain h fuel c).1.state
    | .error => Q (h.release (drain h fuel c).1.state)
    | .wait => P (drain h fuel c).1.state ∧
        reception fuel gone c.buf = .unfinished (drain h fuel c).1.buf := by
  have hweak : ∀ {g s}, Alive P Q g s → Q s := by
    intro g s hs
    cases g with
    | true => exact hs
    | false => exact ho.weaken hs
  induction fuel generalizing gone c with
  | zero => exact hweak hc
  | succ fuel ih =>
      obtain ⟨hbuf, hmsg, hat⟩ := findMsg_clone c.buf blank c.clone
      simp only [Ipc.drain, reception] at hr ⊢
      rw [← hmsg, ← hbuf] at hr ⊢
      rw [← hmsg] at hat
      set r := findMsg c.buf (some c.clone) with hrdef
      cases hm : r.msg with
      | none =>
          simp only [hm] at hr ⊢
          cases gone with
          | true => simp at hr
          | false =>
              cases hfull : r.buf.full with
              | true => simp [hfull] at hr
              | false => exact ⟨hc, by simp⟩
      | some p =>
          simp only [hm] at hr ⊢
          rw [← hat p hm] at hr ⊢
          by_cases hid : (r.messageAt p).msgId = ipcSdkMsgConnect ∨
              (r.messageAt p).msgId = ipcSdkMsgRegister ∨
              (gone = true ∧ (r.messageAt p).msgId ≠ ipcSdkMsgNotify)
          · rw [if_pos hid] at hr
            exact absurd rfl hr
          · rw [if_neg hid] at hr ⊢
            have hd := ho.message (r.deref p).1 (r.deref p).2 hc hid
            set a := h.dispatch c.state (r.deref p).1 (r.deref p).2 with ha
            cases hok : a.ok with
            | false => simpa [hok] using hd
            | true =>
                rw [hok, if_pos rfl] at hd
                -- the store changes the buffer only behind its last message
                cases p with
                | inBuf off =>
                    have hnot : (c.store r (.inBuf off) a).buf.hasPending = false :=
                      hasPending_inBuf hm
                    simpa [hnot] using hweak hd
                | clone =>
                    cases hpend : r.buf.hasPending with
                    | false => simpa [hpend] using hweak hd
                    | true =>
                        rw [hpend] at hr
                        simpa [hpend] using ih _ (c.store r .clone a) (by rwa [state_store]) hr

lemma Obeys.handlerRecv {h : Hooks σ} {P Q : σ → Prop} (ho : Obeys h P Q) (es : List SockEvent)
    (c : Conn σ) (hc : P c.state) (hes : orderly es c.buf = true) :
    Q (handlerRecv h es c).conn.state := by
  induction es generalizing c with
  | nil => exact ho.weaken hc
  | cons e es ih =>
      unfold Ipc.handlerRecv
      unfold orderly at hes
      split_ifs at hes ⊢ with hwin
      · exact ho.hangup hc
      · cases e with
        | eof => exact ho.hangup hc
        | idle => exact ho.hangup hc
        | err e =>
            cases e with
            | eintr => exact ih c hc hes
            | econnreset => exact ho.hangup hc
            | eagain => exact ho.hangup hc
            | other => exact ho.hangup hc
        | bytes bs =>
            simp only [] at hes ⊢
            split_ifs at hes ⊢ with hill
            · exact ho.weaken hc
            · have hr : reception ((c.buf.append bs).pending.length + 1) false
                  (c.buf.append bs) ≠ .unruly := by
                intro hun
                rw [hun] at hes
                exact absurd hes (by simp)
              have hd := ho.drain ((c.buf.append bs).pending.length + 1) false
                { c with buf := c.buf.append bs } hc hr
              generalize Ipc.drain h ((c.buf.append bs).pending.length + 1)
                { c with buf := c.buf.append bs } = d at hd
              obtain ⟨c₂, l, exit⟩ := d
              cases exit with
              | returned => exact hd
              | error => exact hd
              | wait =>
                  obtain ⟨hP, hbuf⟩ := hd
                  rw [hbuf] at hes
                  cases es with
                  | nil => exact ih c₂ hP hes
                  | cons e' es' =>
                      cases e' with
                      | idle => exact absurd hes (by simp)
                      | bytes _ => exact ih c₂ hP hes
                      | eof => exact ih c₂ hP hes
                      | err _ => exact ih c₂ hP hes

/-! ## The log of the dispatched messages -/

/-- The connection after a sequence of calls. -/
def lastConn (c : Conn σ) (calls : List (Call σ)) : Conn σ := (calls.map Call.conn).getLastD c

@[simp] lemma lastConn_nil (c : Conn σ) : lastConn c [] = c := rfl

@[simp] lemma lastConn_cons (c : Conn σ) (r : Call σ) (rs : List (Call σ)) :
    lastConn c (r :: rs) = lastConn r.conn rs := by
  rw [lastConn, List.map_cons, List.getLastD_cons]
  rfl

/-- The hooks keep a relation between the state and the messages dispatched so far. -/
structure Tracks (h : Hooks σ) (R : σ → List IpcMsg → Prop) : Prop where
  shutdown : ∀ {s l}, R s l → R (h.shutdown s) l
  release : ∀ {s l}, R s l → R (h.release s) l
  dispatch : ∀ {s l} (m : Mem) (a : ℕ), R s l →
    R (h.dispatch s m a).state (l ++ [readMsg m a])

lemma Tracks.drain {h : Hooks σ} {R : σ → List IpcMsg → Prop} (ht : Tracks h R) (fuel : ℕ)
    (c : Conn σ) {l : List IpcMsg} (hc : R c.state l) :
    R (drain h fuel c).1.state (l ++ (drain h fuel c).2.1) := by
  induction fuel generalizing c l with
  | zero => simpa [Ipc.drain] using hc
  | succ fuel ih =>
      simp only [Ipc.drain]
      cases hm : (findMsg c.buf (some c.clone)).msg with
      | none => simpa using hc
      | some p =>
          simp only []
          set r := findMsg c.buf (some c.clone)
          set a := h.dispatch c.state (r.deref p).1 (r.deref p).2 with ha
          have hd : R (c.store r p a).state (l ++ [r.messageAt p]) := by
            rw [state_store]
            exact ht.dispatch (r.deref p).1 (r.deref p).2 hc
          cases hok : a.ok with
          | false => simpa using hd
          | true =>
              cases hpend : (c.store r p a).buf.hasPending with
              | false => simpa [hpend] using hd
              | true =>
                  have hrest := ih (c.store r p a) hd
                  rw [List.append_assoc] at hrest
                  simpa [hpend] using hrest

lemma Tracks.hangup {h : Hooks σ} {R : σ → List IpcMsg → Prop} (ht : Tracks h R) {c : Conn σ}
    {l : List IpcMsg} (hc : R c.state l) (es : List SockEvent) :
    R (Ipc.hangup h c es).conn.state (l ++ (Ipc.hangup h c es).dispatched) := by
  show R (h.release (h.shutdown c.state)) (l ++ [])
  rw [List.append_nil]
  exact ht.release (ht.shutdown hc)

lemma Tracks.handlerRecv {h : Hooks σ} {R : σ → List IpcMsg → Prop} (ht : Tracks h R)
    (es : List SockEvent) (c : Conn σ) {l : List IpcMsg} (hc : R c.state l) :
    R (handlerRecv h es c).conn.state (l ++ (handlerRecv h es c).dispatched) := by
  have hsame : R c.state (l ++ []) := by rwa [List.append_nil]
  induction es generalizing c l with
  | nil => exact hsame
  | cons e es ih =>
      unfold Ipc.handlerRecv
      split_ifs with hwin
      · exact ht.hangup hc _
      · cases e with
        | eof => exact ht.hangup hc _
        | idle => exact ht.hangup hc _
        | err e =>
            cases e with
            | eintr => exact ih c hc hsame
            | econnreset => exact ht.hangup hc _
            | eagain => exact ht.hangup hc _
            | other => exact ht.hangup hc _
        | bytes bs =>
            simp only []
            split_ifs with hill
            · exact hsame
            · have hd := ht.drain ((c.buf.append bs).pending.length + 1)
                { c with buf := c.buf.append bs } hc
              generalize Ipc.drain h ((c.buf.append bs).pending.length + 1)
                { c with buf := c.buf.append bs } = d at hd
              obtain ⟨c₂, l₂, exit⟩ := d
              have hmore : ∀ es', es' = es → R (Ipc.handlerRecv h es' c₂).conn.state
                  (l ++ (l₂ ++ (Ipc.handlerRecv h es' c₂).dispatched)) := by
                rintro es' rfl
                rw [← List.append_assoc]
                exact ih c₂ hd (by rwa [List.append_nil])
              cases exit with
              | returned => exact hd
              | error => exact ht.release hd
              | wait =>
                  cases es with
                  | nil => exact hmore [] rfl
                  | cons e' es' =>
                      cases e' with
                      | idle => exact ht.release hd
                      | bytes _ => exact hmore _ rfl
                      | eof => exact hmore _ rfl
                      | err _ => exact hmore _ rfl

/-- **The rule for the calls that serve a socket.** -/
lemma Tracks.serve {h : Hooks σ} {R : σ → List IpcMsg → Prop} (ht : Tracks h R) (fuel : ℕ)
    (es : List SockEvent) (c : Conn σ) {l : List IpcMsg} (hc : R c.state l) :
    R (lastConn c (serve h fuel es c)).state (l ++ (serve h fuel es c).flatMap Call.dispatched) := by
  induction fuel generalizing es c l with
  | zero => simpa [Ipc.serve] using hc
  | succ fuel ih =>
      cases es with
      | nil => simpa [Ipc.serve] using hc
      | cons e es =>
          have hr := ht.handlerRecv (e :: es) { c with buf := c.buf.reset } hc
          rw [Ipc.serve, lastConn_cons, List.flatMap_cons, ← List.append_assoc]
          by_cases hret : (ipcCommonSocketHandler h (e :: es) c).exit = .returned
          · rw [if_pos hret]
            exact ih _ _ hr
          · rw [if_neg hret, lastConn_nil, List.flatMap_nil, List.append_nil]
            exact hr

end LinuxC.Ipc
