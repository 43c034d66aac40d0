import LinuxC.Ipc.Client
import LinuxC.Ipc.Handshake

/-!
# The buffer of a subscriber over its connections (`ipc/ipc_client.c`)

A subscriber connects to its server when it is registered, and again whenever it has lost the
connection.  Each time the server answers with the size of its own buffer, and
`ipc_subscriber_connect` allocates the buffer of the subscriber if there is none yet.  So it is the
answer of the first server that the size is made of, and the later ones are read and forgotten.

`subscriberStep` is the life of a subscriber with its calls of `ipc_subscriber_connect`, and it shows
what each call that returned 0 has negotiated.  `negotiated_iff` says for which answers the buffer is
large enough after each of them, and `connect_of_reply` what a server of the same code answers.
-/

namespace LinuxC.Ipc

/-! ## A subscriber -/

inductive SubscriberPhase
  /-- `ipc_subscriber_create` is about to connect. -/
  | created
  /-- `ipc_subscriber_task` runs. -/
  | running
  | freed
  deriving DecidableEq

/-- `struct ipc_subscriber`. -/
structure Subscriber where
  client : IpcClient
  mask : UInt64
  data : List UInt8
  /-- `subscriber->buf->size`, if there is a buffer. -/
  buf : Option ℕ
  phase : SubscriberPhase

/-- What happens while `ipc_subscriber_connect` runs. -/
structure SubscribeEnv where
  /-- `ipc_alloc_msg` succeeds. -/
  memory : Bool
  /-- The content of the buffer for the message. -/
  buffer : Mem
  dial : DialEnv
  request : RequestEnv
  /-- The `malloc` of `alloc_buf` succeeds. -/
  alloc : Bool
  /-- The socket that the server has for the subscriber. -/
  sock : ℕ
  /-- The size that the buffer of the server's core was allocated with. -/
  coreBuf : ℕ

/-- What the two parties bring to the registration. -/
def Subscriber.registration (s : Subscriber) (env : SubscribeEnv) : Registration where
  identity := s.client.identity
  mask := s.mask
  data := s.data
  buffer := env.buffer
  kept := s.buf
  alloc := env.alloc
  sock := env.sock
  coreBuf := env.coreBuf

def ipcClientClose (client : IpcClient) : IpcClient :=
  if 0 < client.sock then { client with state := .disconnected, sock := -1 } else client

/-- What a call of `ipc_subscriber_connect` that returned 0 has come to. -/
structure Negotiated where
  /-- `neg->buf_size`. -/
  bufSize : ℕ
  /-- `subscriber->buf->size` when the call returns. -/
  size : ℕ
  deriving DecidableEq

/-- The label `__error`. -/
def Subscriber.giveUp (s : Subscriber) (client : IpcClient) : Subscriber × Option Negotiated :=
  ({ s with client := ipcClientClose client }, none)

/-- `ipc_subscriber_connect`: nothing if the events do not let it return. -/
def ipcSubscriberConnectCall (env : SubscribeEnv) (s : Subscriber) :
    Option (Subscriber × Option Negotiated) :=
  let g := s.registration env
  -- a message that does not fit the stack buffer is allocated
  if 1024 < ipcMsgHdrlen + g.regSize ∧ env.memory = false then some (s, none)
  else
    match ipcConnect env.dial { s.client with state := .connecting } with
    | none => none
    | some (client, false) => some (s.giveUp client)
    | some (client, true) =>
        (ipcRequestCall client.identity g.registerMsg g.sbuf ipcMsgSdkTimeout env.request).map
          fun r =>
            if r.code ≠ .success then s.giveUp client
            else
              match ipcSubscriberNegotiate g r.msg with
              | .connected size =>
                  ({ s with client := { client with state := .connected }, buf := some size },
                    some ⟨leNat (r.msg.read ipcMsgHdrlen 4), size⟩)
              | _ => s.giveUp client

inductive SubscriberLabel
  /-- `ipc_subscriber_create` connects. -/
  | register (env : SubscribeEnv)
  /-- `ipc_subscriber_repair`. -/
  | repair (env : SubscribeEnv)

/-- The calls of `ipc_subscriber_connect` in the life of a subscriber, with what they negotiate. -/
def subscriberStep (s : Subscriber) : SubscriberLabel → Option (Subscriber × List Negotiated)
  | .register env =>
      if s.phase = .created then
        (ipcSubscriberConnectCall env s).map fun
          | (s', some e) => ({ s' with phase := .running }, [e])
          | (s', none) => ({ s' with phase := .freed }, [])
      else none
  | .repair env =>
      if s.phase = .running then
        (ipcSubscriberConnectCall env { s with client := ipcClientClose s.client }).map fun r =>
          (r.1, r.2.toList)
      else none

/-- A subscriber that has not connected yet. -/
def startSubscriber (client : IpcClient) (mask : UInt64) (data : List UInt8) : Subscriber :=
  ⟨client, mask, data, none, .created⟩

/-! ## A call -/

lemma negotiate_connected {g : Registration} {m : Mem} {size : ℕ}
    (h : ipcSubscriberNegotiate g m = .connected size) :
    size = g.kept.getD (allocBuf (leNat (m.read ipcMsgHdrlen 4))) := by
  have hid : msgIdAt m 0 = ipcSdkMsgSuccess := by
    by_contra hid
    rw [ipcSubscriberNegotiate, if_pos hid] at h
    exact absurd h (by simp)
  rw [negotiate_eq g hid] at h
  split_ifs at h
  exact (Subscribing.connected.inj h).symm

/-- **What a call leaves**: the buffer that was there, or one of the size that `alloc_buf` makes of
the answer. -/
lemma connect_cases {env : SubscribeEnv} {s s' : Subscriber} {e : Option Negotiated}
    (h : ipcSubscriberConnectCall env s = some (s', e)) :
    s'.phase = s.phase ∧
      ((e = none ∧ s'.buf = s.buf) ∨
        ∃ e', e = some e' ∧ s'.buf = some e'.size ∧
          e'.size = s.buf.getD (allocBuf e'.bufSize) ∧ e'.bufSize < 2 ^ 32) := by
  have hgive : ∀ client, s.giveUp client = (s', e) →
      s'.phase = s.phase ∧ e = none ∧ s'.buf = s.buf := by
    intro client hc
    obtain ⟨rfl, rfl⟩ := Prod.mk.inj hc
    exact ⟨rfl, rfl, rfl⟩
  rw [ipcSubscriberConnectCall] at h
  split_ifs at h
  · obtain ⟨rfl, rfl⟩ := Prod.mk.inj (Option.some.inj h)
    exact ⟨rfl, .inl ⟨rfl, rfl⟩⟩
  · split at h
    · exact absurd h (by simp)
    · exact (hgive _ (Option.some.inj h)).imp_right .inl
    · obtain ⟨r, -, hr⟩ := Option.map_eq_some_iff.mp h
      split_ifs at hr
      · exact (hgive _ hr).imp_right .inl
      · split at hr
        · rename_i hneg
          obtain ⟨rfl, rfl⟩ := Prod.mk.inj hr
          refine ⟨rfl, .inr ⟨_, rfl, rfl, negotiate_connected hneg, ?_⟩⟩
          exact lt_of_lt_of_eq (leNat_lt (r.msg.read ipcMsgHdrlen 4)) (by rw [Mem.length_read]; rfl)
        · exact (hgive _ hr).imp_right .inl

lemma flagsAt_registerMsg (g : Registration) : flagsAt g.registerMsg 0 = ipcFlagReply := by
  have hread : g.registerMsg.read (0 + 8) 2 = toLE 2 ipcFlagReply.toNat := by
    rw [Registration.registerMsg, Mem.read_write_below _ _ (by decide),
      Mem.read_write_below _ _ (by decide), Mem.read_write_below _ _ (by decide),
      Mem.read_write_below _ _ (by decide), Mem.read_write_self _ _ _ (by simp)]
  rw [flagsAt, hread]
  decide

/-- **The answer of a server** that registers the subscriber is the size of its own buffer. -/
lemma connect_of_reply {env : SubscribeEnv} {s : Subscriber} (hmemory : env.memory = true)
    (hdial : env.dial.Connects) (hsent : env.request.sent = true) (halloc : env.alloc = true)
    {msg : IpcMsg} {chunks : List (List UInt8)} (hne : ∀ b ∈ chunks, b ≠ [])
    (hevents : env.request.events = chunks.map .bytes)
    (hw : chunks.flatten = (registerSuccess (s.registration env).bufSize msg).encode) :
    ∃ s', ipcSubscriberConnectCall env s =
      some (s', some ⟨allocBuf env.coreBuf, s.buf.getD (allocBuf (allocBuf env.coreBuf))⟩) := by
  have hlen : (registerSuccess (s.registration env).bufSize msg).length ≤
      (s.registration env).sbuf := by
    rw [length_registerSuccess]
    exact le_trans (by decide) (s.registration env).le_sbuf
  have hfriendly : (registerSuccess (s.registration env).bufSize msg).Friendly := by
    show (ipcSdkMsgSuccess ||| ipcMsgToken) &&& ipcMsgTokenMask = ipcMsgToken
    decide
  obtain ⟨sock, hconn⟩ := ipcConnect_of_connects hdial
  have htmo : 0 ≤ ipcMsgSdkTimeout := by decide
  obtain ⟨n, m', hrecv, hm⟩ := recvMsg_frame hfriendly hlen htmo hne hw
    (sendMsg (requestHeader s.client.identity (s.registration env).registerMsg) 0)
  obtain ⟨hid, hsize⟩ := answer_of_success (s.registration env) hm
  have hneg : ipcSubscriberNegotiate (s.registration env) m' =
      .connected (s.buf.getD (allocBuf (allocBuf env.coreBuf))) := by
    have halloc' : (s.registration env).alloc = true := halloc
    rw [negotiate_eq _ hid, hsize, if_neg (by simp [halloc'])]
    rfl
  have hcall : ipcRequestCall s.client.identity (s.registration env).registerMsg
      (s.registration env).sbuf ipcMsgSdkTimeout env.request = some ⟨.success, m',
        some (readMsg (sendMsg (requestHeader s.client.identity
          (s.registration env).registerMsg) 0) 0)⟩ := by
    simp only [ipcRequestCall]
    rw [hsent, if_neg (by simp), if_pos ?_, hevents, hrecv]
    · rfl
    · rw [reply_request, flagsAt_registerMsg]
      decide
  refine ⟨{ s with
    client := { s.client with state := .connected, sock := sock }
    buf := some (s.buf.getD (allocBuf (allocBuf env.coreBuf))) }, ?_⟩
  simp only [ipcSubscriberConnectCall]
  rw [if_neg (by simp [hmemory]), hconn]
  dsimp only
  rw [hcall, Option.map_some, if_neg (by simp), hneg, hsize]
  rfl

/-! ## All connections -/

lemma step_running {s s' : Subscriber} {size : ℕ} (hphase : s.phase = .running)
    (hbuf : s.buf = some size) {l : SubscriberLabel} {es : List Negotiated}
    (hstep : subscriberStep s l = some (s', es)) :
    (s'.phase = .running ∧ s'.buf = some size) ∧ ∀ e ∈ es, e.size = size ∧ e.bufSize < 2 ^ 32 := by
  cases l with
  | register env =>
      rw [subscriberStep, if_neg (by simp [hphase])] at hstep
      exact absurd hstep (by simp)
  | repair env =>
      rw [subscriberStep, if_pos hphase] at hstep
      obtain ⟨⟨t, e⟩, hcall, heq⟩ := Option.map_eq_some_iff.mp hstep
      obtain ⟨rfl, rfl⟩ := Prod.mk.inj heq
      obtain ⟨ht, ⟨rfl, hkept⟩ | ⟨e', rfl, hkept, hsize, hlt⟩⟩ := connect_cases hcall
      · exact ⟨⟨ht.trans hphase, hkept.trans hbuf⟩, by simp⟩
      · have he : e'.size = size := hsize.trans (by rw [hbuf]; rfl)
        refine ⟨⟨ht.trans hphase, by rw [hkept, he]⟩, ?_⟩
        simp only [Option.toList_some, List.mem_singleton, forall_eq]
        exact ⟨he, hlt⟩

lemma run_running {s s' : Subscriber} {size : ℕ} (hphase : s.phase = .running)
    (hbuf : s.buf = some size) {ls : List SubscriberLabel} {es : List Negotiated}
    (hrun : run subscriberStep ls s = some (s', es)) :
    ∀ e ∈ es, e.size = size ∧ e.bufSize < 2 ^ 32 := by
  have hok : Along subscriberStep (fun _ _ => True) ls s := along_of_forall (fun _ _ => trivial) _
  exact (run_safe (I := fun s => s.phase = .running ∧ s.buf = some size)
    (fun hs _ hstep => step_running hs.1 hs.2 hstep) ⟨hphase, hbuf⟩ hok hrun).2

lemma run_freed {s s' : Subscriber} (hphase : s.phase = .freed) {ls : List SubscriberLabel}
    {es : List Negotiated} (hrun : run subscriberStep ls s = some (s', es)) : es = [] := by
  cases ls with
  | nil =>
      obtain ⟨-, rfl⟩ := Prod.mk.inj (Option.some.inj hrun)
      rfl
  | cons l ls =>
      obtain ⟨s₁, es₁, es₂, hstep, -, -⟩ := run_cons.mp hrun
      cases l <;> exact absurd hstep (by simp [subscriberStep, hphase])

/-- **The first answer.**  The buffer is allocated for it, and stays. -/
lemma run_created {client : IpcClient} {mask : UInt64} {data : List UInt8}
    {ls : List SubscriberLabel} {s : Subscriber} {es : List Negotiated}
    (hrun : run subscriberStep ls (startSubscriber client mask data) = some (s, es)) :
    ∀ e₁ ∈ es.head?, ∀ e ∈ es, e.size = allocBuf e₁.bufSize ∧ e.bufSize < 2 ^ 32 := by
  cases ls with
  | nil =>
      obtain ⟨-, rfl⟩ := Prod.mk.inj (Option.some.inj hrun)
      simp
  | cons l ls =>
      obtain ⟨s₁, es₁, es₂, hstep, hrest, rfl⟩ := run_cons.mp hrun
      cases l with
      | repair env => exact absurd hstep (by simp [subscriberStep, startSubscriber])
      | register env =>
          have hcreated : (startSubscriber client mask data).phase = .created := rfl
          rw [subscriberStep, if_pos hcreated] at hstep
          obtain ⟨⟨t, e⟩, hcall, heq⟩ := Option.map_eq_some_iff.mp hstep
          obtain ⟨-, ⟨rfl, -⟩ | ⟨e', rfl, hbuf, hsize, hlt⟩⟩ := connect_cases hcall
          · obtain ⟨rfl, rfl⟩ := Prod.mk.inj heq
            simp [run_freed (s := { t with phase := .freed }) rfl hrest]
          · obtain ⟨rfl, rfl⟩ := Prod.mk.inj heq
            have hall := run_running (s := { t with phase := .running }) rfl hbuf hrest
            rintro e₁ he₁ e he
            obtain rfl : e' = e₁ := Option.some.inj he₁
            rcases List.mem_cons.mp he with rfl | he
            · exact ⟨hsize, hlt⟩
            · rw [show allocBuf e'.bufSize = e'.size from hsize.symm]
              exact hall e he

/-! ## The size -/

lemma allocBuf_eq {n : ℕ} (h : n + 15 < 2 ^ 32) : allocBuf n = (n + 15) / 4 * 4 := by
  have hmod : (n + ipcMsgHdrlen) % 2 ^ 32 = n + ipcMsgHdrlen :=
    Nat.mod_eq_of_lt (by simp only [ipcMsgHdrlen]; omega)
  simp only [allocBuf, hmod]
  by_cases halign : (n + ipcMsgHdrlen) % 4 ≠ 0
  · rw [if_pos halign]
    simp only [ipcMsgHdrlen] at halign ⊢
    omega
  · rw [if_neg halign]
    simp only [ipcMsgHdrlen] at halign ⊢
    omega

lemma allocBuf_lt_self {n : ℕ} (hn : n < 2 ^ 32) (h : ¬ n + 15 < 2 ^ 32) : allocBuf n < n := by
  have hhdr : ipcMsgHdrlen = 12 := rfl
  simp only [allocBuf]
  split_ifs
  · omega
  · omega

/-- **When the negotiated size is honoured.**  After every call of `ipc_subscriber_connect` that
returned 0 the buffer has the size that the server has answered, in the whole life of a subscriber,
exactly when the first answer does not wrap in `alloc_buf` and no later one is above the size that
the first one was rounded up to. -/
theorem negotiated_iff (client : IpcClient) (mask : UInt64) (data : List UInt8)
    (ls : List SubscriberLabel) (s : Subscriber) (es : List Negotiated)
    (hrun : run subscriberStep ls (startSubscriber client mask data) = some (s, es)) :
    (∀ e ∈ es, e.bufSize ≤ e.size) ↔
      ∀ e₁ ∈ es.head?, e₁.bufSize + 15 < 2 ^ 32 ∧
        ∀ e ∈ es, e.bufSize ≤ (e₁.bufSize + 15) / 4 * 4 := by
  have hall := run_created hrun
  cases es with
  | nil => simp
  | cons e₁ es =>
      have hsize := hall e₁ rfl
      obtain ⟨hfirst, hlt⟩ := hsize e₁ (List.mem_cons_self ..)
      constructor
      · intro h e₁' he₁'
        obtain rfl : e₁ = e₁' := Option.some.inj he₁'
        have hwrap : e₁.bufSize + 15 < 2 ^ 32 := by
          by_contra hwrap
          have hle := h e₁ (List.mem_cons_self ..)
          rw [hfirst] at hle
          exact absurd (allocBuf_lt_self hlt hwrap) (Nat.not_lt_of_le hle)
        refine ⟨hwrap, fun e he => ?_⟩
        rw [← allocBuf_eq hwrap, ← (hsize e he).1]
        exact h e he
      · intro h e he
        obtain ⟨hwrap, hle⟩ := h e₁ rfl
        rw [(hsize e he).1, allocBuf_eq hwrap]
        exact hle e he

/-- A server whose core has a buffer for `coreBuf` bytes answers. -/
def answeredBy (coreBuf : ℕ) : SubscribeEnv where
  memory := true
  buffer := fun _ => 0
  dial := ⟨some 5, true, [.ok]⟩
  request := ⟨true,
    [.bytes (registerSuccess (allocBuf coreBuf) ⟨41, 0, 1, [], length_nil_lt⟩).encode]⟩
  alloc := true
  sock := 9
  coreBuf := coreBuf

/-- The second server has the smaller buffer. -/
theorem negotiated_iff_sample :
    ∃ s es, run subscriberStep [.register (answeredBy 8192), .repair (answeredBy 100)]
        (startSubscriber sampleHandle 1 []) = some (s, es) ∧ es.length = 2 ∧
      ∀ e ∈ es, e.bufSize ≤ e.size := by
  have hend : (run subscriberStep [.register (answeredBy 8192), .repair (answeredBy 100)]
      (startSubscriber sampleHandle 1 [])).map Prod.snd = some [⟨8204, 8216⟩, ⟨112, 8216⟩] := by
    decide +kernel
  obtain ⟨⟨s, es⟩, hrun, hes⟩ := Option.map_eq_some_iff.mp hend
  obtain rfl : es = _ := hes
  exact ⟨s, _, hrun, rfl, (negotiated_iff sampleHandle 1 [] _ s _ hrun).mpr (by decide)⟩

/-- **A later answer is not honoured.**  The first server has a buffer for 100 bytes and the second
one for 8192: the subscriber is told 8204 and goes on with 124 bytes. -/
theorem negotiated_once :
    ¬ ∀ (client : IpcClient) (mask : UInt64) (data : List UInt8) (ls : List SubscriberLabel)
        (s : Subscriber) (es : List Negotiated),
      run subscriberStep ls (startSubscriber client mask data) = some (s, es) →
        ∀ e ∈ es, e.bufSize ≤ e.size := by
  intro hall
  have hend : (run subscriberStep [.register (answeredBy 100), .repair (answeredBy 8192)]
      (startSubscriber sampleHandle 1 [])).map Prod.snd = some [⟨112, 124⟩, ⟨8204, 124⟩] := by
    decide +kernel
  obtain ⟨⟨s, es⟩, hrun, hes⟩ := Option.map_eq_some_iff.mp hend
  obtain rfl : es = _ := hes
  exact absurd (hall _ _ _ _ s _ hrun ⟨8204, 124⟩ (by simp)) (by decide)

end LinuxC.Ipc
