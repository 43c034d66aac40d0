import LinuxC.Ipc.SocketHandler

/-!
# Messages without the token in the server's loop

`find_msg` skips a message without the token and goes on behind it.  When nothing is behind it,
`find_msg` returns NULL, as it does for an unfinished message, and `ipc_common_socket_handler` takes
it for one: it leaves through `__error` if the buffer is full, and otherwise waits half a second for
the rest of a message that is not there.

What a call of the handler comes to is decided by lengths alone.  `advance` says where the bytes
received end: behind a message with the token, behind one without, or inside a message.  `tolerated`
follows a burst of the stream, chunk by chunk, with the place `tail` in the buffer up to which the
call in progress has received (0 between two calls).
-/

namespace LinuxC.Ipc

/-! ## Bursts -/

/-- A part of a stream that arrives without a pause in which `recv_wait` times out: whole messages,
cut into chunks. -/
structure Burst where
  frames : List IpcMsg
  chunks : List (List UInt8)
  bytes : chunks.flatten = wire frames
  nonempty : ∀ b ∈ chunks, b ≠ []

/-- The events of the socket: nothing arrives for a while behind each burst. -/
def burstEvents (bursts : List Burst) : List SockEvent :=
  bursts.flatMap fun b => b.chunks.map .bytes ++ [.idle]

/-- Where a number of bytes of a stream ends. -/
inductive Ending
  /-- Behind a message with the token. -/
  | friendly
  /-- Behind a message without the token. -/
  | unfriendly
  /-- So many bytes of the next message are there. -/
  | inside (part : ℕ)
  deriving DecidableEq

/-- The first `n` bytes of a stream: the messages that do not end in them, and where they end. -/
def advance : List IpcMsg → ℕ → List IpcMsg × Ending
  | [], _ => ([], .friendly)
  | f :: fs, n =>
      if n < f.length then (f :: fs, .inside n)
      else if n = f.length then (fs, if f.Friendly then .friendly else .unfriendly)
      else advance fs (n - f.length)

/-- The handler copes with the chunks of a burst in a buffer of size `S`: each time the bytes
received end behind a message without the token, the buffer is not full and more of the burst
follows. -/
def tolerated (S : ℕ) : List (List UInt8) → List IpcMsg → ℕ → ℕ → Bool
  | [], _, _, tail => tail = 0
  | b :: bs, frames, part, tail =>
      match advance frames (part + b.length) with
      | (rem, .friendly) => tolerated S bs rem 0 0
      | (rem, .unfriendly) => tail + b.length < S && tolerated S bs rem 0 (tail + b.length)
      | (rem, .inside part') =>
          -- an unfinished message in a full buffer is moved to the front
          tolerated S bs rem part' (if tail + b.length = S then part' else tail + b.length)

/-- The handler copes with the burst. -/
def Burst.Tolerated (S : ℕ) (b : Burst) : Prop := tolerated S b.chunks b.frames 0 0 = true

instance (S : ℕ) (b : Burst) : Decidable (b.Tolerated S) := inferInstanceAs (Decidable (_ = _))

variable {σ : Type}

/-- The calls that serve a socket which may fall silent: the handler is called only when there is
something to receive. -/
def serveReady (h : Hooks σ) : ℕ → List SockEvent → Conn σ → List (Call σ)
  | 0, _, _ => []
  | _ + 1, [], _ => []
  | fuel + 1, .idle :: es, c => serveReady h fuel es c
  | fuel + 1, e :: es, c =>
      let r := ipcCommonSocketHandler h (e :: es) c
      r :: if r.exit = .returned then serveReady h fuel r.events r.conn else []

/-- The messages with the token, without it. -/
def friendlyOnly (frames : List IpcMsg) : List IpcMsg :=
  (frames.filter fun f => decide f.Friendly).map IpcMsg.strip

@[simp] lemma friendlyOnly_nil : friendlyOnly [] = [] := rfl

lemma friendlyOnly_append (fs gs : List IpcMsg) :
    friendlyOnly (fs ++ gs) = friendlyOnly fs ++ friendlyOnly gs := by
  simp [friendlyOnly]

lemma friendlyOnly_cons_pos {f : IpcMsg} (hf : f.Friendly) (fs : List IpcMsg) :
    friendlyOnly (f :: fs) = f.strip :: friendlyOnly fs := by
  simp [friendlyOnly, hf]

lemma friendlyOnly_cons_neg {f : IpcMsg} (hf : ¬ f.Friendly) (fs : List IpcMsg) :
    friendlyOnly (f :: fs) = friendlyOnly fs := by
  simp [friendlyOnly, hf]

/-! ## One loop over the buffer -/

/-- What a loop over the buffer comes to, by the place where the bytes received end. -/
def DrainEnd (S tail : ℕ) (d : Conn σ × List IpcMsg × DrainExit) : Ending → Prop
  | .friendly => d.2.2 = .returned ∧ d.1.buf.pending = []
  | .unfriendly => d.2.2 = (if tail < S then .wait else .error) ∧ d.1.buf.pending = [] ∧
      d.1.buf.tail = tail
  | .inside part => d.2.2 = .wait ∧ d.1.buf.pending.length = part ∧ d.1.buf.full = false ∧
      d.1.buf.tail = if tail = S then part else tail

lemma drain_skip (h : Hooks σ) (fuel : ℕ) {c : Conn σ} {f : IpcMsg} {rest : List UInt8}
    (hrest : c.buf.pending = f.encode ++ rest) (hf : ¬ f.Friendly) :
    drain h (fuel + 1) c =
      drain h (fuel + 1) { c with buf := { c.buf with head := c.buf.head + f.length } } := by
  simp only [drain, findMsg_unfriendly (some c.clone) hrest hf]
  rfl

lemma drain_empty (h : Hooks σ) (fuel : ℕ) {c : Conn σ} (hmt : c.buf.pending = []) :
    drain h (fuel + 1) c = (c, [], if c.buf.full then .error else .wait) := by
  simp only [drain, findMsg_empty (some c.clone) hmt]

lemma tail_moveFront {S : ℕ} {buf : IpcBuf} (hok : buf.Ok) (hsize : buf.size = S)
    (hroom : buf.pending.length < S) :
    (moveFront buf).tail = if buf.tail = S then buf.pending.length else buf.tail := by
  have htail := hok.tail_le
  rw [IpcBuf.length_pending] at hroom ⊢
  simp only [moveFront, IpcBuf.full, decide_eq_true_eq]
  by_cases hfull : buf.tail = S
  · rw [if_pos hfull, if_pos ⟨by omega, by omega⟩]
  · rw [if_neg hfull, if_neg (by omega)]

/-- **The loop over the buffer**, on any stream of messages that fit it. -/
lemma drain_stream (h : Hooks σ) (hok : ∀ s m a, (h.dispatch s m a).ok = true) {S : ℕ}
    {more : List UInt8} (frames : List IpcMsg) (fuel : ℕ) (c : Conn σ)
    (hfuel : c.buf.pending.length < fuel) (hc : Framed S c.buf more frames)
    (hne : c.buf.pending ≠ []) :
    ∃ done, frames = done ++ (advance frames c.buf.pending.length).1 ∧
      (drain h fuel c).2.1 = friendlyOnly done ∧
      Framed S (drain h fuel c).1.buf more (advance frames c.buf.pending.length).1 ∧
      DrainEnd S c.buf.tail (drain h fuel c) (advance frames c.buf.pending.length).2 := by
  induction frames generalizing fuel c with
  | nil =>
      have hw := hc.stream
      rw [wire_nil, List.append_eq_nil_iff] at hw
      exact absurd hw.1 hne
  | cons f fs ih =>
      obtain ⟨fuel, rfl⟩ : ∃ n, fuel = n + 1 := ⟨fuel - 1, by omega⟩
      have hfit := hc.fits f (List.mem_cons_self ..)
      have hfits : ∀ g ∈ fs, g.length ≤ S := fun g hg => hc.fits g (List.mem_cons_of_mem _ hg)
      have hpos := f.length_pos
      have hw := hc.stream
      rw [wire_cons] at hw
      rw [advance]
      by_cases hlt : c.buf.pending.length < f.length
      · -- the first message is unfinished
        obtain ⟨hdrain, hnot⟩ := drain_incomplete h fuel hc.ok hne (incomplete_of_append hw hlt)
          (by rw [hc.size]; omega)
        rw [if_pos hlt, hdrain]
        refine ⟨[], rfl, rfl, hc.moveFront, rfl, ?_, hnot,
          tail_moveFront hc.ok hc.size (lt_of_lt_of_le hlt hfit)⟩
        rw [pending_moveFront]
      · obtain ⟨rest, hrest, hmore⟩ := exists_rest_of_length_le hw (by omega)
        have hlen : c.buf.pending.length = f.length + rest.length := by
          rw [hrest, List.length_append, IpcMsg.length_encode]
        have hnil : rest = [] ↔ c.buf.pending.length = f.length := by
          rw [← List.length_eq_zero_iff]
          omega
        rw [if_neg hlt]
        by_cases hfr : f.Friendly
        · obtain ⟨c', hpend, hbuf', hsize, htail, hdrain⟩ :=
            drain_found h hok fuel hc.ok hrest hfr
          have hc' : Framed S c'.buf more fs :=
            ⟨hbuf', hsize.trans hc.size, hfits, by rw [hpend, hmore]⟩
          by_cases hmt : rest = []
          · rw [if_pos (hnil.mp hmt), if_pos hfr, hdrain, if_pos hmt]
            exact ⟨[f], rfl, (friendlyOnly_cons_pos hfr []).symm, hc', rfl, by rw [hpend, hmt]⟩
          · rw [if_neg (fun e => hmt (hnil.mpr e)), hdrain, if_neg hmt,
              show c.buf.pending.length - f.length = c'.buf.pending.length by rw [hpend]; omega]
            obtain ⟨done, hsplit, hlog, hframed, hend⟩ :=
              ih fuel c' (by rw [hpend]; omega) hc' (by rw [hpend]; exact hmt)
            refine ⟨f :: done, by rw [List.cons_append, ← hsplit], ?_, hframed, ?_⟩
            · show f.strip :: (drain h fuel c').2.1 = _
              rw [hlog, friendlyOnly_cons_pos hfr]
            · rw [← htail]
              exact hend
        · obtain ⟨hpend, hbuf'⟩ := pending_skip hc.ok hrest
          rw [drain_skip h fuel hrest hfr]
          set c' : Conn σ := { c with buf := { c.buf with head := c.buf.head + f.length } } with hc'
          have hc'' : Framed S c'.buf more fs := ⟨hbuf', hc.size, hfits, by rw [hpend, hmore]⟩
          by_cases hmt : rest = []
          · have hroom : c'.buf.full = !decide (c.buf.tail < S) := by
              have hsize := hc.size
              show decide (c.buf.size ≤ c.buf.tail) = _
              rw [hsize, ← decide_not]
              exact decide_eq_decide.mpr Nat.not_lt.symm
            rw [if_pos (hnil.mp hmt), if_neg hfr, drain_empty h fuel (by rw [hpend, hmt])]
            refine ⟨[f], rfl, (friendlyOnly_cons_neg hfr []).symm, hc'', ?_, by rw [hpend, hmt], rfl⟩
            rw [hroom]
            by_cases hlt : c.buf.tail < S
            · simp [hlt]
            · simp [hlt]
          · rw [if_neg (fun e => hmt (hnil.mpr e)),
              show c.buf.pending.length - f.length = c'.buf.pending.length by rw [hpend]; omega]
            obtain ⟨done, hsplit, hlog, hframed, hend⟩ :=
              ih (fuel + 1) c' (by rw [hpend]; omega) hc'' (by rw [hpend]; exact hmt)
            exact ⟨f :: done, by rw [List.cons_append, ← hsplit],
              by rw [hlog, friendlyOnly_cons_neg hfr], hframed, hend⟩

/-! ## One call -/

/-- A stream that ends inside a message ends behind its first byte. -/
lemma advance_inside_pos {frames : List IpcMsg} {n part : ℕ} (hn : 0 < n)
    (h : (advance frames n).2 = .inside part) : 0 < part := by
  induction frames generalizing n with
  | nil => exact absurd h (by simp [advance])
  | cons f fs ih =>
      rw [advance] at h
      split_ifs at h with hlt heq
      · obtain rfl := Ending.inside.inj h
        exact hn
      · exact ih (by omega) h

/-- The call has returned: it has dispatched the messages with the token of a first part of the
stream, and consumed the chunks of this part. -/
structure Returns (S : ℕ) (es : List SockEvent) (chunks : List (List UInt8)) (frames : List IpcMsg)
    (r : Call σ) (done rem : List IpcMsg) (rest : List (List UInt8)) : Prop where
  exit : r.exit = .returned
  split : frames = done ++ rem
  dispatched : r.dispatched = friendlyOnly done
  shorter : rest.length < chunks.length
  chunk : ∀ b ∈ rest, b ∈ chunks
  events : r.events = rest.map .bytes ++ .idle :: es
  pending : r.conn.buf.pending = []
  framed : Framed S r.conn.buf rest.flatten rem

/-- What a call comes to: `ok` says whether the handler copes with the rest of the burst. -/
def CallOutcome (S : ℕ) (es : List SockEvent) (chunks : List (List UInt8)) (frames : List IpcMsg)
    (ok : Bool) (r : Call σ) : Prop :=
  (r.exit = .error ∧ ok = false) ∨
    ∃ done rem rest, Returns S es chunks frames r done rem rest ∧ tolerated S rest rem 0 0 = ok

/-- The loop waits for more, in front of the messages `rem`. -/
lemma CallOutcome.wait {S : ℕ} {es : List SockEvent} {b : List UInt8} {chunks : List (List UInt8)}
    {done rem : List IpcMsg} {ok : Bool} {r : Call σ} (h : CallOutcome S es chunks rem ok r) :
    CallOutcome S es (b :: chunks) (done ++ rem) ok
      { r with dispatched := friendlyOnly done ++ r.dispatched } := by
  rcases h with ⟨hexit, hok⟩ | ⟨done', rem', rest, hr, hok⟩
  · exact .inl ⟨hexit, hok⟩
  · refine .inr ⟨done ++ done', rem', rest, ⟨hr.exit, ?_, ?_, ?_, ?_, hr.events, hr.pending,
      hr.framed⟩, hok⟩
    · rw [hr.split, List.append_assoc]
    · rw [friendlyOnly_append, ← hr.dispatched]
    · have := hr.shorter
      rw [List.length_cons]
      omega
    · exact fun b' hb' => List.mem_cons_of_mem _ (hr.chunk b' hb')

/-- **One call**, from the label `__recv` on. -/
lemma handlerRecv_stream (h : Hooks σ) (hok : ∀ s m a, (h.dispatch s m a).ok = true) {S : ℕ}
    (es : List SockEvent) (chunks : List (List UInt8)) (frames : List IpcMsg) (c : Conn σ)
    (hc : Framed S c.buf chunks.flatten frames) (hroom : c.buf.full = false) (hne : chunks ≠ [])
    (hlegal : (handlerRecv h (chunks.map .bytes ++ .idle :: es) c).exit ≠ .illegal) :
    CallOutcome S es chunks frames (tolerated S chunks frames c.buf.pending.length c.buf.tail)
      (handlerRecv h (chunks.map .bytes ++ .idle :: es) c) := by
  induction chunks generalizing frames c with
  | nil => exact absurd rfl hne
  | cons b chunks ih =>
      have hwin := IpcBuf.window_ne_zero hroom
      simp only [List.map_cons, List.cons_append, handlerRecv, if_neg hwin] at hlegal ⊢
      by_cases hill : c.buf.Undeliverable b
      · rw [if_pos hill] at hlegal
        exact absurd rfl hlegal
      · rw [if_neg hill] at hlegal ⊢
        rw [IpcBuf.not_undeliverable] at hill
        have hbpos : 0 < b.length := List.length_pos_iff.mpr hill.1
        set c₁ : Conn σ := { c with buf := c.buf.append b } with hc₁
        have hframed : Framed S c₁.buf chunks.flatten frames := hc.append hill.2.1
        have hpend : c₁.buf.pending = c.buf.pending ++ b := IpcBuf.pending_append hc.ok b
        have hlen : c₁.buf.pending.length = c.buf.pending.length + b.length := by
          rw [hpend, List.length_append]
        obtain ⟨done, hsplit, hlog, hdrained, hend⟩ :=
          drain_stream h hok frames (c₁.buf.pending.length + 1) c₁ (Nat.lt_succ_self _) hframed
            (by rw [hpend]; simp [hill.1])
        have hpos : ∀ part, (advance frames (c.buf.pending.length + b.length)).2 = .inside part →
            0 < part := fun part hpart => advance_inside_pos (by omega) hpart
        have htail : c₁.buf.tail = c.buf.tail + b.length := rfl
        rw [hlen] at hsplit hdrained hend hlog hlegal ⊢
        rw [htail] at hend
        rw [tolerated]
        generalize drain h (c.buf.pending.length + b.length + 1) c₁ = d at *
        generalize advance frames (c.buf.pending.length + b.length) = a at *
        obtain ⟨c₂, l, e⟩ := d
        obtain ⟨rem, ending⟩ := a
        simp only at hlog hdrained hsplit hpos hend ⊢
        subst hlog hsplit
        -- the rest of the call, if the loop waits with `tail` bytes in the buffer
        have hwait : ∀ part tail r, e = .wait → c₂.buf.pending.length = part →
            c₂.buf.tail = tail → 0 < tail → c₂.buf.full = false →
            (chunks = [] → r.exit = .error) →
            (∀ b₂ rest, chunks = b₂ :: rest →
              r = { handlerRecv h (chunks.map .bytes ++ .idle :: es) c₂ with
                dispatched := friendlyOnly done ++
                  (handlerRecv h (chunks.map .bytes ++ .idle :: es) c₂).dispatched }) →
            CallOutcome S es (b :: chunks) (done ++ rem) (tolerated S chunks rem part tail) r := by
          rintro part tail r rfl rfl rfl htailpos hfull hnil hcons
          cases chunks with
          | nil =>
              refine .inl ⟨hnil rfl, ?_⟩
              simp [tolerated, htailpos.ne']
          | cons b₂ chunks =>
              rw [hcons b₂ chunks rfl]
              exact CallOutcome.wait (ih rem c₂ hdrained hfull (by simp) hlegal)
        cases ending with
        | friendly =>
            obtain ⟨rfl, hmt⟩ := hend
            exact .inr ⟨done, rem, chunks, ⟨rfl, rfl, rfl, by simp,
              fun b' hb' => List.mem_cons_of_mem _ hb', rfl, hmt, hdrained⟩, rfl⟩
        | unfriendly =>
            obtain ⟨rfl, hmt, htail₂⟩ := hend
            by_cases hlt : c.buf.tail + b.length < S
            · have hfull : c₂.buf.full = false := by
                have hsize := hdrained.size
                simp only at htail₂
                simp only [IpcBuf.full, decide_eq_false_iff_not]
                omega
              simp only [hlt, if_true, decide_true, Bool.true_and]
              refine hwait 0 (c.buf.tail + b.length) _ (if_pos hlt) (by rw [hmt]; rfl) htail₂
                (by omega) hfull ?_ ?_
              · rintro rfl
                rfl
              · rintro b₂ rest rfl
                rfl
            · simp only [hlt, if_false, decide_false, Bool.false_and]
              exact .inl ⟨rfl, rfl⟩
        | inside part =>
            obtain ⟨rfl, hpart, hfull, htail₂⟩ := hend
            have hpos' := hpos part rfl
            refine hwait part _ _ rfl hpart htail₂ ?_ hfull ?_ ?_
            · split_ifs
              · exact hpos'
              · omega
            · rintro rfl
              rfl
            · rintro b₂ rest rfl
              rfl

/-! ## All calls -/

lemma burstEvents_cons (b : Burst) (bs : List Burst) :
    burstEvents (b :: bs) = b.chunks.map .bytes ++ .idle :: burstEvents bs := by
  simp [burstEvents]

/-- What the calls come to: every message with the token is dispatched and the connection is kept,
or a call leaves through `__error`. -/
structure Verdict (ok : Prop) (frames : List IpcMsg) (calls : List (Call σ)) : Prop where
  served : ok → calls.flatMap Call.dispatched = friendlyOnly frames ∧ ∀ r ∈ calls, r.exit ≠ .error
  released : ¬ ok → ∃ r ∈ calls, r.exit = .error

lemma Verdict.cons {ok : Prop} {done frames : List IpcMsg} {r : Call σ} {calls : List (Call σ)}
    (hlog : r.dispatched = friendlyOnly done) (hexit : r.exit = .returned)
    (h : Verdict ok frames calls) : Verdict ok (done ++ frames) (r :: calls) := by
  refine ⟨fun hok => ?_, fun hnot => ?_⟩
  · obtain ⟨hall, hkept⟩ := h.served hok
    refine ⟨by rw [List.flatMap_cons, hlog, hall, friendlyOnly_append], ?_⟩
    simpa [hexit] using hkept
  · obtain ⟨r', hr', herr⟩ := h.released hnot
    exact ⟨r', List.mem_cons_of_mem _ hr', herr⟩

/-- The run lemma of `serveReady`: in front of the rest of a burst and of other bursts, between two
calls. -/
lemma serveReady_stream (h : Hooks σ) (hok : ∀ s m a, (h.dispatch s m a).ok = true) {S : ℕ}
    (fuel : ℕ) (bursts : List Burst) (hfits : ∀ b ∈ bursts, ∀ f ∈ b.frames, f.length ≤ S)
    (chunks : List (List UInt8)) (hne : ∀ b ∈ chunks, b ≠ []) (frames : List IpcMsg) (c : Conn σ)
    (hf : ∀ f ∈ frames, f.length ≤ S) (hsize : c.buf.size = S) (hw : chunks.flatten = wire frames)
    (hfuel : (chunks.map SockEvent.bytes ++ .idle :: burstEvents bursts).length ≤ fuel)
    (hlegal : ∀ r ∈ serveReady h fuel (chunks.map .bytes ++ .idle :: burstEvents bursts) c,
      r.exit ≠ .illegal) :
    Verdict (tolerated S chunks frames 0 0 = true ∧ ∀ b ∈ bursts, b.Tolerated S)
      (frames ++ bursts.flatMap Burst.frames)
      (serveReady h fuel (chunks.map .bytes ++ .idle :: burstEvents bursts) c) := by
  induction fuel generalizing bursts chunks frames c with
  | zero => simp at hfuel
  | succ fuel ih =>
      cases chunks with
      | nil =>
          -- the burst is over
          obtain rfl := wire_eq_nil hw.symm
          simp only [List.map_nil, List.nil_append, serveReady] at hlegal ⊢
          simp only [List.map_nil, List.nil_append, List.length_cons] at hfuel
          cases bursts with
          | nil =>
              have hnone : serveReady h fuel (burstEvents []) c = [] := by
                cases fuel <;> rfl
              rw [hnone]
              exact ⟨fun _ => by simp, fun hnot => absurd (by simp [tolerated]) hnot⟩
          | cons b bs =>
              rw [burstEvents_cons] at hlegal hfuel ⊢
              have hres := ih bs (fun b' hb' => hfits b' (List.mem_cons_of_mem _ hb')) b.chunks
                b.nonempty b.frames c (hfits b (List.mem_cons_self ..)) hsize b.bytes
                (by simpa using hfuel) hlegal
              simpa [tolerated, Burst.Tolerated] using hres
      | cons b chunks =>
          -- the next call
          have hroom : c.buf.reset.full = false := by
            apply IpcBuf.full_reset
            obtain ⟨f, hfm⟩ : ∃ f, f ∈ frames := by
              apply List.exists_mem_of_ne_nil _
              rintro rfl
              rw [List.flatten_cons, wire_nil, List.append_eq_nil_iff] at hw
              exact hne b (List.mem_cons_self ..) hw.1
            have := hf f hfm
            have := f.length_pos
            omega
          simp only [List.map_cons, List.cons_append, serveReady] at hlegal ⊢
          rw [← List.cons_append, ← List.map_cons] at hlegal ⊢
          set r := ipcCommonSocketHandler h
            ((b :: chunks).map .bytes ++ .idle :: burstEvents bursts) c with hr
          have hcall : CallOutcome S (burstEvents bursts) (b :: chunks) frames
              (tolerated S (b :: chunks) frames 0 0) r := by
            have hone := handlerRecv_stream h hok (burstEvents bursts) (b :: chunks) frames
              { c with buf := c.buf.reset } (Framed.reset hsize hf hw) hroom (by simp)
              (hlegal _ (List.mem_cons_self ..))
            rw [IpcBuf.pending_reset] at hone
            exact hone
          rcases hcall with ⟨hexit, hbad⟩ | ⟨done, rem, rest, hret, hrem⟩
          · rw [hbad, hexit]
            exact ⟨fun hgood => absurd hgood.1 (by simp),
              fun _ => ⟨r, List.mem_cons_self .., hexit⟩⟩
          · rw [if_pos hret.exit] at hlegal ⊢
            rw [hret.events] at hlegal ⊢
            rw [← hrem, hret.split, List.append_assoc]
            have hwire : rest.flatten = wire rem := by
              have := hret.framed.stream
              rwa [hret.pending, List.nil_append] at this
            have hshort := hret.shorter
            refine Verdict.cons hret.dispatched hret.exit
              (ih bursts hfits rest (fun b' hb' => hne b' (hret.chunk b' hb')) rem r.conn
                hret.framed.fits hret.framed.size hwire ?_
                (fun r' hr' => hlegal r' (List.mem_cons_of_mem _ hr')))
            simp only [List.length_append, List.length_map, List.length_cons] at hfuel hshort ⊢
            omega

/-- **When malformed messages are skipped.**  For any cut of any bursts of messages that fit the
buffer, every message with the token is dispatched, in order, and no call leaves through `__error`,
exactly when the handler copes with each burst. -/
theorem unfriendly_skipped_iff (h : Hooks σ) (hok : ∀ s m a, (h.dispatch s m a).ok = true)
    (c : Conn σ) (bursts : List Burst)
    (hfits : ∀ b ∈ bursts, ∀ f ∈ b.frames, f.length ≤ c.buf.size)
    (hlegal : ∀ r ∈ serveReady h (burstEvents bursts).length (burstEvents bursts) c,
      r.exit ≠ .illegal) :
    ((serveReady h (burstEvents bursts).length (burstEvents bursts) c).flatMap Call.dispatched =
          friendlyOnly (bursts.flatMap Burst.frames) ∧
        ∀ r ∈ serveReady h (burstEvents bursts).length (burstEvents bursts) c, r.exit ≠ .error) ↔
      ∀ b ∈ bursts, b.Tolerated c.buf.size := by
  have hrun : Verdict (∀ b ∈ bursts, b.Tolerated c.buf.size) (bursts.flatMap Burst.frames)
      (serveReady h (burstEvents bursts).length (burstEvents bursts) c) := by
    have hres := serveReady_stream h hok ((burstEvents bursts).length + 1) bursts hfits [] (by simp)
      [] c (by simp) rfl wire_nil.symm (by simp) hlegal
    simpa [tolerated, serveReady] using hres
  refine ⟨fun hserved => ?_, fun hall => hrun.served hall⟩
  by_contra hnot
  obtain ⟨r, hr, herr⟩ := hrun.released hnot
  exact hserved.2 r hr herr

lemma length_pair_lt : ([42, 43] : List UInt8).length < 2 ^ 16 := by decide

/-- A message with the token, one without, and another with it. -/
def mixedFrames : List IpcMsg :=
  [⟨1, 0x56CE0007, 0, [42, 43], length_pair_lt⟩, ⟨2, 0x56CF0007, 0, [], length_nil_lt⟩,
    ⟨3, 0x56CE0008, 0, [], length_nil_lt⟩]

/-- The messages cut in the message without the token. -/
def mixedBurst : Burst where
  frames := mixedFrames
  chunks := [(wire mixedFrames).take 20, ((wire mixedFrames).drop 20).take 12,
    (wire mixedFrames).drop 32]
  bytes := by decide
  nonempty := by decide

/-- The message without the token is skipped, in a buffer of thirty-two bytes. -/
theorem unfriendly_skipped_iff_sample :
    (serveReady erasingHooks (burstEvents [mixedBurst]).length (burstEvents [mixedBurst])
      ⟨⟨0, 0, 32, fun _ => 0⟩, fun _ => 0, 0⟩).flatMap Call.dispatched =
    friendlyOnly ([mixedBurst].flatMap Burst.frames) :=
  ((unfriendly_skipped_iff erasingHooks (fun _ _ _ => rfl) ⟨⟨0, 0, 32, fun _ => 0⟩, fun _ => 0, 0⟩
    [mixedBurst] (by decide) (by decide +kernel)).mpr (by decide)).1

/-- One message without the token, in one piece. -/
def unfriendlyBurst : Burst where
  frames := [⟨1, 0x56CF0007, 0, [], length_nil_lt⟩]
  chunks := [wire [⟨1, 0x56CF0007, 0, [], length_nil_lt⟩]]
  bytes := by decide
  nonempty := by decide

/-- **Malformed messages can be fatal.**  A whole message without the token that nothing follows
costs the connection, in a buffer of 8192 bytes. -/
theorem unfriendly_alone_released :
    ¬ ∀ (c : Conn ℕ) (bursts : List Burst),
      (∀ b ∈ bursts, ∀ f ∈ b.frames, f.length ≤ c.buf.size) →
      (∀ r ∈ serveReady erasingHooks (burstEvents bursts).length (burstEvents bursts) c,
        r.exit ≠ .illegal) →
      (serveReady erasingHooks (burstEvents bursts).length (burstEvents bursts) c).flatMap
            Call.dispatched = friendlyOnly (bursts.flatMap Burst.frames) ∧
        ∀ r ∈ serveReady erasingHooks (burstEvents bursts).length (burstEvents bursts) c,
          r.exit ≠ .error := by
  intro hall
  have hkept := (hall ⟨⟨0, 0, 8192, fun _ => 0⟩, fun _ => 0, 0⟩ [unfriendlyBurst] (by decide)
    (by decide +kernel)).2
  revert hkept
  decide +kernel

end LinuxC.Ipc
