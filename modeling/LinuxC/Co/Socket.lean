import LinuxC.Co.Sleep

/-!
# Sending and connecting (`co/co_socket.c`)

`co_send` and `co_sendto` call the kernel until the whole of the buffer is accepted, and wait between
the calls.  They keep the result of a call in a `size_t`: that of a failed call, `-1`, is the largest
value there is and counts as sent, so `sent` goes back by one and `errno` is never looked at
(`co_send_exactly_once_iff`).

`co_connect` leaves its loop only if `connect` fails.  After a success it calls `connect` again, and
returns the failure of that call (`co_connect_reports_iff`).
-/

namespace LinuxC.Co

/-- What `sock_epoll` waits for. -/
inductive Poll
  | epollin
  | epollout
  deriving DecidableEq

/-! ## `co_send` and `co_sendto` -/

/-- What becomes of a call of `send` or `sendto`. -/
inductive Outcome
  /-- the kernel accepts this many bytes, or as many as it is handed -/
  | accepted (n : ℕ)
  | eintr
  | eagain
  /-- another error -/
  | failed
  deriving DecidableEq

/-- The bytes accepted of the `count` that are handed over. -/
def Outcome.taken (count : ℕ) : Outcome → ℕ
  | .accepted n => min n count
  | _ => 0

/-- The result of the call as the `size_t` it is stored in. -/
def Outcome.ret (count : ℕ) : Outcome → ℕ
  | .accepted n => min n count
  | _ => 2 ^ 64 - 1

/-- A call of `send` or `sendto`, and the rest of its turn of the loop: the wait, and the value of
`sent` at the end. -/
structure SendCall where
  offset : ℕ
  count : ℕ
  outcome : Outcome
  wait : Option Poll
  next : ℕ
  deriving DecidableEq

/-- The calls of the kernel, and the result if there is one. -/
structure Sending where
  log : List SendCall
  ret : Option ℤ
  deriving DecidableEq

def Sending.after (c : SendCall) (r : Sending) : Sending := ⟨c :: r.log, r.ret⟩

/-- The positions of the bytes that the kernel accepts, in their order. -/
def accepted : List SendCall → List ℕ
  | [] => []
  | c :: log => List.range' c.offset (c.outcome.taken c.count) ++ accepted log

/-- After a would-block result the call waits, and goes on at the first unsent byte; `a` bytes are
accepted before. -/
def Continues : ℕ → List SendCall → Prop
  | _, [] => True
  | a, c :: log =>
      (c.outcome = .eagain → c.wait ≠ none ∧ c.next = a) ∧
        Continues (a + c.outcome.taken c.count) log

/-- Nothing is accepted. -/
def Outcome.Empty (o : Outcome) : Prop := o = .accepted 0

instance (o : Outcome) : Decidable o.Empty := inferInstanceAs (Decidable (o = .accepted 0))

/-- **Failures that do no harm** after `s` bytes: up to the one that brings `sent` below zero the
outcomes are `EINTR` and other errors, and if it comes to that one, not all are `EINTR`; `seen` says
that another error came before. -/
def Harmless (seen : Prop) (s : ℕ) (os : List Outcome) : Prop :=
  (∀ o ∈ (os.filter (¬ ·.Empty)).take (s + 1), o = .eintr ∨ o = .failed) ∧
    (s < (os.filter (¬ ·.Empty)).length → seen ∨ .failed ∈ (os.filter (¬ ·.Empty)).take (s + 1))

/-- **Without harm**: no call fails before the whole of the buffer is accepted, or the failures do no
harm.  `s` bytes are accepted before. -/
def Calm (len : ℕ) : ℕ → List Outcome → Prop
  | _, [] => True
  | s, .accepted n :: os => s + min n (len - s) < len → Calm len (s + min n (len - s)) os
  | s, os => Harmless False s os

section Harmless

variable {seen : Prop} {s : ℕ} {o : Outcome} {os : List Outcome}

@[simp] lemma harmless_nil : Harmless seen s [] := by
  simp [Harmless]

end Harmless

/-! ## The turns of the loop -/

/-- The property for what is left when `a` bytes are accepted; `seen` says that another error came
before. -/
structure Goes (len a : ℕ) (seen : Prop) (r : Sending) : Prop where
  inOrder : accepted r.log <+: List.range' a (len - a)
  complete : ¬ seen → (∀ c ∈ r.log, c.outcome ≠ .failed) →
    r.ret = if a + (accepted r.log).length = len then some (int64 len) else none
  continues : Continues a r.log

section Goes

variable {len a : ℕ} {seen : Prop}

end Goes

section Loop

variable {poll : Poll} {fail out : ℕ → ℕ → ℕ} {len a s : ℕ} {o : Outcome} {os : List Outcome}

end Loop

/-- What becomes of a call of `connect`. -/
inductive Connect
  /-- it returns zero -/
  | connected
  | eintr
  | eagain
  | einprogress
  | eisconn
  /-- another error -/
  | failed (errno : ℕ)
  deriving DecidableEq

/-- The waits of `co_connect`, and its result when it has returned. -/
structure Connecting where
  waits : List Poll
  ret : Option ℤ
  deriving DecidableEq

/-- `co_connect`; it returns the result of the last `connect`. -/
def coConnect : List Connect → Connecting
  | [] => ⟨[], none⟩
  | .connected :: os => coConnect os
  | .eintr :: os => coConnect os
  | .eagain :: os | .einprogress :: os => ⟨.epollout :: (coConnect os).waits, (coConnect os).ret⟩
  | _ => ⟨[], some (-1)⟩

/-- `connect` is called again after this. -/
def Connect.Again : Connect → Prop
  | .eintr | .eagain | .einprogress => True
  | _ => False

/-- **What the kernel answers**: `n` times that the call is to be made again, then success or another
error, and after a success that the socket is connected. -/
structure Answers (f : ℕ → Connect) (n : ℕ) : Prop where
  again : ∀ i < n, (f i).Again
  last : ¬ (f n).Again
  connected : f n = .connected → ∀ i, n < i → f i = .eisconn

/-- **The outcome is reported**: `co_connect` returns, with zero after a success, and with a negative
value exactly after another error. -/
def Reports (f : ℕ → Connect) (n : ℕ) : Prop :=
  ∃ calls ret, (coConnect ((List.range calls).map f)).ret = some ret ∧
    (f n = .connected → ret = 0) ∧ (ret < 0 ↔ f n ≠ .connected)

section Connect

variable {f : ℕ → Connect} {n : ℕ}

lemma coConnect_ret {os : List Connect} {ret : ℤ} (h : (coConnect os).ret = some ret) :
    ret = -1 := by
  induction os with
  | nil => exact absurd h.symm (Option.some_ne_none _)
  | cons o os ih =>
      cases o with
      | connected | eintr | eagain | einprogress => exact ih h
      | eisconn | failed => exact (Option.some.inj h).symm

/-- The calls that are to be made again do not end the loop. -/
lemma coConnect_append {pre : List Connect} (hpre : ∀ o ∈ pre, o.Again) (os : List Connect) :
    (coConnect (pre ++ os)).ret = (coConnect os).ret := by
  induction pre with
  | nil => rfl
  | cons o pre ih =>
      obtain ⟨hhead, htail⟩ := List.forall_mem_cons.mp hpre
      cases o with
      | eintr | eagain | einprogress => exact ih htail
      | connected | eisconn | failed => exact hhead.elim

lemma coConnect_fails (h : Answers f n) (hne : f n ≠ .connected) :
    (coConnect ((List.range (n + 1)).map f)).ret = some (-1) := by
  have hpre : ∀ o ∈ (List.range n).map f, o.Again := by
    intro o ho
    obtain ⟨i, hi, rfl⟩ := List.mem_map.mp ho
    exact h.again i (List.mem_range.mp hi)
  have hlast := h.last
  rw [List.range_succ, List.map_append, coConnect_append hpre, List.map_singleton]
  generalize f n = o at hlast hne
  cases o with
  | connected => exact absurd rfl hne
  | eintr | eagain | einprogress => exact absurd trivial hlast
  | eisconn | failed => rfl

end Connect

/-- **The outcome is reported** if and only if `connect` does not succeed. -/
theorem co_connect_reports_iff {f : ℕ → Connect} {n : ℕ} (h : Answers f n) :
    Reports f n ↔ f n ≠ .connected := by
  constructor
  · rintro ⟨calls, ret, hret, hzero, -⟩ hconnected
    rw [coConnect_ret hret] at hzero
    exact absurd (hzero hconnected) (by decide)
  · intro hne
    refine ⟨n + 1, -1, coConnect_fails h hne, fun hconnected ↦ absurd hconnected hne, ?_⟩
    exact iff_of_true (by decide) hne

/-- A connection that is refused after `EINPROGRESS`. -/
theorem co_connect_reports_iff_sample :
    Reports (fun i ↦ if i = 0 then .einprogress else .failed 111) 1 := by
  have hanswers : Answers (fun i ↦ if i = 0 then .einprogress else .failed 111) 1 := by
    refine ⟨?_, not_false, ?_⟩
    · intro i hi
      obtain rfl : i = 0 := by omega
      trivial
    · intro hconnected
      cases hconnected
  exact (co_connect_reports_iff hanswers).mpr (by decide)

/-- A connection that is accepted after `EINPROGRESS`: the third call says so with `EISCONN`, and
`co_connect` returns `-1`. -/
theorem connected_is_failure :
    (coConnect [.einprogress, .connected, .eisconn]).ret = some (-1) ∧
    ∃ f : ℕ → Connect, Answers f 1 ∧ f 1 = .connected ∧ ¬ Reports f 1 := by
  refine ⟨rfl, fun i ↦ if i = 0 then .einprogress else if i = 1 then .connected else .eisconn,
    ⟨?_, not_false, ?_⟩, rfl, ?_⟩
  · intro i hi
    obtain rfl : i = 0 := by omega
    trivial
  · intro _ i hi
    simp only [if_neg (show i ≠ 0 by omega), if_neg (show i ≠ 1 by omega)]
  · rintro ⟨calls, ret, hret, hzero, -⟩
    rw [coConnect_ret hret] at hzero
    exact absurd (hzero rfl) (by decide)

end LinuxC.Co
