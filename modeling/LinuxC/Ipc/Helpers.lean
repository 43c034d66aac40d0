import LinuxC.Ipc.Publish

/-!
# The helpers of the client (`api/client/ipcc.c`)

`ipcc_request` and `ipcs_request` make a request for a caller that has plain data.  The message is on
the stack if it fits there, and on the heap otherwise; the buffer takes the request first and the
reply later, so it needs room for the longer one of the two.

The functions differ in the length they test and in the request function they call.  `helperRequest`
is what they share.  `ipcc_request` tests the length for which it would allocate; `ipcs_request`
tests the length of the reply alone, and copies a request that is longer over the end of its stack
buffer (`helper_buffers_fit`).
-/

namespace LinuxC.Ipc

/-- `sizeof(buf)`. -/
def helperBufSize : ℕ := 1024

def ipcMsgSpaceCheck (max size : ℕ) : Bool := ipcMsgHdrlen + size ≤ max

/-- What a helper does with its message. -/
structure HelperCall where
  /-- The size of the block that `msg` points to. -/
  capacity : ℕ
  /-- The end of the request that `memcpy` stores, as an offset in the block. -/
  stored : ℕ
  /-- The size that the request function is called with. -/
  size : ℕ
  /-- What is copied to `response`, and the end of the range in the block that it is read from. -/
  copied : List UInt8
  read : ℕ
  ret : ℤ
  deriving DecidableEq

section Helpers

variable (msgId : UInt32) (data : Option Mem) (size : ℕ) (response : Bool) (rsplen : ℕ)

/-- The local variable `bufsize` at its definition. -/
def helperLength : ℕ := if size < rsplen then rsplen else size

/-- The message as it is passed to the request function. -/
def helperMessage (m : Mem) : Mem :=
  let m := m.write 4 (toLE 4 msgId.toNat)
  let m := if response then m.write 8 (toLE 2 ipcFlagReply.toNat) else m
  match data with
  | some d => (m.write ipcMsgHdrlen (d.read 0 size)).write 10 (toLE 2 size)
  | none => m

/-- The message after a successful request: a longer reply is cut off. -/
def truncateReply (m : Mem) : Mem :=
  if rsplen < dataLenAt m 0 then m.write 10 (toLE 2 rsplen) else m

/-- The size of the message's block when the stack buffer is tested for the length `tested`.  The
argument of `ipc_alloc_msg` is narrowed to an `unsigned int`. -/
def helperCapacity (tested : ℕ) : ℕ :=
  if ipcMsgSpaceCheck helperBufSize tested then helperBufSize
  else ipcMsgHdrlen + helperLength size rsplen % 2 ^ 32

/-- The variable `bufsize` as it is passed to the request function, an `unsigned int`. -/
def helperSize (tested : ℕ) : ℕ :=
  if ipcMsgSpaceCheck helperBufSize tested then helperBufSize
  else (helperLength size rsplen + ipcMsgHdrlen) % 2 ^ 32

/-- The end of the request in the message. -/
def requestEnd : ℕ := if data.isSome then ipcMsgHdrlen + size else ipcMsgHdrlen

/-- A helper whose stack buffer is tested for the length `tested`.  `request` is the request
function, with its success and the message that it leaves; without memory for the message there is
no call. -/
def helperRequest (tested : ℕ) (heap : Mem) (alloc : Bool) (request : Mem → ℕ → Bool × Mem) :
    Option HelperCall :=
  let fits := ipcMsgSpaceCheck helperBufSize tested
  if !fits && !alloc then none
  else
    let capacity := helperCapacity size rsplen tested
    let bufsize := helperSize size rsplen tested
    let msg := helperMessage msgId data size response (if fits then blank else ipcAllocMsg heap)
    let (success, reply) := request msg bufsize
    let reply := truncateReply rsplen reply
    if success && response then
      some ⟨capacity, requestEnd data size, bufsize, reply.read ipcMsgHdrlen (dataLenAt reply 0),
        ipcMsgHdrlen + dataLenAt reply 0, 0⟩
    else
      some ⟨capacity, requestEnd data size, bufsize, [], ipcMsgHdrlen, if success then 0 else -1⟩

/-- `ipcc_request`; `request` is `ipc_client_request`. -/
def ipccRequest (heap : Mem) (alloc : Bool) (request : Mem → ℕ → Bool × Mem) : Option HelperCall :=
  helperRequest msgId data size response rsplen (helperLength size rsplen) heap alloc request

/-- `ipcs_request`; `request` is `ipc_subscriber_request`. -/
def ipcsRequest (heap : Mem) (alloc : Bool) (request : Mem → ℕ → Bool × Mem) : Option HelperCall :=
  helperRequest msgId data size response rsplen rsplen heap alloc request

end Helpers

/-! ## The buffers -/

/-- The buffer has room for the request and for the reply, the request function is told its size, and
no copy leaves it. -/
structure BufferFits (size rsplen : ℕ) (c : HelperCall) : Prop where
  room : ipcMsgHdrlen + max size rsplen ≤ c.capacity
  told : c.size = c.capacity
  stored : c.stored ≤ c.capacity
  copied : c.copied.length ≤ rsplen
  read : c.read ≤ c.capacity

section Fits

variable {msgId : UInt32} {data : Option Mem} {size : ℕ} {response : Bool} {rsplen : ℕ}

lemma helperLength_eq (size rsplen : ℕ) : helperLength size rsplen = max size rsplen := by
  rw [helperLength]
  split_ifs with h
  · exact (Nat.max_eq_right h.le).symm
  · exact (Nat.max_eq_left (not_lt.mp h)).symm

lemma dataLenAt_truncateReply (rsplen : ℕ) (m : Mem) :
    dataLenAt (truncateReply rsplen m) 0 ≤ rsplen := by
  rw [truncateReply]
  split_ifs with h
  · -- a length that is less than the field of the message fits the field
    have hlt := dataLenAt_lt m 0
    rw [dataLenAt, Mem.read_write_self _ _ _ (by simp), leNat_toLE_of_lt (by omega)]
  · exact not_lt.mp h

lemma helperRequest_eq {tested : ℕ} {heap : Mem} {alloc : Bool} {request : Mem → ℕ → Bool × Mem}
    {c : HelperCall}
    (h : helperRequest msgId data size response rsplen tested heap alloc request = some c) :
    c.capacity = helperCapacity size rsplen tested ∧ c.size = helperSize size rsplen tested ∧
      c.stored = requestEnd data size ∧ c.copied.length ≤ rsplen ∧
      c.read ≤ ipcMsgHdrlen + rsplen := by
  rw [helperRequest] at h
  dsimp only at h
  rw [Option.ite_none_left_eq_some] at h
  obtain ⟨-, h⟩ := h
  -- what the request function leaves does not matter
  generalize request _ _ = r at h
  split at h
  · obtain rfl := Option.some.inj h
    refine ⟨rfl, rfl, rfl, ?_, ?_⟩
    · rw [Mem.length_read]
      exact dataLenAt_truncateReply ..
    · exact Nat.add_le_add_left (dataLenAt_truncateReply ..) _
  · obtain rfl := Option.some.inj h
    exact ⟨rfl, rfl, rfl, Nat.zero_le _, Nat.le_add_right ..⟩

lemma requestEnd_le (data : Option Mem) (size : ℕ) : requestEnd data size ≤ ipcMsgHdrlen + size := by
  rw [requestEnd]
  split_ifs <;> omega

lemma bufferFits_of_tested {tested : ℕ} {heap : Mem} {alloc : Bool}
    {request : Mem → ℕ → Bool × Mem} {c : HelperCall} (hsize : size < 2 ^ 31)
    (hrsplen : rsplen < 2 ^ 31)
    (htested : ipcMsgSpaceCheck helperBufSize tested = true →
      ipcMsgHdrlen + max size rsplen ≤ helperBufSize)
    (h : helperRequest msgId data size response rsplen tested heap alloc request = some c) :
    BufferFits size rsplen c := by
  obtain ⟨hcapacity, htold, hstored, hcopied, hread⟩ := helperRequest_eq h
  have hhdr : ipcMsgHdrlen = 12 := rfl
  have hmax : max size rsplen < 2 ^ 31 := max_lt hsize hrsplen
  rw [helperCapacity, helperLength_eq] at hcapacity
  rw [helperSize, helperLength_eq] at htold
  have hend := requestEnd_le data size
  have hroom : ipcMsgHdrlen + max size rsplen ≤ c.capacity ∧ c.size = c.capacity := by
    split_ifs at hcapacity htold with hfits
    · have := htested hfits
      omega
    · rw [Nat.mod_eq_of_lt (by omega)] at hcapacity htold
      omega
  have hleft := le_max_left size rsplen
  have hright := le_max_right size rsplen
  exact ⟨hroom.1, hroom.2, by omega, hcopied, by omega⟩

/-- **When the buffers of the helpers fit.**  That of `ipcc_request` always does.  That of
`ipcs_request` fits exactly when the request is not too long for a stack buffer that has room for the
reply. -/
theorem helper_buffers_fit (msgId : UInt32) (data : Option Mem) {size : ℕ} (response : Bool)
    {rsplen : ℕ} (hsize : size < 2 ^ 31) (hrsplen : rsplen < 2 ^ 31) :
    (∀ heap alloc request c,
        ipccRequest msgId data size response rsplen heap alloc request = some c →
        BufferFits size rsplen c) ∧
    ((∀ heap alloc request c,
        ipcsRequest msgId data size response rsplen heap alloc request = some c →
        BufferFits size rsplen c) ↔
      ¬ (ipcMsgHdrlen + rsplen ≤ helperBufSize ∧ helperBufSize < ipcMsgHdrlen + size)) := by
  refine ⟨fun heap alloc request c h => ?_, ?_, fun hcond heap alloc request c h => ?_⟩
  · refine bufferFits_of_tested hsize hrsplen (fun hfits => ?_) h
    rwa [ipcMsgSpaceCheck, helperLength_eq, decide_eq_true_iff] at hfits
  · rintro h ⟨hrsp, hreq⟩
    have hfits : ipcMsgSpaceCheck helperBufSize rsplen = true := decide_eq_true hrsp
    -- a request that fails at once shows the buffer
    obtain ⟨c, hc⟩ : ∃ c, ipcsRequest msgId data size response rsplen blank false
        (fun m _ => (false, m)) = some c := by
      simp [ipcsRequest, helperRequest, hfits]
    obtain ⟨hcapacity, -⟩ := helperRequest_eq hc
    have hroom := (h _ _ _ c hc).room
    rw [helperCapacity, if_pos hfits] at hcapacity
    have hleft := le_max_left size rsplen
    omega
  · refine bufferFits_of_tested hsize hrsplen (fun hfits => ?_) h
    rw [ipcMsgSpaceCheck, decide_eq_true_iff] at hfits
    have hshort : ipcMsgHdrlen + size ≤ helperBufSize := by
      by_contra hlt
      exact hcond ⟨hfits, not_le.mp hlt⟩
    rw [← max_add_add_left]
    exact max_le hshort hfits

/-- A request of 2000 bytes with `ipcc_request`. -/
theorem helper_buffers_fit_sample :
    ∃ c, ipccRequest 7 (some blank) 2000 false 0 blank true (fun m _ => (true, m)) = some c ∧
      c.capacity = 2012 ∧ BufferFits 2000 0 c := by
  have hcall : (ipccRequest 7 (some blank) 2000 false 0 blank true (fun m _ => (true, m))).map
      HelperCall.capacity = some 2012 := by decide +kernel
  obtain ⟨c, hc, hcapacity⟩ := Option.map_eq_some_iff.mp hcall
  exact ⟨c, hc, hcapacity,
    (helper_buffers_fit 7 (some blank) false (by decide) (by decide)).1 _ _ _ c hc⟩

/-- **A request over the end of the stack buffer.**  The same request with `ipcs_request`. -/
theorem ipcs_request_overflows :
    ¬ ∀ (msgId : UInt32) (data : Option Mem) (size : ℕ) (response : Bool) (rsplen : ℕ),
      size < 2 ^ 31 → rsplen < 2 ^ 31 → ∀ heap alloc request c,
        ipcsRequest msgId data size response rsplen heap alloc request = some c →
          c.stored ≤ c.capacity := by
  intro h
  have hcall : (ipcsRequest 7 (some blank) 2000 false 0 blank true (fun m _ => (true, m))).map
      (fun c => (c.capacity, c.stored)) = some (1024, 2012) := by decide +kernel
  obtain ⟨c, hc, heq⟩ := Option.map_eq_some_iff.mp hcall
  obtain ⟨hcapacity, hstored⟩ := Prod.mk.inj heq
  have hle := h 7 (some blank) 2000 false 0 (by decide) (by decide) _ _ _ c hc
  omega

end Fits

end LinuxC.Ipc
