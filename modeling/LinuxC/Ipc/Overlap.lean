import LinuxC.Ipc.Bounds

/-!
# The copies inside of the receive buffer (`ipc/ipc_base.c`)

`find_msg` copies inside of its buffer in two places, both times to the start of the buffer and with
`memcpy`: a message that is not aligned, when there is no clone, and an unfinished message, when the
buffer is full.  The two ranges are apart exactly when the copy is not longer than the offset that
it is taken from.

`findMsgCopies` lists these calls; `copies_apart_iff` says for which contents of the buffer the
ranges of all of them are apart.
-/

namespace LinuxC.Ipc

/-- The arguments of a `memcpy` inside of the buffer, as offsets. -/
structure Copy where
  dest : ℕ
  src : ℕ
  len : ℕ
  deriving DecidableEq, Repr

/-- The two ranges have no byte in common. -/
def Copy.Apart (c : Copy) : Prop := ∀ i < c.len, ∀ j < c.len, c.dest + i ≠ c.src + j

instance (c : Copy) : Decidable c.Apart := inferInstanceAs (Decidable (∀ i < c.len, _))

/-- The copy at the label `__move`. -/
def moveCopies (buf : IpcBuf) : List Copy :=
  if buf.full ∧ buf.head ≠ 0 then [⟨0, buf.head, buf.tail - buf.head⟩] else []

/-- The copy of a message that is not aligned. -/
def handOutCopies (buf : IpcBuf) (clone : Option Mem) (msgLen : ℕ) : List Copy :=
  if clone.isNone ∧ buf.head % 4 ≠ 0 then [⟨0, buf.head, msgLen⟩] else []

/-- The copies of the loop of `find_msg`; `left` is an `int`. -/
def findMsgCopiesLoop : ℕ → IpcBuf → Option Mem → List Copy
  | 0, _, _ => []
  | fuel + 1, buf, clone =>
      if int32 (buf.tail - buf.head) ≤ 0 then []
      else if buf.tail - buf.head < ipcMsgHdrlen then moveCopies buf
      else if buf.tail - buf.head < ipcMsgHdrlen + dataLenAt buf.data buf.head then moveCopies buf
      else
        match friendly buf.data buf.head with
        | none =>
            findMsgCopiesLoop fuel
              { buf with head := buf.head + (ipcMsgHdrlen + dataLenAt buf.data buf.head) } clone
        | some _ => handOutCopies buf clone (ipcMsgHdrlen + dataLenAt buf.data buf.head)

/-- The copies of `find_msg` inside of the buffer. -/
def findMsgCopies (buf : IpcBuf) (clone : Option Mem) : List Copy :=
  findMsgCopiesLoop (buf.tail - buf.head + 1) buf clone

/-! ## The copies are those of `find_msg` -/

/-- The copies, made one after the other. -/
def copyAll (cs : List Copy) (m : Mem) : Mem :=
  cs.foldl (fun m c => m.copy c.dest c.src c.len) m

lemma data_moveFront (buf : IpcBuf) : (moveFront buf).data = copyAll (moveCopies buf) buf.data := by
  unfold moveFront moveCopies
  split_ifs <;> rfl

lemma data_handOut (buf : IpcBuf) (clone : Option Mem) (msgLen : ℕ) :
    (handOut buf clone msgLen).buf.data = copyAll (handOutCopies buf clone msgLen) buf.data := by
  unfold handOut handOutCopies
  cases clone with
  | some c =>
      have hclone : ¬ ((some c).isNone = true ∧ buf.head % 4 ≠ 0) := by simp
      rw [if_neg hclone]
      dsimp only
      split_ifs <;> rfl
  | none =>
      dsimp only
      split_ifs with h1 h2 h3
      · rfl
      · exact absurd ⟨rfl, h1⟩ h2
      · exact absurd h3.2 h1
      · rfl

lemma data_findMsgLoop (fuel : ℕ) (buf : IpcBuf) (clone : Option Mem)
    (h : buf.tail - buf.head < 2 ^ 31) :
    ∃ data, (data = buf.data ∨ ∃ a, friendly buf.data a = some data) ∧
      (findMsgLoop fuel buf clone).buf.data =
        copyAll (findMsgCopiesLoop fuel buf clone) data := by
  induction fuel generalizing buf with
  | zero => exact ⟨buf.data, .inl rfl, rfl⟩
  | succ fuel ih =>
      have hleft : int32 (buf.tail - buf.head) ≤ 0 ↔ buf.tail - buf.head = 0 := by
        rw [int32_of_lt_half h]
        omega
      rw [findMsgLoop, findMsgCopiesLoop]
      simp only [hleft]
      split_ifs
      · exact ⟨buf.data, .inl rfl, rfl⟩
      · exact ⟨buf.data, .inl rfl, data_moveFront buf⟩
      · exact ⟨buf.data, .inl rfl, data_moveFront buf⟩
      · cases hfr : friendly buf.data buf.head with
        | none =>
            have hskip : buf.tail -
                (buf.head + (ipcMsgHdrlen + dataLenAt buf.data buf.head)) < 2 ^ 31 := by omega
            obtain ⟨data, hdata, heq⟩ := ih { buf with
              head := buf.head + (ipcMsgHdrlen + dataLenAt buf.data buf.head) } hskip
            exact ⟨data, hdata, heq⟩
        | some data => exact ⟨data, .inr ⟨buf.head, hfr⟩, data_handOut ..⟩

/-- **The copies of `find_msg`** and the removal of the token are all that changes the buffer. -/
lemma data_findMsg {buf : IpcBuf} (clone : Option Mem) (h : buf.tail - buf.head < 2 ^ 31) :
    ∃ data, (data = buf.data ∨ ∃ a, friendly buf.data a = some data) ∧
      (findMsg buf clone).buf.data = copyAll (findMsgCopies buf clone) data :=
  data_findMsgLoop _ buf clone h

/-! ## Where the loop stops -/

lemma copy_apart_iff {src len : ℕ} : (⟨0, src, len⟩ : Copy).Apart ↔ len ≤ src := by
  constructor
  · intro h
    by_contra hlt
    exact h src (by simpa using hlt) 0 (by dsimp only; omega) (by simp)
  · intro h i hi j _
    dsimp only at hi ⊢
    omega

/-- What is left when the loop stops at the offset `n`: the copy that is made there is not longer
than `n`. -/
structure StopsApart (full : Bool) (clone : Option Mem) (n : ℕ) (rest : List UInt8) : Prop where
  /-- An unfinished message in a full buffer. -/
  unfinished : rest ≠ [] → Incomplete rest → full = true → n ≠ 0 → rest.length ≤ n
  /-- A message that is not aligned, without a clone. -/
  unaligned : ∀ (f : IpcMsg) more, rest = f.encode ++ more → f.Friendly → clone = none →
    n % 4 ≠ 0 → f.length ≤ n

/-- Wherever the loop stops, behind messages without the token, the copy is not too long. -/
def CopiesFit (buf : IpcBuf) (clone : Option Mem) : Prop :=
  ∀ us rest, buf.pending = wire us ++ rest → (∀ u ∈ us, ¬ u.Friendly) →
    StopsApart buf.full clone (buf.head + (wire us).length) rest

lemma not_incomplete_append (f : IpcMsg) (rest : List UInt8) : ¬ Incomplete (f.encode ++ rest) := by
  have hhdr := f.hdrlen_le_length
  have hlen : (f.encode ++ rest).length = f.length + rest.length := by
    rw [List.length_append, IpcMsg.length_encode]
  have hfield : leNat (((f.encode ++ rest).drop 10).take 2) = f.dataLen := by
    have hread := Mem.read_write_self (fun _ => 0) 0 (f.encode ++ rest)
      (n := (f.encode ++ rest).length) rfl
    have hf := read_sub hread (k := 0) (l := f.length) (by omega)
    rw [Nat.add_zero, List.drop_zero, List.take_left' f.length_encode] at hf
    have hmsg := hdrlen_add_dataLenAt hf
    rw [dataLenAt, read_sub hread (by simp only [ipcMsgHdrlen] at hhdr; omega), IpcMsg.length]
      at hmsg
    omega
  rintro (h | h)
  · omega
  · rw [hfield, hlen, IpcMsg.length] at h
    omega

/-- What is pending is nothing, an unfinished message, or begins with a message. -/
lemma pending_cases (buf : IpcBuf) :
    buf.pending = [] ∨ (buf.pending ≠ [] ∧ Incomplete buf.pending) ∨
      ∃ f rest, buf.pending = IpcMsg.encode f ++ rest := by
  by_cases hnil : buf.pending = []
  · exact .inl hnil
  · by_cases hinc : Incomplete buf.pending
    · exact .inr (.inl ⟨hnil, hinc⟩)
    · rw [Incomplete, not_or, not_lt, not_lt] at hinc
      rw [← dataLenAt_head buf hinc.1, IpcBuf.length_pending] at hinc
      obtain ⟨rest, hrest⟩ := read_eq_message hinc.2
      exact .inr (.inr ⟨_, rest, hrest⟩)

section Stops

variable {buf : IpcBuf} {clone : Option Mem}

lemma left_pos (h : buf.tail - buf.head < 2 ^ 31) (hne : buf.pending ≠ []) :
    ¬ int32 (buf.tail - buf.head) ≤ 0 := by
  have hpos : 0 < buf.pending.length := List.length_pos_iff.mpr hne
  rw [IpcBuf.length_pending] at hpos
  rw [int32_of_lt_half h]
  omega

lemma findMsgCopiesLoop_empty (fuel : ℕ) (h : buf.pending = []) :
    findMsgCopiesLoop fuel buf clone = [] := by
  have hlen := congrArg List.length h
  rw [IpcBuf.length_pending, List.length_nil] at hlen
  cases fuel with
  | zero => rfl
  | succ fuel =>
      rw [findMsgCopiesLoop, hlen, if_pos]
      decide

lemma findMsgCopiesLoop_incomplete (fuel : ℕ) (hleft : buf.tail - buf.head < 2 ^ 31)
    (hne : buf.pending ≠ []) (h : Incomplete buf.pending) :
    findMsgCopiesLoop (fuel + 1) buf clone = moveCopies buf := by
  rw [findMsgCopiesLoop, if_neg (left_pos hleft hne)]
  split_ifs with hhdr hlen
  · rfl
  · rfl
  · rw [Incomplete, ← dataLenAt_head buf (by rw [IpcBuf.length_pending]; omega),
      IpcBuf.length_pending] at h
    omega

lemma findMsgCopiesLoop_message (fuel : ℕ) (hleft : buf.tail - buf.head < 2 ^ 31) {f : IpcMsg}
    {rest : List UInt8} (h : buf.pending = f.encode ++ rest) :
    findMsgCopiesLoop (fuel + 1) buf clone =
      if f.Friendly then handOutCopies buf clone f.length
      else findMsgCopiesLoop fuel { buf with head := buf.head + f.length } clone := by
  obtain ⟨hle, hread, -⟩ := pending_advance h
  have hhdr := f.hdrlen_le_length
  have hmsg := hdrlen_add_dataLenAt hread
  have hne : buf.pending ≠ [] := by
    rw [← List.length_pos_iff, IpcBuf.length_pending]
    have := f.length_pos
    omega
  rw [findMsgCopiesLoop, if_neg (left_pos hleft hne), if_neg (by omega), if_neg (by omega), hmsg]
  split_ifs with hf
  · obtain ⟨data, hfriendly, -⟩ := friendly_of_friendly hread hf
    rw [hfriendly]
  · rw [friendly_of_not_friendly hread hf]

lemma copiesFit_empty (h : buf.pending = []) : CopiesFit buf clone := by
  intro us rest heq _
  rw [h, eq_comm, List.append_eq_nil_iff] at heq
  refine ⟨fun hne => absurd heq.2 hne, fun f more hrest => ?_⟩
  have hlen := congrArg List.length (heq.2.symm.trans hrest)
  have hpos := f.length_pos
  rw [List.length_append, IpcMsg.length_encode, List.length_nil] at hlen
  omega

lemma copiesFit_incomplete (hne : buf.pending ≠ []) (h : Incomplete buf.pending) :
    CopiesFit buf clone ↔
      (buf.full = true → buf.head ≠ 0 → buf.pending.length ≤ buf.head) := by
  constructor
  · intro hfit hfull hhead
    simpa using (hfit [] _ rfl (by simp)).unfinished hne h hfull (by simpa using hhead)
  · intro hfit us rest heq _
    cases us with
    | cons u us =>
        rw [wire_cons, List.append_assoc] at heq
        exact absurd (heq ▸ h) (not_incomplete_append _ _)
    | nil =>
        rw [wire_nil, List.nil_append] at heq
        subst heq
        refine ⟨fun _ _ hfull hhead => ?_, fun f more hrest => ?_⟩
        · simpa using hfit hfull (by simpa using hhead)
        · exact absurd (hrest ▸ h) (not_incomplete_append _ _)

/-- A message with the token at the head of the queue. -/
lemma copiesFit_friendly {f : IpcMsg} {rest : List UInt8} (h : buf.pending = f.encode ++ rest)
    (hf : f.Friendly) :
    CopiesFit buf clone ↔ (clone = none → buf.head % 4 ≠ 0 → f.length ≤ buf.head) := by
  constructor
  · intro hfit hclone halign
    simpa using (hfit [] _ rfl (by simp)).unaligned f rest h hf hclone (by simpa using halign)
  · intro hfit us rest' heq hus
    cases us with
    | cons u us =>
        rw [h, wire_cons, List.append_assoc] at heq
        exact absurd (eq_of_encode_append heq ▸ hf) (hus u (by simp))
    | nil =>
        rw [wire_nil, List.nil_append] at heq
        subst heq
        refine ⟨fun _ hinc => ?_, fun g more hrest _ hclone halign => ?_⟩
        · exact absurd (h ▸ hinc) (not_incomplete_append _ _)
        · obtain rfl := eq_of_encode_append (h.symm.trans hrest)
          simpa using hfit hclone (by simpa using halign)

lemma copiesFit_unfriendly {f : IpcMsg} {rest : List UInt8} (h : buf.pending = f.encode ++ rest)
    (hf : ¬ f.Friendly) :
    CopiesFit buf clone ↔ CopiesFit { buf with head := buf.head + f.length } clone := by
  obtain ⟨-, -, hrest⟩ := pending_advance h
  have hskip : IpcBuf.pending { buf with head := buf.head + f.length } = rest := hrest
  constructor
  · intro hfit us rest' heq hus
    rw [hskip] at heq
    have hstop := hfit (f :: us) rest' (by rw [h, heq, wire_cons, List.append_assoc]) (by
      simpa [hf] using hus)
    rw [wire_cons, List.length_append, IpcMsg.length_encode, ← Nat.add_assoc] at hstop
    exact hstop
  · intro hfit us rest' heq hus
    cases us with
    | nil =>
        rw [wire_nil, List.nil_append, h] at heq
        subst heq
        refine ⟨fun _ hinc => absurd hinc (not_incomplete_append _ _), fun g more hg hfriendly => ?_⟩
        exact absurd (eq_of_encode_append hg ▸ hfriendly) hf
    | cons u us =>
        rw [h, wire_cons, List.append_assoc] at heq
        obtain rfl := eq_of_encode_append heq
        have hstop := hfit us rest' (hskip.trans (List.append_cancel_left heq))
          fun v hv => hus v (by simp [hv])
        rw [wire_cons, List.length_append, IpcMsg.length_encode, ← Nat.add_assoc]
        exact hstop

end Stops

/-- **The loop**, by induction on its passes. -/
lemma copiesLoop_apart_iff (fuel : ℕ) (buf : IpcBuf) (clone : Option Mem)
    (hleft : buf.tail - buf.head < 2 ^ 31) (hfuel : buf.tail - buf.head < fuel) :
    (∀ c ∈ findMsgCopiesLoop fuel buf clone, c.Apart) ↔ CopiesFit buf clone := by
  induction fuel generalizing buf with
  | zero => omega
  | succ fuel ih =>
      obtain hnil | ⟨hne, hinc⟩ | ⟨f, rest, h⟩ := pending_cases buf
      · rw [findMsgCopiesLoop_empty _ hnil]
        simpa using copiesFit_empty hnil
      · rw [findMsgCopiesLoop_incomplete fuel hleft hne hinc, copiesFit_incomplete hne hinc,
          moveCopies]
        split_ifs with hmove
        · simp [copy_apart_iff, hmove.1, hmove.2]
        · simp only [List.not_mem_nil, false_implies, implies_true, true_iff]
          exact fun hfull hhead => absurd ⟨hfull, hhead⟩ hmove
      · rw [findMsgCopiesLoop_message fuel hleft h]
        split_ifs with hf
        · rw [copiesFit_friendly h hf, handOutCopies]
          split_ifs with hcopy
          · have hclone : clone = none := Option.isNone_iff_eq_none.mp hcopy.1
            simp [copy_apart_iff, hclone, hcopy.2]
          · simp only [List.not_mem_nil, false_implies, implies_true, true_iff]
            exact fun hclone halign => absurd ⟨by rw [hclone]; rfl, halign⟩ hcopy
        · rw [copiesFit_unfriendly h hf]
          have hpos := f.length_pos
          obtain ⟨hle, -, -⟩ := pending_advance h
          apply ih
          · change buf.tail - (buf.head + f.length) < 2 ^ 31
            omega
          · change buf.tail - (buf.head + f.length) < fuel
            omega

/-- **When the copies inside of the buffer are between disjoint ranges**: wherever the loop stops,
the unfinished or unaligned message that is copied there is not longer than the offset at which it
lies.  With 2 GiB or more in the buffer `left` is negative and nothing is copied. -/
theorem copies_apart_iff (buf : IpcBuf) (clone : Option Mem) (hok : buf.Ok)
    (hsize : buf.size < 2 ^ 32) :
    (buf.pending.length < 2 ^ 31 →
      ∃ data, (data = buf.data ∨ ∃ a, friendly buf.data a = some data) ∧
        (findMsg buf clone).buf.data = copyAll (findMsgCopies buf clone) data) ∧
    ((∀ c ∈ findMsgCopies buf clone, c.Apart) ↔
      (buf.pending.length < 2 ^ 31 → CopiesFit buf clone)) := by
  rw [IpcBuf.length_pending]
  refine ⟨data_findMsg clone, ?_⟩
  by_cases hleft : buf.tail - buf.head < 2 ^ 31
  · rw [findMsgCopies, copiesLoop_apart_iff _ buf clone hleft (Nat.lt_succ_self _)]
    exact ⟨fun h _ => h, fun h => h hleft⟩
  · have htail := hok.tail_le
    have hneg : int32 (buf.tail - buf.head) < 0 := int32_neg (by omega) (by omega)
    rw [findMsgCopies, findMsgCopiesLoop, if_pos hneg.le]
    exact ⟨fun _ hlt => absurd hlt hleft, fun _ c hc => absurd hc List.not_mem_nil⟩

/-- Two messages with the token, of 13 and of 14 bytes. -/
def oddFrames : List UInt8 :=
  [9, 0, 0, 0, 1, 0, 0xCE, 0x56, 0, 0, 1, 0, 7, 9, 0, 0, 0, 2, 0, 0xCE, 0x56, 0, 0, 2, 0, 7, 8]

/-- The buffer of a subscriber that has received them. -/
def oddBuf : IpcBuf := ⟨0, 27, 64, Mem.write (fun _ => 0) 0 oddFrames⟩

/-- Two messages of 13 bytes, of which the first one has been taken. -/
def evenBuf : IpcBuf := ⟨13, 26, 64, Mem.write (fun _ => 0) 0
  [9, 0, 0, 0, 1, 0, 0xCE, 0x56, 0, 0, 1, 0, 7, 9, 0, 0, 0, 2, 0, 0xCE, 0x56, 0, 0, 1, 0, 8]⟩

/-- The second one is not aligned, and is copied to the start of the buffer, up to where it lay. -/
theorem copies_apart_sample : findMsgCopies evenBuf none = [⟨0, 13, 13⟩] ∧
    (∃ data, (data = evenBuf.data ∨ ∃ a, friendly evenBuf.data a = some data) ∧
      (findMsg evenBuf none).buf.data = copyAll [⟨0, 13, 13⟩] data) ∧ CopiesFit evenBuf none := by
  have hok : evenBuf.Ok := ⟨by decide, by decide⟩
  have hcopies : findMsgCopies evenBuf none = [⟨0, 13, 13⟩] := by decide +kernel
  have hapart : ∀ c ∈ findMsgCopies evenBuf none, c.Apart := by
    rw [hcopies]
    decide
  have hpending : evenBuf.pending.length < 2 ^ 31 := by decide
  obtain ⟨hdata, hfit⟩ := copies_apart_iff evenBuf none hok (by decide)
  exact ⟨hcopies, hcopies ▸ hdata hpending, hfit.mp hapart hpending⟩

/-- **Ranges that overlap.**  The second message lies at the offset 13 and is 14 bytes long. -/
theorem copies_overlap :
    ¬ ∀ (buf : IpcBuf) (clone : Option Mem), buf.Ok → buf.size < 2 ^ 32 →
      ∀ c ∈ findMsgCopies buf clone, c.Apart := by
  intro h
  have hcopies : findMsgCopies (findMsg oddBuf none).buf none = [⟨0, 13, 14⟩] := by decide +kernel
  have hindices : (findMsg oddBuf none).buf.head = 13 ∧ (findMsg oddBuf none).buf.tail = 27 ∧
      (findMsg oddBuf none).buf.size = 64 := by decide +kernel
  have hok : (findMsg oddBuf none).buf.Ok := ⟨by omega, by omega⟩
  have hapart := h _ none hok (by omega) ⟨0, 13, 14⟩ (by rw [hcopies]; simp)
  rw [copy_apart_iff] at hapart
  omega

end LinuxC.Ipc
