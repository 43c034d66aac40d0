import LinuxC.Framework.ByteMemory
import LinuxC.Common.CString
import Mathlib.Algebra.BigOperators.Group.List.Basic

/-!
# The registration of events (`uapi/uapi_client.c`, `uapi/broker.c`)

A client registers for events with a `struct uapi_register`: the number of the events, and their
names with a tab after each; a zero takes the place of the last tab.  `uapi_event_register` writes it
into an array of 1024 bytes on its stack, and when a name does not fit it goes on in a buffer from
`realloc`, which it makes twice as large each time.  `uapi_broker_subscriber_register` takes the
names apart again.

The contents of memory that was not written are arbitrary.  Allocations succeed, the client has not
registered before, and the table of its own events is left out.  `registration_round_trip` says when
the broker finds the names of the client: `realloc` is first called with `NULL`, and so what the
array on the stack holds is not copied.
-/

namespace LinuxC.Uapi

/-- `UAPI_EVENT_DELIMITER`, a tab. -/
def uapiEventDelimiter : UInt8 := 9

def uapiEventMaxLength : ℕ := 31

/-- `sizeof(struct uapi_register)`. -/
def registerHdrlen : ℕ := 4

/-! ## The client -/

/-- `snprintf` with the text `s` into `n` bytes at `a`. -/
def snprintf (m : Mem) (a n : ℕ) (s : List UInt8) : Mem :=
  if n = 0 then m else m.write a (s.take (n - 1) ++ [0])

/-- The variables of `uapi_event_register`; `alloc` says that `buf` is the allocated buffer. -/
structure Encoder where
  buf : Mem
  size : ℕ
  offs : ℕ
  alloc : Bool

/-- `realloc(alloc, size << 1)`; `fresh` is what new memory holds. -/
def Encoder.grow (fresh : ℕ → Mem) (e : Encoder) : Encoder :=
  { e with
    buf := fun i => if e.alloc ∧ i < e.size then e.buf i else fresh (2 * e.size) i
    size := 2 * e.size
    alloc := true }

def eventText (name : List UInt8) : List UInt8 := name ++ [uapiEventDelimiter]

/-- A name is written at the end. -/
def Encoder.put (name : List UInt8) (e : Encoder) : Encoder :=
  { e with buf := snprintf e.buf e.offs (e.size - e.offs) (eventText name) }

/-- `offs += ssize`. -/
def Encoder.advance (ssize : ℕ) (e : Encoder) : Encoder := { e with offs := e.offs + ssize }

/-- The loop of `uapi_event_register`; `none` is its error, or too few rounds. -/
def registerLoop (fresh : ℕ → Mem) : ℕ → List (List UInt8) → Encoder → Option Encoder
  | _, [], e => some e
  | 0, _ :: _, _ => none
  | rounds + 1, name :: names, e =>
      if uapiEventMaxLength < name.length then none
      else
        let e := e.put name
        let ssize := (eventText name).length
        if e.offs + ssize < e.size then registerLoop fresh rounds names (e.advance ssize)
        else registerLoop fresh rounds (name :: names) (e.grow fresh)

/-- The count is written into the array on the stack. -/
def Encoder.start (stack : Mem) (names : List (List UInt8)) : Encoder :=
  ⟨stack.write 0 (toLE 4 names.length), 1024, registerHdrlen, false⟩

/-- The last delimiter becomes a zero. -/
def Encoder.payload (e : Encoder) : List UInt8 := (e.buf.write (e.offs - 1) [0]).read 0 e.offs

/-- `uapi_event_register` up to the call of `ipc_subscriber_register`: the payload of the
registration.  A name takes two rounds at most. -/
def uapiEventRegister (stack : Mem) (fresh : ℕ → Mem) (names : List (List UInt8)) :
    Option (List UInt8) :=
  (registerLoop fresh (2 * names.length) names (.start stack names)).map Encoder.payload

/-! ## The broker -/

/-- A number of 32 bits as an `int`. -/
def int32 (v : ℕ) : ℤ := if v < 2 ^ 31 then v else v - 2 ^ 32

/-- `struct uapi_register`; the events are a string. -/
structure UapiRegister where
  count : ℤ
  events : List UInt8

/-- What a `struct uapi_register *` shows. -/
def UapiRegister.ofData (data : List UInt8) : UapiRegister :=
  ⟨int32 (leNat (data.take 4)), (data.drop registerHdrlen).takeWhile (· ≠ 0)⟩

/-- The names that the loop of `uapi_broker_subscriber_register` meets, in at most `n` rounds. -/
def eventNames : ℕ → List UInt8 → List (List UInt8)
  | 0, _ => []
  | n + 1, event =>
      -- `strchr`; without a delimiter the round is the last
      if uapiEventDelimiter ∈ event then
        event.takeWhile (· ≠ uapiEventDelimiter) ::
          eventNames n (event.dropWhile (· ≠ uapiEventDelimiter)).tail
      else [event]

/-- The names of a registration. -/
def UapiRegister.names (r : UapiRegister) : List (List UInt8) := eventNames r.count.toNat r.events

/-! ## The round trip -/

/-- Names that the request can tell apart: none is longer than an event's name may be, and none
contains the delimiter or a zero. -/
def Registrable (names : List (List UInt8)) : Prop :=
  ∀ name ∈ names, name.length ≤ uapiEventMaxLength ∧ 0 ∉ name ∧ uapiEventDelimiter ∉ name

/-- The length of the names with their delimiters. -/
def textLength (names : List (List UInt8)) : ℕ := (names.map fun name => name.length + 1).sum

@[simp] lemma length_eventText (name : List UInt8) : (eventText name).length = name.length + 1 := by
  simp [eventText]

lemma textLength_cons (name : List UInt8) (names : List (List UInt8)) :
    textLength (name :: names) = name.length + 1 + textLength names := by
  simp [textLength]

lemma length_le_textLength (names : List (List UInt8)) : names.length ≤ textLength names := by
  induction names with
  | nil => exact Nat.zero_le _
  | cons name names ih =>
      rw [textLength_cons, List.length_cons]
      omega

lemma read_snprintf_below (m : Mem) {a n k : ℕ} (text : List UInt8) (h : k ≤ a) :
    (snprintf m a n text).read 0 k = m.read 0 k := by
  unfold snprintf
  split_ifs
  · rfl
  · exact m.read_write_below _ (by omega)

lemma read_snprintf (m : Mem) {a n : ℕ} {text : List UInt8} (h : text.length < n) :
    (snprintf m a n text).read 0 (a + text.length) = m.read 0 a ++ text := by
  unfold snprintf
  rw [if_neg (by omega), List.take_of_length_le (by omega), Mem.read_add, Nat.zero_add,
    m.read_write_below _ (by omega)]
  congr 1
  have hself := Mem.read_write_self m a (text ++ [0]) rfl
  rw [List.length_append, Mem.read_add] at hself
  exact (List.append_inj hself (by simp)).1

section Loop

variable {fresh : ℕ → Mem} {name : List UInt8} {names : List (List UInt8)} {rounds : ℕ}
  {e : Encoder}

lemma registerLoop_fit (hname : name.length ≤ uapiEventMaxLength)
    (hfit : e.offs + (name.length + 1) < e.size) :
    registerLoop fresh (rounds + 1) (name :: names) e =
      registerLoop fresh rounds names ((e.put name).advance (name.length + 1)) := by
  rw [registerLoop, if_neg (by omega), length_eventText]
  exact if_pos hfit

lemma registerLoop_grow (hname : name.length ≤ uapiEventMaxLength)
    (hfit : ¬ e.offs + (name.length + 1) < e.size) :
    registerLoop fresh (rounds + 1) (name :: names) e =
      registerLoop fresh rounds (name :: names) ((e.put name).grow fresh) := by
  rw [registerLoop, if_neg (by omega), length_eventText]
  exact if_neg hfit

/-- **Names that fit** are written one after the other. -/
lemma registerLoop_fits (hnames : Registrable names) (hrounds : names.length ≤ rounds)
    (hfits : e.offs + textLength names < e.size) :
    ∃ e', registerLoop fresh rounds names e = some e' ∧ e'.offs = e.offs + textLength names ∧
      e'.buf.read 0 e'.offs = e.buf.read 0 e.offs ++ names.flatMap eventText := by
  induction names generalizing rounds e with
  | nil => exact ⟨e, by simp [registerLoop], by simp [textLength], by simp⟩
  | cons name names ih =>
      rw [List.length_cons] at hrounds
      obtain ⟨rounds, rfl⟩ : ∃ n, rounds = n + 1 := ⟨rounds - 1, by omega⟩
      rw [textLength_cons] at hfits ⊢
      have hfit : e.offs + (name.length + 1) < e.size := by omega
      rw [registerLoop_fit (hnames name (by simp)).1 hfit]
      have hput : (e.put name).buf.read 0 (e.offs + (eventText name).length) =
          e.buf.read 0 e.offs ++ eventText name :=
        read_snprintf _ (by rw [length_eventText]; omega)
      have hrounds' : names.length ≤ rounds := by omega
      obtain ⟨e', hloop, hoffs, hread⟩ := ih (e := (e.put name).advance (name.length + 1))
        (fun n hn => hnames n (by simp [hn])) hrounds'
        (by change e.offs + (name.length + 1) + _ < e.size; omega)
      refine ⟨e', hloop, hoffs.trans (Nat.add_assoc ..), hread.trans ?_⟩
      change (e.put name).buf.read 0 (e.offs + (name.length + 1)) ++ _ = _
      rw [← length_eventText, hput, List.flatMap_cons, List.append_assoc]

/-- The buffer is the array on the stack, or the count in it is zero. -/
def Blank (e : Encoder) : Prop := e.alloc = true → e.buf.read 0 4 = [0, 0, 0, 0]

lemma Blank.put (h : Blank e) (hhdr : 4 ≤ e.offs) (name : List UInt8) : Blank (e.put name) :=
  fun halloc => (read_snprintf_below _ _ hhdr).trans (h halloc)

lemma Blank.grow (h : Blank e) (hhdr : 4 ≤ e.size)
    (hfresh : ∀ n, (fresh n).read 0 4 = [0, 0, 0, 0]) : Blank (e.grow fresh) := by
  intro _
  by_cases halloc : e.alloc = true
  · refine (Mem.read_congr fun i _ hi => ?_).trans (h halloc)
    exact if_pos ⟨halloc, by omega⟩
  · refine (Mem.read_congr fun i _ _ => ?_).trans (hfresh (2 * e.size))
    exact if_neg fun hc => halloc hc.1

/-- **The loop ends**: after the first name that does not fit the buffer is an allocated one, and
the bytes of the count are what was in the new memory. -/
lemma registerLoop_ends (hnames : Registrable names) (hrounds : 2 * names.length ≤ rounds)
    (hoffs : e.offs < e.size) (hhdr : 4 ≤ e.offs) (hsize : 1024 ≤ e.size)
    (hfresh : ∀ n, (fresh n).read 0 4 = [0, 0, 0, 0]) (hblank : Blank e) :
    ∃ e', registerLoop fresh rounds names e = some e' ∧ e'.offs = e.offs + textLength names ∧
      e'.offs < e'.size ∧ (e'.alloc = false → e.alloc = false ∧ e'.size = e.size) ∧ Blank e' := by
  induction names generalizing rounds e with
  | nil =>
      exact ⟨e, by simp [registerLoop], by simp [textLength], hoffs, fun h => ⟨h, rfl⟩, hblank⟩
  | cons name names ih =>
      rw [List.length_cons] at hrounds
      obtain ⟨rounds, rfl⟩ : ∃ n, rounds = n + 2 := ⟨rounds - 2, by omega⟩
      have hname := (hnames name (by simp)).1
      have hlen : name.length ≤ 31 := hname
      have hnames' : Registrable names := fun n hn => hnames n (by simp [hn])
      rw [textLength_cons]
      by_cases hfit : e.offs + (name.length + 1) < e.size
      · have hrounds' : 2 * names.length ≤ rounds + 1 := by omega
        rw [registerLoop_fit hname hfit]
        obtain ⟨e', hloop, hoffs', hlt, hstack, hblank'⟩ := ih
          (e := (e.put name).advance (name.length + 1)) hnames' hrounds' hfit
          (Nat.le_add_right_of_le hhdr) hsize (hblank.put hhdr name)
        exact ⟨e', hloop, hoffs'.trans (Nat.add_assoc ..), hlt, hstack, hblank'⟩
      · -- the name fits into the larger buffer
        have hfit₂ : e.offs + (name.length + 1) < 2 * e.size := by omega
        rw [registerLoop_grow hname hfit, registerLoop_fit hname hfit₂]
        have hgrown : Blank ((e.put name).grow fresh) :=
          (hblank.put hhdr name).grow (by change 4 ≤ e.size; omega) hfresh
        have hrounds' : 2 * names.length ≤ rounds := by omega
        obtain ⟨e', hloop, hoffs', hlt, hstack, hblank'⟩ := ih
          (e := (((e.put name).grow fresh).put name).advance (name.length + 1)) hnames' hrounds'
          hfit₂ (Nat.le_add_right_of_le hhdr) (by change 1024 ≤ 2 * e.size; omega)
          (hgrown.put hhdr name)
        refine ⟨e', hloop, hoffs'.trans (Nat.add_assoc ..), hlt, fun hfalse => ?_, hblank'⟩
        have hgrew := (hstack hfalse).1
        cases hgrew

end Loop

section Decoding

variable {name : List UInt8} {names : List (List UInt8)}

lemma dropWhile_append_stop {b : UInt8} {s rest : List UInt8} (h : b ∉ s) :
    (s ++ b :: rest).dropWhile (· ≠ b) = b :: rest := by
  rw [List.dropWhile_append_of_pos]
  · simp
  · intro c hc
    simp only [decide_eq_true_eq]
    rintro rfl
    exact h hc

lemma eventNames_intercalate (hne : names ≠ []) (hnames : Registrable names) :
    eventNames names.length ([uapiEventDelimiter].intercalate names) = names := by
  induction names with
  | nil => exact absurd rfl hne
  | cons name names ih =>
      have hname := (hnames name (by simp)).2.2
      by_cases hlast : names = []
      · subst hlast
        rw [List.intercalate_singleton, List.length_singleton, eventNames, if_neg hname]
      · have htail := ih hlast fun n hn => hnames n (List.mem_cons_of_mem _ hn)
        rw [List.intercalate_cons_of_ne_nil hlast, List.length_cons, List.append_assoc,
          List.singleton_append, eventNames, if_pos (by simp), takeWhile_append_stop hname,
          dropWhile_append_stop hname, List.tail_cons, htail]

lemma dropLast_flatMap_eventText (hne : names ≠ []) :
    (names.flatMap eventText).dropLast = [uapiEventDelimiter].intercalate names := by
  induction names with
  | nil => exact absurd rfl hne
  | cons name names ih =>
      by_cases hlast : names = []
      · subst hlast
        simp [eventText]
      · have hsome : names.flatMap eventText ≠ [] := by
          intro hnil
          obtain ⟨second, rest, rfl⟩ := List.exists_cons_of_ne_nil hlast
          simp [eventText] at hnil
        rw [List.intercalate_cons_of_ne_nil hlast, List.flatMap_cons,
          List.dropLast_append_of_ne_nil hsome, ih hlast]
        rfl

lemma zero_notMem_intercalate (hnames : Registrable names) :
    0 ∉ [uapiEventDelimiter].intercalate names := by
  induction names with
  | nil => simp
  | cons name names ih =>
      have hname := (hnames name (by simp)).2.1
      by_cases hlast : names = []
      · subst hlast
        rwa [List.intercalate_singleton]
      · have htail := ih fun n hn => hnames n (List.mem_cons_of_mem _ hn)
        rw [List.intercalate_cons_of_ne_nil hlast]
        simp only [List.mem_append, not_or]
        exact ⟨⟨hname, by decide⟩, htail⟩

lemma int32_of_lt {v : ℕ} (h : v < 2 ^ 31) : int32 v = v := if_pos h

/-- What the broker sees of a payload that was built in one piece. -/
lemma ofData_payload (hne : names ≠ []) (hnames : Registrable names)
    (hcount : names.length < 2 ^ 31) (rest : List UInt8) :
    let r := UapiRegister.ofData
      (toLE 4 names.length ++ ((names.flatMap eventText).dropLast ++ 0 :: rest))
    r.count = names.length ∧ r.names = names := by
  intro r
  have hcnt : r.count = names.length := by
    change int32 (leNat ((toLE 4 names.length ++ _).take 4)) = _
    rw [List.take_left' (length_toLE ..), leNat_toLE_of_lt (by omega), int32_of_lt hcount]
  have hev : r.events = [uapiEventDelimiter].intercalate names := by
    change ((toLE 4 names.length ++ _).drop 4).takeWhile _ = _
    rw [List.drop_left' (length_toLE ..), dropLast_flatMap_eventText hne,
      takeWhile_append_stop (zero_notMem_intercalate hnames)]
  refine ⟨hcnt, ?_⟩
  rw [UapiRegister.names, hcnt, hev, Int.toNat_natCast, eventNames_intercalate hne hnames]

/-- The broker finds the names, and their number, whatever the memory holds that the client has not
written. -/
def RoundTrips (names : List (List UInt8)) : Prop :=
  ∀ (stack : Mem) (fresh : ℕ → Mem) (rest : List UInt8),
    ∃ data, uapiEventRegister stack fresh names = some data ∧
      (UapiRegister.ofData (data ++ rest)).count = names.length ∧
      (UapiRegister.ofData (data ++ rest)).names = names

lemma read_terminated (m : Mem) {n : ℕ} (h : 0 < n) :
    (m.write (n - 1) [0]).read 0 n = (m.read 0 n).dropLast ++ [0] := by
  have hinside := m.read_write_inside 0 (n - 1) [0] (n := n) (by simp; omega)
  rw [Nat.zero_add] at hinside
  rw [hinside, List.dropLast_eq_take, Mem.length_read, Mem.take_read _ _ (by omega)]
  simp [show n - (n - 1 + 1) = 0 by omega]

/-- **What fits on the stack round-trips.** -/
lemma roundTrips_of_fits (hnames : Registrable names)
    (hfits : registerHdrlen + textLength names < 1024) : RoundTrips names := by
  intro stack fresh rest
  have hcount : names.length < 2 ^ 31 := by
    have hle := length_le_textLength names
    omega
  have hrounds : names.length ≤ 2 * names.length := by omega
  obtain ⟨e, hloop, hoffs, hread⟩ := registerLoop_fits (e := .start stack names) hnames hrounds hfits
  have hpos : 0 < e.offs := by
    rw [hoffs]
    exact Nat.lt_add_right _ (by decide : 0 < registerHdrlen)
  have hhead : (Encoder.start stack names).buf.read 0 (Encoder.start stack names).offs =
      toLE 4 names.length := Mem.read_write_self stack 0 _ (length_toLE 4 names.length).symm
  refine ⟨e.payload, by rw [uapiEventRegister, hloop, Option.map_some], ?_⟩
  rw [Encoder.payload, read_terminated _ hpos, hread, hhead]
  by_cases hne : names = []
  · subst hne
    exact ⟨rfl, rfl⟩
  · have hsome : names.flatMap eventText ≠ [] := by
      intro hnil
      obtain ⟨name, names', rfl⟩ := List.exists_cons_of_ne_nil hne
      simp [eventText] at hnil
    rw [List.dropLast_append_of_ne_nil hsome, List.append_assoc, List.append_assoc]
    exact ofData_payload hne hnames hcount rest

def zeros : Mem := fun _ => 0

/-- New memory that is zero. -/
def freshZeros : ℕ → Mem := fun _ => zeros

/-- **What does not fit on the stack loses the count.** -/
lemma not_roundTrips_of_not_fits (hnames : Registrable names)
    (hfits : ¬ registerHdrlen + textLength names < 1024) : ¬ RoundTrips names := by
  intro h
  obtain ⟨data, hdata, hcnt, -⟩ := h zeros freshZeros []
  have hstart : Blank (.start zeros names) := fun hf => by cases hf
  have hfresh : ∀ n, (freshZeros n).read 0 4 = [0, 0, 0, 0] := fun _ => rfl
  obtain ⟨e, hloop, hoffs, hlt, hstack, hblank⟩ := registerLoop_ends (e := .start zeros names)
    hnames (le_refl _) (by decide : registerHdrlen < 1024) (le_refl registerHdrlen) (le_refl _)
    hfresh hstart
  have halloc : e.alloc = true := by
    by_contra hfalse
    have hsize : e.size = 1024 := (hstack (by simpa using hfalse)).2
    rw [hoffs, hsize] at hlt
    exact hfits hlt
  have hoffs' : e.offs = 4 + textLength names := hoffs
  replace hfits : ¬ 4 + textLength names < 1024 := hfits
  rw [uapiEventRegister, hloop, Option.map_some] at hdata
  obtain rfl := Option.some.inj hdata
  have hzero : (e.payload ++ []).take 4 = [0, 0, 0, 0] := by
    rw [List.append_nil, Encoder.payload, Mem.take_read _ _ (by omega),
      Mem.read_write_below _ _ (by omega)]
    exact hblank halloc
  change int32 (leNat (List.take 4 _)) = _ at hcnt
  rw [hzero] at hcnt
  have hnone : (0 : ℤ) = names.length := hcnt
  have hempty : names = [] := List.eq_nil_of_length_eq_zero (by omega)
  subst hempty
  exact hfits (by decide)

/-- **Registrations round-trip exactly when they fit.**  For names of at most 31 characters without
tab and zero, the broker parses the payload of `uapi_event_register` into these names, in this
order, and into their number, if and only if the payload is shorter than the array on the stack. -/
theorem registration_round_trip (hnames : Registrable names) :
    RoundTrips names ↔ registerHdrlen + textLength names < 1024 := by
  constructor
  · intro h
    by_contra hfits
    exact not_roundTrips_of_not_fits hnames hfits h
  · exact roundTrips_of_fits hnames

end Decoding

/-- Two events, `a` and `bc`. -/
theorem registration_round_trip_sample :
    Registrable [[97], [98, 99]] ∧ RoundTrips [[97], [98, 99]] := by
  have hnames : Registrable [[97], [98, 99]] := by
    unfold Registrable
    decide
  exact ⟨hnames, (registration_round_trip hnames).mpr (by decide)⟩

/-- Thirty-two different names of 31 characters. -/
def longNames : List (List UInt8) :=
  (List.range 32).map fun i => List.replicate 30 97 ++ [UInt8.ofNat (65 + i)]

/-- **A registration that is lost.**  The last of thirty-two names of 31 characters does not fit on
the stack; when the new memory is zero the broker sees a count of zero. -/
theorem registration_lost :
    ¬ ∀ names : List (List UInt8), Registrable names → RoundTrips names := by
  intro h
  have hnames : Registrable longNames := by
    unfold Registrable
    decide +kernel
  exact not_roundTrips_of_not_fits hnames (by decide +kernel) (h longNames hnames)

end LinuxC.Uapi
