import Mathlib.Algebra.Group.Nat.Defs
import LinuxC.Framework.SerialNumber
import LinuxC.Timer.Table

/-!
# The ids of the timers go round

`base->timerid` is an `int` that `timer_insert` increments without bound, and `timer_comparator`
breaks ties by the difference of two ids, which is an `int` again.  Both wrap.  The model of the
runtime has ids without bound; here they are the 32-bit numbers of the source.

The comparator orders a set of timers if and only if the ids of those that expire together lie
within `2 ^ 31` values of the counter.  The order is then the one of the model, and a table of the
model is in order for the source as well.
-/

namespace LinuxC.Timer

/-! ## The source -/

/-- The fields of `struct timer_struct` that the table is ordered by. -/
structure TimerKey where
  expire : Timespec
  timerid : Int32
  deriving DecidableEq

/-- `timer_comparator`. -/
def timerComparator32 (p1 p2 : TimerKey) : Int32 :=
  if timespecLt p1.expire p2.expire then -1
  else if timespecLt p2.expire p1.expire then 1
  else p1.timerid - p2.timerid

/-- `timer_searcher`. -/
def timerSearcher32 (data n : TimerKey) : Int32 :=
  if timespecLt data.expire n.expire then -1
  else if timespecLt n.expire data.expire then 1
  else data.timerid - n.timerid

/-- The comparator orders the timers, and the searcher agrees with it. -/
structure TotallyOrdered (ts : List TimerKey) : Prop where
  antisymm : ∀ a ∈ ts, ∀ b ∈ ts, timerComparator32 a b < 0 ↔ 0 < timerComparator32 b a
  trans : ∀ a ∈ ts, ∀ b ∈ ts, ∀ c ∈ ts, timerComparator32 a b < 0 → timerComparator32 b c < 0 →
    timerComparator32 a c < 0
  zero : ∀ a ∈ ts, ∀ b ∈ ts, timerComparator32 a b = 0 ↔ a = b
  searcher : ∀ a ∈ ts, ∀ b ∈ ts, timerSearcher32 a b = timerComparator32 a b

/-- The ids of the timers that expire at `e`. -/
def idsAt (ts : List TimerKey) (e : Timespec) : List ℤ :=
  (ts.filter (·.expire = e)).map (·.timerid.toInt)

/-! ## The comparator -/

lemma timespecLt_trans {a b c : Timespec} (hab : timespecLt a b) (hbc : timespecLt b c) :
    timespecLt a c := by
  unfold timespecLt at *
  omega

/-- Of two times one is before the other, or they are equal. -/
lemma eq_of_not_timespecLt {a b : Timespec} (hab : ¬ timespecLt a b) (hba : ¬ timespecLt b a) :
    a = b := by
  obtain ⟨asec, ansec⟩ := a
  obtain ⟨bsec, bnsec⟩ := b
  simp only [timespecLt, Timespec.mk.injEq] at *
  omega

section Comparator

variable {a b c : TimerKey}

/-- Ties are broken by the difference on the counter. -/
lemma comparator32_toInt (a b : TimerKey) : (timerComparator32 a b).toInt =
    if timespecLt a.expire b.expire then -1
    else if timespecLt b.expire a.expire then 1
    else Serial.diff (2 ^ 31) a.timerid.toInt b.timerid.toInt := by
  unfold timerComparator32
  split_ifs
  · rfl
  · rfl
  · exact Int32.toInt_sub _ _

lemma comparator32_toInt_of_eq (h : a.expire = b.expire) :
    (timerComparator32 a b).toInt = Serial.diff (2 ^ 31) a.timerid.toInt b.timerid.toInt := by
  rw [comparator32_toInt, h, if_neg (timespecLt_irrefl _), if_neg (timespecLt_irrefl _)]

/-- The comparator is negative for a timer that expires earlier, or that expires at the same time
and is before the other one on the counter. -/
lemma comparator32_neg_iff : timerComparator32 a b < 0 ↔ timespecLt a.expire b.expire ∨
    a.expire = b.expire ∧ Serial.diff (2 ^ 31) a.timerid.toInt b.timerid.toInt < 0 := by
  rw [Int32.lt_iff_toInt_lt, Int32.toInt_zero, comparator32_toInt]
  split_ifs with hlt hgt
  · simp only [hlt, true_or, iff_true]
    omega
  · have hne : a.expire ≠ b.expire := fun heq => timespecLt_irrefl _ (heq ▸ hgt)
    simp only [hlt, hne, false_and, or_self, iff_false]
    omega
  · rw [or_iff_right hlt, and_iff_right (eq_of_not_timespecLt hlt hgt)]

lemma comparator32_pos_iff : 0 < timerComparator32 b a ↔ timespecLt a.expire b.expire ∨
    a.expire = b.expire ∧ 0 < Serial.diff (2 ^ 31) b.timerid.toInt a.timerid.toInt := by
  rw [Int32.lt_iff_toInt_lt, Int32.toInt_zero, comparator32_toInt]
  split_ifs with hgt hlt
  · have hne : a.expire ≠ b.expire := fun heq => timespecLt_irrefl _ (heq ▸ hgt)
    simp only [timespecLt_asymm hgt, hne, false_and, or_self, iff_false]
    omega
  · simp only [hlt, true_or, iff_true]
    omega
  · rw [or_iff_right hlt, and_iff_right (eq_of_not_timespecLt hlt hgt)]

/-- Timers that are equal to the comparator are equal in all it reads. -/
lemma comparator32_eq_zero_iff : timerComparator32 a b = 0 ↔ a = b := by
  constructor
  · unfold timerComparator32
    split_ifs with hlt hgt
    · exact fun h => absurd h (by decide)
    · exact fun h => absurd h (by decide)
    · intro h
      have hid : a.timerid = b.timerid := by
        rw [← Int32.sub_add_cancel a.timerid b.timerid, h, Int32.zero_add]
      obtain ⟨ae, ai⟩ := a
      obtain ⟨be, bi⟩ := b
      rw [TimerKey.mk.injEq]
      exact ⟨eq_of_not_timespecLt hlt hgt, hid⟩
  · rintro rfl
    rw [← Int32.toInt_inj, comparator32_toInt_of_eq rfl, Serial.diff_self, Int32.toInt_zero]

lemma searcher32_eq (a b : TimerKey) : timerSearcher32 a b = timerComparator32 a b := rfl

end Comparator

/-! ## The order -/

lemma mem_idsAt {ts : List TimerKey} {e : Timespec} {i : ℤ} :
    i ∈ idsAt ts e ↔ ∃ t ∈ ts, t.expire = e ∧ t.timerid.toInt = i := by
  simp only [idsAt, List.mem_map, List.mem_filter, decide_eq_true_iff, and_assoc]

/-- **The timers are ordered exactly if the ids of those that expire together lie within `2 ^ 31`
values of the counter.** -/
theorem totallyOrdered_iff (ts : List TimerKey) :
    TotallyOrdered ts ↔ ∀ e, Serial.Window (2 ^ 31) (· ∈ idsAt ts e) := by
  constructor
  · intro h e
    rw [← Serial.trans_iff_window (by decide)]
    intro i hi j hj k hk hij hjk
    obtain ⟨a, ha, hae, rfl⟩ := mem_idsAt.mp hi
    obtain ⟨b, hb, hbe, rfl⟩ := mem_idsAt.mp hj
    obtain ⟨c, hc, hce, rfl⟩ := mem_idsAt.mp hk
    have hac := h.trans a ha b hb c hc (comparator32_neg_iff.mpr (.inr ⟨hae.trans hbe.symm, hij⟩))
      (comparator32_neg_iff.mpr (.inr ⟨hbe.trans hce.symm, hjk⟩))
    rcases comparator32_neg_iff.mp hac with hlt | ⟨-, hdiff⟩
    · rw [hae, hce] at hlt
      exact absurd hlt (timespecLt_irrefl e)
    · exact hdiff
  · intro h
    refine ⟨fun a ha b hb => ?_, fun a ha b hb c hc hab hbc => ?_,
      fun a _ b _ => comparator32_eq_zero_iff, fun a _ b _ => searcher32_eq a b⟩
    · rw [comparator32_neg_iff, comparator32_pos_iff]
      refine or_congr_right (and_congr_right fun heq => ?_)
      exact (h b.expire).swap (by decide) (mem_idsAt.mpr ⟨a, ha, heq, rfl⟩)
        (mem_idsAt.mpr ⟨b, hb, rfl, rfl⟩)
    · rw [comparator32_neg_iff] at *
      rcases hab with hab | ⟨heab, hab⟩ <;> rcases hbc with hbc | ⟨hebc, hbc⟩
      · exact .inl (timespecLt_trans hab hbc)
      · exact .inl (hebc ▸ hab)
      · exact .inl (heab.symm ▸ hbc)
      · refine .inr ⟨heab.trans hebc, (Serial.trans_iff_window (by decide) (idsAt ts c.expire)).mpr
          (h c.expire) _ (mem_idsAt.mpr ⟨a, ha, heab.trans hebc, rfl⟩) _
          (mem_idsAt.mpr ⟨b, hb, hebc, rfl⟩) _ (mem_idsAt.mpr ⟨c, hc, rfl, rfl⟩) hab hbc⟩

/-- A timer that expires at time 0. -/
def tied (timerid : Int32) : TimerKey := ⟨⟨0, 0⟩, timerid⟩

/-- Three timers that expire together, the ids of which go round: each is before the next one. -/
theorem not_totallyOrdered_of_wrap :
    ¬ TotallyOrdered [tied 0, tied 1500000000, tied (-1294967296)] := by
  intro h
  have hlast := h.trans (tied 0) (by decide) (tied 1500000000) (by decide) (tied (-1294967296))
    (by decide) (by decide) (by decide)
  exact absurd hlast (by decide)

/-! ## The table -/

/-- The fields of a timer of the model, with the id as the source has it. -/
def TimerStruct.key (x : TimerStruct) : TimerKey := ⟨x.expire, Int32.ofInt x.timerid⟩

lemma TimerStruct.diff_key (x y : TimerStruct) :
    Serial.diff (2 ^ 31) x.key.timerid.toInt y.key.timerid.toInt =
      Serial.diff (2 ^ 31) x.timerid y.timerid := by
  simp only [TimerStruct.key, Int32.toInt_ofInt]
  exact Serial.diff_bmod (2 ^ 31) x.timerid y.timerid

/-- `timer_insert` gives out the 32-bit counter and increments it. -/
lemma timerKey_key (t : Ptr) (s : State) :
    (((timerKey t s).timer t).key.timerid = Int32.ofInt s.base.timerid) ∧
      Int32.ofInt (timerKey t s).base.timerid = Int32.ofInt s.base.timerid + 1 := by
  refine ⟨?_, Int32.ofInt_add s.base.timerid 1⟩
  simp [timerKey, TimerStruct.key, State.modify]

/-- Where the ids of two timers that expire together are close, the comparator of the source has
the sign of the one without bound. -/
lemma comparator32_key_neg_iff {timer : Ptr → TimerStruct} {t x : Ptr}
    (hclose : (timer t).expire = (timer x).expire →
      -(2 ^ 31) ≤ (timer t).timerid - (timer x).timerid ∧
        (timer t).timerid - (timer x).timerid < 2 ^ 31) :
    timerComparator32 (timer t).key (timer x).key < 0 ↔ timerComparator timer t x < 0 := by
  rw [comparator32_neg_iff, TimerStruct.diff_key, timerComparator]
  change (timespecLt (timer t).expire (timer x).expire ∨
    (timer t).expire = (timer x).expire ∧ _) ↔ _
  split_ifs with hlt hgt
  · simp only [hlt, true_or, true_iff]
    decide
  · have hne : (timer t).expire ≠ (timer x).expire := fun heq => timespecLt_irrefl _ (heq ▸ hgt)
    simp only [hlt, hne, false_and, or_self, false_iff]
    decide
  · have heq := eq_of_not_timespecLt hlt hgt
    obtain ⟨hle, hlt'⟩ := hclose heq
    rw [or_iff_right hlt, and_iff_right heq, Serial.diff_of_close hle hlt']

/-- **The table is in order for the source** as long as no timer stays in it while `2 ^ 31` others
are inserted. -/
theorem TableOk.sorted32 {s : State} (h : TableOk s)
    (hrecent : ∀ t ∈ s.base.table, s.base.timerid - 2 ^ 31 ≤ (s.timer t).timerid) :
    s.base.table.Pairwise fun t x => timerComparator32 (s.timer t).key (s.timer x).key < 0 := by
  refine h.sorted.imp_of_mem fun {t x} ht hx hlt => (comparator32_key_neg_iff fun _ => ?_).mpr hlt
  have ht' := h.ids t ht
  have hx' := h.ids x hx
  have ht0 := hrecent t ht
  have hx0 := hrecent x hx
  omega

end LinuxC.Timer
