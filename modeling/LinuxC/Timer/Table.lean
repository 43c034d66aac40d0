import LinuxC.Timer.Schedule

/-!
# The table of the timers

What holds of the table and of the flags `TMR_F_ACTIVE`, `TMR_F_MOUNTED` and `TMR_F_DETACH` in
every run without `timer_destroy`, whatever the callers do: `TableOk`.  The table is in strict
order, its timers are those with `TMR_F_MOUNTED`, and only an active timer is mounted.

A step changes the table by `timer_insert` and `timer_remove` only; `SameTable` says that it
changes nothing of this.
-/

namespace LinuxC.Timer

/-! ## The order -/

lemma timespecLt_irrefl (a : Timespec) : ¬ timespecLt a a := by
  unfold timespecLt
  omega

lemma timespecLt_asymm {a b : Timespec} (h : timespecLt a b) : ¬ timespecLt b a := by
  unfold timespecLt at *
  omega

/-- The comparator of the table orders the timers by expiry, and by id where that is equal. -/
lemma comparator_timerComparator (timer : Ptr → TimerStruct) :
    Comparator (timerComparator timer) := by
  refine ⟨fun a b => ?_, fun a b c hab hbc => ?_⟩
  · unfold timerComparator
    split_ifs with h1 h2 h2
    · exact absurd h2 (timespecLt_asymm h1)
    · omega
    · omega
    · omega
  · simp only [timerComparator, timespecLt] at *
    split_ifs at * <;> omega

lemma timerComparator_congr {timer timer' : Ptr → TimerStruct} {a b : Ptr}
    (ha : (timer' a).expire = (timer a).expire ∧ (timer' a).timerid = (timer a).timerid)
    (hb : (timer' b).expire = (timer b).expire ∧ (timer' b).timerid = (timer b).timerid) :
    timerComparator timer' a b = timerComparator timer a b := by
  simp only [timerComparator, ha.1, ha.2, hb.1, hb.2]

/-- A timer that is not after another does not expire after it. -/
lemma not_lt_of_comparator {timer : Ptr → TimerStruct} {a b : Ptr}
    (h : timerComparator timer a b ≤ 0) : ¬ timespecLt (timer b).expire (timer a).expire := by
  intro hlt
  rw [timerComparator, if_neg (timespecLt_asymm hlt), if_pos hlt] at h
  omega

/-! ## The invariant -/

/-- The table is in order and holds the mounted timers. -/
structure TableOk (s : State) : Prop where
  mem : ∀ t, t ∈ s.base.table ↔ (s.timer t).flags.mounted = true
  sorted : Sorted (timerComparator s.timer) s.base.table
  ids : ∀ t ∈ s.base.table, (s.timer t).timerid < s.base.timerid

/-- Only an active timer is mounted, and a detached one is not active. -/
structure FlagsOk (f : Flags) : Prop where
  inactive : f.active = false → f.mounted = false
  detach : f.detach = true → f.active = false

/-- The table and the flags. -/
structure TableInv (s : State) : Prop where
  table : TableOk s
  flags : ∀ t, FlagsOk (s.timer t).flags

/-- The table, the flag `TMR_F_MOUNTED` and the order are the same. -/
structure SameTable (s s' : State) : Prop where
  table : s'.base.table = s.base.table
  timerid : s'.base.timerid = s.base.timerid
  key : ∀ t ∈ s.base.table, (s'.timer t).expire = (s.timer t).expire ∧
    (s'.timer t).timerid = (s.timer t).timerid
  mounted : ∀ t, (s'.timer t).flags.mounted = (s.timer t).flags.mounted

lemma sorted_congr {timer timer' : Ptr → TimerStruct} {xs : List Ptr}
    (h : Sorted (timerComparator timer) xs)
    (hkey : ∀ t ∈ xs, (timer' t).expire = (timer t).expire ∧
      (timer' t).timerid = (timer t).timerid) : Sorted (timerComparator timer') xs := by
  refine h.imp_of_mem fun {a b} ha hb hab => ?_
  rwa [timerComparator_congr (hkey a ha) (hkey b hb)]

lemma TableOk.congr {s s' : State} (h : TableOk s) (hs : SameTable s s') : TableOk s' := by
  refine ⟨fun t => ?_, ?_, fun t ht => ?_⟩
  · rw [hs.table, hs.mounted, h.mem]
  · rw [hs.table]
    exact sorted_congr h.sorted hs.key
  · rw [hs.table] at ht
    rw [(hs.key t ht).2, hs.timerid]
    exact h.ids t ht

lemma TableOk.nodup {s : State} (h : TableOk s) : s.base.table.Nodup := by
  refine h.sorted.imp fun {a b} hab => ?_
  rintro rfl
  have := (comparator_timerComparator s.timer).self a
  omega

lemma TableOk.search {s : State} (h : TableOk s) {t : Ptr}
    (ht : (s.timer t).flags.mounted = true) : timerSearch t s = true := by
  have hfind := (comparator_timerComparator s.timer).find?_self h.sorted ((h.mem t).mpr ht)
  simp [timerSearch, hfind]

lemma TableOk.head_le {s : State} (h : TableOk s) {t : Ptr} (ht : s.base.table.head? = some t)
    {x : Ptr} (hx : x ∈ s.base.table) : ¬ timespecLt (s.timer x).expire (s.timer t).expire := by
  obtain ⟨-, hleast⟩ := ((comparator_timerComparator s.timer).head?_iff h.sorted).mp ht
  rcases eq_or_ne x t with rfl | hne
  · exact timespecLt_irrefl _
  · exact not_lt_of_comparator (hleast x hx hne).le

lemma timerRemove_key (t : Ptr) (s : State) (x : Ptr) :
    ((timerRemove t s).timer x).expire = (s.timer x).expire ∧
      ((timerRemove t s).timer x).timerid = (s.timer x).timerid := by
  simp only [timerRemove, State.setFlags, State.modify]
  split_ifs <;> exact ⟨rfl, rfl⟩

lemma TableOk.remove {s : State} (h : TableOk s) (t : Ptr) : TableOk (timerRemove t s) := by
  have htable : (timerRemove t s).base.table = s.base.table.erase t := rfl
  have hmem : ∀ x, x ∈ s.base.table.erase t ↔ x ≠ t ∧ x ∈ s.base.table :=
    fun x => h.nodup.mem_erase_iff
  refine ⟨fun x => ?_, ?_, fun x hx => ?_⟩
  · rw [htable, hmem, h.mem]
    rcases eq_or_ne x t with rfl | hne
    · simp [timerRemove, State.setFlags, State.modify]
    · simp [timerRemove, State.setFlags, State.modify, hne]
  · exact sorted_congr (h.sorted.sublist List.erase_sublist) fun x _ => timerRemove_key t s x
  · rw [htable, hmem] at hx
    have hid := h.ids x hx.2
    simpa [timerRemove, State.setFlags, State.modify, hx.1] using hid

/-- A new key does not touch the timers in the table. -/
lemma TableOk.key_of_mem {s : State} (h : TableOk s) {t : Ptr}
    (ht : (s.timer t).flags.mounted = false) {x : Ptr} (hx : x ∈ s.base.table) :
    (timerKey t s).timer x = s.timer x := by
  have hne : x ≠ t := by
    rintro rfl
    simp [(h.mem x).mp hx] at ht
  simp [timerKey, State.modify, hne]

/-- The insertion keeps the key that the timer was given. -/
lemma timerInsert_key (t : Ptr) (s : State) (x : Ptr) :
    ((timerInsert t s).timer x).expire = ((timerKey t s).timer x).expire ∧
      ((timerInsert t s).timer x).timerid = ((timerKey t s).timer x).timerid := by
  simp only [timerInsert, timerMount, State.setFlags, State.modify]
  split_ifs <;> exact ⟨rfl, rfl⟩

lemma TableOk.insert {s : State} (h : TableOk s) {t : Ptr}
    (ht : (s.timer t).flags.mounted = false) : TableOk (timerInsert t s) := by
  have hkey : ∀ x ∈ s.base.table, (timerKey t s).timer x = s.timer x :=
    fun x hx => h.key_of_mem ht hx
  have hid : ((timerKey t s).timer t).timerid = s.base.timerid := by
    simp [timerKey, State.modify]
  -- the new id is greater than those in the table
  have hne : ∀ x ∈ s.base.table, timerComparator (timerKey t s).timer t x ≠ 0 := by
    intro x hx
    have hlt := h.ids x hx
    simp only [timerComparator, hid, hkey x hx]
    split_ifs
    · decide
    · decide
    · omega
  have htable : (timerInsert t s).base.table =
      insertOrd (timerComparator (timerKey t s).timer) t s.base.table := rfl
  have hmem : ∀ x, x ∈ (timerInsert t s).base.table ↔ x = t ∨ x ∈ s.base.table :=
    fun x => by rw [htable, mem_insertOrd hne]
  refine ⟨fun x => ?_, ?_, fun x hx => ?_⟩
  · rw [hmem, h.mem]
    rcases eq_or_ne x t with rfl | hxt
    · simp [timerInsert, timerMount, State.setFlags, State.modify]
    · simp [timerInsert, timerMount, timerKey, State.setFlags, State.modify, hxt]
  · refine sorted_congr ?_ fun x _ => timerInsert_key t s x
    refine sorted_insertOrd (comparator_timerComparator _) (sorted_congr h.sorted fun x hx => ?_)
    rw [hkey x hx]
    exact ⟨rfl, rfl⟩
  · have hlast : (timerInsert t s).base.timerid = s.base.timerid + 1 := rfl
    rw [(timerInsert_key t s x).2, hlast]
    rcases (hmem x).mp hx with rfl | hx
    · rw [hid]
      omega
    · rw [hkey x hx]
      have := h.ids x hx
      omega

/-! ## The steps -/

/-- The step is one of a run without `timer_setup` and `timer_destroy`. -/
def Label.isRuntime : Label → Bool
  | .setup _ _ => false
  | .destroy _ => false
  | .destroyWake _ => false
  | _ => true

lemma TableInv.of_eq {s s' : State} (h : TableInv s) (htable : s'.base.table = s.base.table)
    (hid : s'.base.timerid = s.base.timerid) (htimer : s'.timer = s.timer) : TableInv s' := by
  refine ⟨h.table.congr ⟨htable, hid, fun t _ => ?_, fun t => ?_⟩, fun t => ?_⟩
  · rw [htimer]
    exact ⟨rfl, rfl⟩
  · rw [htimer]
  · rw [htimer]
    exact h.flags t

/-- A change of one timer that keeps its key and its flag `TMR_F_MOUNTED`. -/
lemma TableInv.modify {s : State} (h : TableInv s) {t : Ptr} {g : TimerStruct → TimerStruct}
    (hkey : (g (s.timer t)).expire = (s.timer t).expire ∧
      (g (s.timer t)).timerid = (s.timer t).timerid)
    (hmounted : (g (s.timer t)).flags.mounted = (s.timer t).flags.mounted)
    (hflags : FlagsOk (g (s.timer t)).flags) : TableInv (s.modify t g) := by
  refine ⟨h.table.congr ⟨rfl, rfl, fun x _ => ?_, fun x => ?_⟩, fun x => ?_⟩
  · simp only [State.modify]
    split_ifs with hx
    · rw [hx]
      exact hkey
    · exact ⟨rfl, rfl⟩
  · simp only [State.modify]
    split_ifs with hx
    · rw [hx]
      exact hmounted
    · rfl
  · simp only [State.modify]
    split_ifs with hx
    · rw [hx]
      exact hflags
    · exact h.flags x

lemma TableInv.setFlags {s : State} (h : TableInv s) {t : Ptr} {g : Flags → Flags}
    (hmounted : (g (s.timer t).flags).mounted = (s.timer t).flags.mounted)
    (hflags : FlagsOk (g (s.timer t).flags)) : TableInv (s.setFlags t g) :=
  h.modify ⟨rfl, rfl⟩ hmounted hflags

lemma TableInv.cleanup {s : State} (h : TableInv s) (t : Ptr) : TableInv (timerCleanup t s) := by
  refine h.setFlags rfl ⟨fun hactive => ?_, fun hdetach => ?_⟩
  · -- a timer that is active and detached does not exist
    have hd := (h.flags t).detach
    refine (h.flags t).inactive ?_
    cases hf : (s.timer t).flags.active with
    | false => rfl
    | true => simp_all
  · simp [(h.flags t).detach hdetach]

lemma TableInv.remove {s : State} (h : TableInv s) (t : Ptr) : TableInv (timerRemove t s) := by
  refine ⟨h.table.remove t, fun x => ?_⟩
  simp only [timerRemove, State.setFlags, State.modify]
  split_ifs with hx
  · exact ⟨fun _ => rfl, (h.flags x).detach⟩
  · exact h.flags x

lemma TableInv.insert {s : State} (h : TableInv s) {t : Ptr}
    (ht : (s.timer t).flags.mounted = false) (hactive : (s.timer t).flags.active = true) :
    TableInv (timerInsert t s) := by
  refine ⟨h.table.insert ht, fun x => ?_⟩
  have hf := h.flags x
  simp only [timerInsert, timerMount, timerKey, State.setFlags, State.modify]
  split_ifs with hx
  · subst hx
    exact ⟨fun hno => by simp [hactive] at hno, hf.detach⟩
  · exact hf

lemma TableInv.drained {i : ℕ} {b : Bool} {s s' : State} {es : List Event} (h : TableInv s)
    (hd : Drained i b s s' es) : TableInv s' := by
  cases hd with
  | @take t rest hexp hpend =>
      have h0 : TableInv (s.setFlags t fun f => { f with pending := false }) :=
        h.setFlags rfl ⟨(h.flags t).inactive, (h.flags t).detach⟩
      have h1 : TableInv (takeExpired t rest s) := h0.of_eq rfl rfl rfl
      have h2 : TableInv (timerExecute (.executor i) t (takeExpired t rest s)) :=
        h1.modify ⟨rfl, rfl⟩ rfl ⟨(h1.flags t).inactive, (h1.flags t).detach⟩
      exact h2.of_eq rfl rfl rfl
  | exit => exact h.of_eq rfl rfl rfl
  | again => exact h.of_eq rfl rfl rfl

lemma TableInv.execute {s : State} (h : TableInv s) (u : Tid) (t : Ptr) :
    TableInv (timerExecute u t s) :=
  h.modify ⟨rfl, rfl⟩ rfl ⟨(h.flags t).inactive, (h.flags t).detach⟩

lemma TableInv.dispatched {t : Ptr} {s s' : State} {es : List Event} (h : TableInv s)
    {created : Bool} (hd : Dispatched t created s s' es) : TableInv s' := by
  cases hd with
  | skip => exact h.of_eq rfl rfl rfl
  | pool wake hbusy =>
      have h0 : TableInv (s.setFlags t fun f => { f with pending := true }) :=
        h.setFlags rfl ⟨(h.flags t).inactive, (h.flags t).detach⟩
      simp only [timerThreadExecute]
      split_ifs
      · exact h0.of_eq rfl rfl rfl
      · exact h0.of_eq rfl rfl rfl
      · exact h0.of_eq rfl rfl rfl
  | inline => exact (h.execute .inspector t).of_eq rfl rfl rfl

lemma timerRemove_flags (t : Ptr) (s : State) :
    ((timerRemove t s).timer t).flags = { (s.timer t).flags with mounted := false } := by
  simp [timerRemove, State.setFlags, State.modify]

lemma TableInv.active {s : State} (h : TableInv s) {t : Ptr}
    (ht : (s.timer t).flags.mounted = true) : (s.timer t).flags.active = true := by
  by_contra hno
  have := (h.flags t).inactive (by simpa using hno)
  simp [ht] at this

lemma TableInv.shoot {s : State} (h : TableInv s) {t : Ptr} (ht : t ∈ s.base.table) :
    TableInv (shootState t s) := by
  have h1 : TableInv (s.setState .shooting) := h.of_eq rfl rfl rfl
  have hactive : ((s.setState .shooting).timer t).flags.active = true :=
    h.active ((h.table.mem t).mp ht)
  have h2 := h1.remove t
  have hflags := timerRemove_flags t (s.setState .shooting)
  simp only [shootState, reinsert]
  split
  · exact h2.insert (by rw [hflags]) (by rw [hflags]; exact hactive)
  · exact h2

lemma TableInv.drop {s : State} (h : TableInv s) (t : Ptr) : TableInv (timerDrop t s) := by
  unfold timerDrop
  split
  · unfold signalDel
    split
    · exact (h.remove t).of_eq rfl rfl rfl
    · exact h.remove t
  · exact h

lemma timerDrop_mounted (t : Ptr) (s : State) :
    ((timerDrop t s).timer t).flags.mounted = false := by
  unfold timerDrop
  split
  · unfold signalDel
    split
    · exact congrArg Flags.mounted (timerRemove_flags t s)
    · exact congrArg Flags.mounted (timerRemove_flags t s)
  · rename_i hno
    exact Bool.eq_false_of_not_eq_true hno

lemma TableInv.exit {s : State} (h : TableInv s) (t : Ptr) : TableInv (exitState t s) :=
  (h.drop t).setFlags rfl ⟨fun _ => timerDrop_mounted t s, fun _ => rfl⟩

lemma exitState_active (t : Ptr) (s : State) :
    ((exitState t s).timer t).flags.active = false := by
  simp [exitState, State.setFlags, State.modify]

lemma addState_flags (t : Ptr) (option : TimerOpt) (msec : ℤ) (s : State) (x : Ptr) :
    ((addState t option msec s).timer x).flags =
      if x = t then { active := true, mounted := true } else (s.timer x).flags := by
  simp only [addState, timerInsert, timerMount, timerKey, timerFill, State.setFlags, State.modify]
  split_ifs <;> rfl

lemma TableInv.add {s : State} (h : TableInv s) {t : Ptr} (option : TimerOpt) (msec : ℤ)
    (hactive : (s.timer t).flags.active = false) : TableInv (addState t option msec s) := by
  have hmounted := (h.flags t).inactive hactive
  have hne : ∀ x ∈ s.base.table, x ≠ t := by
    rintro x hx rfl
    simp [(h.table.mem x).mp hx] at hmounted
  have h1 : TableOk (timerFill t option msec s) := by
    refine h.table.congr ⟨rfl, rfl, fun x hx => ?_, fun x => ?_⟩
    · simp [timerFill, State.modify, hne x hx]
    · simp only [timerFill, State.modify]
      split_ifs with hx
      · rw [hx, hmounted]
      · rfl
  have h2 : TableOk (timerInsert t (timerFill t option msec s)) :=
    h1.insert (by simp [timerFill, State.modify])
  refine ⟨h2.congr ⟨rfl, rfl, fun x _ => ?_, fun x => ?_⟩, fun x => ?_⟩
  · simp only [addState, State.setFlags, State.modify]
    split_ifs <;> exact ⟨rfl, rfl⟩
  · simp only [addState, State.setFlags, State.modify]
    split_ifs <;> rfl
  · rw [addState_flags]
    split_ifs
    · exact ⟨fun hno => by simp at hno, fun hno => by simp at hno⟩
    · exact h.flags x

lemma timerUnmount_flags (t : Ptr) (s : State) :
    ((timerUnmount t s).timer t).flags = { (s.timer t).flags with mounted := false } := by
  unfold timerUnmount
  split
  · exact timerRemove_flags t s
  · rename_i hno
    rw [← Bool.eq_false_of_not_eq_true hno]

lemma TableInv.mod {s : State} (h : TableInv s) {t : Ptr} (msec : ℤ)
    (hactive : (s.timer t).flags.active = true) : TableInv (modState t msec s) := by
  have h1 : TableInv (timerUnmount t s) := by
    unfold timerUnmount
    split
    · exact h.remove t
    · exact h
  have hflags := timerUnmount_flags t s
  have hmounted : ((timerUnmount t s).timer t).flags.mounted = false := by rw [hflags]
  have hne : ∀ x ∈ (timerUnmount t s).base.table, x ≠ t := by
    rintro x hx rfl
    simp [(h1.table.mem x).mp hx] at hmounted
  have h2 : TableInv (timerRearm t msec (timerUnmount t s)) := by
    refine ⟨h1.table.congr ⟨rfl, rfl, fun x hx => ?_, fun x => ?_⟩, fun x => ?_⟩
    · simp [timerRearm, State.modify, hne x hx]
    · simp only [timerRearm, State.modify]
      split_ifs <;> rfl
    · have hx := h1.flags x
      simp only [timerRearm, State.modify]
      split_ifs <;> exact hx
  refine h2.insert ?_ ?_
  · simpa [timerRearm, State.modify] using hmounted
  · simp [timerRearm, State.modify, hflags, hactive]

lemma TableInv.signalAdd {s : State} (h : TableInv s) (t : Ptr) : TableInv (signalAdd t s) := by
  unfold Timer.signalAdd
  split
  · exact h.of_eq rfl rfl rfl
  · exact h

lemma TableInv.signalMod {s : State} (h : TableInv s) (t : Ptr) : TableInv (signalMod t s) := by
  unfold Timer.signalMod
  split
  · exact h.of_eq rfl rfl rfl
  · exact h

lemma modState_expire (t : Ptr) (msec : ℤ) (s : State) (x : Ptr) :
    ((modState t msec s).timer x).expire =
      if x = t then timespecAdd s.now (timespecInit msec) else (s.timer x).expire := by
  have hschedule := congrArg Schedule.expire (modState_schedule t msec s x)
  rw [apply_ite Schedule.expire] at hschedule
  exact hschedule

lemma addState_expire {t x : Ptr} (option : TimerOpt) (msec : ℤ) (s : State) (hx : x ≠ t) :
    ((addState t option msec s).timer x).expire = (s.timer x).expire := by
  have hschedule := addState_schedule t option msec s x
  rw [if_neg hx] at hschedule
  exact congrArg Schedule.expire hschedule

/-- The running timer is mounted, and the inspector waits for it. -/
def TimedOk (s : State) : Prop :=
  ∀ r, s.base.runningTimer = some r →
    (s.timer r).flags.mounted = true ∧ ∃ d sig, s.inspector = .timing r d sig

/-- The timer for which the inspector waits is the running timer, if there is one. -/
lemma TimedOk.mem {s : State} (h : TimedOk s) {t : Ptr} {d : Timespec} {sig : Bool}
    (hpc : s.inspector = .timing t d sig) (hrun : s.base.runningTimer ≠ none) :
    s.base.runningTimer = some t ∧ (s.timer t).flags.mounted = true := by
  obtain ⟨r, hr⟩ := Option.ne_none_iff_exists'.mp hrun
  obtain ⟨hmem, d', sig', hpc'⟩ := h r hr
  rw [hpc] at hpc'
  obtain ⟨rfl, -, -⟩ := Inspector.timing.inj hpc'
  exact ⟨hr, hmem⟩

/-- **The table stays in order.**  Every step of a run without `timer_destroy` keeps the
invariant. -/
lemma TableInv.step {s s' : State} {l : Label} {es : List Event} (h : TableInv s)
    (htimed : TimedOk s) (hl : l.isRuntime = true) (hstep : step s l = some (s', es)) :
    TableInv s' := by
  cases trans_of_step hstep with
  | tick => exact h.of_eq rfl rfl rfl
  | setup => simp [Label.isRuntime] at hl
  | failed => exact h
  | add _ _ hactive => exact (h.add _ _ hactive).signalAdd _
  | delDetach =>
      exact (h.exit _).setFlags rfl ⟨((h.exit _).flags _).inactive, fun _ => exitState_active _ _⟩
  | @delWait u t _ _ _ =>
      have h1 : TableInv ((exitState t s).setFlags t fun f => { f with waiting := true }) :=
        (h.exit _).setFlags rfl ⟨((h.exit _).flags _).inactive, ((h.exit _).flags _).detach⟩
      exact h1.of_eq rfl rfl rfl
  | delDone => exact h.exit _
  | delStay => exact h.setFlags rfl ⟨(h.flags _).inactive, (h.flags _).detach⟩
  | delReturn => exact h.of_eq rfl rfl rfl
  | mod _ _ hactive => exact (h.mod _ hactive).signalMod _
  | destroy => simp [Label.isRuntime] at hl
  | destroyCleanup => simp [Label.isRuntime] at hl
  | inspectorStart => exact h.of_eq rfl rfl rfl
  | inspectorExit => exact h.of_eq rfl rfl rfl
  | inspectorWait => exact h.of_eq rfl rfl rfl
  | inspectorTimed => exact h.of_eq rfl rfl rfl
  | inspectorShoot _ _ htable _ hshoot =>
      exact (h.shoot (List.mem_of_mem_head? htable)).dispatched hshoot
  | inspectorWoken => exact h.of_eq rfl rfl rfl
  | timedRemoved => exact h.of_eq rfl rfl rfl
  | timedSignal => exact h.of_eq rfl rfl rfl
  | timedShoot hpc hrun _ hshoot =>
      have h1 : TableInv (s.setRunning none) := h.of_eq rfl rfl rfl
      exact (h1.shoot ((h.table.mem _).mpr (htimed.mem hpc hrun).2)).dispatched hshoot
  | inspectorReturn => exact (h.cleanup _).of_eq rfl rfl rfl
  | executorStart => exact h.of_eq rfl rfl rfl
  | executorExit => exact h.of_eq rfl rfl rfl
  | executorWait => exact h.of_eq rfl rfl rfl
  | executorDrain _ _ hdrain => exact h.drained hdrain
  | executorWoken _ hdrain =>
      have h1 : TableInv (s.addIdle (-1)) := h.of_eq rfl rfl rfl
      exact h1.drained hdrain
  | executorReturn _ _ hdrain => exact (h.cleanup _).drained hdrain

/-! ## The running timer -/

lemma TimedOk.eq_none {s : State} (h : TimedOk s)
    (hpc : ∀ r d sig, s.inspector ≠ .timing r d sig) : s.base.runningTimer = none := by
  rw [Option.eq_none_iff_forall_ne_some]
  intro r hr
  obtain ⟨-, d, sig, hpc'⟩ := h r hr
  exact hpc r d sig hpc'

lemma timedOk_of_none {s : State} (h : s.base.runningTimer = none) : TimedOk s := by
  intro r hr
  rw [h] at hr
  cases hr

lemma TimedOk.congr {s s' : State} (h : TimedOk s)
    (hrun : s'.base.runningTimer = s.base.runningTimer)
    (hmounted : ∀ t, (s.timer t).flags.mounted = true → (s'.timer t).flags.mounted = true)
    (hpc : s'.inspector = s.inspector) : TimedOk s' := by
  intro r hr
  rw [hrun] at hr
  obtain ⟨hm, d, sig, hins⟩ := h r hr
  exact ⟨hmounted r hm, d, sig, hpc.trans hins⟩

lemma TimedOk.signalWork {s : State} (h : TimedOk s) : TimedOk s.signalWork := by
  intro r hr
  obtain ⟨hm, d, sig, hpc⟩ := h r hr
  exact ⟨hm, d, true, by simp [State.signalWork, hpc]⟩

lemma TimedOk.drop {s : State} (h : TimedOk s) (t : Ptr) : TimedOk (timerDrop t s) := by
  unfold timerDrop
  split
  · unfold signalDel
    split
    · exact (timedOk_of_none rfl).signalWork
    · rename_i hne
      intro r hr
      obtain ⟨hm, d, sig, hpc⟩ := h r hr
      have hrt : r ≠ t := by
        rintro rfl
        exact hne hr
      exact ⟨by simpa [timerRemove, State.setFlags, State.modify, hrt] using hm, d, sig, hpc⟩
  · exact h

lemma TimedOk.exit {s : State} (h : TimedOk s) (t : Ptr) : TimedOk (exitState t s) := by
  refine (h.drop t).congr rfl (fun x hx => ?_) rfl
  simp only [exitState, State.setFlags, State.modify]
  split_ifs <;> exact hx

lemma modState_flags (t : Ptr) (msec : ℤ) (s : State) (x : Ptr) :
    ((modState t msec s).timer x).flags =
      if x = t then { (s.timer t).flags with mounted := true } else (s.timer x).flags := by
  unfold modState timerUnmount
  simp only [timerInsert, timerMount, timerKey, timerRearm, State.setFlags, State.modify]
  split_ifs with hx hm
  · simp [hx, timerRemove, State.setFlags, State.modify]
  · simp [hx]
  · simp [timerRemove, State.setFlags, State.modify, hx]
  · rfl

lemma modState_running (t : Ptr) (msec : ℤ) (s : State) :
    (modState t msec s).base.runningTimer = s.base.runningTimer ∧
      (modState t msec s).inspector = s.inspector := by
  unfold modState timerUnmount
  split <;> exact ⟨rfl, rfl⟩

lemma TimedOk.mod {s : State} (h : TimedOk s) (t : Ptr) (msec : ℤ) :
    TimedOk (modState t msec s) := by
  refine h.congr (modState_running t msec s).1 (fun x hx => ?_) (modState_running t msec s).2
  rw [modState_flags]
  split_ifs
  · rfl
  · exact hx

lemma TimedOk.add {s : State} (h : TimedOk s) (t : Ptr) (option : TimerOpt) (msec : ℤ) :
    TimedOk (addState t option msec s) := by
  refine h.congr rfl (fun x hx => ?_) rfl
  rw [addState_flags]
  split_ifs
  · rfl
  · exact hx

lemma shootState_running (t : Ptr) (s : State) :
    (shootState t s).base.runningTimer = s.base.runningTimer := by
  simp only [shootState, reinsert]
  split <;> rfl

lemma timedOk_dispatched {t : Ptr} {s s' : State} {es : List Event}
    (hrun : s.base.runningTimer = none) {created : Bool} (hd : Dispatched t created s s' es) :
    TimedOk s' := by
  apply timedOk_of_none
  cases hd with
  | skip => exact hrun
  | pool wake =>
      simp only [timerThreadExecute]
      split_ifs <;> exact hrun
  | inline => exact hrun

lemma TimedOk.drained {i : ℕ} {b : Bool} {s s' : State} {es : List Event} (h : TimedOk s)
    (hd : Drained i b s s' es) : TimedOk s' := by
  cases hd with
  | @take t rest =>
      refine h.congr rfl (fun x hx => ?_) rfl
      simp only [timerExecute, takeExpired, State.setExecutor, State.setFlags, State.modify]
      split_ifs <;> exact hx
  | exit => exact h
  | again => exact h

lemma TimedOk.cleanup {s : State} (h : TimedOk s) (t : Ptr) : TimedOk (timerCleanup t s) := by
  refine h.congr rfl (fun x hx => ?_) rfl
  simp only [timerCleanup, State.setFlags, State.modify]
  split_ifs <;> exact hx

lemma TimedOk.setFlags {s : State} (h : TimedOk s) {t : Ptr} {g : Flags → Flags}
    (hg : (g (s.timer t).flags).mounted = (s.timer t).flags.mounted) :
    TimedOk (s.setFlags t g) := by
  refine h.congr rfl (fun x hx => ?_) rfl
  simp only [State.setFlags, State.modify]
  split_ifs with hxt
  · subst hxt
    exact hg.trans hx
  · exact hx

lemma TimedOk.step {s s' : State} {l : Label} {es : List Event} (h : TimedOk s)
    (htable : TableOk s) (hl : l.isRuntime = true) (hstep : step s l = some (s', es)) :
    TimedOk s' := by
  cases trans_of_step hstep with
  | tick => exact h
  | setup => simp [Label.isRuntime] at hl
  | failed => exact h
  | @add u t option msec =>
      have h1 := h.add t option msec
      unfold signalAdd
      split
      · exact h1.signalWork
      · exact h1
  | delDetach => exact (h.exit _).setFlags rfl
  | @delWait u t =>
      have h1 : TimedOk ((exitState t s).setFlags t fun f => { f with waiting := true }) :=
        (h.exit t).setFlags rfl
      exact h1
  | delDone => exact h.exit _
  | delStay => exact h.setFlags rfl
  | delReturn => exact h
  | @mod u t msec =>
      have h1 := h.mod t msec
      unfold signalMod
      split
      · exact h1.signalWork
      · exact h1
  | destroy => simp [Label.isRuntime] at hl
  | destroyCleanup => simp [Label.isRuntime] at hl
  | inspectorStart hpc => exact timedOk_of_none (h.eq_none (by simp [hpc]))
  | inspectorExit hpc => exact timedOk_of_none (h.eq_none (by simp [hpc]))
  | inspectorWait hpc => exact timedOk_of_none (h.eq_none (by simp [hpc]))
  | @inspectorTimed wake created t hpc hstate hhead hearly =>
      rintro r hr
      obtain rfl : t = r := Option.some.inj hr
      exact ⟨(htable.mem t).mp (List.mem_of_mem_head? hhead), _, _, rfl⟩
  | inspectorShoot hpc _ _ _ hshoot =>
      refine timedOk_dispatched ?_ hshoot
      rw [shootState_running]
      exact h.eq_none (by simp [hpc])
  | inspectorWoken hpc => exact timedOk_of_none (h.eq_none (by simp [hpc]))
  | timedRemoved _ hrun => exact timedOk_of_none hrun
  | timedSignal => exact timedOk_of_none rfl
  | timedShoot _ _ _ hshoot => exact timedOk_dispatched (shootState_running _ _) hshoot
  | inspectorReturn hpc => exact timedOk_of_none (h.eq_none (by simp [hpc]))
  | executorStart => exact h
  | executorExit => exact h
  | executorWait => exact h
  | executorDrain _ _ hdrain => exact h.drained hdrain
  | executorWoken _ hdrain =>
      exact TimedOk.drained (s := s.addIdle (-1)) h hdrain
  | executorReturn _ _ hdrain => exact (h.cleanup _).drained hdrain

/-! ## Runs -/

/-- The state after `timer_setup` in a new process. -/
structure Fresh (s : State) : Prop where
  timer : s.timer = fun _ => timerInitializer
  table : s.base.table = []
  expired : s.base.expiredTimer = []
  running : s.base.runningTimer = none
  inspector : s.inspector = .start ∨ s.inspector = .dead
  executors : s.executors = []
  waiters : s.waiters = []

lemma fresh_of_setup {users : Option TimerOption} {created : Bool} {now : Timespec} {s : State}
    {es : List Event} (h : step (boot now) (.setup users created) = some (s, es)) :
    Fresh s ∧ es = [] := by
  cases created with
  | true =>
      obtain ⟨rfl, rfl⟩ := Prod.mk.inj (Option.some.inj h)
      exact ⟨⟨rfl, rfl, rfl, rfl, .inl rfl, rfl, rfl⟩, rfl⟩
  | false =>
      obtain ⟨rfl, rfl⟩ := Prod.mk.inj (Option.some.inj h)
      exact ⟨⟨rfl, rfl, rfl, rfl, .inr rfl, rfl, rfl⟩, rfl⟩

lemma Fresh.tableInv {s : State} (h : Fresh s) : TableInv s := by
  refine ⟨⟨fun t => ?_, ?_, fun t ht => ?_⟩, fun t => ?_⟩
  · simp [h.table, h.timer, timerInitializer]
  · rw [h.table]
    exact List.Pairwise.nil
  · simp [h.table] at ht
  · rw [h.timer]
    exact ⟨fun _ => rfl, fun hno => by simp [timerInitializer] at hno⟩

/-- What holds of the table and of the running timer. -/
structure RuntimeInv (s : State) : Prop where
  table : TableInv s
  timed : TimedOk s

lemma RuntimeInv.step {s s' : State} {l : Label} {es : List Event} (h : RuntimeInv s)
    (hl : l.isRuntime = true) (hstep : step s l = some (s', es)) : RuntimeInv s' :=
  ⟨h.table.step h.timed hl hstep, h.timed.step h.table.table hl hstep⟩

/-- The running timer is not one that `timer_add` accepts. -/
lemma RuntimeInv.running_ne {s : State} (h : RuntimeInv s) {t : Ptr}
    (ht : (s.timer t).flags.active = false) : s.base.runningTimer ≠ some t := by
  intro hrun
  have hactive := h.table.active (h.timed t hrun).1
  simp [ht] at hactive

/-- **Invariants of the runtime.**  What holds after `timer_setup` and is kept by every step that
meets the condition holds after every run of such steps. -/
lemma runtime_invariant {ok : State → Label → Prop} {I : State → Prop}
    (hfresh : ∀ {s}, Fresh s → I s)
    (hstep : ∀ {s l s' es}, RuntimeInv s → I s → l.isRuntime = true → ok s l →
      step s l = some (s', es) → I s')
    {users : Option TimerOption} {created : Bool} {ls : List Label} {now : Timespec} {s : State}
    {es : List Event} (hl : ∀ l ∈ ls, l.isRuntime = true)
    (hok : Along step ok (.setup users created :: ls) (boot now))
    (hrun : run step (.setup users created :: ls) (boot now) = some (s, es)) :
    RuntimeInv s ∧ I s := by
  obtain ⟨s₁, es₁, es₂, h₁, h₂, rfl⟩ := run_cons.mp hrun
  have hs₁ := (fresh_of_setup h₁).1
  have hinit : RuntimeInv s₁ ∧ I s₁ :=
    ⟨⟨hs₁.tableInv, timedOk_of_none hs₁.running⟩, hfresh hs₁⟩
  refine run_invariant (I := fun s => RuntimeInv s ∧ I s) (fun h hok hs => ?_) hinit
    ((along_of_forall hl s₁).and (hok.2 s₁ es₁ h₁)) h₂
  exact ⟨h.1.step hok.1 hs, hstep h.1 h.2 hok.1 hok.2 hs⟩

end LinuxC.Timer
