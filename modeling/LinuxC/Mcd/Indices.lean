import LinuxC.Common.GenericBit
import LinuxC.Mcd.Waiting

/-!
# The indices of the subscribers

`mc_index_alloc` takes the first index that is not in `index_stock`, with a search that has no
length; that it ends inside of the two words is left to the test of `mc->subscribers`.  So the
number of the subscribers and the bits of `index_stock` have to agree: `IndicesSound`.

The words of the code and the bitmaps of the model are connected by `Represents`.

The exit at `err` behind `ipc_server_bind` has no `mc_index_free`.  It is never taken: the only
caller of `mc_ipc_register_process` is the hook of `ipc_server_register`, and the handle that it
passes was created a moment ago and has no cookie.  So the runs are those whose registrations come
on handles without a cookie (`BindsOnce`), and in them every step keeps `Counted`
(`indices_sound`).
-/

namespace LinuxC.Mcd

/-! ## Words and bitmaps -/

/-- The words of a bitmap of the daemon. -/
structure Represents (words : List UInt64) (b : Bitmap) : Prop where
  /-- `MC_BITMAP_SIZE`. -/
  length : words.length = 2
  bits : ∀ i : Fin mcClientMax, GenericBit.testBit i words = b i

lemma Represents.size {words : List UInt64} {b : Bitmap} (h : Represents words b) :
    words.length * GenericBit.bitsPerLong = mcClientMax := by
  rw [h.length]
  rfl

lemma Represents.lt_size {words : List UInt64} {b : Bitmap} (h : Represents words b)
    (i : Fin mcClientMax) : i.val < words.length * GenericBit.bitsPerLong := by
  rw [h.size]
  exact i.isLt

lemma represents_noBits : Represents [0, 0] noBits := by
  refine ⟨rfl, fun i => ?_⟩
  have hi : i.val / 64 = 0 ∨ i.val / 64 = 1 := by
    have := i.isLt
    unfold mcClientMax at this
    omega
  rw [GenericBit.testBit_eq]
  rcases hi with h | h <;> simp [h, noBits]

lemma Represents.setBit {words : List UInt64} {b : Bitmap} (h : Represents words b)
    (i : Fin mcClientMax) : Represents (GenericBit.setBit i words) (setBit i b) := by
  refine ⟨(GenericBit.length_setBit ..).trans h.length, fun j => ?_⟩
  rw [GenericBit.testBit_setBit (h.lt_size j), setBit_apply, h.bits j]
  simp only [Fin.val_inj]

lemma Represents.clearBit {words : List UInt64} {b : Bitmap} (h : Represents words b)
    (i : Fin mcClientMax) : Represents (GenericBit.clearBit i words) (clearBit i b) := by
  refine ⟨(GenericBit.length_clearBit ..).trans h.length, fun j => ?_⟩
  rw [GenericBit.testBit_clearBit (h.lt_size j), clearBit_apply, h.bits j]
  simp only [Fin.val_inj]

lemma firstBitZero_eq_some_iff {b : Bitmap} {i : Fin mcClientMax} :
    firstBitZero b = some i ↔ b i = false ∧ ∀ j < i, b j = true := by
  rw [firstBitZero, List.find?_eq_some_iff_getElem]
  simp only [Bool.not_eq_true', Bool.not_not, List.getElem_finRange, List.length_finRange]
  refine and_congr_right fun _ => ⟨?_, fun h => ⟨i, i.isLt, rfl, fun j hj => ?_⟩⟩
  · rintro ⟨k, hk, rfl, hbelow⟩ j hj
    exact hbelow j hj
  · exact h ⟨j, hj.trans i.isLt⟩ hj

lemma firstBitZero_eq_none_iff {b : Bitmap} : firstBitZero b = none ↔ ∀ i, b i = true := by
  simp [firstBitZero]

/-- **The search on the words** is the search on the bitmap. -/
theorem firstBitZero_words {words : List UInt64} {b : Bitmap} (h : Represents words b) :
    GenericBit.firstBitZero words = (firstBitZero b).map Fin.val := by
  cases hb : firstBitZero b with
  | none =>
      rw [firstBitZero_eq_none_iff] at hb
      rw [Option.map_none, GenericBit.firstBitZero_eq_none_iff, h.size]
      intro nr hnr
      exact (h.bits ⟨nr, hnr⟩).trans (hb _)
  | some i =>
      obtain ⟨hi, hbelow⟩ := firstBitZero_eq_some_iff.mp hb
      rw [Option.map_some, GenericBit.firstBitZero_eq_some_iff, h.size]
      refine ⟨i.isLt, (h.bits i).trans hi, fun j hj => ?_⟩
      exact (h.bits ⟨j, hj.trans i.isLt⟩).trans (hbelow _ hj)

/-! ## What the indices have to be -/

variable {P T : Type}

/-- The indices, the counter and the two bitmaps agree, and the search ends inside of
`index_stock` whenever it is made. -/
structure IndicesSound (w : World P T) : Prop where
  words : ∃ words, Represents words w.mc.indexStock
  stock : ∀ i, w.mc.indexStock i = true ↔ ∃ p s, w.cookie p = some s ∧ s.index = i
  apart : ∀ p q s s', w.cookie p = some s → w.cookie q = some s' → s.index = s'.index → p = q
  count : ∃ registered : Finset P, (∀ p, p ∈ registered ↔ (w.cookie p).isSome) ∧
    registered.card = w.mc.subscribers
  full : ∀ i, w.mc.fullBitmap i = true ↔
    ∃ p s, w.cookie p = some s ∧ s.system = true ∧ s.index = i
  search : w.mc.subscribers < mcClientMax → ∀ words, Represents words w.mc.indexStock →
    ∃ i < mcClientMax, GenericBit.firstBitZero words = some i ∧
      GenericBit.testBit i words = false

/-- The registry, with the number of the subscribers. -/
structure Counted (w : World P T) : Prop extends Registry w where
  taken : ∀ i, w.mc.indexStock i = true → ∃ p s, w.cookie p = some s ∧ s.index = i
  count : ∃ registered : Finset P, (∀ p, p ∈ registered ↔ (w.cookie p).isSome) ∧
    registered.card = w.mc.subscribers

/-- While there is room for a subscriber there is an index for it. -/
lemma Counted.exists_free {w : World P T} (h : Counted w) (hroom : w.mc.subscribers < mcClientMax) :
    ∃ i, firstBitZero w.mc.indexStock = some i := by
  by_contra hnone
  have hfull : ∀ i, w.mc.indexStock i = true := by
    rw [← firstBitZero_eq_none_iff]
    simpa [Option.eq_none_iff_forall_ne_some] using hnone
  -- every index has an owner, and two indices have different owners
  choose owner s hs hindex using fun i => h.taken i (hfull i)
  obtain ⟨registered, hmem, hcard⟩ := h.count
  have hinj : Function.Injective owner := by
    intro i j hij
    have hsame := hs j
    rw [← hij, hs i] at hsame
    rw [← hindex i, ← hindex j, Option.some.inj hsame]
  have hle : (Finset.univ.map ⟨owner, hinj⟩).card ≤ registered.card := by
    apply Finset.card_le_card
    intro p hp
    obtain ⟨i, -, rfl⟩ := Finset.mem_map.mp hp
    exact (hmem _).mpr (by simp [hs i])
  rw [Finset.card_map, Finset.card_univ, Fintype.card_fin] at hle
  omega

lemma Counted.indicesSound {w : World P T} (h : Counted w)
    (hwords : ∃ words, Represents words w.mc.indexStock) : IndicesSound w where
  words := hwords
  stock i := by
    refine ⟨h.taken i, ?_⟩
    rintro ⟨p, s, hp, rfl⟩
    exact h.stock p s hp
  apart := h.apart
  count := h.count
  full i := by
    refine ⟨h.owner i, ?_⟩
    rintro ⟨p, s, hp, hs, rfl⟩
    exact h.full p s hp hs
  search := by
    intro hroom words hwords
    obtain ⟨i, hi⟩ := h.exists_free hroom
    have hword := firstBitZero_words hwords
    rw [hi] at hword
    have hspec := GenericBit.firstBitZero_spec hword
    exact ⟨i, i.isLt, hword, hspec.2.1⟩

lemma counted_init : Counted (World.init : World P T) where
  toRegistry := registry_init
  taken := by simp [World.init, mcInit, noBits]
  count := ⟨∅, by simp [World.init], rfl⟩

/-! ## The steps -/

variable [DecidableEq P]

/-- The checks that `mc_ipc_register_process` makes before it takes an index. -/
def McStruct.Admits (mc : McStruct) (mask : UInt64) (env : RegisterEnv) : Prop :=
  ¬ (mc.closing ∨ ¬ env.named ∨ mcClientMax ≤ mc.subscribers ∨ mask &&& supportedMask = 0 ∨
      mask &&& ~~~supportedMask ≠ 0 ∨ ¬ env.memory) ∧
    ¬ (mask &&& mcGuardMask ≠ 0 ∧ ¬ env.info)

instance (mc : McStruct) (mask : UInt64) (env : RegisterEnv) : Decidable (mc.Admits mask env) :=
  inferInstanceAs (Decidable (_ ∧ _))

/-- A registration comes on a handle that has no cookie, as it does from `ipc_server_register`.  It
is enough that this holds for those that pass the checks. -/
def BindsOnce (w : World P T) : Op P T → Prop
  | .register p mask env => w.mc.Admits mask env → w.cookie p = none
  | _ => True

instance (w : World P T) (l : Op P T) : Decidable (BindsOnce w l) := by
  cases l <;> unfold BindsOnce <;> infer_instance

/-- A new subscriber, as the indices see it. -/
structure Accepted (p : P) (s : McSubscriber) (w w' : World P T) : Prop where
  unbound : w.cookie p = none
  free : w.mc.indexStock s.index = false
  cookie : w'.cookie = Function.update w.cookie p (some s)
  stock : w'.mc.indexStock = setBit s.index w.mc.indexStock
  subscribers : w'.mc.subscribers = w.mc.subscribers + 1

variable {w w' : World P T}

/-- **A registration** that binds once: it is refused, or there is a new subscriber. -/
lemma accepted_of_register {p : P} {mask : UInt64} {env : RegisterEnv}
    (hok : w.mc.Admits mask env → w.cookie p = none)
    (h : mcIpcRegisterProcess p mask env w = some w') : w' = w ∨ ∃ s, Accepted p s w w' := by
  unfold mcIpcRegisterProcess at h
  split_ifs at h with h1 h2 hp
  · exact .inl (Option.some.inj h).symm
  · exact .inl (Option.some.inj h).symm
  · rw [hok ⟨h1, h2⟩] at hp
    cases hp
  · obtain ⟨i, hi, rfl⟩ := Option.map_eq_some_iff.mp h
    refine .inr ⟨⟨i, mask, decide (mask &&& mcGuardMask ≠ 0)⟩, ?_⟩
    exact ⟨hok ⟨h1, h2⟩, (firstBitZero_eq_some_iff.mp hi).1, rfl, rfl, rfl⟩

lemma Counted.register_isSome (h : Counted w) (p : P) (mask : UInt64) (env : RegisterEnv) :
    (mcIpcRegisterProcess p mask env w).isSome := by
  unfold mcIpcRegisterProcess
  split_ifs with h1 h2 hp
  · rfl
  · rfl
  all_goals
    have hroom : w.mc.subscribers < mcClientMax := by
      by_contra hge
      exact h1 (.inr (.inr (.inl (not_lt.mp hge))))
    obtain ⟨i, hi⟩ := h.exists_free hroom
    rw [hi, Option.map_some, Option.isSome_some]

lemma subscribers_release {p : P} {s : McSubscriber} (hp : w.cookie p = some s) :
    (mcIpcReleaseProcess p w).mc.subscribers = w.mc.subscribers - 1 := by
  unfold mcIpcReleaseProcess
  rw [hp]
  by_cases hs : s.system
  · simp [hs, McStruct.mapBits]
  · simp [hs]

/-- **A new subscriber** takes its index. -/
lemma Counted.accepted {p : P} {s : McSubscriber} (h : Counted w) (hregistry : Registry w')
    (ha : Accepted p s w w') : Counted w' where
  toRegistry := hregistry
  taken i hi := by
    rw [ha.stock, setBit_apply] at hi
    rw [ha.cookie]
    split_ifs at hi with he
    · exact ⟨p, s, Function.update_self .., he.symm⟩
    · obtain ⟨q, s', hq, hs'⟩ := h.taken i hi
      have hqp : q ≠ p := by
        rintro rfl
        rw [ha.unbound] at hq
        cases hq
      exact ⟨q, s', (Function.update_of_ne hqp ..).trans hq, hs'⟩
  count := by
    obtain ⟨registered, hmem, hcard⟩ := h.count
    have hp : p ∉ registered := by
      rw [hmem, ha.unbound]
      simp
    refine ⟨insert p registered, fun q => ?_, ?_⟩
    · rw [Finset.mem_insert, hmem, ha.cookie, Function.update_apply]
      split_ifs with hq <;> simp [hq]
    · rw [Finset.card_insert_of_notMem hp, hcard, ha.subscribers]

/-- **A release** gives the index back. -/
lemma Counted.released {p : P} (h : Counted w) : Counted (mcIpcReleaseProcess p w) := by
  cases hp : w.cookie p with
  | none =>
      unfold mcIpcReleaseProcess
      rw [hp]
      exact h
  | some s =>
      obtain ⟨hcookie, hstock, -⟩ := mcIpcReleaseProcess_eq hp
      refine ⟨h.toRegistry.released, fun i hi => ?_, ?_⟩
      · rw [hstock, clearBit_apply] at hi
        split_ifs at hi with he
        obtain ⟨q, s', hq, rfl⟩ := h.taken i hi
        have hqp : q ≠ p := by
          rintro rfl
          obtain rfl : s = s' := Option.some.inj (hp.symm.trans hq)
          exact he rfl
        rw [hcookie]
        exact ⟨q, s', (Function.update_of_ne hqp ..).trans hq, rfl⟩
      · obtain ⟨registered, hmem, hcard⟩ := h.count
        have hin : p ∈ registered := (hmem p).mpr (by simp [hp])
        refine ⟨registered.erase p, fun q => ?_, ?_⟩
        · rw [Finset.mem_erase, hmem, hcookie, Function.update_apply]
          split_ifs with hq <;> simp [hq]
        · rw [Finset.card_erase_of_mem hin, hcard, subscribers_release hp]

omit [DecidableEq P] in
lemma Counted.of_eq (h : Counted w) (hregistry : Registry w') (hcookie : w'.cookie = w.cookie)
    (hstock : w'.mc.indexStock = w.mc.indexStock)
    (hsubscribers : w'.mc.subscribers = w.mc.subscribers) : Counted w' where
  toRegistry := hregistry
  taken := by
    rw [hstock, hcookie]
    exact h.taken
  count := by
    rw [hcookie, hsubscribers]
    exact h.count

variable [DecidableEq T]

/-- The steps of the waits and the answers leave the counter alone. -/
lemma subscribers_of_step {l : Op P T} {es : List (Event P T)} (h : step w l = some (w', es))
    (hregister : ∀ p mask env, l ≠ .register p mask env) (hrelease : ∀ p, l ≠ .release p) :
    w'.cookie = w.cookie ∧ w'.mc.indexStock = w.mc.indexStock ∧
      w'.mc.subscribers = w.mc.subscribers := by
  cases l with
  | register p mask env => exact absurd rfl (hregister p mask env)
  | release p => exact absurd rfl (hrelease p)
  | ack p x =>
      obtain ⟨rfl, -⟩ := Prod.mk.inj (Option.some.inj h)
      unfold mcdClientAckMsg
      split
      · exact ⟨rfl, rfl, rfl⟩
      · simp [wakeAnswered_eq, McStruct.setSynchor]
  | vote p r a =>
      obtain rfl : (mcdClientVoteMsg p r a w).1 = w' := congrArg Prod.fst (Option.some.inj h)
      unfold mcdClientVoteMsg
      split
      · exact ⟨rfl, rfl, rfl⟩
      · simp [wakeAnswered_eq, McStruct.setReferee]
  | close =>
      obtain ⟨rfl, -⟩ := Prod.mk.inj (Option.some.inj h)
      exact ⟨rfl, rfl, rfl⟩
  | synchorWait t x =>
      obtain ⟨-, heq⟩ := step_synchorWait h
      obtain rfl : (mcSynchorWait t x w).1 = w' := congrArg Prod.fst heq
      obtain ⟨-, heq⟩ | ⟨-, heq⟩ := mcSynchorWait_cases t x w <;> rw [heq] <;>
        exact ⟨rfl, rfl, rfl⟩
  | refereeWait t r =>
      obtain ⟨-, heq⟩ := step_refereeWait h
      obtain rfl : (mcRefereeWait t r w).1 = w' := congrArg Prod.fst heq
      obtain ⟨-, heq⟩ | ⟨-, heq⟩ := mcRefereeWait_cases t r w <;> rw [heq] <;>
        exact ⟨rfl, rfl, rfl⟩
  | timeout t =>
      obtain ⟨o, -, -, rfl⟩ := step_timeout h
      exact ⟨rfl, rfl, rfl⟩
  | resume t =>
      obtain ⟨o, timedout, full, own, -, heq⟩ := step_resume h
      obtain rfl : (w.resume t o timedout full own).1 = w' := congrArg Prod.fst heq
      cases o <;> exact ⟨rfl, rfl, rfl⟩

/-- What a step is to the indices: nothing, a new subscriber, or the release of one. -/
inductive Indexed (w w' : World P T) : Prop
  | same (hcookie : w'.cookie = w.cookie) (hstock : w'.mc.indexStock = w.mc.indexStock)
      (hsubscribers : w'.mc.subscribers = w.mc.subscribers)
  | accepted (p : P) (s : McSubscriber) (ha : Accepted p s w w')
  | released (p : P) (hw : w' = mcIpcReleaseProcess p w)

lemma indexed_of_step {l : Op P T} {es : List (Event P T)} (hok : BindsOnce w l)
    (hs : Mcd.step w l = some (w', es)) : Indexed w w' := by
  by_cases hregister : ∃ p mask env, l = .register p mask env
  · obtain ⟨p, mask, env, rfl⟩ := hregister
    obtain ⟨w₁, hw, heq⟩ := Option.map_eq_some_iff.mp hs
    obtain ⟨rfl, -⟩ := Prod.mk.inj heq
    obtain rfl | ⟨s, ha⟩ := accepted_of_register hok hw
    · exact .same rfl rfl rfl
    · exact .accepted p s ha
  · by_cases hrelease : ∃ p, l = .release p
    · obtain ⟨p, rfl⟩ := hrelease
      obtain ⟨rfl, -⟩ := Prod.mk.inj (Option.some.inj hs)
      exact .released p rfl
    · push Not at hregister hrelease
      obtain ⟨hcookie, hstock, hsubscribers⟩ := subscribers_of_step hs hregister hrelease
      exact .same hcookie hstock hsubscribers

/-- **Every step** that binds once keeps the indices sound. -/
lemma Counted.step {l : Op P T} {es : List (Event P T)} (h : Counted w) (hok : BindsOnce w l)
    (hs : Mcd.step w l = some (w', es)) : Counted w' := by
  have hregistry := h.toRegistry.step (change_of_step hs)
  cases indexed_of_step hok hs with
  | same hcookie hstock hsubscribers => exact h.of_eq hregistry hcookie hstock hsubscribers
  | accepted p s ha => exact h.accepted hregistry ha
  | released p hw =>
      rw [hw]
      exact h.released

omit [DecidableEq T] in
/-- The words of the code follow: `bit_set` and `bit_clear` do to them what the step does to the
bitmap. -/
lemma Indexed.words (h : Indexed w w') (hwords : ∃ words, Represents words w.mc.indexStock) :
    ∃ words, Represents words w'.mc.indexStock := by
  obtain ⟨words, hrep⟩ := hwords
  cases h with
  | same _ hstock => exact ⟨words, hstock ▸ hrep⟩
  | accepted p s ha => exact ⟨_, ha.stock ▸ hrep.setBit s.index⟩
  | released p hw =>
      rw [hw]
      cases hp : w.cookie p with
      | none =>
          refine ⟨words, ?_⟩
          unfold mcIpcReleaseProcess
          rw [hp]
          exact hrep
      | some s => exact ⟨_, (mcIpcReleaseProcess_eq hp).2.1 ▸ hrep.clearBit s.index⟩

/-- **The indices are sound** in every run whose registrations come on new handles, and a
registration can always be answered. -/
theorem indices_sound {ls : List (Op P T)} {w : World P T} {es : List (Event P T)}
    (hrun : run step ls World.init = some (w, es)) (hok : Along step BindsOnce ls World.init) :
    IndicesSound w ∧ ∀ p mask env, (step w (.register p mask env)).isSome := by
  have hcounted : Counted w := run_invariant (I := Counted) (fun h hok hs => h.step hok hs)
    counted_init hok hrun
  have hwords : ∃ words, Represents words w.mc.indexStock :=
    run_invariant (I := fun w => ∃ words, Represents words w.mc.indexStock)
      (fun h hok hs => (indexed_of_step hok hs).words h) ⟨_, represents_noBits⟩ hok hrun
  refine ⟨hcounted.indicesSound hwords, fun p mask env => ?_⟩
  simpa [step] using hcounted.register_isSome p mask env

/-- Two subscribers come, the first one goes, a registration is refused for its mask, and another one
gets the index that has become free. -/
theorem indices_sound_sample :
    ∃ (w : World (Fin 3) (Fin 1)) (es : List (Event (Fin 3) (Fin 1))),
      run step [.register 0 5 ⟨true, true, true⟩, .register 1 8 ⟨true, true, true⟩, .release 0,
          .register 0 0 ⟨true, true, true⟩, .register 2 4 ⟨true, true, true⟩]
        World.init = some (w, es) ∧ w.mc.subscribers = 2 ∧ IndicesSound w := by
  have hrun : (run step [.register 0 5 ⟨true, true, true⟩, .register 1 8 ⟨true, true, true⟩,
      .release 0, .register 0 0 ⟨true, true, true⟩, .register 2 4 ⟨true, true, true⟩]
      (World.init : World (Fin 3) (Fin 1))).map (fun r => r.1.mc.subscribers) =
      some 2 := by decide +kernel
  obtain ⟨⟨w, es⟩, hr, hcount⟩ := Option.map_eq_some_iff.mp hrun
  exact ⟨w, es, hr, hcount, (indices_sound hr (by decide +kernel)).1⟩

end LinuxC.Mcd
