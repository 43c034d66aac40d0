import LinuxC.Ipc.Buckets
import LinuxC.Ipc.Subscriber

/-!
# Routing and filtering (`ipc/ipc_server.c`, `ipc/ipc_client.c`)

A topic is looked at three times.  `topic_check` lets a value with at most one bit through,
`bit_index` takes it to the bucket of its highest bit, and the subscriber that receives the message
tests the value against its mask.  On a value with one bit the three agree: the bucket of the bit
holds the subscribers whose mask has it.  The value 0 has no bit: it passes the check and goes to
the bucket of the bit 0, whose subscribers do not accept it.
-/

namespace LinuxC.Ipc

/-! ## One topic, three tests -/

/-- **`topic_check`** lets 0 and the single bits through. -/
lemma topicCheck_iff (topic : UInt64) :
    topicCheck topic = true ↔ topic = 0 ∨ ∃ i < 64, topic.toNat = 2 ^ i := by
  constructor
  · intro h
    rw [topicCheck, decide_eq_true_iff] at h
    apply or_iff_not_imp_left.mpr
    intro hne
    have hpos : topic.toNat ≠ 0 := fun hn => hne (UInt64.toNat_inj.mp hn)
    have hrank := rank_clear hpos topic.toNat_lt
    rw [← toNat_clear hne, h] at hrank
    have hzero : rank (0 : UInt64).toNat 64 = 0 := by decide
    obtain ⟨i, hi, hbit, hri⟩ := exists_rank (n := topic.toNat) (k := 64) (j := 0) (by omega)
    refine ⟨i, hi, Nat.eq_of_testBit_eq fun k => ?_⟩
    rw [Nat.testBit_two_pow]
    by_cases hk : topic.toNat.testBit k = true
    · -- both bits have the rank 0, since there is one bit only
      have hk64 : k < 64 := by
        by_contra hge
        rw [Nat.testBit_lt_two_pow (lt_of_lt_of_le topic.toNat_lt
          (Nat.pow_le_pow_right (by decide) (Nat.le_of_not_lt hge)))] at hk
        cases hk
      have hlt := rank_lt hk hk64
      have hik : i = k := rank_inj hbit hk (by omega)
      simp [hik, hk]
    · have hik : i ≠ k := fun heq => hk (heq ▸ hbit)
      simp [hik, hk]
  · rintro (rfl | ⟨i, -, hi⟩)
    · decide
    · exact topicCheck_single hi

lemma accepts_single {mask topic : UInt64} {i : ℕ} (h : topic.toNat = 2 ^ i) :
    accepts mask topic = mask.toNat.testBit i := by
  have hpos := Nat.two_pow_pos i
  rw [accepts, topicCheck_single h, Bool.and_true, topicIsset, Bool.eq_iff_iff, decide_eq_true_iff,
    Ne, ← UInt64.toNat_inj, UInt64.toNat_and, h, Nat.and_two_pow]
  cases mask.toNat.testBit i with
  | false => simp
  | true => simp

lemma accepts_zero (mask : UInt64) : accepts mask 0 = false := by simp [accepts, topicIsset]

/-! ## Who is sent a copy -/

variable {core : IpcCore} {topic : UInt64} {dest : ℤ} {sends : List Ptr}

/-- A call that routes a message with the topic, its destination, and the handles to which it sends a
copy: `ipc_server_publish` and `ipc_server_publishx`, which has its message packed, or
`ipc_broker_publish`. -/
inductive Routed (core : IpcCore) (topic : UInt64) : ℤ → List Ptr → Prop
  | publish {dest : ℤ} {packed : Bool} {sends : List Ptr}
      (h : ipcServerPublish dest topic packed core = some (0, sends)) : Routed core topic dest sends
  | broker {filter : Option (IpcNotify → ℤ)} {notify : IpcNotify} {sends : List Ptr}
      (htopic : notify.topic = topic) (h : ipcBrokerPublish filter notify core = some (0, sends)) :
      Routed core topic notify.dest sends

/-- **Routing and filtering agree on a topic**: who is sent a copy accepts it, and a broadcast is
sent to every synchronised subscriber whose mask has a bit of the topic. -/
structure RoutingAgrees (topic : UInt64) (core : IpcCore) : Prop where
  accepted : ∀ dest sends, Routed core topic dest sends →
    ∀ p ∈ sends, ∃ s, core.handle p = some s ∧ accepts s.mask topic = true
  reached : ∀ sends, Routed core topic ipcToBroadcast sends →
    ∀ p ∈ syncOrder core, ∀ s, core.handle p = some s → topicIsset s.mask topic = true → p ∈ sends

/-- What is routed has passed the check, and goes where the bucket says. -/
lemma Routed.passed (h : Routed core topic dest sends) :
    topicCheck topic = true ∧ publishSends dest topic core = some sends := by
  cases h with
  | publish h =>
      rename_i packed
      simp only [ipcServerPublish] at h
      split_ifs at h with h1 h2 h3 h4
      · cases h
      · cases h
      · cases h
      · obtain ⟨ps, hps, heq⟩ := Option.map_eq_some_iff.mp h
        obtain ⟨-, rfl⟩ := Prod.mk.inj heq
        exact ⟨by simpa using h2, by rw [publishSends, if_pos h4, hps]⟩
      · obtain ⟨-, rfl⟩ := Prod.mk.inj (Option.some.inj h)
        exact ⟨by simpa using h2, by rw [publishSends, if_neg h4]⟩
  | @broker filter notify sends htopic h =>
      subst htopic
      simp only [ipcBrokerPublish] at h
      split_ifs at h with h1 h2 h3
      · cases h
      · cases h
      · obtain ⟨-, rfl⟩ := Prod.mk.inj (Option.some.inj h)
        exact ⟨by simpa using h1, by rw [publishSends, if_neg (by simpa using h3)]⟩
      · obtain ⟨ps, hps, heq⟩ := Option.map_eq_some_iff.mp h
        obtain ⟨-, rfl⟩ := Prod.mk.inj heq
        exact ⟨by simpa using h1, by rw [publishSends, if_pos (by simpa using h3), hps]⟩

lemma bitIndex_lt (h : topicCheck topic = true) : bitIndex topic < 64 := by
  rcases (topicCheck_iff topic).mp h with rfl | ⟨i, hi, htopic⟩
  · decide
  · rw [bitIndex_eq htopic hi]
    exact hi

lemma BucketsOk.publishSends_eq (h : BucketsOk core) (htopic : topicCheck topic = true)
    (dest : ℤ) : publishSends dest topic core = some (recipients core dest
      ((syncOrder core).filter fun p => (maskOf core p).testBit (bitIndex topic))) := by
  rw [publishSends]
  split_ifs with hb
  · exact h.deliver hb (bitIndex_lt htopic) dest
  · rw [h.syncOrder_eq_nil (by simpa using hb)]
    simp [recipients]

lemma mem_of_mem_recipients {peers : List Ptr} {p : Ptr} (hp : p ∈ recipients core dest peers) :
    p ∈ peers := by
  unfold recipients at hp
  split_ifs at hp
  · exact hp
  · exact List.mem_of_find?_eq_some (Option.mem_toList.mp hp)

/-- A synchronised subscriber with the bit of the bucket is sent what is broadcast. -/
lemma BucketsOk.broadcast (h : BucketsOk core) (hr : Routed core topic ipcToBroadcast sends)
    {p : Ptr} {s : IpcServer} (hp : p ∈ syncOrder core) (hs : core.handle p = some s)
    (hbit : s.mask.toNat.testBit (bitIndex topic) = true) : p ∈ sends := by
  obtain ⟨hcheck, hsends⟩ := hr.passed
  rw [h.publishSends_eq hcheck, recipients, if_pos rfl] at hsends
  rw [← Option.some.inj hsends, List.mem_filter, maskOf_eq hs]
  exact ⟨hp, hbit⟩

/-- Who is sent a copy is a synchronised subscriber with the bit of the bucket. -/
lemma BucketsOk.recipient (h : BucketsOk core) (hr : Routed core topic dest sends) {p : Ptr}
    (hp : p ∈ sends) : p ∈ syncOrder core ∧ ∃ s, core.handle p = some s ∧
      s.mask.toNat.testBit (bitIndex topic) = true := by
  obtain ⟨hcheck, hsends⟩ := hr.passed
  rw [h.publishSends_eq hcheck] at hsends
  obtain rfl := Option.some.inj hsends
  obtain ⟨horder, hbit⟩ := List.mem_filter.mp (mem_of_mem_recipients hp)
  obtain ⟨-, s, hs⟩ := mem_syncOrder.mp horder
  rw [maskOf_eq hs] at hbit
  exact ⟨horder, s, hs, hbit⟩

lemma BucketsOk.agrees_single (h : BucketsOk core) {i : ℕ} (hi : i < 64)
    (htopic : topic.toNat = 2 ^ i) : RoutingAgrees topic core := by
  refine ⟨fun dest sends hr p hp => ?_, fun sends hr p hp s hs hset => ?_⟩
  · obtain ⟨-, s, hs, hbit⟩ := h.recipient hr hp
    rw [bitIndex_eq htopic hi] at hbit
    exact ⟨s, hs, (accepts_single htopic).trans hbit⟩
  · apply h.broadcast hr hp hs
    rw [bitIndex_eq htopic hi, ← accepts_single htopic, accepts, hset, topicCheck_single htopic]
    rfl

/-- **Where routing and filtering agree.**  In every state with well formed buckets, on every
topic but 0; and on the topic 0 exactly if no synchronised subscriber has the bit 0. -/
theorem routing_agrees_iff (h : BucketsOk core) (topic : UInt64) :
    RoutingAgrees topic core ↔ topic ≠ 0 ∨
      ∀ p ∈ syncOrder core, ∀ s, core.handle p = some s → s.mask.toNat.testBit 0 = false := by
  constructor
  · intro hagrees
    apply or_iff_not_imp_left.mpr
    intro hzero p hp s hs
    obtain rfl : topic = 0 := not_not.mp hzero
    by_contra hbit
    rw [Bool.not_eq_false] at hbit
    have hcheck : topicCheck 0 = true := by decide
    have hsends := h.publishSends_eq hcheck ipcToBroadcast
    have hr : Routed core 0 ipcToBroadcast _ :=
      @Routed.broker core 0 none ⟨ipcToBroadcast, 0, 0, 0⟩ _ rfl (by
        rw [ipcBrokerPublish_eq hcheck (by simp), hsends, Option.map_some])
    obtain ⟨t, -, haccept⟩ := hagrees.accepted _ _ hr p (h.broadcast hr hp hs hbit)
    rw [accepts_zero] at haccept
    cases haccept
  · rintro hcond
    by_cases hzero : topic = 0
    · subst hzero
      have hnone := hcond.resolve_left (not_not.mpr rfl)
      refine ⟨fun dest sends hr p hp => ?_, fun sends hr p hp s hs hset => ?_⟩
      · obtain ⟨horder, s, hs, hbit⟩ := h.recipient hr hp
        rw [show bitIndex 0 = 0 by decide, hnone p horder s hs] at hbit
        cases hbit
      · simp [topicIsset] at hset
    · by_cases hcheck : topicCheck topic = true
      · obtain ⟨i, hi, htopic⟩ := ((topicCheck_iff topic).mp hcheck).resolve_left hzero
        exact h.agrees_single hi htopic
      · exact ⟨fun dest sends hr => absurd hr.passed.1 hcheck,
          fun sends hr => absurd hr.passed.1 hcheck⟩

/-- A peer with the topics 0 and 1 has registered. -/
def joinedPeer : IpcCore :=
  ipcServerRegister 5 (registerMsg 41 [3, 0, 0, 0, 0, 0, 0, 0] (by decide))
    ⟨⟨true, true, true⟩, 0, true⟩ (IpcCore.boot 3)

/-- It has synchronised. -/
def syncedPeer : IpcCore := ipcServerSync 1 joinedPeer

/-- On the topic 2 routing and filtering agree for it. -/
theorem routing_agrees_iff_sample :
    RoutingAgrees 2 syncedPeer ∧ ipcServerPublish ipcToBroadcast 2 true syncedPeer = some (0, [1]) ∧
      accepts 3 2 = true := by
  have hform : Formed joinedPeer := (formed_boot 3).register _ _ _
  have hok : BucketsOk joinedPeer := (bucketsOk_boot 3).register _ _ _
  obtain ⟨s, hs, hclazz⟩ : ∃ s, joinedPeer.handle 1 = some s ∧ s.clazz = .subscriber :=
    ⟨_, rfl, rfl⟩
  have hsynced : BucketsOk syncedPeer := hok.sync hform hs hclazz (by decide)
  exact ⟨(routing_agrees_iff hsynced 2).mpr (.inl (by decide)), rfl, by decide⟩

/-- **A broadcast of the topic 0** is sent to a subscriber that does not accept it. -/
theorem routing_disagrees_zero : ¬ RoutingAgrees 0 syncedPeer := by
  intro h
  have hsent : ipcServerPublish ipcToBroadcast 0 true syncedPeer = some (0, [1]) := rfl
  obtain ⟨s, -, haccept⟩ := h.accepted _ _ (.publish hsent) 1 (by simp)
  rw [accepts_zero] at haccept
  cases haccept

end LinuxC.Ipc
