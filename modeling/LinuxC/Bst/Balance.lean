import LinuxC.Bst.Operations

/-!
# Balancing

`slant_left` turns the tree into a vine, and `slant_back` compresses the vine: first so that the
nodes that do not fill a level become leaves, then by halves.  The order of the nodes does not
change, and the tree that comes out is low: when it has fewer than `2 ^ h` nodes, its height is at
most `h` (`IsTree.balance`).
-/

namespace LinuxC.Bst

variable {N : Type} [DecidableEq N]

/-- The two tables differ in the links only. -/
structure SameFields (t t' : BstTable N) : Prop where
  count : t'.count = t.count
  maxHeight : t'.maxHeight = t.maxHeight
  generation : t'.generation = t.generation

omit [DecidableEq N] in
lemma SameFields.refl (t : BstTable N) : SameFields t t := ⟨rfl, rfl, rfl⟩

omit [DecidableEq N] in
lemma SameFields.trans {t t' t'' : BstTable N} (h : SameFields t t') (h' : SameFields t' t'') :
    SameFields t t'' :=
  ⟨h'.count.trans h.count, h'.maxHeight.trans h.maxHeight, h'.generation.trans h.generation⟩

lemma sameFields_setLink (t : BstTable N) (n : N) (d : Dir) (x : Option N) :
    SameFields t (t.setLink n d x) := ⟨rfl, rfl, rfl⟩

lemma sameFields_store (t : BstTable N) (p : Place N) (d : Dir) (x : Option N) :
    SameFields t (t.store p d x) := ⟨by simp, by simp, by simp⟩

/-! ## Into a vine -/

/-- The number of nodes on the left edge. -/
def edge : Tree N → ℕ
  | .nil => 0
  | .node _ l _ _ => edge l + 1

/-- All nodes above the place have nothing on their right. -/
def Slanted (ctx : Ctx N) : Prop := ∀ f ∈ ctx, f.dir = .left ∧ f.other = .nil

omit [DecidableEq N] in
lemma Slanted.dirOf {ctx : Ctx N} (h : Slanted ctx) : dirOf ctx = .left := by
  cases ctx with
  | nil => rfl
  | cons f ctx => exact (h f (by simp)).1

omit [DecidableEq N] in
lemma Slanted.length_nodes {ctx : Ctx N} (h : Slanted ctx) (S : Tree N) :
    (plug ctx S).nodes.length = ctx.length + S.nodes.length := by
  induction ctx generalizing S with
  | nil => simp [plug]
  | cons f ctx ih =>
      obtain ⟨e, c, a, s⟩ := f
      obtain ⟨rfl, rfl⟩ : e = .left ∧ s = .nil := h ⟨e, c, a, s⟩ (by simp)
      rw [plug, ih fun g hg => h g (by simp [hg])]
      simp only [Frame.up, Tree.bin, Tree.nodes_node, Tree.nodes_nil, List.length_append,
        List.length_cons, List.length_nil]
      omega

omit [DecidableEq N] in
lemma edge_le (P : Tree N) : edge P ≤ P.nodes.length := by
  induction P with
  | nil => simp [edge]
  | node c l a r ihl _ =>
      simp only [edge, Tree.nodes_node, List.length_append, List.length_cons]
      omega

lemma Holds.rotateLeft {t : BstTable N} {ctx : Ctx N} {c c' : Color} {A B C : Tree N} {p r : N}
    (h : Holds t (plug ctx (.node c A p (.node c' B r C)))) (hdir : dirOf ctx = .left) :
    Holds (((t.setLink p .right (t.link r .left)).setLink r .left (some p)).store (placeOf ctx) .left
      (some r)) (plug ctx (.node c' (.node c A p B) r C)) := by
  obtain ⟨hpA, hpr, hA, hrB, hrC, hB, hC⟩ := (rep_plug.mp h.rep).2
  have hnd := h.nodup
  have hsame : (Tree.node c A p (.node c' B r C)).nodes = (Tree.node c' (.node c A p B) r C).nodes :=
    by simp
  rw [nodes_plug_congr ctx hsame] at hnd
  obtain ⟨hndS, -, hdisj⟩ := nodup_nodes_plug.mp hnd
  rw [Tree.nodes_node, Tree.nodes_node] at hndS hdisj
  have hpr' : p ≠ r := by grind
  let t₁ := (t.setLink p .right (t.link r .left)).setLink r .left (some p)
  have hframe : ∀ m, m ≠ p → m ≠ r → ∀ e, t₁.link m e = t.link m e := by
    intro m hmp hmr e
    simp [t₁, hmp, hmr]
  have hrep : Rep t₁.link (.node c' (.node c A p B) r C) := by
    refine ⟨by simp [t₁], ?_, ⟨?_, ?_, hA.congr ?_, hB.congr ?_⟩, hC.congr ?_⟩
    · simpa [t₁, hpr'.symm] using hrC
    · simpa [t₁, hpr'] using hpA
    · simpa [t₁, hpr'] using hrB
    · exact fun m hm => hframe m (by grind) (by grind)
    · exact fun m hm => hframe m (by grind) (by grind)
    · exact fun m hm => hframe m (by grind) (by grind)
  have hctx : ∀ m ∈ ctx.nodes, ∀ e, t₁.link m e = t.link m e := by
    intro m hm
    refine hframe m ?_ ?_
    · rintro rfl
      exact hdisj (by simp) hm
    · rintro rfl
      exact hdisj (by simp) hm
  have hstored := h.store (show t₁.root = t.root from rfl) hctx hrep hnd rfl
  rwa [hdir] at hstored

/-- **`slant_left`** makes a vine of the rest of the tree. -/
lemma slantLeft_spec {t : BstTable N} {ctx : Ctx N} {P : Tree N} {fuel : ℕ}
    (h : Holds t (plug ctx P)) (hctx : Slanted ctx) (hfuel : 2 * P.nodes.length < fuel + edge P) :
    ∃ t' ctx', slantLeft fuel (placeOf ctx) P.root? t = .ok t' ∧ Holds t' (plug ctx' .nil) ∧
      Slanted ctx' ∧ (plug ctx' .nil).nodes = (plug ctx P).nodes ∧ SameFields t t' := by
  induction fuel generalizing t ctx P with
  | zero =>
      have := edge_le P
      omega
  | succ fuel ih =>
      match P with
      | .nil => exact ⟨t, ctx, rfl, h, hctx, rfl, .refl t⟩
      | .node c A p .nil =>
          have hnode := (rep_plug.mp h.rep).2
          have hright : t.link p .right = none := hnode.2.1
          have hdown : Holds t (plug (⟨.left, c, p, .nil⟩ :: ctx) A) := h
          have hctx' : Slanted (⟨.left, c, p, .nil⟩ :: ctx) := by
            intro f hf
            rcases List.mem_cons.mp hf with rfl | hf
            · exact ⟨rfl, rfl⟩
            · exact hctx f hf
          have hlen : 2 * A.nodes.length < fuel + edge A := by
            simp only [Tree.nodes_node, Tree.nodes_nil, List.length_append, List.length_cons,
              List.length_nil, edge] at hfuel
            omega
          obtain ⟨t', ctx', heval, h', hs, hnodes, hf⟩ := ih hdown hctx' hlen
          refine ⟨t', ctx', ?_, h', hs, hnodes, hf⟩
          rw [Tree.root?_node, slantLeft, hright, hnode.1]
          exact heval
      | .node c A p (.node c' B r C) =>
          have hright : t.link p .right = some r := (rep_plug.mp h.rep).2.2.1
          have hrot := h.rotateLeft hctx.dirOf
          have hlen : 2 * (Tree.node c' (.node c A p B) r C).nodes.length <
              fuel + edge (Tree.node c' (.node c A p B) r C) := by
            simp only [Tree.nodes_node, List.length_append, List.length_cons, edge] at hfuel ⊢
            omega
          obtain ⟨t', ctx', heval, h', hs, hnodes, hf⟩ := ih hrot hctx hlen
          refine ⟨t', ctx', ?_, h', hs, ?_, ?_⟩
          · rw [Tree.root?_node, slantLeft, hright]
            exact heval
          · rw [hnodes]
            exact nodes_plug_congr ctx (by simp)
          · exact (((sameFields_setLink ..).trans (sameFields_setLink ..)).trans
              (sameFields_store ..)).trans hf

/-! ## Back from a vine -/

lemma Holds.rotateRight {t : BstTable N} {ctx : Ctx N} {c c' : Color} {A B R : Tree N} {a b : N}
    (h : Holds t (plug ctx (.node c (.node c' A b B) a R))) (hdir : dirOf ctx = .left)
    {t₁ : BstTable N} (ht₁ : t₁ = t.store (placeOf ctx) .left (some b)) :
    Holds ((t₁.setLink a .left (t₁.link b .right)).setLink b .right (some a))
      (plug ctx (.node c' A b (.node c B a R))) := by
  obtain ⟨-, haR, ⟨hbA, hbB, hA, hB⟩, hR⟩ := (rep_plug.mp h.rep).2
  have hnd := h.nodup
  have hsame : (Tree.node c (.node c' A b B) a R).nodes = (Tree.node c' A b (.node c B a R)).nodes :=
    by simp
  rw [nodes_plug_congr ctx hsame] at hnd
  obtain ⟨hndS, -, hdisj⟩ := nodup_nodes_plug.mp hnd
  rw [Tree.nodes_node, Tree.nodes_node] at hndS hdisj
  have hab : a ≠ b := by grind
  let t₂ := (t.setLink a .left (t.link b .right)).setLink b .right (some a)
  have hframe : ∀ m, m ≠ a → m ≠ b → ∀ e, t₂.link m e = t.link m e := by
    intro m hma hmb e
    simp [t₂, hma, hmb]
  have hrep : Rep t₂.link (.node c' A b (.node c B a R)) := by
    refine ⟨?_, by simp [t₂], hA.congr ?_, ?_, ?_, hB.congr ?_, hR.congr ?_⟩
    · simpa [t₂, hab.symm] using hbA
    · exact fun m hm => hframe m (by grind) (by grind)
    · simpa [t₂, hab] using hbB
    · simpa [t₂, hab] using haR
    · exact fun m hm => hframe m (by grind) (by grind)
    · exact fun m hm => hframe m (by grind) (by grind)
  have hout : a ∉ ctx.nodes ∧ b ∉ ctx.nodes := ⟨fun hm => hdisj (by simp) hm,
    fun hm => hdisj (by simp) hm⟩
  have hctx : ∀ m ∈ ctx.nodes, ∀ e, t₂.link m e = t.link m e := by
    intro m hm
    refine hframe m ?_ ?_
    · rintro rfl
      exact hout.1 hm
    · rintro rfl
      exact hout.2 hm
  have hstored := h.store (show t₂.root = t.root from rfl) hctx hrep hnd rfl
  rw [hdir] at hstored
  -- the source turns the link to the place first
  cases ctx with
  | nil => exact hstored.of_eq (by rw [ht₁]; rfl) (by rw [ht₁]; rfl)
  | cons f ctx =>
      have hf : f.node ∈ Ctx.nodes (f :: ctx) := Ctx.mem_nodes_cons.mpr (.inl rfl)
      have hfa : a ≠ f.node := fun e => hout.1 (e ▸ hf)
      have hfb : b ≠ f.node := fun e => hout.2 (e ▸ hf)
      apply hstored.of_eq (by rw [ht₁]; rfl)
      subst ht₁
      funext m e
      simp only [t₂, placeOf, BstTable.store, link_setLink, Tree.root?_node]
      by_cases hma : m = a
      · subst hma
        simp [hfa, hfb, hab]
      · by_cases hmb : m = b
        · subst hmb
          simp [hfb, hma]
        · simp [hma, hmb]

/-- **`slant_left_back`** compresses the tree at the place. -/
lemma slantLeftBack_spec {t : BstTable N} {ctx : Ctx N} {P P' : Tree N} {k : ℕ}
    (h : Holds t (plug ctx P)) (hdir : dirOf ctx = .left) (hk : compress k P = some P') :
    ∃ t', slantLeftBack (placeOf ctx) k t = .ok t' ∧ Holds t' (plug ctx P') ∧
      SameFields t t' := by
  induction k generalizing t ctx P P' with
  | zero =>
      obtain rfl : P = P' := by simpa [compress] using hk
      exact ⟨t, rfl, h, .refl t⟩
  | succ k ih =>
      rcases P with _ | ⟨c, _ | ⟨c', A, b, B⟩, a, R⟩
      · simp [compress] at hk
      · simp [compress] at hk
      · obtain ⟨A', hA, rfl⟩ : ∃ A', compress k A = some A' ∧
            .node c' A' b (.node c B a R) = P' := by
          simpa [compress, Option.bind_eq_some_iff] using hk
        have hload : t.load (placeOf ctx) .left = some a := by
          have hload := h.load
          rwa [hdir] at hload
        have hleft : t.link a .left = some b := (rep_plug.mp h.rep).2.1
        have hrot := h.rotateRight hdir rfl
        have hdown : Holds _ (plug (⟨.left, c', b, .node c B a R⟩ :: ctx) A) := hrot
        obtain ⟨t', heval, h', hf⟩ := ih hdown rfl hA
        refine ⟨t', ?_, h', ?_⟩
        · rw [slantLeftBack, hload]
          simp only [hleft]
          exact heval
        · exact (((sameFields_store ..).trans (sameFields_setLink ..)).trans
            (sameFields_setLink ..)).trans hf

omit [DecidableEq N] in
/-- The loop that clears the lowest bits leaves the highest one. -/
lemma highBit_spec {k x fuel : ℕ} (hlow : 2 ^ k ≤ x) (hhigh : x < 2 ^ (k + 1)) (hfuel : x ≤ fuel) :
    highBit fuel x = .ok (2 ^ k) := by
  induction fuel generalizing x with
  | zero =>
      have := Nat.two_pow_pos k
      omega
  | succ fuel ih =>
      rw [highBit]
      by_cases hx : x = 2 ^ k
      · subst hx
        rw [if_pos (by rw [Nat.and_two_pow_sub_one_eq_mod, Nat.mod_self])]
      · have hbit : ∀ y, 2 ^ k ≤ y → y < 2 ^ (k + 1) → y.testBit k = true := by
          intro y hy hy'
          rw [Nat.testBit_eq_decide_div_mod_eq, decide_eq_true_iff]
          have hdiv : y / 2 ^ k = 1 := by
            rw [Nat.pow_succ] at hy'
            exact Nat.div_eq_of_lt_le (by omega) (by omega)
          rw [hdiv]
        have hkeep : 2 ^ k ≤ x &&& (x - 1) := by
          apply Nat.ge_two_pow_of_testBit
          rw [Nat.testBit_and, hbit x hlow hhigh, hbit (x - 1) (by omega) (by omega)]
          rfl
        have hless : x &&& (x - 1) ≤ x - 1 := Nat.and_le_right
        have hpos := Nat.two_pow_pos k
        rw [if_neg (by omega)]
        exact ih hkeep (by omega) (by omega)

/-- The loop of `slant_back` on a vine of `2 ^ j - 1` nodes. -/
lemma slantLoop_spec {t : BstTable N} {P : Tree N} {k j e fuel : ℕ} (height : ℕ) (h : Holds t P)
    (hvine : Vine k (2 ^ j - 1) e P) (hfuel : j < fuel) :
    ∃ t' P', slantLoop fuel (2 ^ j - 1) height t = .ok (t', height + (j - 1)) ∧ Holds t' P' ∧
      P'.nodes = P.nodes ∧ Filled (k + j) e P' ∧ SameFields t t' := by
  induction j generalizing t P k fuel height with
  | zero =>
      obtain ⟨fuel, rfl⟩ : ∃ k, fuel = k + 1 := ⟨fuel - 1, by omega⟩
      exact ⟨t, P, by simp [slantLoop], h, rfl, hvine, .refl t⟩
  | succ j ih =>
      obtain ⟨fuel, rfl⟩ : ∃ k, fuel = k + 1 := ⟨fuel - 1, by omega⟩
      cases j with
      | zero => exact ⟨t, P, by simp [slantLoop], h, rfl, Vine.filled hvine, .refl t⟩
      | succ j =>
          have hpow : 2 ^ (j + 1 + 1) = 2 * 2 ^ (j + 1) := by rw [Nat.pow_succ, Nat.mul_comm]
          have hpow' : 2 ^ (j + 1) = 2 * 2 ^ j := by rw [Nat.pow_succ, Nat.mul_comm]
          have hpos := Nat.two_pow_pos j
          have hhalf : (2 ^ (j + 1 + 1) - 1) >>> 1 = 2 ^ (j + 1) - 1 := by
            rw [Nat.shiftRight_one]
            omega
          have hodd : 2 ^ (j + 1 + 1) - 1 = 2 * (2 ^ (j + 1) - 1) + 1 := by omega
          have hmore : 1 < 2 ^ (j + 1 + 1) - 1 := by omega
          rw [hodd] at hvine
          obtain ⟨P₁, hcompress, hvine₁⟩ := hvine.halve
          have hheld : Holds t (plug [] P) := h
          obtain ⟨t₁, heval₁, h₁, hf₁⟩ := slantLeftBack_spec hheld rfl hcompress
          obtain ⟨t', P', heval, h', hnodes, hfilled, hf⟩ :=
            ih (height + 1) h₁ hvine₁ (by omega : j + 1 < fuel)
          refine ⟨t', P', ?_, h', hnodes.trans (nodes_compress hcompress), ?_, hf₁.trans hf⟩
          · rw [slantLoop, if_pos hmore, hhalf]
            rw [show (Place.table : Place N) = placeOf [] from rfl, heval₁]
            rw [show height + (j + 1 + 1 - 1) = height + 1 + (j + 1 - 1) from by omega]
            exact heval
          · rwa [show k + (j + 1 + 1) = k + 1 + (j + 1) from by omega]

/-- **`slant_back`** on a bare vine, with the last value of its variable `height`. -/
lemma slantBack_spec {t : BstTable N} {P : Tree N} {n fuel : ℕ} (h : Holds t P)
    (hvine : Vine 0 n 0 P) (hcount : t.count = n) (hfuel : n < fuel) :
    ∃ t' P' height, slantBack fuel t = .ok (t', height) ∧ Holds t' P' ∧ P'.nodes = P.nodes ∧
      Filled (fullLevels n) (lastLevel n) P' ∧ (0 < n → height = P'.height) ∧ SameFields t t' := by
  have hsum := two_pow_fullLevels n
  have hlt := lastLevel_lt n
  have hkn : fullLevels n ≤ n := by
    have := Nat.lt_two_pow_self (n := fullLevels n)
    omega
  have hheld : Holds t (plug [] P) := h
  rw [show n = 2 ^ fullLevels n - 1 - lastLevel n + 2 * lastLevel n from by omega] at hvine
  obtain ⟨P₁, hcompress, hvine₁⟩ := hvine.leaves
  rw [show 2 ^ fullLevels n - 1 - lastLevel n + lastLevel n = 2 ^ fullLevels n - 1 from by
    omega] at hvine₁
  obtain ⟨t₁, heval₁, h₁, hf₁⟩ := slantLeftBack_spec hheld rfl hcompress
  obtain ⟨t', P', heval, h', hnodes, hfilled, hf⟩ :=
    slantLoop_spec (1 + if 0 < lastLevel n then 1 else 0) h₁ hvine₁
      (by omega : fullLevels n < fuel)
  rw [Nat.zero_add] at hfilled
  refine ⟨t', P', (1 + if 0 < lastLevel n then 1 else 0) + (fullLevels n - 1), ?_, h',
    hnodes.trans (nodes_compress hcompress), hfilled, fun hpos => ?_, hf₁.trans hf⟩
  · have hhigh : highBit fuel (n + 1) = .ok (2 ^ fullLevels n) := by
      refine highBit_spec (by omega) ?_ (by omega)
      rw [Nat.pow_succ]
      omega
    have hvar : t₁.count - lastLevel n = 2 ^ fullLevels n - 1 := by
      rw [hf₁.count, hcount]
      omega
    rw [slantBack, hcount, hhigh]
    change (slantLeftBack (placeOf []) (lastLevel n) t >>= _) = _
    rw [heval₁]
    change slantLoop fuel (t₁.count - lastLevel n) _ t₁ = _
    rw [hvar]
    exact heval
  · have hlevel : fullLevels n ≠ 0 := by
      intro h0
      rw [h0] at hsum hlt
      omega
    rw [hfilled.height_eq.1]
    omega

/-- **The two halves of `bst_balance`.** -/
lemma Holds.slant {t : BstTable N} {T : Tree N} (h : Holds t T) (hcount : t.count = T.nodes.length)
    {fuel : ℕ} (hfuel : 2 * t.count < fuel) :
    ∃ t₁ t₂ T' height, slantLeft fuel .table t.root t = .ok t₁ ∧
      slantBack fuel t₁ = .ok (t₂, height) ∧ Holds t₂ T' ∧ T'.nodes = T.nodes ∧
      Filled (fullLevels t.count) (lastLevel t.count) T' ∧ (0 < t.count → height = T'.height) ∧
      SameFields t t₂ := by
  have hheld : Holds t (plug [] T) := h
  have hslanted : Slanted ([] : Ctx N) := by simp [Slanted]
  obtain ⟨t₁, ctx, heval₁, h₁, hslant, hnodes₁, hf₁⟩ :=
    slantLeft_spec hheld hslanted (by omega : 2 * T.nodes.length < fuel + edge T)
  replace hnodes₁ : (plug ctx .nil).nodes = T.nodes := hnodes₁
  have hlength : t.count = ctx.length := by
    have := hslant.length_nodes .nil
    rw [hnodes₁] at this
    simpa [hcount] using this
  have hvine : Vine 0 t.count 0 (plug ctx .nil) := by
    have := vine_plug hslant (show Vine 0 0 0 (.nil : Tree N) from .inl ⟨rfl, rfl⟩)
    rwa [Nat.zero_add, ← hlength] at this
  obtain ⟨t₂, T₂, height, heval₂, h₂, hnodes₂, hfilled, hheight, hf₂⟩ :=
    slantBack_spec h₁ hvine hf₁.count (by omega : t.count < fuel)
  refine ⟨t₁, t₂, T₂, height, ?_, heval₂, h₂, hnodes₂.trans hnodes₁, hfilled, hheight,
    hf₁.trans hf₂⟩
  rw [h.root]
  exact heval₁

/-- **`bst_balance`** keeps the order of the nodes and fills the levels of the tree. -/
lemma IsTree.balance_filled {cmp : N → N → ℤ} {t : BstTable N} {T : Tree N} (h : IsTree cmp t T)
    {fuel : ℕ} (hfuel : 2 * t.count < fuel) :
    ∃ t' T', bstBalance fuel t = .ok t' ∧ IsTree cmp t' T' ∧ T'.nodes = T.nodes ∧
      Filled (fullLevels t.count) (lastLevel t.count) T' ∧
      t'.generation = t.generation + 1 ∧ t'.maxHeight = t.maxHeight ∧ t'.count = t.count := by
  obtain ⟨t₁, t₂, T₂, height, heval₁, heval₂, h₂, hnodes, hfilled, -, hf⟩ :=
    h.holds.slant h.count hfuel
  refine ⟨{ t₂ with generation := t₂.generation + 1 }, T₂, ?_, ⟨h₂.of_eq rfl rfl, ?_, ?_⟩, hnodes,
    hfilled, ?_, hf.maxHeight, hf.count⟩
  · rw [bstBalance, heval₁]
    change (slantBack fuel t₁ >>= _) = _
    rw [heval₂]
    rfl
  · rw [hnodes]
    exact h.sorted
  · rw [hnodes, ← h.count]
    exact hf.count
  · change t₂.generation + 1 = _
    rw [hf.generation]

/-- The tree is low enough for the iterators when the number of its nodes allows it. -/
lemma IsTree.balance {cmp : N → N → ℤ} {t : BstTable N} {T : Tree N} (h : IsTree cmp t T)
    {fuel : ℕ} (hfuel : 2 * t.count < fuel) :
    ∃ t' T', bstBalance fuel t = .ok t' ∧ IsTree cmp t' T' ∧ T'.nodes = T.nodes ∧
      (t.count < 2 ^ t.maxHeight → T'.height ≤ t.maxHeight) ∧
      t'.generation = t.generation + 1 ∧ t'.maxHeight = t.maxHeight ∧ t'.count = t.count := by
  obtain ⟨t', T', heval, hT', hnodes, hfilled, hfields⟩ := h.balance_filled hfuel
  exact ⟨t', T', heval, hT', hnodes, fun hlow => hfilled.height_le hlow, hfields⟩

end LinuxC.Bst
