import LinuxC.Framework.SearchTree

/-!
# Paths and vines

`At t as x` says that the node `x` lies in the tree `t` below the nodes `as`, from the root down.
A change of a subtree that moves no node down moves none down in the whole tree
(`NoDeeper.plug`), and one that leaves the paths alone leaves them alone there too (`Keeps.plug`).

A vine is a tree whose nodes hang to the left of one another.  `compress k` rotates every other node
of the first `2 k` to the right: it halves a vine and gives the subtrees a level more
(`Vine.halve`).  What comes out in the end is `Filled`: all levels are full but the last, which is
filled from the right.
-/

namespace LinuxC

variable {α : Type}

/-! ## Paths -/

/-- The node `x` lies below the nodes `as`, root first. -/
def At : Tree α → List α → α → Prop
  | .nil, _, _ => False
  | .node _ _ a _, [], x => a = x
  | .node _ l a r, b :: bs, x => a = b ∧ (At l bs x ∨ At r bs x)

lemma at_bin_nil {d : Dir} {c : Color} {t s : Tree α} {a x : α} :
    At (.bin d c t a s) [] x ↔ a = x := by
  cases d <;> exact Iff.rfl

lemma at_bin_cons {d : Dir} {c : Color} {t s : Tree α} {a b x : α} {bs : List α} :
    At (.bin d c t a s) (b :: bs) x ↔ a = b ∧ (At t bs x ∨ At s bs x) := by
  cases d with
  | left => exact Iff.rfl
  | right => exact and_congr_right' or_comm

lemma At.mem {t : Tree α} {as : List α} {x : α} (h : At t as x) : x ∈ t.nodes := by
  induction t generalizing as with
  | nil => exact h.elim
  | node c l a r ihl ihr =>
      rw [Tree.nodes_node, List.mem_append, List.mem_cons]
      cases as with
      | nil => exact .inr (.inl h.symm)
      | cons b bs =>
          rcases h.2 with h | h
          · exact .inl (ihl h)
          · exact .inr (.inr (ihr h))

lemma At.length_lt_height {t : Tree α} {as : List α} {x : α} (h : At t as x) :
    as.length < t.height := by
  induction t generalizing as with
  | nil => exact h.elim
  | node c l a r ihl ihr =>
      rw [Tree.height]
      cases as with
      | nil => simp
      | cons b bs =>
          rw [List.length_cons]
          rcases h.2 with h | h
          · have := ihl h
            omega
          · have := ihr h
            omega

/-- A node of the subtree lies below the nodes of the context. -/
lemma at_plug {ctx : Ctx α} {t : Tree α} {as : List α} {x : α} (h : At t as x) :
    At (plug ctx t) ((ctx.map Frame.node).reverse ++ as) x := by
  induction ctx generalizing t as with
  | nil => exact h
  | cons f ctx ih =>
      have hup : At (f.up t) (f.node :: as) x := at_bin_cons.mpr ⟨rfl, .inl h⟩
      rw [List.map_cons, List.reverse_cons, List.append_assoc]
      exact ih hup

lemma At.exists_focus {t : Tree α} {as : List α} {x : α} (h : At t as x) :
    ∃ ctx c l r, t = plug ctx (.bin .left c l x r) ∧ as = (ctx.map Frame.node).reverse := by
  induction t generalizing as with
  | nil => exact h.elim
  | node c l a r ihl ihr =>
      cases as with
      | nil => exact ⟨[], c, l, r, by rw [show a = x from h]; rfl, rfl⟩
      | cons b bs =>
          obtain ⟨rfl, h⟩ := h
          rcases h with h | h
          · obtain ⟨ctx, c', l', r', rfl, rfl⟩ := ihl h
            exact ⟨ctx ++ [⟨.left, c, a, r⟩], c', l', r', by rw [plug_append]; rfl, by simp⟩
          · obtain ⟨ctx, c', l', r', rfl, rfl⟩ := ihr h
            exact ⟨ctx ++ [⟨.right, c, a, l⟩], c', l', r', by rw [plug_append]; rfl, by simp⟩

lemma exists_at {t : Tree α} {x : α} (h : x ∈ t.nodes) : ∃ as, At t as x := by
  obtain ⟨ctx, c, l, r, rfl⟩ := LinuxC.exists_focus h
  exact ⟨_, at_plug (at_bin_nil.mpr rfl)⟩

/-- Every node of `t` has the same path in `t'`. -/
def Keeps (t t' : Tree α) : Prop := ∀ as x, At t as x → At t' as x

lemma Keeps.plug {t t' : Tree α} (h : Keeps t t') (ctx : Ctx α) :
    Keeps (plug ctx t) (plug ctx t') := by
  induction ctx generalizing t t' with
  | nil => exact h
  | cons f ctx ih =>
      apply ih
      intro as x hx
      cases as with
      | nil => exact at_bin_nil.mpr (at_bin_nil.mp hx)
      | cons b bs =>
          obtain ⟨hb, hx⟩ := at_bin_cons.mp hx
          exact at_bin_cons.mpr ⟨hb, hx.imp_left (h bs x)⟩

/-- Every node of `t` but `n` lies in `t'` at most as deep. -/
def NoDeeper (n : α) (t t' : Tree α) : Prop :=
  ∀ as x, x ≠ n → At t as x → ∃ as', At t' as' x ∧ as'.length ≤ as.length

lemma NoDeeper.plug {n : α} {t t' : Tree α} (h : NoDeeper n t t') (ctx : Ctx α) :
    NoDeeper n (plug ctx t) (plug ctx t') := by
  induction ctx generalizing t t' with
  | nil => exact h
  | cons f ctx ih =>
      apply ih
      intro as x hxn hx
      cases as with
      | nil => exact ⟨[], at_bin_nil.mpr (at_bin_nil.mp hx), le_refl _⟩
      | cons b bs =>
          obtain ⟨hb, hx⟩ := at_bin_cons.mp hx
          rcases hx with hx | hx
          · obtain ⟨as', hx', hle⟩ := h bs x hxn hx
            refine ⟨b :: as', at_bin_cons.mpr ⟨hb, .inl hx'⟩, ?_⟩
            simpa using hle
          · exact ⟨b :: bs, at_bin_cons.mpr ⟨hb, .inr hx⟩, le_refl _⟩

/-- A node whose left subtree is empty gives way to its right subtree. -/
lemma noDeeper_drop (n : α) (d : Dir) (c : Color) (t : Tree α) :
    NoDeeper n (.bin d c .nil n t) t := by
  intro as x hxn hx
  cases as with
  | nil => exact absurd (at_bin_nil.mp hx).symm hxn
  | cons b bs =>
      rcases (at_bin_cons.mp hx).2 with hx | hx
      · exact hx.elim
      · exact ⟨bs, hx, by simp⟩

/-- The node `n` is replaced by the node `r` from the left end of its right subtree. -/
lemma noDeeper_splice {n r : α} {c rc : Color} {L C : Tree α} (ctxR : Ctx α) :
    NoDeeper n (.bin .left c L n (plug ctxR (.bin .left rc .nil r C)))
      (.bin .left c L r (plug ctxR C)) := by
  have hdrop := (noDeeper_drop r .left rc C).plug ctxR
  intro as x hxn hx
  cases as with
  | nil => exact absurd (at_bin_nil.mp hx).symm hxn
  | cons b bs =>
      by_cases hxr : x = r
      · exact ⟨[], at_bin_nil.mpr hxr.symm, by simp⟩
      · rcases (at_bin_cons.mp hx).2 with hx | hx
        · exact ⟨r :: bs, at_bin_cons.mpr ⟨rfl, .inl hx⟩, by simp⟩
        · obtain ⟨as', hx', hle⟩ := hdrop bs x hxr hx
          exact ⟨r :: as', at_bin_cons.mpr ⟨rfl, .inr hx'⟩, by simpa using hle⟩

/-- The number of nodes on the edge of side `d`. -/
def spine (d : Dir) : Tree α → ℕ
  | .nil => 0
  | .node _ l _ r =>
      match d with
      | .left => spine .left l + 1
      | .right => spine .right r + 1

lemma spine_le (d : Dir) (t : Tree α) : spine d t ≤ t.nodes.length := by
  induction t with
  | nil => simp [spine]
  | node c l a r ihl ihr =>
      cases d with
      | left =>
          simp only [spine, Tree.nodes_node, List.length_append, List.length_cons]
          omega
      | right =>
          simp only [spine, Tree.nodes_node, List.length_append, List.length_cons]
          omega

lemma spine_bin (d : Dir) (c : Color) (t : Tree α) (a : α) (s : Tree α) :
    spine d (.bin d c t a s) = spine d t + 1 := by
  cases d <;> rfl

lemma spine_le_height (d : Dir) (t : Tree α) : spine d t ≤ t.height := by
  induction t with
  | nil => simp [spine]
  | node c l a r ihl ihr =>
      rw [Tree.height]
      cases d with
      | left =>
          rw [spine]
          omega
      | right =>
          rw [spine]
          omega

/-- The edge of a tree given by its last node. -/
lemma spine_plug {d : Dir} {ctx : Ctx α} (h : ∀ f ∈ ctx, f.dir = d) (c : Color) (x : α)
    (s : Tree α) : spine d (plug ctx (.bin d c .nil x s)) = ctx.length + 1 := by
  have hgen : ∀ t, spine d (plug ctx t) = ctx.length + spine d t := by
    induction ctx with
    | nil => simp [plug]
    | cons f ctx ih =>
        intro t
        have hup : spine d (f.up t) = spine d t + 1 := by
          rw [Frame.up, h f (by simp), spine_bin]
        rw [plug, ih (fun g hg => h g (by simp [hg])), hup, List.length_cons]
        omega
  rw [hgen, spine_bin, spine]

lemma length_add_height_le (ctx : Ctx α) (t : Tree α) :
    ctx.length + t.height ≤ (plug ctx t).height := by
  induction ctx generalizing t with
  | nil => simp [plug]
  | cons f ctx ih =>
      have hup : t.height + 1 ≤ (f.up t).height := by
        obtain ⟨d, c, a, s⟩ := f
        cases d with
        | left =>
            simp only [Frame.up, Tree.bin, Tree.height]
            omega
        | right =>
            simp only [Frame.up, Tree.bin, Tree.height]
            omega
      have := ih (f.up t)
      rw [plug, List.length_cons]
      omega

/-! ## Vines -/

/-- `k` rotations to the right, down the left edge, each at the next node but one. -/
def compress : ℕ → Tree α → Option (Tree α)
  | 0, t => some t
  | k + 1, .node c (.node c' A b B) a R => do
      let A ← compress k A
      pure (.node c' A b (.node c B a R))
  | _ + 1, _ => none

lemma nodes_compress {k : ℕ} {t t' : Tree α} (h : compress k t = some t') :
    t'.nodes = t.nodes := by
  induction k generalizing t t' with
  | zero =>
      obtain rfl : t = t' := by simpa [compress] using h
      rfl
  | succ k ih =>
      match t with
      | .nil => simp [compress] at h
      | .node c .nil a R => simp [compress] at h
      | .node c (.node c' A b B) a R =>
          obtain ⟨A', hA, rfl⟩ : ∃ A', compress k A = some A' ∧
              .node c' A' b (.node c B a R) = t' := by
            simpa [compress, Option.bind_eq_some_iff] using h
          simp [ih hA]

/-- `k` full levels, and below them `e` nodes as far to the right as they go. -/
def Filled : ℕ → ℕ → Tree α → Prop
  | 0, e, t => (e = 0 ∧ t = .nil) ∨ (e = 1 ∧ ∃ c a, t = .node c .nil a .nil)
  | k + 1, e, t => ∃ c l a r, t = .node c l a r ∧ Filled k (e - 2 ^ k) l ∧
      Filled k (min e (2 ^ k)) r

/-- The first `m` nodes of the left edge, above a tree of `k` full levels and with right subtrees of
`k` full levels; below these levels there are `e` nodes, as far to the right as they go. -/
def Vine (k : ℕ) : ℕ → ℕ → Tree α → Prop
  | 0, e, t => Filled k e t
  | m + 1, e, t => ∃ c l a r, t = .node c l a r ∧ Filled k (min e (2 ^ k)) r ∧
      Vine k m (e - 2 ^ k) l

/-- A vine of one node is a tree with a level more. -/
lemma Vine.filled {k e : ℕ} {t : Tree α} (h : Vine k 1 e t) : Filled (k + 1) e t := by
  obtain ⟨c, l, a, r, rfl, hr, hl⟩ := h
  exact ⟨c, l, a, r, rfl, hl, hr⟩

/-- **The first pass** makes leaves of `e` nodes of a bare vine. -/
lemma Vine.leaves {m e : ℕ} {t : Tree α} (h : Vine 0 (m + 2 * e) 0 t) :
    ∃ t', LinuxC.compress e t = some t' ∧ Vine 0 (m + e) e t' := by
  induction e generalizing t with
  | zero => exact ⟨t, rfl, h⟩
  | succ e ih =>
      rw [show m + 2 * (e + 1) = m + 2 * e + 1 + 1 from by omega] at h
      obtain ⟨c, l, a, r, rfl, hr, c', A, b, B, rfl, hB, hA⟩ := h
      obtain rfl : r = .nil := by simpa [Filled] using hr
      obtain rfl : B = .nil := by simpa [Filled] using hB
      obtain ⟨A', heval, hA'⟩ := ih hA
      refine ⟨.node c' A' b (.node c .nil a .nil), by simp [LinuxC.compress, heval], ?_⟩
      refine ⟨c', A', b, _, rfl, .inr ⟨by simp, c, a, rfl⟩, ?_⟩
      simpa using hA'

/-- **Halving** a vine with an odd number of nodes: the node left over joins what is below. -/
lemma Vine.halve {k m e : ℕ} {t : Tree α} (h : Vine k (2 * m + 1) e t) :
    ∃ t', LinuxC.compress m t = some t' ∧ Vine (k + 1) m e t' := by
  induction m generalizing t e with
  | zero => exact ⟨t, rfl, h.filled⟩
  | succ m ih =>
      rw [show 2 * (m + 1) + 1 = 2 * m + 1 + 1 + 1 from by omega] at h
      obtain ⟨c, l, a, r, rfl, hr, c', A, b, B, rfl, hB, hA⟩ := h
      obtain ⟨A', heval, hA'⟩ := ih hA
      refine ⟨.node c' A' b (.node c B a r), by simp [LinuxC.compress, heval], ?_⟩
      obtain ⟨p, hp, hp'⟩ : ∃ p, 2 ^ k = p ∧ 2 ^ (k + 1) = p + p :=
        ⟨2 ^ k, rfl, by rw [Nat.pow_succ, Nat.mul_two]⟩
      rw [hp] at hr hB hA'
      refine ⟨c', A', b, _, rfl, ⟨c, B, a, r, rfl, ?_, ?_⟩, ?_⟩
      · rwa [hp, hp', show min e (p + p) - p = min (e - p) p from by omega]
      · rwa [hp, hp', show min (min e (p + p)) p = min e p from by omega]
      · rwa [hp', Nat.sub_add_eq]

/-- A tree all of whose nodes are on the left edge. -/
lemma vine_plug {ctx : Ctx α} (h : ∀ f ∈ ctx, f.dir = .left ∧ f.other = .nil) {m : ℕ}
    {t : Tree α} (ht : Vine 0 m 0 t) : Vine 0 (m + ctx.length) 0 (plug ctx t) := by
  induction ctx generalizing t m with
  | nil => exact ht
  | cons f ctx ih =>
      obtain ⟨e, c, a, s⟩ := f
      obtain ⟨rfl, rfl⟩ : e = .left ∧ s = .nil := h ⟨e, c, a, s⟩ (by simp)
      have hup : Vine 0 (m + 1) 0 (Frame.up ⟨.left, c, a, .nil⟩ t) :=
        ⟨c, t, a, .nil, rfl, .inl ⟨by simp, rfl⟩, ht⟩
      have := ih (fun g hg => h g (by simp [hg])) hup
      rwa [List.length_cons, show m + (ctx.length + 1) = m + 1 + ctx.length from by omega]

/-! ## Filled trees -/

/-- The number of full levels of a lowest tree with `n` nodes. -/
def fullLevels (n : ℕ) : ℕ := Nat.log2 (n + 1)

/-- The number of nodes below the full levels. -/
def lastLevel (n : ℕ) : ℕ := n + 1 - 2 ^ fullLevels n

lemma two_pow_fullLevels (n : ℕ) : n + 1 = 2 ^ fullLevels n + lastLevel n := by
  have : 2 ^ fullLevels n ≤ n + 1 := Nat.log2_self_le (by omega)
  rw [lastLevel]
  omega

lemma lastLevel_lt (n : ℕ) : lastLevel n < 2 ^ fullLevels n := by
  have : n + 1 < 2 ^ (fullLevels n + 1) := Nat.lt_log2_self
  rw [Nat.pow_succ] at this
  rw [lastLevel]
  omega

section Filled

variable {k e : ℕ} {t : Tree α}

lemma Filled.length_nodes (h : Filled k e t) : t.nodes.length + 1 = 2 ^ k + e := by
  induction k generalizing e t with
  | zero =>
      rcases h with ⟨rfl, rfl⟩ | ⟨rfl, c, a, rfl⟩
      · rfl
      · rfl
  | succ k ih =>
      obtain ⟨c, l, a, r, rfl, hl, hr⟩ := h
      have := ih hl
      have := ih hr
      have hpow : 2 ^ (k + 1) = 2 ^ k + 2 ^ k := by rw [Nat.pow_succ]; omega
      simp only [Tree.nodes_node, List.length_append, List.length_cons]
      omega

/-- The height, and the length of the right edge. -/
lemma Filled.height_eq (h : Filled k e t) :
    t.height = k + (if 0 < e then 1 else 0) ∧ spine .right t = t.height := by
  induction k generalizing e t with
  | zero =>
      rcases h with ⟨rfl, rfl⟩ | ⟨rfl, c, a, rfl⟩
      · simp [Tree.height, spine]
      · simp [Tree.height, spine]
  | succ k ih =>
      obtain ⟨c, l, a, r, rfl, hl, hr⟩ := h
      obtain ⟨hhl, -⟩ := ih hl
      obtain ⟨hhr, hsr⟩ := ih hr
      have hpos := Nat.two_pow_pos k
      have hle : l.height ≤ r.height := by
        rw [hhl, hhr]
        split_ifs <;> omega
      refine ⟨?_, ?_⟩
      · rw [Tree.height, max_eq_right hle, hhr]
        split_ifs <;> omega
      · rw [Tree.height, max_eq_right hle, spine, hsr]

/-- A tree with filled levels is as low as the number of its nodes allows. -/
lemma Filled.height_le {n m : ℕ} (h : Filled (fullLevels n) (lastLevel n) t) (hn : n < 2 ^ m) :
    t.height ≤ m := by
  have hsum := two_pow_fullLevels n
  rw [h.height_eq.1]
  -- a level more is needed only for the nodes beyond the last full one
  split_ifs with hleaves
  · have : fullLevels n < m := (Nat.pow_lt_pow_iff_right (by decide : 1 < 2)).mp (by omega)
    omega
  · have : fullLevels n ≤ m := (Nat.pow_le_pow_iff_right (by decide : 1 < 2)).mp (by omega)
    omega

/-- The left edge does not reach the level that is not full. -/
lemma Filled.spine_left (h : Filled k e t) (he : e < 2 ^ k) : spine .left t = k := by
  induction k generalizing e t with
  | zero =>
      rcases h with ⟨rfl, rfl⟩ | ⟨rfl, c, a, rfl⟩
      · rfl
      · omega
  | succ k ih =>
      obtain ⟨c, l, a, r, rfl, hl, -⟩ := h
      rw [Nat.pow_succ] at he
      rw [spine, ih hl (by omega)]

end Filled

/-- The tree over a list with `k` full levels, and `e` nodes below them. -/
def fill : ℕ → ℕ → List α → Tree α
  | 0, _, [] => .nil
  | 0, _, a :: _ => .node .black .nil a .nil
  | k + 1, e, xs =>
      match xs.drop (2 ^ k + (e - 2 ^ k) - 1) with
      | [] => .nil
      | a :: ys =>
          .node .black (fill k (e - 2 ^ k) (xs.take (2 ^ k + (e - 2 ^ k) - 1))) a
            (fill k (min e (2 ^ k)) ys)

/-- The lowest tree over a list, with the last level filled from the right. -/
def lowest (xs : List α) : Tree α := fill (fullLevels xs.length) (lastLevel xs.length) xs

/-- In a filled tree a search goes the way it goes in the lowest tree. -/
lemma Filled.passes_eq {k e : ℕ} {t : Tree α} (h : Filled k e t) (f : α → ℤ) :
    passes f t = passes f (fill k e t.nodes) := by
  induction k generalizing e t with
  | zero =>
      rcases h with ⟨rfl, rfl⟩ | ⟨rfl, c, a, rfl⟩
      · rfl
      · rfl
  | succ k ih =>
      obtain ⟨c, l, a, r, rfl, hl, hr⟩ := h
      have hlen := hl.length_nodes
      have hleft : l.nodes.length = 2 ^ k + (e - 2 ^ k) - 1 := by omega
      rw [Tree.nodes_node, fill, ← hleft, List.drop_left, List.take_left]
      simp only [passes, ih hl, ih hr]

end LinuxC
