import LinuxC.Bst.Model
import LinuxC.Framework.SearchTree
import LinuxC.Framework.Vine

/-!
# The tree in memory

`Holds t T` says that the links of the table `t` are those of the tree `T`, whose nodes are all
different.  The colours of `T` mean nothing here.  A place of the tree is given by its context; the
link that leads to it is `placeOf` and `dirOf`.

`Holds.store` is the rule for all changes: a new subtree is built from nodes outside the context,
and the link to the place is turned to it.  The loops that follow a comparison end where `locate`
does.
-/

namespace LinuxC.Bst

variable {N : Type}

/-- The links are those of the tree. -/
def Rep (link : N → Dir → Option N) : Tree N → Prop
  | .nil => True
  | .node _ l a r => link a .left = l.root? ∧ link a .right = r.root? ∧ Rep link l ∧ Rep link r

lemma rep_bin {link : N → Dir → Option N} {d : Dir} {c : Color} {A B : Tree N} {n : N} :
    Rep link (.bin d c A n B) ↔
      link n d = A.root? ∧ link n d.opp = B.root? ∧ Rep link A ∧ Rep link B := by
  cases d with
  | left => exact Iff.rfl
  | right =>
      simp only [Tree.bin, Rep, Dir.opp]
      tauto

/-- The frame rule: a tree depends on the links of its nodes only. -/
lemma Rep.congr {link link' : N → Dir → Option N} {T : Tree N} (h : Rep link T)
    (heq : ∀ n ∈ T.nodes, ∀ d, link' n d = link n d) : Rep link' T := by
  induction T with
  | nil => trivial
  | node c l a r ihl ihr =>
      obtain ⟨h1, h2, h3, h4⟩ := h
      refine ⟨(heq a (by simp) _).trans h1, (heq a (by simp) _).trans h2,
        ihl h3 fun n hn => heq n (by simp [hn]), ihr h4 fun n hn => heq n (by simp [hn])⟩

/-- The links of a context whose place holds the node `x`. -/
def RepCtx (link : N → Dir → Option N) : Ctx N → Option N → Prop
  | [], _ => True
  | f :: ctx, x => link f.node f.dir = x ∧ link f.node f.dir.opp = f.other.root? ∧
      Rep link f.other ∧ RepCtx link ctx (some f.node)

lemma rep_plug {link : N → Dir → Option N} {ctx : Ctx N} {T : Tree N} :
    Rep link (plug ctx T) ↔ RepCtx link ctx T.root? ∧ Rep link T := by
  induction ctx generalizing T with
  | nil => simp [plug, RepCtx]
  | cons f ctx ih =>
      rw [plug, ih, Frame.up, rep_bin, RepCtx, Tree.root?_bin]
      tauto

lemma RepCtx.congr {link link' : N → Dir → Option N} {ctx : Ctx N} {x : Option N}
    (h : RepCtx link ctx x) (heq : ∀ n ∈ ctx.nodes, ∀ d, link' n d = link n d) :
    RepCtx link' ctx x := by
  induction ctx generalizing x with
  | nil => trivial
  | cons f ctx ih =>
      obtain ⟨h1, h2, h3, h4⟩ := h
      have hf := heq f.node (Ctx.mem_nodes_cons.mpr (.inl rfl))
      exact ⟨(hf _).trans h1, (hf _).trans h2,
        h3.congr fun n hn => heq n (Ctx.mem_nodes_cons.mpr (.inr (.inl hn))),
        ih h4 fun n hn => heq n (Ctx.mem_nodes_cons.mpr (.inr (.inr hn)))⟩

/-- The memory holds the tree. -/
structure Holds (t : BstTable N) (T : Tree N) : Prop where
  root : t.root = T.root?
  rep : Rep t.link T
  nodup : T.nodes.Nodup

/-- The node whose link leads to the place. -/
def placeOf : Ctx N → Place N
  | [] => .table
  | f :: _ => .node f.node

/-- The link that leads to the place. -/
def dirOf : Ctx N → Dir
  | [] => .left
  | f :: _ => f.dir

section Read

variable {t : BstTable N} {T : Tree N} {ctx : Ctx N}

lemma Holds.load (h : Holds t (plug ctx T)) : t.load (placeOf ctx) (dirOf ctx) = T.root? := by
  cases ctx with
  | nil => exact h.root
  | cons f ctx => exact (rep_plug.mp h.rep).1.1

/-- The two links of a node of the tree. -/
lemma Holds.link {d : Dir} {c : Color} {A B : Tree N} {n : N}
    (h : Holds t (plug ctx (.bin d c A n B))) : t.link n d = A.root? ∧ t.link n d.opp = B.root? :=
  ⟨(rep_bin.mp (rep_plug.mp h.rep).2).1, (rep_bin.mp (rep_plug.mp h.rep).2).2.1⟩

lemma Holds.down {d : Dir} {c : Color} {A B : Tree N} {n : N}
    (h : Holds t (plug ctx (.bin d c A n B))) : Holds t (plug (⟨d, c, n, B⟩ :: ctx) A) := h

lemma Holds.flip {d : Dir} {c : Color} {A B : Tree N} {n : N}
    (h : Holds t (plug ctx (.bin d c A n B))) : Holds t (plug ctx (.bin d.opp c B n A)) := by
  rwa [Tree.bin_opp]

lemma Holds.of_eq {t' : BstTable N} (h : Holds t T) (hroot : t'.root = t.root)
    (hlink : t'.link = t.link) : Holds t' T :=
  ⟨hroot.trans h.root, hlink ▸ h.rep, h.nodup⟩

end Read

/-! ## Following a comparison -/

section Locate

variable {t : BstTable N} {f : N → ℤ}

lemma side_of_pos {c : ℤ} (h : 0 < c) : side c = .right := if_pos h

lemma side_of_neg {c : ℤ} (h : ¬ 0 < c) : side c = .left := if_neg h

lemma bstSearch_eq {I : Type} {searcher : I → N → ℤ} {item : I} {T : Tree N} {ctx : Ctx N} {fuel : ℕ}
    (h : Holds t (plug ctx T)) (hfuel : T.nodes.length < fuel) :
    bstSearch searcher item t fuel T.root? = .ok (locate (searcher item) ctx T).2.root? := by
  induction T generalizing ctx fuel with
  | nil =>
      obtain ⟨fuel, rfl⟩ : ∃ k, fuel = k + 1 := ⟨fuel - 1, by omega⟩
      rfl
  | node c l a r ihl ihr =>
      obtain ⟨fuel, rfl⟩ : ∃ k, fuel = k + 1 := ⟨fuel - 1, by omega⟩
      rw [Tree.nodes_node, List.length_append, List.length_cons] at hfuel
      have hleft : Holds t (plug (⟨.left, c, a, r⟩ :: ctx) l) := h
      have hright : Holds t (plug (⟨.right, c, a, l⟩ :: ctx) r) := h
      rw [Tree.root?_node, bstSearch, locate]
      split_ifs with h0 hpos
      · rfl
      · rw [side_of_pos hpos, show t.link a .right = r.root? from hright.load]
        exact ihr hright (by omega)
      · rw [side_of_neg hpos, show t.link a .left = l.root? from hleft.load]
        exact ihl hleft (by omega)

/-- How the loop of `bst_insert` ends, from the place where `locate` ends. -/
def insertEnd (r : Ctx N × Tree N) : N ⊕ (Place N × Dir) :=
  match r.2 with
  | .nil => .inr (placeOf r.1, dirOf r.1)
  | .node _ _ a _ => .inl a

lemma insertLoop_eq {cmp : N → N → ℤ} {n : N} {T : Tree N} {ctx : Ctx N} {fuel : ℕ}
    (h : Holds t (plug ctx T)) (hfuel : T.nodes.length < fuel) :
    insertLoop cmp n t fuel (placeOf ctx) (dirOf ctx) =
      .ok (insertEnd (locate (cmp n) ctx T)) := by
  induction T generalizing ctx fuel with
  | nil =>
      obtain ⟨fuel, rfl⟩ : ∃ k, fuel = k + 1 := ⟨fuel - 1, by omega⟩
      rw [insertLoop, h.load]
      rfl
  | node c l a r ihl ihr =>
      obtain ⟨fuel, rfl⟩ : ∃ k, fuel = k + 1 := ⟨fuel - 1, by omega⟩
      rw [Tree.nodes_node, List.length_append, List.length_cons] at hfuel
      rw [insertLoop, h.load, locate]
      change (if cmp n a = 0 then _ else _) = _
      split_ifs with h0 hpos
      · rfl
      · rw [side_of_pos hpos]
        have hdown : Holds t (plug (⟨.right, c, a, l⟩ :: ctx) r) := h
        exact ihr hdown (by omega)
      · rw [side_of_neg hpos]
        have hdown : Holds t (plug (⟨.left, c, a, r⟩ :: ctx) l) := h
        exact ihl hdown (by omega)

/-- How the loop of `bst_remove` ends, from the place where `locate` ends. -/
def removeEnd (r : Ctx N × Tree N) : Option (Place N × Dir × N) :=
  match r.2 with
  | .nil => none
  | .node _ _ a _ => some (placeOf r.1, dirOf r.1, a)

lemma removeLoop_eq {T : Tree N} {ctx : Ctx N} {fuel : ℕ} {c : ℤ} (h : Holds t (plug ctx T))
    (hc : side c = dirOf ctx) (hfuel : T.nodes.length < fuel) :
    removeLoop f t fuel (placeOf ctx) c = .ok (removeEnd (locate f ctx T)) := by
  induction T generalizing ctx fuel c with
  | nil =>
      obtain ⟨fuel, rfl⟩ : ∃ k, fuel = k + 1 := ⟨fuel - 1, by omega⟩
      rw [removeLoop, hc, h.load]
      rfl
  | node c' l a r ihl ihr =>
      obtain ⟨fuel, rfl⟩ : ∃ k, fuel = k + 1 := ⟨fuel - 1, by omega⟩
      rw [Tree.nodes_node, List.length_append, List.length_cons] at hfuel
      rw [removeLoop, hc, h.load, locate]
      change (if f a = 0 then _ else _) = _
      split_ifs with h0 hpos
      · rfl
      · have hdown : Holds t (plug (⟨.right, c', a, l⟩ :: ctx) r) := h
        exact ihr hdown (side_of_pos hpos) (by omega)
      · have hdown : Holds t (plug (⟨.left, c', a, r⟩ :: ctx) l) := h
        exact ihl hdown (side_of_neg hpos) (by omega)

end Locate

variable [DecidableEq N]

@[simp] lemma link_setLink (t : BstTable N) (n m : N) (d e : Dir) (x : Option N) :
    (t.setLink n d x).link m e = if m = n ∧ e = d then x else t.link m e := rfl

@[simp] lemma root_setLink (t : BstTable N) (n : N) (d : Dir) (x : Option N) :
    (t.setLink n d x).root = t.root := rfl

/-- **The place gets a new subtree**, which `t'` already represents. -/
lemma Holds.store {t t' : BstTable N} {ctx : Ctx N} {T T' : Tree N} (h : Holds t (plug ctx T))
    (hroot : t'.root = t.root) (hlink : ∀ n ∈ ctx.nodes, ∀ d, t'.link n d = t.link n d)
    (hrep : Rep t'.link T') (hnodup : (plug ctx T').nodes.Nodup) {x : Option N}
    (hx : x = T'.root?) : Holds (t'.store (placeOf ctx) (dirOf ctx) x) (plug ctx T') := by
  subst hx
  cases ctx with
  | nil => exact ⟨rfl, hrep, hnodup⟩
  | cons f ctx =>
      obtain ⟨-, h2, h3, h4⟩ := ((rep_plug.mp h.rep).1.congr hlink)
      obtain ⟨-, hndctx, hdisj⟩ := nodup_nodes_plug.mp hnodup
      obtain ⟨hfo, hfc, -, -, -⟩ := Ctx.nodup_nodes_cons.mp hndctx
      have hfT : f.node ∉ T'.nodes := fun hm =>
        hdisj hm (Ctx.mem_nodes_cons.mpr (.inl rfl))
      have hframe : ∀ m, m ≠ f.node → ∀ d,
          (t'.setLink f.node f.dir T'.root?).link m d = t'.link m d := by
        intro m hm d
        rw [link_setLink, if_neg fun he => hm he.1]
      obtain ⟨a, -, ha⟩ := root?_plug_cons f ctx
      refine ⟨?_, rep_plug.mpr ⟨⟨?_, ?_, ?_, ?_⟩, ?_⟩, hnodup⟩
      · change t'.root = _
        rw [hroot, h.root, ha, ha]
      · exact if_pos ⟨rfl, rfl⟩
      · refine Eq.trans ?_ h2
        exact if_neg fun he => Dir.opp_ne _ he.2
      · exact h3.congr fun m hm => hframe m fun e => hfo (e ▸ hm)
      · exact h4.congr fun m hm => hframe m fun e => hfc (e ▸ hm)
      · exact hrep.congr fun m hm => hframe m fun e => hfT (e ▸ hm)

/-! ## Linking and unlinking -/

/-- **A new leaf.** -/
lemma Holds.linkLeaf {t : BstTable N} {ctx : Ctx N} {n : N} (h : Holds t (plug ctx .nil))
    (hn : n ∉ (plug ctx .nil).nodes) :
    Holds (linkLeaf n (placeOf ctx) (dirOf ctx) t) (plug ctx (.bin .left .black .nil n .nil)) := by
  have hctx : ∀ m ∈ ctx.nodes, m ≠ n := by
    rintro m hm rfl
    exact hn ((nodes_plug_perm _ _).mem_iff.mpr (List.mem_append_right _ hm))
  have hnodup : (plug ctx (.bin .left .black .nil n .nil)).nodes.Nodup := by
    obtain ⟨-, hnd, -⟩ := nodup_nodes_plug.mp h.nodup
    refine nodup_nodes_plug.mpr ⟨by simp [Tree.bin], hnd, ?_⟩
    intro m hm hm'
    simp only [Tree.bin, Tree.nodes_node, Tree.nodes_nil, List.nil_append, List.mem_singleton] at hm
    exact hctx m hm' hm
  let t₁ := ((BstTable.setLink { t with count := t.count + 1 } n .left none).setLink n .right none)
  have hlink : ∀ m ∈ ctx.nodes, ∀ d, t₁.link m d = t.link m d := by
    intro m hm d
    simp [t₁, hctx m hm]
  have hrep : Rep t₁.link (.bin .left .black .nil n .nil) :=
    ⟨by simp [t₁], by simp [t₁], trivial, trivial⟩
  exact h.store (show t₁.root = t.root from rfl) hlink hrep hnodup rfl

omit [DecidableEq N] in
/-- The loop down the left edge ends at the last node, below the node before it. -/
lemma leftmost_spec {t : BstTable N} {c : Color} {A B : Tree N} {r : N} {fuel : ℕ}
    (h : Rep t.link (.bin .left c A r B)) (hA : A ≠ .nil) (hfuel : A.nodes.length ≤ fuel) :
    ∃ f ctx sc s C, .bin .left c A r B = plug (f :: ctx) (.bin .left sc .nil s C) ∧
      (∀ g ∈ f :: ctx, g.dir = .left) ∧ leftmost t fuel r = .ok (f.node, s) := by
  induction A generalizing c r B fuel with
  | nil => exact absurd rfl hA
  | node ac AL a AR ihl _ =>
      rw [Tree.nodes_node, List.length_append, List.length_cons] at hfuel
      obtain ⟨fuel, rfl⟩ : ∃ k, fuel = k + 1 := ⟨fuel - 1, by omega⟩
      obtain ⟨hr, -, hrepA, -⟩ := rep_bin.mp h
      replace hr : t.link r .left = some a := hr
      cases AL with
      | nil =>
          have ha : t.link a .left = none := hrepA.1
          refine ⟨⟨.left, c, r, B⟩, [], ac, a, AR, rfl, by simp, ?_⟩
          simp only [leftmost, hr, ha]
      | node bc BL b BR =>
          have ha : t.link a .left = some b := hrepA.1
          have hrepA : Rep t.link (.bin .left ac (.node bc BL b BR) a AR) := hrepA
          have hlen : (Tree.node bc BL b BR).nodes.length ≤ fuel := by omega
          obtain ⟨f, ctx, sc, s, C, he, hdirs, heval⟩ := ihl hrepA (by simp) hlen
          refine ⟨f, ctx ++ [⟨.left, c, r, B⟩], sc, s, C, ?_, ?_, ?_⟩
          · rw [← List.cons_append, plug_append, ← he]
            rfl
          · intro g hg
            rw [← List.cons_append, List.mem_append, List.mem_singleton] at hg
            rcases hg with hg | rfl
            · exact hdirs g hg
            · rfl
          · simp only [leftmost, hr, ha]
            exact heval

/-- What the three ways to take a node out have in common. -/
structure Unlinked (t t' : BstTable N) (ctx : Ctx N) (d : N) (S J : Tree N) : Prop where
  holds : Holds t' (plug ctx J)
  shallow : NoDeeper d S J
  nodes : ∃ ys zs, (plug ctx S).nodes = ys ++ d :: zs ∧ (plug ctx J).nodes = ys ++ zs

section Unlink

variable {t : BstTable N} {ctx : Ctx N} {c rc : Color} {L R C : Tree N} {d r : N}

lemma Holds.unlink_left (h : Holds t (plug ctx (.bin .left c L d .nil))) :
    Unlinked t (t.store (placeOf ctx) (dirOf ctx) (t.link d .left)) ctx d (.bin .left c L d .nil)
      L := by
  have hnodes : ∃ ys zs, (plug ctx (.bin .left c L d .nil)).nodes = ys ++ d :: zs ∧
      (plug ctx L).nodes = ys ++ zs :=
    ⟨ctx.before ++ L.nodes, ctx.after, by simp [nodes_plug, Tree.bin], by simp [nodes_plug]⟩
  refine ⟨h.store rfl (fun _ _ _ => rfl) (rep_bin.mp (rep_plug.mp h.rep).2).2.2.1 ?_ h.link.1,
    noDeeper_drop d .right c L, hnodes⟩
  obtain ⟨ys, zs, hold, hnew⟩ := hnodes
  have hnd := h.nodup
  rw [hold] at hnd
  rw [hnew]
  exact hnd.sublist ((List.sublist_cons_self d zs).append_left ys)

/-- The right child takes the place of the node. -/
lemma Holds.unlink_child (h : Holds t (plug ctx (.bin .left c L d (.bin .left rc .nil r C)))) :
    Unlinked t ((t.setLink r .left (t.link d .left)).store (placeOf ctx) (dirOf ctx) (some r)) ctx d
      (.bin .left c L d (.bin .left rc .nil r C)) (.bin .left c L r C) := by
  have hnd := nodup_splice ctx [] c rc L C d r (by simp) h.nodup
  obtain ⟨hLd, -, hL, hR⟩ := rep_bin.mp (rep_plug.mp h.rep).2
  obtain ⟨-, hrC, -, hC⟩ := rep_bin.mp hR
  obtain ⟨hndJ, -, hdisj⟩ := nodup_nodes_plug.mp hnd
  obtain ⟨hrL, hrC', -, -, -⟩ := Tree.nodup_nodes_bin.mp hndJ
  have hframe : ∀ m, m ≠ r → ∀ e, (t.setLink r .left (t.link d .left)).link m e = t.link m e := by
    intro m hm e
    rw [link_setLink, if_neg fun he => hm he.1]
  have hrep : Rep (t.setLink r .left (t.link d .left)).link (.bin .left c L r C) := by
    refine rep_bin.mpr ⟨?_, ?_, ?_, ?_⟩
    · rw [link_setLink, if_pos ⟨rfl, rfl⟩, hLd]
    · rw [link_setLink, if_neg (by simp), hrC]
    · exact hL.congr fun m hm => hframe m fun e => hrL (e ▸ hm)
    · exact hC.congr fun m hm => hframe m fun e => hrC' (e ▸ hm)
  have hctx : ∀ m ∈ ctx.nodes, ∀ e,
      (t.setLink r .left (t.link d .left)).link m e = t.link m e := fun m hm =>
    hframe m fun e => hdisj (Tree.mem_nodes_bin.mpr (.inr (.inl e))) hm
  exact ⟨h.store (root_setLink ..) hctx hrep hnd (by simp), noDeeper_splice [],
    nodes_splice ctx [] c rc L C d r (by simp)⟩

/-- The last node on the left edge of the right subtree takes the place of the node. -/
lemma Holds.unlink_deep {f : Frame N} {ctxR : Ctx N}
    (h : Holds t (plug ctx (.bin .left c L d (plug (f :: ctxR) (.bin .left rc .nil r C)))))
    (hdirs : ∀ g ∈ f :: ctxR, g.dir = .left) {t₁ t₂ t₃ : BstTable N}
    (h₁ : t₁ = t.setLink f.node .left (t.link r .right))
    (h₂ : t₂ = t₁.setLink r .left (t₁.link d .left))
    (h₃ : t₃ = t₂.setLink r .right (t₂.link d .right)) :
    Unlinked t (t₃.store (placeOf ctx) (dirOf ctx) (some r)) ctx d
      (.bin .left c L d (plug (f :: ctxR) (.bin .left rc .nil r C)))
      (.bin .left c L r (plug (f :: ctxR) C)) := by
  have hnd := nodup_splice ctx (f :: ctxR) c rc L C d r hdirs h.nodup
  obtain ⟨hLd, hRd, hL, hR⟩ := rep_bin.mp (rep_plug.mp h.rep).2
  obtain ⟨hndS, -, hdisjS⟩ := nodup_nodes_plug.mp h.nodup
  obtain ⟨hdL, hdR, -, hndR, hLR⟩ := Tree.nodup_nodes_bin.mp hndS
  obtain ⟨hndJ, -, hdisj⟩ := nodup_nodes_plug.mp hnd
  obtain ⟨hrL, hrR, -, hndR', -⟩ := Tree.nodup_nodes_bin.mp hndJ
  have hf : f.dir = .left := hdirs f (by simp)
  have hfR : f.node ∈ (plug (f :: ctxR) (.bin .left rc .nil r C)).nodes :=
    (nodes_plug_perm _ _).mem_iff.mpr
      (List.mem_append_right _ (Ctx.mem_nodes_cons.mpr (.inl rfl)))
  have hrR' : r ∈ (plug (f :: ctxR) (.bin .left rc .nil r C)).nodes :=
    (nodes_plug_perm _ _).mem_iff.mpr
      (List.mem_append_left _ (Tree.mem_nodes_bin.mpr (.inr (.inl rfl))))
  have hdf : d ≠ f.node := fun e => hdR (e ▸ hfR)
  have hdr : d ≠ r := fun e => hdR (e ▸ hrR')
  have hrf : r ≠ f.node := fun e => hrR ((nodes_plug_perm _ _).mem_iff.mpr
    (List.mem_append_right _ (Ctx.mem_nodes_cons.mpr (.inl e))))
  have hlink₁ : ∀ m e, t₁.link m e = if m = f.node ∧ e = .left then t.link r .right
      else t.link m e := fun m e => by rw [h₁, link_setLink]
  have hlink₃ : ∀ m, m ≠ r → ∀ e, t₃.link m e = t₁.link m e := by
    intro m hm e
    rw [h₃, link_setLink, if_neg fun he => hm he.1, h₂, link_setLink, if_neg fun he => hm he.1]
  -- the right subtree without its last node, as a table of its own
  have hsub : Holds { t with root := (plug (f :: ctxR) (.bin .left rc .nil r C)).root? }
      (plug (f :: ctxR) (.bin .left rc .nil r C)) := ⟨rfl, hR, hndR⟩
  have hsub₁ : Rep t₁.link (plug (f :: ctxR) C) := by
    have hC := (rep_bin.mp (rep_plug.mp hR).2).2.2.2
    have hx : t.link r .right = C.root? := (rep_bin.mp (rep_plug.mp hR).2).2.1
    have hstored := (hsub.store rfl (fun _ _ _ => rfl) hC hndR' hx).rep
    rw [h₁, ← hf]
    exact hstored
  have hroot : (plug (f :: ctxR) (.bin .left rc .nil r C)).root? = (plug (f :: ctxR) C).root? := by
    obtain ⟨a, -, ha⟩ := root?_plug_cons f ctxR
    rw [ha, ha]
  have hrep : Rep t₃.link (.bin .left c L r (plug (f :: ctxR) C)) := by
    refine rep_bin.mpr ⟨?_, ?_, ?_, ?_⟩
    · rw [h₃, link_setLink, if_neg (by simp), h₂, link_setLink, if_pos ⟨rfl, rfl⟩, hlink₁,
        if_neg fun he => hdf he.1, hLd]
    · rw [h₃, link_setLink, if_pos ⟨rfl, rfl⟩, h₂, link_setLink, if_neg fun he => hdr he.1, hlink₁,
        if_neg fun he => hdf he.1, ← hroot]
      exact hRd
    · apply hL.congr
      intro m hm e
      rw [hlink₃ m (fun he => hrL (he ▸ hm)), hlink₁, if_neg]
      rintro ⟨rfl, -⟩
      exact hLR hm hfR
    · exact hsub₁.congr fun m hm => hlink₃ m fun he => hrR (he ▸ hm)
  have hctx : ∀ m ∈ ctx.nodes, ∀ e, t₃.link m e = t.link m e := by
    intro m hm e
    have hmr : m ≠ r := fun he => hdisj (Tree.mem_nodes_bin.mpr (.inr (.inl he))) hm
    rw [hlink₃ m hmr, hlink₁, if_neg]
    rintro ⟨rfl, -⟩
    exact hdisjS (Tree.mem_nodes_bin.mpr (.inr (.inr hfR))) hm
  have hroot₃ : t₃.root = t.root := by rw [h₃, h₂, h₁]; rfl
  exact ⟨h.store hroot₃ hctx hrep hnd (by simp), noDeeper_splice (f :: ctxR),
    nodes_splice ctx (f :: ctxR) c rc L C d r hdirs⟩

end Unlink

end LinuxC.Bst
