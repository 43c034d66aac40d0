import LinuxC.Framework.RedBlackTree

/-!
# The red-black tree of `common/rb_tree.c`

The tree is intrusive: a `struct rb_node` lies inside the user's record, and the links are
pointers between such nodes.  `RbTree` is the memory the functions work on: the root link,
the counter, and for every node its four fields.  A pointer is an `Option` of a node, and a
function that follows a null pointer has no result; the loops take a fuel and have no result
either when it is used up.  So `some` as the result says that the function returns and that
no null pointer was followed on the way.

The source writes every case of the rebalancing twice, once for each side.  Here the two
mirror images are one definition over a `Dir`; the functions of the source are its two
instances.  One pair is not an exact mirror image — case 1 of `rb_remove_color` recolours the
two nodes in a different order on the two sides — and keeps both orders (`removeRecolor`).
-/

namespace LinuxC.Rb

structure RbNode (N : Type) where
  parent : Option N
  left : Option N
  right : Option N
  color : Color

/-- The child on side `d`. -/
def RbNode.child {N : Type} (n : RbNode N) : Dir → Option N
  | .left => n.left
  | .right => n.right

/-- The node with another child on side `d`. -/
def RbNode.setChild {N : Type} (n : RbNode N) (d : Dir) (x : Option N) : RbNode N :=
  match d with
  | .left => { n with left := x }
  | .right => { n with right := x }

/-- The node with another parent. -/
def RbNode.setParent {N : Type} (n : RbNode N) (x : Option N) : RbNode N := { n with parent := x }

/-- The node with another colour. -/
def RbNode.setColor {N : Type} (n : RbNode N) (c : Color) : RbNode N := { n with color := c }

/-- `struct rb_tree`, with the fields of the nodes. -/
structure RbTree (N : Type) where
  root : Option N
  node : N → RbNode N
  rbCount : ℕ

variable {N : Type} [DecidableEq N]

namespace RbTree

/-- The fields of the node `n` are changed. -/
def modify (t : RbTree N) (n : N) (f : RbNode N → RbNode N) : RbTree N :=
  { t with node := fun m => if m = n then f (t.node m) else t.node m }

/-- `n->left = x` or `n->right = x`. -/
def setChild (t : RbTree N) (d : Dir) (n : N) (x : Option N) : RbTree N :=
  t.modify n fun a => a.setChild d x

/-- `n->parent = x`. -/
def setParent (t : RbTree N) (n : N) (x : Option N) : RbTree N :=
  t.modify n fun a => a.setParent x

/-- `n->color = c`. -/
def setColor (t : RbTree N) (n : N) (c : Color) : RbTree N :=
  t.modify n fun a => a.setColor c

/-- `if (x) x->parent = p`. -/
def setParentSafe (t : RbTree N) (x : Option N) (p : Option N) : RbTree N :=
  match x with
  | some n => t.setParent n p
  | none => t

/-- `rb_is_black`. -/
def isBlack (t : RbTree N) : Option N → Bool
  | none => true
  | some n => (t.node n).color = .black

end RbTree

/-- The link to `node` is turned to `new`: that of its parent, or the root link. -/
def replaceChild (parent : Option N) (node : N) (new : Option N) (t : RbTree N) : RbTree N :=
  match parent with
  | some p =>
      if (t.node p).left = some node then t.setChild .left p new else t.setChild .right p new
  | none => { t with root := new }

/-! ## Rotations -/

/-- The rotation of `node` towards side `d`. -/
def rbRotate (d : Dir) (node : N) (t : RbTree N) : Option (RbTree N) := do
  let parent := (t.node node).parent
  let child ← (t.node node).child d.opp
  let t := t.setChild d.opp node ((t.node child).child d)
  let t := t.setParentSafe ((t.node child).child d) (some node)
  let t := t.setChild d child (some node)
  let t := t.setParent node (some child)
  let t := replaceChild parent node (some child) t
  pure (t.setParent child parent)

def rbRotateLeft (node : N) (t : RbTree N) : Option (RbTree N) := rbRotate .left node t

def rbRotateRight (node : N) (t : RbTree N) : Option (RbTree N) := rbRotate .right node t

/-! ## Insertion -/

/-- `rb_set_black(tree->root)`. -/
def setRootBlack (t : RbTree N) : Option (RbTree N) := do
  let r ← t.root
  pure (t.setColor r .black)

/-- Cases 2 and 3 of `rb_insert_color`: the uncle is black and the parent is the child of the
grandparent on side `d`. -/
def insertRotate (d : Dir) (node parent grandparent : N) (t : RbTree N) :
    Option (RbTree N) := do
  let (t, parent) ←
    if (t.node parent).child d.opp = some node then do
      let t ← rbRotate d parent t
      pure (t, node)
    else pure (t, parent)
  let t := t.setColor grandparent .red
  let t := t.setColor parent .black
  rbRotate d.opp grandparent t

def rbInsertColor : ℕ → N → RbTree N → Option (RbTree N)
  | 0, _, _ => none
  | fuel + 1, node, t =>
      match (t.node node).parent with
      | none => setRootBlack t
      | some parent =>
          if (t.node parent).color = .red then do
            let grandparent ← (t.node parent).parent
            let d := if (t.node grandparent).left = some parent then Dir.left else Dir.right
            match (t.node grandparent).child d.opp with
            | none => insertRotate d node parent grandparent t
            | some uncle =>
                if (t.node uncle).color = .red then
                  -- case 1
                  rbInsertColor fuel grandparent
                    (((t.setColor parent .black).setColor uncle .black).setColor grandparent .red)
                else insertRotate d node parent grandparent t
          else setRootBlack t

/-- The variable `link` of `rb_insert`: the address of a link. -/
inductive Link (N : Type)
  | root
  | child (d : Dir) (p : N)

/-- `*link`. -/
def RbTree.load (t : RbTree N) : Link N → Option N
  | .root => t.root
  | .child d p => (t.node p).child d

/-- `*link = x`. -/
def RbTree.store (t : RbTree N) (link : Link N) (x : Option N) : RbTree N :=
  match link with
  | .root => { t with root := x }
  | .child d p => t.setChild d p x

/-- The loop of `rb_insert`: an equal node, or the link and the parent for the new one. -/
def findLink (cmp : N → N → ℤ) (node : N) (t : RbTree N) :
    ℕ → Link N → Option N → Option (N ⊕ (Link N × Option N))
  | 0, _, _ => none
  | fuel + 1, link, parent =>
      match t.load link with
      | none => some (.inr (link, parent))
      | some cur =>
          if cmp node cur = 0 then some (.inl cur)
          else findLink cmp node t fuel
            (.child (if 0 < cmp node cur then .right else .left) cur) (some cur)

/-- `rb_insert`: the tree afterwards and the node returned. -/
def rbInsert (cmp : N → N → ℤ) (fuel : ℕ) (node : N) (t : RbTree N) :
    Option (RbTree N × N) := do
  match ← findLink cmp node t fuel .root none with
  | .inl cur => pure (t, cur)
  | .inr (link, parent) =>
      let t := t.modify node fun _ => ⟨parent, none, none, .red⟩
      let t := t.store link (some node)
      let t ← rbInsertColor fuel node t
      pure ({ t with rbCount := t.rbCount + 1 }, node)

/-! ## Removal -/

/-- `^` on the values of the field `color`. -/
def Color.xor : Color → Color → Color
  | .red, c => c
  | .black, .red => .black
  | .black, .black => .red

/-- The three assignments that exchange the colours of `a` and `b`. -/
def swapColors (a b : N) (t : RbTree N) : RbTree N :=
  let t := t.setColor a (Color.xor (t.node a).color (t.node b).color)
  let t := t.setColor b (Color.xor (t.node a).color (t.node b).color)
  t.setColor a (Color.xor (t.node a).color (t.node b).color)

/-- The recolouring of case 1 of `rb_remove_color`, in the order of each side. -/
def removeRecolor (d : Dir) (parent silbing : N) (t : RbTree N) : RbTree N :=
  match d with
  | .left => (t.setColor parent .red).setColor silbing .black
  | .right => (t.setColor silbing .black).setColor parent .red

/-- Case 1 of `rb_remove_color`: the sibling afterwards, and the tree. -/
def removeCase1 (d : Dir) (parent silbing : N) (t : RbTree N) : Option (N × RbTree N) :=
  if (t.node silbing).color = .red then do
    let t ← rbRotate d parent (removeRecolor d parent silbing t)
    let silbing ← (t.node parent).child d.opp
    pure (silbing, t)
  else pure (silbing, t)

/-- Case 3 of `rb_remove_color`: the sibling afterwards, and the tree. -/
def removeCase3 (d : Dir) (parent silbing : N) (t : RbTree N) : Option (N × RbTree N) :=
  if t.isBlack ((t.node silbing).child d.opp) then do
    let t := t.setColor silbing .red
    let nephew ← (t.node silbing).child d
    let t ← rbRotate d.opp silbing (t.setColor nephew .black)
    let silbing ← (t.node parent).child d.opp
    pure (silbing, t)
  else pure (silbing, t)

/-- Case 4 of `rb_remove_color`. -/
def removeCase4 (d : Dir) (parent silbing : N) (t : RbTree N) : Option (RbTree N) := do
  let t := swapColors parent silbing t
  let nephew ← (t.node silbing).child d.opp
  rbRotate d parent (t.setColor nephew .black)

/-- `if (node) rb_set_black(node)`. -/
def setBlackSafe (node : Option N) (t : RbTree N) : RbTree N :=
  match node with
  | some n => t.setColor n .black
  | none => t

def rbRemoveColor : ℕ → Option N → Option N → RbTree N → Option (RbTree N)
  | 0, _, _, _ => none
  | fuel + 1, node, parent, t =>
      if t.isBlack node ∧ node ≠ t.root then do
        let parent ← parent
        let d := if (t.node parent).left = node then Dir.left else Dir.right
        let silbing ← (t.node parent).child d.opp
        let (silbing, t) ← removeCase1 d parent silbing t
        if t.isBlack (t.node silbing).left ∧ t.isBlack (t.node silbing).right then
          -- case 2
          let t := t.setColor silbing .red
          rbRemoveColor fuel (some parent) (t.node parent).parent t
        else do
          let (silbing, t) ← removeCase3 d parent silbing t
          let t ← removeCase4 d parent silbing t
          -- `node = tree->root; break;`
          pure (setBlackSafe t.root t)
      else pure (setBlackSafe node t)

/-- The last node in direction `d`: `while (n->left) n = n->left` and its mirror image. -/
def endmost (d : Dir) (t : RbTree N) : ℕ → N → Option N
  | 0, _ => none
  | fuel + 1, n =>
      match (t.node n).child d with
      | none => some n
      | some m => endmost d t fuel m

/-- The path of `rb_remove` for a node with at most one child. -/
def unlink (node : N) (child : Option N) (t : RbTree N) : Option N × RbTree N :=
  let parent := (t.node node).parent
  (parent, replaceChild parent node child (t.setParentSafe child parent))

/-- The two pairs of `rb_remove` that give `replace` the parent and the left child of `node`. -/
def takePlace (node replace : N) (t : RbTree N) : Option (RbTree N) := do
  let t := replaceChild (t.node node).parent node (some replace) t
  let t := t.setParent replace (t.node node).parent
  let t := t.setChild .left replace (t.node node).left
  let left ← (t.node node).left
  pure (t.setParent left (some replace))

/-- The path of `rb_remove` for a node with two children: `replace` takes the place of `node`.
The result is the parent to start rebalancing from, and the tree. -/
def replaceNode (node replace : N) (t : RbTree N) : Option (N × RbTree N) := do
  let child := (t.node replace).right
  let parent ← (t.node replace).parent
  let t ← takePlace node replace t
  if parent = node then pure (replace, swapColors replace node t)
  else do
    -- delete and link the child to the new parent
    let t := t.setParentSafe child (some parent)
    let t := t.setChild .left parent child
    let t := t.setChild .right replace (t.node node).right
    let right ← (t.node node).right
    pure (parent, swapColors replace node (t.setParent right (some replace)))

/-- The label `color_fix` of `rb_remove`. -/
def colorFix (fuel : ℕ) (node : N) (child parent : Option N) (t : RbTree N) :
    Option (RbTree N) := do
  let t ← if (t.node node).color = .black then rbRemoveColor fuel child parent t else pure t
  pure { t with rbCount := t.rbCount - 1 }

def rbRemove (fuel : ℕ) (node : N) (t : RbTree N) : Option (RbTree N) :=
  match (t.node node).left, (t.node node).right with
  | none, child => colorFix fuel node child (unlink node child t).1 (unlink node child t).2
  | child, none => colorFix fuel node child (unlink node child t).1 (unlink node child t).2
  | some _, some right => do
      let replace ← endmost .left t fuel right
      let child := (t.node replace).right
      let (parent, t) ← replaceNode node replace t
      colorFix fuel node child (some parent) t

/-! ## Lookup -/

/-- `rb_search`; the outer `Option` is the fuel. -/
def rbSearch {I : Type} (searcher : I → N → ℤ) (item : I) (t : RbTree N) :
    ℕ → Option N → Option (Option N)
  | 0, _ => none
  | _ + 1, none => some none
  | fuel + 1, some n =>
      if searcher item n < 0 then rbSearch searcher item t fuel (t.node n).left
      else if 0 < searcher item n then rbSearch searcher item t fuel (t.node n).right
      else some (some n)

/-- `rb_first` and `rb_last`; the outer `Option` is the fuel. -/
def rbEnd (d : Dir) (fuel : ℕ) (t : RbTree N) : Option (Option N) :=
  match t.root with
  | none => some none
  | some n => (endmost d t fuel n).map some

def rbFirst (fuel : ℕ) (t : RbTree N) : Option (Option N) := rbEnd .left fuel t

def rbLast (fuel : ℕ) (t : RbTree N) : Option (Option N) := rbEnd .right fuel t

/-- The second loop of `rb_next`, `while (node->parent && node->parent->right == node)`, and its
mirror image, with the parent returned after it; the outer `Option` is the fuel. -/
def climb (d : Dir) (t : RbTree N) : ℕ → N → Option (Option N)
  | 0, _ => none
  | fuel + 1, n =>
      match (t.node n).parent with
      | none => some none
      | some p => if (t.node p).child d = some n then climb d t fuel p else some (some p)

/-- `rb_next` and `rb_prev`: the neighbour on side `d`. -/
def rbNeighbour (d : Dir) (fuel : ℕ) (n : N) (t : RbTree N) : Option (Option N) :=
  match (t.node n).child d with
  | some m => (endmost d.opp t fuel m).map some
  | none => climb d t fuel n

def rbNext (fuel : ℕ) (n : N) (t : RbTree N) : Option (Option N) := rbNeighbour .right fuel n t

def rbPrev (fuel : ℕ) (n : N) (t : RbTree N) : Option (Option N) := rbNeighbour .left fuel n t

end LinuxC.Rb
