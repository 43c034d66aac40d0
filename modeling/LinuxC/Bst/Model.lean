import LinuxC.Framework.RedBlackTree

/-!
# The binary search tree of `common/bst.c`

The tree is intrusive, and its nodes have no parent link.  `BstTable` is the memory the functions
work on: the fields of the table and the two links of every node.  Several functions treat the
field `bst_root` as a node whose first link it is; a pointer of theirs is a `Place`.

An iterator keeps its current node with the ancestors of that node on a stack of `bst_max_height`
entries.  It remembers the generation of the table at which the stack was right.  The functions that
descend into the tree call `bst_balance` and start again when the stack is too short for the path.

A function ends in a `Fault` when it follows a null pointer, when an assertion fails, when the stack
is written behind its end or read where nothing was written, and when a loop takes more turns than
it was given.  `bst_generation` is a machine word: the model counts its increments, and two
generations are the same to the code when the counts agree modulo `2 ^ 64`.

The source writes the functions that go to the next node and to the first one again for the opposite
direction, with the two links exchanged; here they are one definition over a `Dir`.
-/

namespace LinuxC.Bst

/-- The ways a function can fail. -/
inductive Fault
  /-- The loop has not ended within the turns it was given. -/
  | fuel
  /-- A null pointer is followed. -/
  | null
  /-- `assert (iterator->bst_height < iterator->bst_table->bst_max_height)`. -/
  | tooDeep
  /-- `assert (i != NULL)`. -/
  | notFound
  /-- An array is written behind its end, `bst_stack` or the buffer of a message. -/
  | overflow
  /-- An entry of `bst_stack` is read that was not written. -/
  | garbage
  /-- A block of memory is freed that was freed before. -/
  | doubleFree
  deriving DecidableEq

/-- `struct bst_table`, with the links of the nodes. -/
structure BstTable (N : Type) where
  root : Option N
  link : N → Dir → Option N
  count : ℕ
  maxHeight : ℕ
  generation : ℕ

/-- A pointer to a node, or to the field `bst_root` taken for a node. -/
inductive Place (N : Type)
  | table
  | node (n : N)

variable {N I : Type} [DecidableEq N]

namespace BstTable

/-- `n->bst_link[d] = x`. -/
def setLink (t : BstTable N) (n : N) (d : Dir) (x : Option N) : BstTable N :=
  { t with link := fun m e => if m = n ∧ e = d then x else t.link m e }

/-- `p->bst_link[d]`; only the first link of the table is ever used. -/
def load (t : BstTable N) (p : Place N) (d : Dir) : Option N :=
  match p with
  | .table => t.root
  | .node n => t.link n d

/-- `p->bst_link[d] = x`. -/
def store (t : BstTable N) (p : Place N) (d : Dir) (x : Option N) : BstTable N :=
  match p with
  | .table => { t with root := x }
  | .node n => t.setLink n d x

end BstTable

/-- The index of a link from the result of a comparison: `cmp > 0`. -/
def side (c : ℤ) : Dir := if 0 < c then .right else .left

def bstCreate (link : N → Dir → Option N) (height : ℕ) : BstTable N := ⟨none, link, 0, height, 0⟩

/-! ## Lookup and insertion -/

def bstSearch (searcher : I → N → ℤ) (item : I) (t : BstTable N) :
    ℕ → Option N → Except Fault (Option N)
  | 0, _ => .error .fuel
  | _ + 1, none => .ok none
  | fuel + 1, some n =>
      if searcher item n = 0 then .ok (some n)
      else bstSearch searcher item t fuel (t.link n (side (searcher item n)))

/-- The loop of `bst_insert`: an equal node, or the link for the new one. -/
def insertLoop (cmp : N → N → ℤ) (n : N) (t : BstTable N) :
    ℕ → Place N → Dir → Except Fault (N ⊕ (Place N × Dir))
  | 0, _, _ => .error .fuel
  | fuel + 1, p, d =>
      match t.load p d with
      | none => .ok (.inr (p, d))
      | some m =>
          if cmp n m = 0 then .ok (.inl m)
          else insertLoop cmp n t fuel (.node m) (side (cmp n m))

/-- The new node `n` is linked in. -/
def linkLeaf (n : N) (p : Place N) (d : Dir) (t : BstTable N) : BstTable N :=
  let t := { t with count := t.count + 1 }
  ((t.setLink n .left none).setLink n .right none).store p d (some n)

/-- `bst_insert`: the table afterwards and the node returned. -/
def bstInsert (cmp : N → N → ℤ) (fuel : ℕ) (n : N) (t : BstTable N) :
    Except Fault (BstTable N × N) := do
  match ← insertLoop cmp n t fuel .table .left with
  | .inl m => .ok (t, m)
  | .inr (p, d) => .ok (linkLeaf n p d t, n)

/-! ## Removal -/

/-- The loop of `bst_remove` and of `bst_delete`, with the result of the last comparison: the node
to delete with the link to it. -/
def removeLoop (compare : N → ℤ) (t : BstTable N) :
    ℕ → Place N → ℤ → Except Fault (Option (Place N × Dir × N))
  | 0, _, _ => .error .fuel
  | fuel + 1, p, c =>
      match t.load p (side c) with
      | none => .ok none
      | some d =>
          if compare d = 0 then .ok (some (p, side c, d))
          else removeLoop compare t fuel (.node d) (compare d)

/-- The loop `for (;;) { s = r->bst_link[0]; ... r = s; }`. -/
def leftmost (t : BstTable N) : ℕ → N → Except Fault (N × N)
  | 0, _ => .error .fuel
  | fuel + 1, r =>
      match t.link r .left with
      | none => .error .null
      | some s =>
          match t.link s .left with
          | none => .ok (r, s)
          | some _ => leftmost t fuel s

/-- The node `d` is taken out from under `p`. -/
def unlinkNode (fuel : ℕ) (p : Place N) (dir : Dir) (d : N) (t : BstTable N) :
    Except Fault (BstTable N) := do
  let t ←
    match t.link d .right with
    | none => .ok (t.store p dir (t.link d .left))
    | some r =>
        match t.link r .left with
        | none =>
            let t := t.setLink r .left (t.link d .left)
            .ok (t.store p dir (some r))
        | some _ => do
            let (r, s) ← leftmost t fuel r
            let t := t.setLink r .left (t.link s .right)
            let t := t.setLink s .left (t.link d .left)
            let t := t.setLink s .right (t.link d .right)
            .ok (t.store p dir (some s))
  .ok { t with count := t.count - 1, generation := t.generation + 1 }

/-- `bst_remove`: the table afterwards and the node returned. -/
def bstRemove (cmp : N → N → ℤ) (fuel : ℕ) (n : N) (self : Bool) (t : BstTable N) :
    Except Fault (BstTable N × Option N) := do
  match ← removeLoop (cmp n) t fuel .table (-1) with
  | none => .ok (t, none)
  | some (p, dir, d) =>
      if d = n ∨ self = false then do
        let t ← unlinkNode fuel p dir d t
        .ok (t, some d)
      else .ok (t, some d)

/-- `bst_delete`: the table afterwards and the node returned. -/
def bstDelete (searcher : I → N → ℤ) (fuel : ℕ) (item : I) (t : BstTable N) :
    Except Fault (BstTable N × Option N) := do
  match ← removeLoop (searcher item) t fuel .table (-1) with
  | none => .ok (t, none)
  | some (p, dir, d) => do
      let t ← unlinkNode fuel p dir d t
      .ok (t, some d)

/-! ## Balancing -/

def slantLeft : ℕ → Place N → Option N → BstTable N → Except Fault (BstTable N)
  | 0, _, _, _ => .error .fuel
  | _ + 1, _, none, t => .ok t
  | fuel + 1, q, some p, t =>
      match t.link p .right with
      | none => slantLeft fuel (.node p) (t.link p .left) t
      | some r =>
          let t := t.setLink p .right (t.link r .left)
          let t := t.setLink r .left (some p)
          slantLeft fuel q (some r) (t.store q .left (some r))

def slantLeftBack : Place N → ℕ → BstTable N → Except Fault (BstTable N)
  | _, 0, t => .ok t
  | root, count + 1, t =>
      match t.load root .left with
      | none => .error .null
      | some red =>
          match t.link red .left with
          | none => .error .null
          | some black =>
              let t := t.store root .left (some black)
              let t := t.setLink red .left (t.link black .right)
              let t := t.setLink black .right (some red)
              slantLeftBack (.node black) count t

/-- The loop of `slant_back` that leaves the highest bit. -/
def highBit : ℕ → ℕ → Except Fault ℕ
  | 0, _ => .error .fuel
  | fuel + 1, leaves =>
      if leaves &&& (leaves - 1) = 0 then .ok leaves else highBit fuel (leaves &&& (leaves - 1))

/-- The loop `while (vine > 1)` of `slant_back`, with its variable `height`. -/
def slantLoop : ℕ → ℕ → ℕ → BstTable N → Except Fault (BstTable N × ℕ)
  | 0, _, _, _ => .error .fuel
  | fuel + 1, vine, height, t =>
      if 1 < vine then do
        let t ← slantLeftBack .table (vine >>> 1) t
        slantLoop fuel (vine >>> 1) (height + 1) t
      else .ok (t, height)

/-- `slant_back`, with the last value of its variable `height`. -/
def slantBack (fuel : ℕ) (t : BstTable N) : Except Fault (BstTable N × ℕ) := do
  let high ← highBit fuel (t.count + 1)
  let leaves := t.count + 1 - high
  let t ← slantLeftBack .table leaves t
  slantLoop fuel (t.count - leaves) (1 + if 0 < leaves then 1 else 0) t

def bstBalance (fuel : ℕ) (t : BstTable N) : Except Fault (BstTable N) := do
  let t ← slantLeft fuel .table t.root t
  let (t, _) ← slantBack fuel t
  .ok { t with generation := t.generation + 1 }

/-! ## Iterators -/

/-- `struct bst_iterator`, for an iterator of the table. -/
structure BstIterator (N : Type) where
  node : Option N
  stack : ℕ → Option N
  height : ℕ
  generation : ℕ

/-- `iterator->bst_stack[iterator->bst_height++] = x`. -/
def BstIterator.push (maxHeight : ℕ) (x : N) (it : BstIterator N) :
    Except Fault (BstIterator N) :=
  if it.height < maxHeight then
    .ok { it with stack := Function.update it.stack it.height (some x), height := it.height + 1 }
  else .error .overflow

/-- The values of the two generations are the same. -/
def sameGeneration (a b : ℕ) : Prop := a % 2 ^ 64 = b % 2 ^ 64

instance (a b : ℕ) : Decidable (sameGeneration a b) := inferInstanceAs (Decidable (_ = _))

def bstIteratorInit (stack : ℕ → Option N) (t : BstTable N) : BstIterator N :=
  ⟨none, stack, 0, t.generation⟩

/-- The loop of `bst_iterator_refresh`. -/
def refreshLoop (cmp : N → N → ℤ) (node : N) (t : BstTable N) :
    ℕ → Option N → BstIterator N → Except Fault (BstIterator N)
  | 0, _, _ => .error .fuel
  | fuel + 1, i, it =>
      if i = some node then .ok it
      else if it.height < t.maxHeight then
        match i with
        | none => .error .notFound
        | some i => do
            let it ← it.push t.maxHeight i
            refreshLoop cmp node t fuel (t.link i (side (cmp node i))) it
      else .error .tooDeep

def bstIteratorRefresh (cmp : N → N → ℤ) (fuel : ℕ) (t : BstTable N) (it : BstIterator N) :
    Except Fault (BstIterator N) :=
  let it := { it with generation := t.generation }
  match it.node with
  | none => .ok it
  | some node => refreshLoop cmp node t fuel t.root { it with height := 0 }

/-- `if (iterator->bst_generation != iterator->bst_table->bst_generation)
bst_iterator_refresh(iterator)`. -/
def refreshStale (cmp : N → N → ℤ) (fuel : ℕ) (t : BstTable N) (it : BstIterator N) :
    Except Fault (BstIterator N) :=
  if sameGeneration it.generation t.generation then .ok it else bstIteratorRefresh cmp fuel t it

/-- The loop that descends on side `d` to the last node; there is no node when the stack is
full. -/
def descend (d : Dir) (t : BstTable N) :
    ℕ → N → BstIterator N → Except Fault (Option N × BstIterator N)
  | 0, _, _ => .error .fuel
  | fuel + 1, x, it =>
      match t.link x d with
      | none => .ok (some x, it)
      | some y =>
          if t.maxHeight ≤ it.height then .ok (none, it)
          else do
            let it ← it.push t.maxHeight x
            descend d t fuel y it

/-- `bst_iterator_first` and `bst_iterator_last`: the last node on side `d`, with the iterator and
the table afterwards. -/
def bstIteratorEnd (d : Dir) :
    ℕ → BstIterator N → BstTable N → Except Fault (Option N × BstIterator N × BstTable N)
  | 0, _, _ => .error .fuel
  | fuel + 1, it, t =>
      let it := { it with height := 0, generation := t.generation }
      match t.root with
      | none => .ok (none, { it with node := none }, t)
      | some x => do
          match ← descend d t fuel x it with
          | (some x, it) => .ok (some x, { it with node := some x }, t)
          | (none, it) => do
              let t ← bstBalance fuel t
              bstIteratorEnd d fuel it t

def bstIteratorFirst (fuel : ℕ) (it : BstIterator N) (t : BstTable N) :
    Except Fault (Option N × BstIterator N × BstTable N) := bstIteratorEnd .left fuel it t

def bstIteratorLast (fuel : ℕ) (it : BstIterator N) (t : BstTable N) :
    Except Fault (Option N × BstIterator N × BstTable N) := bstIteratorEnd .right fuel it t

/-- How the loop of `bst_iterator_find` and of `bst_iterator_insert` ends: at a node that compares
equal, at an empty link, or because the stack is full. -/
inductive Descent (N : Type)
  | arrived (x : N) (it : BstIterator N)
  | outside (p : Place N) (d : Dir) (it : BstIterator N)
  | full (it : BstIterator N)

/-- The loop of `bst_iterator_find` and of `bst_iterator_insert`: it follows the comparison. -/
def seek (compare : N → ℤ) (t : BstTable N) :
    ℕ → Place N → Dir → BstIterator N → Except Fault (Descent N)
  | 0, _, _, _ => .error .fuel
  | fuel + 1, p, d, it =>
      match t.load p d with
      | none => .ok (.outside p d it)
      | some x =>
          if compare x = 0 then .ok (.arrived x it)
          else if t.maxHeight ≤ it.height then .ok (.full it)
          else do
            let it ← it.push t.maxHeight x
            seek compare t fuel (.node x) (side (compare x)) it

def bstIteratorFind (searcher : I → N → ℤ) (item : I) :
    ℕ → BstIterator N → BstTable N → Except Fault (Option N × BstIterator N × BstTable N)
  | 0, _, _ => .error .fuel
  | fuel + 1, it, t => do
      let it := { it with height := 0, generation := t.generation }
      match ← seek (searcher item) t fuel .table .left it with
      | .arrived x it => .ok (some x, { it with node := some x }, t)
      | .outside _ _ it => .ok (none, { it with height := 0, node := none }, t)
      | .full it => do
          let t ← bstBalance fuel t
          bstIteratorFind searcher item fuel it t

def bstIteratorInsert (cmp : N → N → ℤ) (n : N) :
    ℕ → BstIterator N → BstTable N → Except Fault (N × BstIterator N × BstTable N)
  | 0, _, _ => .error .fuel
  | fuel + 1, it, t => do
      match ← seek (cmp n) t fuel .table .left { it with height := 0 } with
      | .arrived x it => .ok (x, { it with node := some x, generation := t.generation }, t)
      | .outside p d it =>
          .ok (n, { it with node := some n, generation := t.generation }, linkLeaf n p d t)
      | .full it => do
          let t ← bstBalance fuel t
          bstIteratorInsert cmp n fuel it t

/-- The loop that goes up until it comes from the other side. -/
def climb (d : Dir) (t : BstTable N) :
    ℕ → N → BstIterator N → Except Fault (Option N × BstIterator N)
  | 0, _, _ => .error .fuel
  | fuel + 1, y, it =>
      if it.height = 0 then .ok (none, it)
      else
        match it.stack (it.height - 1) with
        | none => .error .garbage
        | some x =>
            let it := { it with height := it.height - 1 }
            if t.link x d = some y then climb d t fuel x it else .ok (some x, it)

/-- `bst_iterator_next` and `bst_iterator_prev`: the neighbour on side `d`, with the iterator and
the table afterwards. -/
def bstIteratorStep (cmp : N → N → ℤ) (d : Dir) :
    ℕ → BstIterator N → BstTable N → Except Fault (Option N × BstIterator N × BstTable N)
  | 0, _, _ => .error .fuel
  | fuel + 1, it, t => do
      let it ← refreshStale cmp fuel t it
      match it.node with
      | none => bstIteratorEnd d.opp fuel it t
      | some x =>
          match t.link x d with
          | some y =>
              if t.maxHeight ≤ it.height then do
                let t ← bstBalance fuel t
                bstIteratorStep cmp d fuel it t
              else do
                let it ← it.push t.maxHeight x
                match ← descend d.opp t fuel y it with
                | (some x, it) => .ok (some x, { it with node := some x }, t)
                | (none, it) => do
                    let t ← bstBalance fuel t
                    bstIteratorStep cmp d fuel it t
          | none => do
              let (x, it) ← climb d t fuel x it
              .ok (x, { it with node := x }, t)

def bstIteratorNext (cmp : N → N → ℤ) (fuel : ℕ) (it : BstIterator N) (t : BstTable N) :
    Except Fault (Option N × BstIterator N × BstTable N) := bstIteratorStep cmp .right fuel it t

def bstIteratorPrev (cmp : N → N → ℤ) (fuel : ℕ) (it : BstIterator N) (t : BstTable N) :
    Except Fault (Option N × BstIterator N × BstTable N) := bstIteratorStep cmp .left fuel it t

end LinuxC.Bst
