import LinuxC.RbTree.Operations
import LinuxC.Timer.Table

/-!
# The table is the red-black tree

The runtime keeps its table in a red-black tree; the model keeps the ordered list of its timers.
`TreeHolds` says that a tree holds the table of a state, and the operations of the source on the
tree do what those of the model do on the list: `timer_insert`, `timer_remove`, `timer_search` and
the look at the first timer.  A tree that holds the table is a red-black tree in memory, with all
its links.
-/

namespace LinuxC.Timer

/-- The tree holds the table of the state. -/
def TreeHolds (tree : Rb.RbTree Ptr) (s : State) : Prop :=
  Rb.IsSet (timerComparator s.timer) tree s.base.table

lemma consistent_timerComparator (timer : Ptr → TimerStruct) :
    Rb.Consistent (timerComparator timer) (timerComparator timer) := by
  have hcmp := comparator_timerComparator timer
  refine ⟨fun i a b hab hia => hcmp.trans i a b hia hab, fun i a b hab hib => ?_⟩
  by_contra hle
  have := hcmp.trans i a b (not_lt.mp hle) hab
  omega

section Operations

variable {tree : Rb.RbTree Ptr} {s : State} {t : Ptr} {fuel : ℕ}

/-- **`timer_insert` on the tree.**  The keys are written before the timer is put into the tree. -/
lemma TreeHolds.insert (h : TreeHolds tree s) (hok : TableOk s)
    (ht : (s.timer t).flags.mounted = false) (hfuel : tree.rbCount < fuel) :
    ∃ tree' r, Rb.rbInsert (timerComparator (timerKey t s).timer) fuel t tree = some (tree', r) ∧
      TreeHolds tree' (timerInsert t s) := by
  have h' : Rb.IsSet (timerComparator (timerKey t s).timer) tree s.base.table := by
    refine ⟨h.balanced, sorted_congr h.sorted fun x hx => ?_, h.count⟩
    rw [hok.key_of_mem ht hx]
    exact ⟨rfl, rfl⟩
  obtain ⟨tree', r, heval, hset⟩ := h'.inserted (comparator_timerComparator _) t hfuel
  exact ⟨tree', r, heval, hset.balanced,
    sorted_congr hset.sorted fun x _ => timerInsert_key t s x, hset.count⟩

/-- **`timer_remove` on the tree.** -/
lemma TreeHolds.remove (h : TreeHolds tree s) (ht : t ∈ s.base.table)
    (hfuel : tree.rbCount < fuel) :
    ∃ tree', Rb.rbRemove fuel t tree = some tree' ∧ TreeHolds tree' (timerRemove t s) := by
  obtain ⟨tree', heval, hset⟩ := h.removed ht hfuel
  exact ⟨tree', heval, hset.balanced,
    sorted_congr hset.sorted fun x _ => timerRemove_key t s x, hset.count⟩

/-- **`timer_search` on the tree**: the search returns the timer itself. -/
lemma TreeHolds.search (h : TreeHolds tree s) (hfuel : tree.rbCount < fuel) :
    Rb.rbSearch (timerComparator s.timer) t tree fuel tree.root = some (some t) ↔
      timerSearch t s = true := by
  have hcmp := comparator_timerComparator s.timer
  obtain ⟨r, heval, hr⟩ := Rb.IsSet.search (consistent_timerComparator s.timer) h t hfuel
  rw [heval, Option.some.injEq, hr, timerSearch, decide_eq_true_iff]
  constructor
  · rintro ⟨hmem, -⟩
    exact hcmp.find?_self h.sorted hmem
  · intro hfind
    exact ⟨List.mem_of_find?_eq_some hfind, hcmp.self t⟩

/-- **The first timer of the tree.** -/
lemma TreeHolds.first (h : TreeHolds tree s) (hfuel : tree.rbCount < fuel) :
    Rb.rbFirst fuel tree = some s.base.table.head? := (h.ends hfuel).1

end Operations

end LinuxC.Timer
