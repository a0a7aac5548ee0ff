import RadardFormal.Shamap.Map
import RadardFormal.Support.Walk

/-!
# Walking a canonical map in key order

`upper_bound` walks towards a key with `getStack` and climbs the stack to the first leaf past
the key; the iterator of `begin ()` and `operator++` keeps a stack of its own the same way.  On
a canonical map the stack of every position is the `getStack` of its item's key, so each climb
is a question about the tree: `upper_bound (id)` finds the item with the least key above `id`
(`upperBound_eq`), `operator++` from an item is `upper_bound` of its key
(`peekNextItem_eq_upperBound`), and the iteration from `begin ()` lists the items of the map
in increasing key order, each once (`visit_eq`).
-/

namespace RadardFormal.Shamap

open RadardFormal.Protocol RadardFormal.Support SHAMapAbstractNode

/-! ## The least items of a list -/

/-- `item` has the least key of `items`. -/
def IsFirst (items : List SHAMapItem) (item : SHAMapItem) : Prop :=
  item ∈ items ∧ ∀ other ∈ items, item.key ≤ other.key

/-- `item` has the least key of `items` above `id`. -/
def IsLeastAbove (id : Uint256) (items : List SHAMapItem) (item : SHAMapItem) : Prop :=
  item ∈ items ∧ id < item.key ∧ ∀ other ∈ items, id < other.key → item.key ≤ other.key

/-- Every branch of an inner node is compact: what a root and every compact node satisfy. -/
def BranchesCompact : SHAMapAbstractNode → Prop
  | .inner children => ∀ i, Compact (children i)
  | _ => True

theorem Compact.branchesCompact {node : SHAMapAbstractNode} (compact : Compact node) : BranchesCompact node := by
  cases node with
  | inner children => exact (compact_inner.mp compact).2
  | _ => trivial

theorem Rooted.branchesCompact {node : SHAMapAbstractNode} (rooted : Rooted node) : BranchesCompact node := by
  cases node with
  | inner children => exact rooted
  | _ => exact rooted.elim

/-- The items under a node at `depth` took the branches `id` takes above it. -/
def SharedWith (id : Uint256) (depth : Nat) (node : SHAMapAbstractNode) : Prop :=
  ∀ item ∈ entries node, ∀ j < depth, selectBranch j item.key = selectBranch j id

theorem SharedWith.shared {id : Uint256} {depth : Nat} {node : SHAMapAbstractNode}
    (sharedWith : SharedWith id depth node) : Shared depth node :=
  fun a aMem b bMem j below => (sharedWith a aMem j below).trans (sharedWith b bMem j below).symm

/-! ## Keys and branches -/

section branches

variable {depth : Nat} {children : Fin 16 → SHAMapAbstractNode}

/-- Under a placed inner node whose items share their upper branches, the items of a lower
branch have the smaller keys. -/
theorem key_lt_of_mem_branches (placed : Placed depth (.inner children)) (shared : Shared depth (.inner children))
    {i j : Fin 16} {a b : SHAMapItem} (aMem : a ∈ entries (children i)) (bMem : b ∈ entries (children j))
    (less : i < j) : a.key < b.key := by
  refine Shamap.key_lt_of_branch_lt (shared a (mem_entries_inner.mpr ⟨i, aMem⟩) b
    (mem_entries_inner.mpr ⟨j, bMem⟩)) ?_
  rw [((placed_inner.mp placed) i).1 a aMem, ((placed_inner.mp placed) j).1 b bMem]
  exact less

variable {id : Uint256}

/-- The items of a branch before the one `id` takes have keys below `id`. -/
theorem key_lt_of_lt_selectBranch (placed : Placed depth (.inner children))
    (sharedWith : SharedWith id depth (.inner children)) {j : Fin 16} {a : SHAMapItem}
    (aMem : a ∈ entries (children j)) (less : j < selectBranch depth id) : a.key < id := by
  refine Shamap.key_lt_of_branch_lt (fun k below => sharedWith a (mem_entries_inner.mpr ⟨j, aMem⟩) k below) ?_
  rw [((placed_inner.mp placed) j).1 a aMem]
  exact less

/-- The items of a branch after the one `id` takes have keys above `id`. -/
theorem lt_key_of_selectBranch_lt (placed : Placed depth (.inner children))
    (sharedWith : SharedWith id depth (.inner children)) {j : Fin 16} {a : SHAMapItem}
    (aMem : a ∈ entries (children j)) (less : selectBranch depth id < j) : id < a.key := by
  refine Shamap.key_lt_of_branch_lt (fun k below => (sharedWith a (mem_entries_inner.mpr ⟨j, aMem⟩) k below).symm) ?_
  rw [((placed_inner.mp placed) j).1 a aMem]
  exact less

theorem SharedWith.branch (placed : Placed depth (.inner children)) (sharedWith : SharedWith id depth (.inner children)) :
    SharedWith id (depth + 1) (children (selectBranch depth id)) := by
  intro a aMem j below
  rcases Nat.lt_succ_iff_lt_or_eq.mp below with above | rfl
  · exact sharedWith a (mem_entries_inner.mpr ⟨_, aMem⟩) j above
  · exact ((placed_inner.mp placed) _).1 a aMem

/-- An empty branch holds no item. -/
theorem entries_eq_nil_of_isEmptyBranch {i : Fin 16} (empty : isEmptyBranch children i = true) :
    entries (children i) = [] := by
  cases branch : children i <;> simp_all [isEmptyBranch, isEmpty]

/-- A branch that is not empty holds an item, when it is compact. -/
theorem entries_ne_nil_of_isEmptyBranch {i : Fin 16} (compact : BranchesCompact (.inner children))
    (present : isEmptyBranch children i = false) : entries (children i) ≠ [] := by
  have one := one_le_length_entries (compact i) (by simpa [isEmptyBranch] using present)
  intro none
  rw [none] at one
  cases one

/-- In a list of items in increasing key order, the search for the key of one of them finds it. -/
theorem find?_key_eq_of_mem {items : List SHAMapItem} (sorted : items.Pairwise fun a b => a.key < b.key)
    {item : SHAMapItem} (member : item ∈ items) : items.find? (fun other => other.key == item.key) = some item := by
  induction items with
  | nil => cases member
  | cons first rest ih =>
    obtain ⟨firstBelow, restSorted⟩ := List.pairwise_cons.mp sorted
    rcases List.mem_cons.mp member with rfl | later
    · simp
    · -- an earlier key is smaller, so the search passes over it
      have differs : (first.key == item.key) = false := beq_false_of_ne (ne_of_lt (firstBelow item later))
      rw [List.find?_cons, differs]
      exact ih restSorted later

/-- `getStack` past an inner node whose branch towards `id` is not empty. -/
theorem getStack_inner_goesOn (goesOn : isEmptyBranch children (selectBranch depth id) = false) :
    getStack id true (.inner children) depth [] =
      getStack id true (children (selectBranch depth id)) (depth + 1) [] ++ [(.inner children, depth)] := by
  rw [← getStack_append]
  simp [getStack, goesOn]

theorem getStack_inner_stops (stops : isEmptyBranch children (selectBranch depth id) = true) :
    getStack id true (.inner children) depth [] = [(.inner children, depth)] := by
  simp [getStack, stops]

end branches

/-! ## The first leaf under a node -/

/-- `firstBelow` from a node stacked at its depth finds its item of least key, with the
`getStack` of that key above the stack it was given. -/
theorem firstBelow_eq {node : SHAMapAbstractNode} {depth : Nat} (placed : Placed depth node)
    (shared : Shared depth node) (compact : BranchesCompact node) (nonempty : entries node ≠ []) :
    ∃ first, IsFirst (entries node) first ∧ ∀ stack,
      firstBelow node depth ((node, depth) :: stack) = some (first, getStack first.key true node depth [] ++ stack) := by
  induction node generalizing depth with
  | empty => exact absurd rfl nonempty
  | leaf item type =>
    refine ⟨item, ⟨List.mem_singleton_self item, fun other member => ?_⟩, fun stack => ?_⟩
    · rw [List.mem_singleton.mp member]
    · simp [firstBelow, getStack]
  | inner children ih =>
    -- the search finds the first branch that is not empty
    obtain ⟨i, found⟩ : ∃ i, (List.finRange 16).find? (fun i => !isEmptyBranch children i) = some i := by
      cases search : (List.finRange 16).find? (fun i => !isEmptyBranch children i) with
      | some i => exact ⟨i, rfl⟩
      | none =>
        refine absurd ?_ nonempty
        rw [entries, List.flatMap_eq_nil_iff]
        intro i _
        exact entries_eq_nil_of_isEmptyBranch (by simpa using List.find?_eq_none.mp search i (List.mem_finRange i))
    obtain ⟨present, earlier⟩ := find?_finRange_eq_some found
    have goesOn : isEmptyBranch children i = false := by simpa using present
    have branch := (placed_inner.mp placed) i
    obtain ⟨first, ⟨firstMem, firstLe⟩, descends⟩ := ih i branch.2 (shared.branch placed i)
      (compact i).branchesCompact (entries_ne_nil_of_isEmptyBranch compact goesOn)
    have taken : selectBranch depth first.key = i := branch.1 first firstMem
    refine ⟨first, ⟨mem_entries_inner.mpr ⟨i, firstMem⟩, fun other member => ?_⟩, fun stack => ?_⟩
    · obtain ⟨j, inJ⟩ := mem_entries_inner.mp member
      rcases lt_trichotomy j i with before | rfl | after
      · -- the branches before the first are empty
        have empty := earlier j before
        rw [entries_eq_nil_of_isEmptyBranch (by simpa using empty)] at inJ
        cases inJ
      · exact firstLe other inJ
      · exact le_of_lt (key_lt_of_mem_branches placed shared firstMem inJ after)
    · rw [firstBelow, found]
      dsimp only
      rw [descends, getStack_inner_goesOn (taken ▸ goesOn), taken, List.append_assoc]
      rfl

/-! ## Climbing to the next leaf -/

/-- What `laterBranch` finds: the first branch after `branch` that is not empty. -/
theorem laterBranch_eq_some {children : Fin 16 → SHAMapAbstractNode} {branch i : Fin 16}
    (found : laterBranch children branch = some i) :
    branch < i ∧ isEmptyBranch children i = false ∧ ∀ j, branch < j → j < i → isEmptyBranch children j = true := by
  obtain ⟨passes, earlier⟩ := find?_finRange_eq_some found
  simp only [Bool.and_eq_true, decide_eq_true_eq, Bool.not_eq_eq_eq_not, Bool.not_true] at passes
  refine ⟨passes.1, passes.2, fun j after before => ?_⟩
  have fails := earlier j before
  simp only [Bool.and_eq_false_iff, decide_eq_false_iff_not, Bool.not_eq_eq_eq_not, Bool.not_false] at fails
  exact fails.resolve_left (not_not.mpr after)

theorem laterBranch_eq_none {children : Fin 16 → SHAMapAbstractNode} {branch : Fin 16}
    (none : laterBranch children branch = none) : ∀ j, branch < j → isEmptyBranch children j = true := by
  intro j after
  have fails := List.find?_eq_none.mp none j (List.mem_finRange j)
  simpa [after] using fails

section climb

variable {id : Uint256} {depth : Nat} {children : Fin 16 → SHAMapAbstractNode}

/-- The climb at an inner node stacked on the way to `id`, once nothing of its branch towards
`id` lies above `id`: the first item of a later branch, or on down the stack. -/
theorem upperClimb_inner (placed : Placed depth (.inner children)) (sharedWith : SharedWith id depth (.inner children))
    (compact : BranchesCompact (.inner children))
    (passed : ∀ item ∈ entries (children (selectBranch depth id)), ¬id < item.key) (rest : NodeStack) :
    (∃ next, IsLeastAbove id (entries (.inner children)) next ∧
      upperClimb id ((.inner children, depth) :: rest) =
        some (some (next, getStack next.key true (.inner children) depth [] ++ rest))) ∨
    ((∀ item ∈ entries (.inner children), ¬id < item.key) ∧
      upperClimb id ((.inner children, depth) :: rest) = upperClimb id rest) := by
  have shared := sharedWith.shared
  -- an item of a branch other than the later ones is not above `id`
  have notAbove : ∀ j, j ≤ selectBranch depth id → ∀ item ∈ entries (children j), ¬id < item.key := by
    intro j atMost item member
    rcases Nat.lt_or_eq_of_le (Fin.le_def.mp atMost) with below | same
    · exact not_lt.mpr (le_of_lt (key_lt_of_lt_selectBranch placed sharedWith member (Fin.lt_def.mpr below)))
    · exact passed item (Fin.ext same ▸ member)
  cases later : laterBranch children (selectBranch depth id) with
  | none =>
    -- every later branch is empty: nothing of the node lies above `id`
    refine .inr ⟨fun item member => ?_, by simp [upperClimb, later]⟩
    obtain ⟨j, inJ⟩ := mem_entries_inner.mp member
    by_cases after : selectBranch depth id < j
    · rw [entries_eq_nil_of_isEmptyBranch (laterBranch_eq_none later j after)] at inJ
      cases inJ
    · exact notAbove j (not_lt.mp after) item inJ
  | some i =>
    obtain ⟨after, goesOn, between⟩ := laterBranch_eq_some later
    have branch := (placed_inner.mp placed) i
    obtain ⟨next, ⟨nextMem, nextLe⟩, descends⟩ := firstBelow_eq branch.2 (shared.branch placed i)
      (compact i).branchesCompact (entries_ne_nil_of_isEmptyBranch compact goesOn)
    have taken : selectBranch depth next.key = i := branch.1 next nextMem
    refine .inl ⟨next, ⟨mem_entries_inner.mpr ⟨i, nextMem⟩,
      lt_key_of_selectBranch_lt placed sharedWith nextMem after, fun other member above => ?_⟩, ?_⟩
    · -- the items above `id` lie in the branch found or after it
      obtain ⟨j, inJ⟩ := mem_entries_inner.mp member
      rcases lt_trichotomy j i with before | rfl | beyond
      · by_cases past : selectBranch depth id < j
        · rw [entries_eq_nil_of_isEmptyBranch (between j past before)] at inJ
          cases inJ
        · exact absurd above (notAbove j (not_lt.mp past) other inJ)
      · exact nextLe other inJ
      · exact le_of_lt (key_lt_of_mem_branches placed shared nextMem inJ beyond)
    · simp only [upperClimb, later, nextLeaf]
      rw [descends, Option.map_some, getStack_inner_goesOn (taken ▸ goesOn), taken, List.append_assoc]
      rfl

/-- The climb from the walk of `getStack` towards `id` under a node: the item of least key
above `id` under the node, with the `getStack` of its key, or on down the stack when the node
has none. -/
theorem upperClimb_getStack {node : SHAMapAbstractNode} (placed : Placed depth node)
    (sharedWith : SharedWith id depth node) (compact : BranchesCompact node) (rest : NodeStack) :
    (∃ next, IsLeastAbove id (entries node) next ∧
      upperClimb id (getStack id true node depth [] ++ rest) = some (some (next, getStack next.key true node depth [] ++ rest))) ∨
    ((∀ item ∈ entries node, ¬id < item.key) ∧
      upperClimb id (getStack id true node depth [] ++ rest) = upperClimb id rest) := by
  induction node generalizing depth rest with
  | empty => exact .inr ⟨fun item member => (by cases member), rfl⟩
  | leaf item type =>
    by_cases above : id < item.key
    · refine .inl ⟨item, ⟨List.mem_singleton_self item, above, fun other member _ => ?_⟩, ?_⟩
      · rw [List.mem_singleton.mp member]
      · simp [getStack, upperClimb, above]
    · refine .inr ⟨fun other member => by rw [List.mem_singleton.mp member]; exact above, ?_⟩
      simp [getStack, upperClimb, above]
  | inner children ih =>
    by_cases stops : isEmptyBranch children (selectBranch depth id) = true
    · -- the walk stops at the node: nothing of its branch towards `id` lies above `id`
      rw [getStack_inner_stops stops, List.singleton_append]
      exact upperClimb_inner placed sharedWith compact
        (fun item member => by rw [entries_eq_nil_of_isEmptyBranch stops] at member; cases member) rest
    · have goesOn : isEmptyBranch children (selectBranch depth id) = false := by simpa using stops
      have branch := (placed_inner.mp placed) (selectBranch depth id)
      rw [getStack_inner_goesOn goesOn, List.append_assoc, List.singleton_append]
      rcases ih _ branch.2 (sharedWith.branch placed) (compact _).branchesCompact ((.inner children, depth) :: rest) with
        ⟨next, ⟨nextMem, above, nextLe⟩, climbed⟩ | ⟨passed, climbed⟩
      · -- the least item above `id` in the branch towards `id` is the least of the node
        have taken : selectBranch depth next.key = selectBranch depth id := branch.1 next nextMem
        refine .inl ⟨next, ⟨mem_entries_inner.mpr ⟨_, nextMem⟩, above, fun other member otherAbove => ?_⟩, ?_⟩
        · obtain ⟨j, inJ⟩ := mem_entries_inner.mp member
          rcases lt_trichotomy j (selectBranch depth id) with before | rfl | beyond
          · exact absurd otherAbove (not_lt.mpr (le_of_lt (key_lt_of_lt_selectBranch placed sharedWith inJ before)))
          · exact nextLe other inJ otherAbove
          · exact le_of_lt (key_lt_of_mem_branches placed sharedWith.shared nextMem inJ beyond)
        · rw [climbed, getStack_inner_goesOn (taken ▸ goesOn), taken, List.append_assoc]
          rfl
      · rw [climbed]
        exact upperClimb_inner placed sharedWith compact passed rest

end climb

/-! ## `upper_bound`, `begin ()` and `operator++` on a canonical map -/

namespace SHAMap

variable {type : TNType} {map : SHAMap}

/-- `fetch` finds every item of the map under its key. -/
theorem fetch_of_mem (canonical : map.Canonical type) {item : SHAMapItem} (member : item ∈ entries map.root) :
    map.fetch item.key = some item := by
  rw [fetch, walkToPointer_eq_find canonical.placed]
  exact find?_key_eq_of_mem (sorted_entries canonical.placed (shared_zero _)) member

/-- `upper_bound (id)` finds the item of least key above `id`, with the `getStack` of its key,
and `end ()` when there is none. -/
theorem upperBound_eq (canonical : map.Canonical type) (id : Uint256) :
    (∃ next, IsLeastAbove id (entries map.root) next ∧
      map.upperBound id = some (some (next, getStack next.key true map.root 0 []))) ∨
    ((∀ item ∈ entries map.root, ¬id < item.key) ∧ map.upperBound id = some none) := by
  have sharedWith : SharedWith id 0 map.root := fun _ _ j below => absurd below (Nat.not_lt_zero j)
  have climbed := upperClimb_getStack canonical.placed sharedWith canonical.rooted.branchesCompact []
  simp only [List.append_nil] at climbed
  exact climbed

/-- `begin ()` is the item of least key, with the `getStack` of its key, and `end ()` for a map
with no item. -/
theorem peekFirstItem_eq (canonical : map.Canonical type) :
    (∃ first, IsFirst (entries map.root) first ∧ map.peekFirstItem = some (first, getStack first.key true map.root 0 [])) ∨
    (entries map.root = [] ∧ map.peekFirstItem = none) := by
  obtain ⟨children, root⟩ := canonical.exists_root
  by_cases empty : entries map.root = []
  · -- no branch holds an item, so the search for a first branch fails
    refine .inr ⟨empty, ?_⟩
    have none : (List.finRange 16).find? (fun i => !isEmptyBranch children i) = none := by
      rw [List.find?_eq_none]
      intro i _ present
      have compact := canonical.rooted
      rw [root] at compact empty
      exact entries_ne_nil_of_isEmptyBranch compact (by simpa using present)
        (List.flatMap_eq_nil_iff.mp empty i (List.mem_finRange i))
    simp [peekFirstItem, root, firstBelow, none]
  · obtain ⟨first, isFirst, descends⟩ :=
      firstBelow_eq canonical.placed (shared_zero _) canonical.rooted.branchesCompact empty
    exact .inl ⟨first, isFirst, by simpa [peekFirstItem] using descends []⟩

/-- Below its top, the stack of `getStack` holds inner nodes only. -/
theorem isInner_of_mem_getStack {id : Uint256} {node : SHAMapAbstractNode} {depth : Nat} {top : SHAMapAbstractNode × Nat}
    {rest : NodeStack} (stacked : getStack id true node depth [] = top :: rest) : ∀ p ∈ rest, p.1.isInner = true := by
  induction node generalizing depth top rest with
  | empty => cases stacked
  | leaf item type =>
    simp only [getStack, Bool.true_or, if_true, List.cons.injEq] at stacked
    rw [← stacked.2]
    intro p member
    cases member
  | inner children ih =>
    by_cases stops : isEmptyBranch children (selectBranch depth id) = true
    · rw [getStack_inner_stops stops, List.cons.injEq] at stacked
      rw [← stacked.2]
      intro p member
      cases member
    · have goesOn : isEmptyBranch children (selectBranch depth id) = false := by simpa using stops
      rw [getStack_inner_goesOn goesOn] at stacked
      cases below : getStack id true (children (selectBranch depth id)) (depth + 1) [] with
      | nil =>
        rw [below, List.nil_append, List.cons.injEq] at stacked
        rw [← stacked.2]
        intro p member
        cases member
      | cons belowTop belowRest =>
        rw [below, List.cons_append, List.cons.injEq] at stacked
        rw [← stacked.2]
        intro p member
        rcases List.mem_append.mp member with inBelow | here
        · exact ih _ below p inBelow
        · rw [List.mem_singleton.mp here]
          rfl

/-- On a stack of inner nodes, the climb of `operator++` is that of `upper_bound`. -/
theorem peekNext_eq_upperClimb (id : Uint256) :
    ∀ stack : NodeStack, (∀ p ∈ stack, p.1.isInner = true) → peekNext id stack = upperClimb id stack
  | [], _ => rfl
  | (node, depth) :: stack, allInner => by
    have rest := peekNext_eq_upperClimb id stack fun p member => allInner p (List.mem_cons_of_mem _ member)
    cases node with
    | inner children =>
      simp only [peekNext, upperClimb]
      split
      · rfl
      · exact rest
    | _ => cases allInner _ List.mem_cons_self

/-- `operator++` from an item of the map, at the stack of its key, is `upper_bound` of its key. -/
theorem peekNextItem_eq_upperBound (canonical : map.Canonical type) {item : SHAMapItem}
    (member : item ∈ entries map.root) :
    peekNextItem item.key (getStack item.key true map.root 0 []) = map.upperBound item.key := by
  -- the walk towards the item's key ends at its leaf, the top of the stack
  obtain ⟨itemType, ends, -⟩ := fetch_eq_some (fetch_of_mem canonical member)
  obtain ⟨rest, stacked, -⟩ := getStack_top item.key (rooted_isEmpty canonical.rooted) 0 []
  have top : walkEnd item.key map.root 0 = (.leaf item itemType, (walkEnd item.key map.root 0).2) :=
    Prod.ext ends rfl
  rw [top] at stacked
  rw [upperBound, stacked, peekNextItem, List.tail_cons,
    peekNext_eq_upperClimb item.key rest (isInner_of_mem_getStack stacked)]
  simp [upperClimb]

/-- At `end ()` the range loop stops, whatever fuel is left. -/
@[simp] theorem visitFrom_none (fuel : Nat) : visitFrom fuel none = some [] := by
  cases fuel <;> rfl

/-- From an item of the map, at the stack of its key, the range loop lists the item and then
every item above it in increasing key order, on one unit of fuel for each. -/
theorem visitFrom_eq (canonical : map.Canonical type) :
    ∀ (fuel : Nat) (item : SHAMapItem), item ∈ entries map.root →
      ((entries map.root).filter fun other => decide (item.key < other.key)).length < fuel →
      visitFrom fuel (some (item, getStack item.key true map.root 0 [])) =
        some (item :: (entries map.root).filter fun other => decide (item.key < other.key))
  | 0, _, _, enough => absurd enough (Nat.not_lt_zero _)
  | fuel + 1, item, member, enough => by
    have sorted := sorted_entries canonical.placed (shared_zero _)
    rw [visitFrom, peekNextItem_eq_upperBound canonical member]
    rcases upperBound_eq canonical item.key with ⟨next, ⟨nextMem, above, least⟩, found⟩ | ⟨passed, found⟩
    · -- the items above this one are the next item and the items above that
      have split := filter_lt_eq_cons SHAMapItem.key sorted nextMem above least
      rw [split, List.length_cons] at enough
      rw [found]
      dsimp only
      rw [visitFrom_eq canonical fuel next nextMem (by omega), Option.map_some, split]
    · have none : ((entries map.root).filter fun other => decide (item.key < other.key)) = [] :=
        List.filter_eq_nil_iff.mpr fun other member => by simpa using passed other member
      rw [found, none]
      simp

/-- A range loop over a canonical map from `begin ()` lists its items, in increasing key order,
given as much fuel as there are items. -/
theorem visit_eq (canonical : map.Canonical type) {fuel : Nat} (enough : (entries map.root).length ≤ fuel) :
    map.visit fuel = some (entries map.root) := by
  rw [visit]
  rcases peekFirstItem_eq canonical with ⟨first, ⟨firstMem, least⟩, found⟩ | ⟨empty, found⟩
  · have split := cons_filter_lt_eq SHAMapItem.key (sorted_entries canonical.placed (shared_zero _)) firstMem least
    have shorter : ((entries map.root).filter fun other => decide (first.key < other.key)).length < fuel := by
      have lengths := congrArg List.length split
      rw [List.length_cons] at lengths
      omega
    rw [found, visitFrom_eq canonical fuel first firstMem shorter, split]
  · rw [found, empty, visitFrom_none]

end SHAMap

end RadardFormal.Shamap
