import Mathlib.Algebra.Order.BigOperators.Group.List
import Mathlib.Data.Set.Card
import RadardFormal.Shamap.Map
import RadardFormal.Support.Budgeted

/-!
# Comparing two maps

`SHAMap::compare` walks two trees together from their roots, skipping the branches whose
hashes agree, and records in a `Delta` each key whose item differs between the two maps,
with the item of each.  Where an inner node faces a leaf or an empty branch, `walkBranch`
walks the inner node's subtree against that single item, or against nothing.  Both record
through one budget, `maxCount`, and return `false` as soon as it is spent.

Both walks keep an explicit stack; here each is a recursion on its stack that terminates
because the nodes on the stack shrink (`nodeCount`).  The differences and `maxCount` are the
state of a `Budgeted` computation whose exception is the early return.  Equal hashes are
read as equal items (`HashFaithful`), which is what the pruning relies on.

Whatever the order of the walks, each records a sequence of differences: `walkDiffs` and
`pairDiffs` compute it, and `walkBranch_eq` and `compareStack_eq` show that the walks record
exactly that.  `pairDiffs_differences` shows that the sequence lists each key where two placed
trees differ once, with its two items.  `compare_differences` puts the two together with
`Budgeted.recordAll_run`: on two canonical maps, `compare` returns `true` exactly when there
are fewer than `maxCount` such keys, and records only such keys, all of them when it returns
`true` and `maxCount` of them when it returns `false`.
-/

namespace RadardFormal.Shamap

open RadardFormal.Protocol RadardFormal.Support SHAMapAbstractNode

/-! ## The walks -/

/-- `SHAMap::DeltaRef`: the item of the first map and the item of the second, each null
where its map has none. -/
abbrev DeltaRef := Option SHAMapItem × Option SHAMapItem

/-- `SHAMap::Delta`, a `std::map` from keys to their `DeltaRef`. -/
abbrev Delta := SortedMap Uint256 DeltaRef

/-- How a walk ends early: it returns `false` once `maxCount` is spent, or it throws
`SHAMapMissingNode` on a null node. -/
inductive Stop where
  | full
  | missingNode
  deriving DecidableEq, Repr

/-- A walk over the trees, recording in the differences and spending `maxCount`. -/
abbrev DeltaWalk := Budgeted Uint256 DeltaRef Stop

/-- The `DeltaRef` recorded by a walk over one map: its own item first when that map is the
first one (`isFirstMap`). -/
def orient (isFirstMap : Bool) (mine theirs : Option SHAMapItem) : DeltaRef :=
  if isFirstMap then (mine, theirs) else (theirs, mine)

/-- The number of nodes of a tree, which the walks' stacks shrink in. -/
def nodeCount : SHAMapAbstractNode → Nat
  | .inner children => 1 + ((List.finRange 16).map fun i => nodeCount (children i)).sum
  | _ => 1

/-- The non-empty branches of an inner node pushed on a stack by the loop over `i`, so that
branch 15 is on top. -/
def pushBranches (children : Fin 16 → SHAMapAbstractNode) (nodeStack : List SHAMapAbstractNode) :
    List SHAMapAbstractNode :=
  (branches children).foldl (fun nodeStack i => children i :: nodeStack) nodeStack

theorem foldl_push {α β : Type} (f : α → β) (l : List α) (stack : List β) :
    l.foldl (fun stack i => f i :: stack) stack = (l.map f).reverse ++ stack := by
  induction l generalizing stack with
  | nil => rfl
  | cons head rest ih => simp [ih]

theorem nodeCount_inner (children : Fin 16 → SHAMapAbstractNode) :
    nodeCount (.inner children) = 1 + ((List.finRange 16).map fun i => nodeCount (children i)).sum :=
  rfl

theorem one_le_nodeCount (node : SHAMapAbstractNode) : 1 ≤ nodeCount node := by
  cases node with
  | inner children =>
    rw [nodeCount_inner]
    omega
  | _ => exact Nat.le_refl 1

/-- A stack shrinks when its top is popped. -/
theorem stackCount_lt_cons {α : Type} (count : α → Nat) (positive : ∀ a, 1 ≤ count a) (top : α)
    (rest : List α) : (rest.map count).sum < ((top :: rest).map count).sum := by
  have := positive top
  rw [List.map_cons, List.sum_cons]
  omega

/-- Some branches of an inner node hold fewer nodes than it. -/
theorem branchCount_lt (children : Fin 16 → SHAMapAbstractNode) {chosen : List (Fin 16)}
    (sub : chosen.Sublist (List.finRange 16)) :
    (chosen.map fun i => nodeCount (children i)).sum < nodeCount (.inner children) := by
  have le := (sub.map fun i => nodeCount (children i)).sum_le_sum fun _ _ => Nat.zero_le _
  rw [nodeCount_inner]
  omega

theorem walkStack_decreases (children : Fin 16 → SHAMapAbstractNode) (nodeStack : List SHAMapAbstractNode) :
    ((pushBranches children nodeStack).map nodeCount).sum <
      ((SHAMapAbstractNode.inner children :: nodeStack).map nodeCount).sum := by
  have fewer := branchCount_lt children
    (List.filter_sublist : (branches children).Sublist (List.finRange 16))
  rw [pushBranches, foldl_push, List.map_append, List.sum_append, List.map_reverse, List.sum_reverse,
    List.map_map, List.map_cons, List.sum_cons]
  exact Nat.add_lt_add_right fewer _

/-- The loop of `SHAMap::walkBranch` over its stack, which returns `emptyBranch` at the end:
each leaf is matched against `otherMapItem` until one has its key. -/
def walkStack (otherMapItem : Option SHAMapItem) (isFirstMap : Bool) :
    List SHAMapAbstractNode → Bool → DeltaWalk Bool
  | [], emptyBranch => pure emptyBranch
  | .inner children :: nodeStack, emptyBranch =>
    walkStack otherMapItem isFirstMap (pushBranches children nodeStack) emptyBranch
  | .leaf item _ :: nodeStack, emptyBranch =>
    if emptyBranch || otherMapItem.map SHAMapItem.key != some item.key then do
      Budgeted.record .full item.key (orient isFirstMap (some item) none)
      walkStack otherMapItem isFirstMap nodeStack emptyBranch
    else if otherMapItem.map SHAMapItem.data != some item.data then do
      Budgeted.record .full item.key (orient isFirstMap (some item) otherMapItem)
      walkStack otherMapItem isFirstMap nodeStack true
    else walkStack otherMapItem isFirstMap nodeStack true
  -- A null node is never pushed: the loop tests `isEmptyBranch` first.
  | .empty :: nodeStack, emptyBranch => walkStack otherMapItem isFirstMap nodeStack emptyBranch
termination_by nodeStack => (nodeStack.map nodeCount).sum
decreasing_by
  all_goals first
    | exact walkStack_decreases _ _
    | exact stackCount_lt_cons nodeCount one_le_nodeCount _ _

/-- The end of `SHAMap::walkBranch`: an `otherMapItem` that no leaf matched is recorded. -/
def addUnmatched (otherMapItem : Option SHAMapItem) (isFirstMap : Bool) (emptyBranch : Bool) :
    DeltaWalk Unit :=
  match emptyBranch, otherMapItem with
  | false, some other => Budgeted.record .full other.key (orient isFirstMap none (some other))
  | _, _ => pure ()

/-- `SHAMap::walkBranch`: the items under `node` against the single item `otherMapItem` of
the other map, or against nothing. -/
def walkBranch (node : SHAMapAbstractNode) (otherMapItem : Option SHAMapItem) (isFirstMap : Bool) :
    DeltaWalk Unit := do
  let emptyBranch ← walkStack otherMapItem isFirstMap [node] otherMapItem.isNone
  addUnmatched otherMapItem isFirstMap emptyBranch

section compare

variable (sha512Half : List UInt8 → Uint256)

/-- The walks that `SHAMap::compare` makes, in branch order, below the branches of two inner
nodes that only one of them has. -/
def compareBranches (ours other : Fin 16 → SHAMapAbstractNode) : DeltaWalk Unit :=
  (List.finRange 16).forM fun i =>
    if getNodeHash sha512Half (ours i) != getNodeHash sha512Half (other i) then
      if isEmptyBranch other i then walkBranch (ours i) none true
      else if isEmptyBranch ours i then walkBranch (other i) none false
      else pure ()
    else pure ()

/-- Branch `i` is one that two inner nodes both have, with different hashes. -/
def bothDiffer (ours other : Fin 16 → SHAMapAbstractNode) (i : Fin 16) : Bool :=
  getNodeHash sha512Half (ours i) != getNodeHash sha512Half (other i) &&
    !isEmptyBranch other i && !isEmptyBranch ours i

/-- The branches that two inner nodes both have, with different hashes. -/
def differingBranches (ours other : Fin 16 → SHAMapAbstractNode) : List (Fin 16) :=
  (List.finRange 16).filter (bothDiffer sha512Half ours other)

/-- The pairs of branches that `SHAMap::compare` pushes on its stack for two inner nodes. -/
def pushPairs (ours other : Fin 16 → SHAMapAbstractNode)
    (nodeStack : List (SHAMapAbstractNode × SHAMapAbstractNode)) :
    List (SHAMapAbstractNode × SHAMapAbstractNode) :=
  (differingBranches sha512Half ours other).foldl (fun nodeStack i => (ours i, other i) :: nodeStack)
    nodeStack

theorem compareStack_decreases (ours other : Fin 16 → SHAMapAbstractNode)
    (nodeStack : List (SHAMapAbstractNode × SHAMapAbstractNode)) :
    ((pushPairs sha512Half ours other nodeStack).map fun pair => nodeCount pair.1).sum <
      (((SHAMapAbstractNode.inner ours, SHAMapAbstractNode.inner other) :: nodeStack).map
        fun pair => nodeCount pair.1).sum := by
  have fewer := branchCount_lt ours
    (List.filter_sublist : (differingBranches sha512Half ours other).Sublist (List.finRange 16))
  rw [pushPairs, foldl_push, List.map_append, List.sum_append, List.map_reverse, List.sum_reverse,
    List.map_map, List.map_cons, List.sum_cons]
  exact Nat.add_lt_add_right fewer _

/-- The loop of `SHAMap::compare` over its stack of pairs of nodes at the same place in the
two trees.  The loop over the branches of two inner nodes is split in two: its walks, and
the pairs it pushes, which do not touch the differences or `maxCount`. -/
def compareStack : List (SHAMapAbstractNode × SHAMapAbstractNode) → DeltaWalk Unit
  | [] => pure ()
  | (.leaf ours _, .leaf other _) :: nodeStack =>
    if ours.key == other.key then
      if ours.data != other.data then do
        Budgeted.record .full ours.key (some ours, some other)
        compareStack nodeStack
      else compareStack nodeStack
    else do
      Budgeted.record .full ours.key (some ours, none)
      Budgeted.record .full other.key (none, some other)
      compareStack nodeStack
  | (.inner ours, .leaf other _) :: nodeStack => do
    walkBranch (.inner ours) (some other) true
    compareStack nodeStack
  | (.leaf ours _, .inner other) :: nodeStack => do
    walkBranch (.inner other) (some ours) false
    compareStack nodeStack
  | (.inner ours, .inner other) :: nodeStack => do
    compareBranches sha512Half ours other
    compareStack (pushPairs sha512Half ours other nodeStack)
  -- `if (!ourNode || !otherNode)`: a null node throws.
  | (.empty, _) :: _ => throw .missingNode
  | (.leaf _ _, .empty) :: _ => throw .missingNode
  | (.inner _, .empty) :: _ => throw .missingNode
termination_by nodeStack => (nodeStack.map fun pair => nodeCount pair.1).sum
decreasing_by
  all_goals first
    | exact compareStack_decreases _ _ _ _
    | exact stackCount_lt_cons (fun pair : SHAMapAbstractNode × SHAMapAbstractNode => nodeCount pair.1)
        (fun pair => one_le_nodeCount pair.1) _ _

/-- `SHAMap::compare`: `some (true, differences)` with every difference recorded,
`some (false, differences)` once `maxCount` of them are, and `none` for a thrown
`SHAMapMissingNode`. -/
def SHAMap.compare (map otherMap : SHAMap) (differences : Delta) (maxCount : Int) :
    Option (Bool × Delta) :=
  if map.getHash sha512Half == otherMap.getHash sha512Half then some (true, differences)
  else
    match (compareStack sha512Half [(map.root, otherMap.root)]).run.run (differences, maxCount) with
    | (.ok (), (differences, _)) => some (true, differences)
    | (.error .full, (differences, _)) => some (false, differences)
    | (.error .missingNode, _) => none

end compare

/-! ## The differences of two maps -/

/-- The item of `items` with the key. -/
def itemAt (items : List SHAMapItem) (key : Uint256) : Option SHAMapItem :=
  items.find? fun item => item.key == key

/-- `diffs` lists each key at which `ours` and `theirs` hold different items, once, with
those two items. -/
structure Differences (ours theirs : Uint256 → Option SHAMapItem)
    (diffs : List (Uint256 × DeltaRef)) : Prop where
  nodup : (diffs.map Prod.fst).Nodup
  mem_iff : ∀ key ref, (key, ref) ∈ diffs ↔ ours key ≠ theirs key ∧ ref = (ours key, theirs key)

namespace Differences

variable {ours theirs : Uint256 → Option SHAMapItem} {diffs : List (Uint256 × DeltaRef)}

theorem nil (same : ∀ key, ours key = theirs key) : Differences ours theirs [] where
  nodup := List.nodup_nil
  mem_iff key ref := by simp [same key]

theorem perm (differences : Differences ours theirs diffs) {diffs' : List (Uint256 × DeltaRef)}
    (perm : diffs.Perm diffs') : Differences ours theirs diffs' where
  nodup := (perm.map Prod.fst).nodup_iff.mp differences.nodup
  mem_iff key ref := by rw [← perm.mem_iff, differences.mem_iff]

/-- The same differences seen from the other map. -/
theorem swap (differences : Differences ours theirs diffs) :
    Differences theirs ours (diffs.map fun entry => (entry.1, entry.2.swap)) where
  nodup := by
    rw [List.map_map]
    exact differences.nodup
  mem_iff key ref := by
    simp only [List.mem_map]
    constructor
    · rintro ⟨⟨key', ref'⟩, member, same⟩
      simp only [Prod.mk.injEq] at same
      obtain ⟨rfl, rfl⟩ := same
      obtain ⟨differ, rfl⟩ := (differences.mem_iff key' ref').mp member
      exact ⟨Ne.symm differ, rfl⟩
    · rintro ⟨differ, rfl⟩
      exact ⟨(key, (ours key, theirs key)), (differences.mem_iff _ _).mpr ⟨Ne.symm differ, rfl⟩, rfl⟩

/-- A key that is listed has an item in one of the maps. -/
theorem held (differences : Differences ours theirs diffs) {key : Uint256} {ref : DeltaRef}
    (member : (key, ref) ∈ diffs) : ours key ≠ none ∨ theirs key ≠ none := by
  have differ := ((differences.mem_iff key ref).mp member).1
  by_contra neither
  rw [not_or, not_not, not_not] at neither
  exact differ (neither.1.trans neither.2.symm)

/-- Giving one more key its items, in maps that had none there: listed if they differ. -/
theorem add (differences : Differences ours theirs diffs) (key : Uint256)
    (ours' theirs' : Uint256 → Option SHAMapItem) (fresh : ours key = none) (fresh' : theirs key = none)
    (elsewhere : ∀ other ≠ key, ours' other = ours other ∧ theirs' other = theirs other) :
    Differences ours' theirs'
      (if ours' key = theirs' key then diffs else (key, (ours' key, theirs' key)) :: diffs) := by
  have unlisted : ∀ ref, (key, ref) ∉ diffs := fun ref member =>
    ((differences.mem_iff key ref).mp member).1 (fresh.trans fresh'.symm)
  have outside : ∀ other ref, other ≠ key →
      ((other, ref) ∈ diffs ↔ ours' other ≠ theirs' other ∧ ref = (ours' other, theirs' other)) := by
    intro other ref differs
    rw [(elsewhere other differs).1, (elsewhere other differs).2]
    exact differences.mem_iff other ref
  split_ifs with same
  · refine ⟨differences.nodup, fun other ref => ?_⟩
    by_cases here : other = key
    · subst here
      simp [unlisted ref, same]
    · exact outside other ref here
  · refine ⟨?_, fun other ref => ?_⟩
    · refine List.nodup_cons.mpr ⟨fun member => ?_, differences.nodup⟩
      obtain ⟨⟨k, ref⟩, listed, rfl⟩ := List.mem_map.mp member
      exact unlisted ref listed
    · by_cases here : other = key
      · subst here
        simp [unlisted ref, same]
      · simp only [List.mem_cons, Prod.mk.injEq, here, false_and, false_or]
        exact outside other ref here

/-- Differences found branch by branch, each key's in the branch it selects, are the
differences of the whole. -/
theorem flatMap {oursAt theirsAt : Fin 16 → Uint256 → Option SHAMapItem}
    {pieces : Fin 16 → List (Uint256 × DeltaRef)} (select : Uint256 → Fin 16)
    (onOurs : ∀ key, ours key = oursAt (select key) key)
    (onTheirs : ∀ key, theirs key = theirsAt (select key) key)
    (each : ∀ i, Differences (oursAt i) (theirsAt i) (pieces i))
    (keyed : ∀ i, ∀ entry ∈ pieces i, select entry.1 = i) :
    Differences ours theirs ((List.finRange 16).flatMap pieces) where
  nodup := by
    rw [List.map_flatMap, List.nodup_flatMap]
    refine ⟨fun i _ => (each i).nodup, (List.nodup_finRange 16).imp fun {i j} differs => ?_⟩
    intro key inI inJ
    obtain ⟨⟨k, ref⟩, member, rfl⟩ := List.mem_map.mp inI
    obtain ⟨⟨k', ref'⟩, member', same⟩ := List.mem_map.mp inJ
    exact differs ((keyed i _ member).symm.trans (same ▸ keyed j _ member'))
  mem_iff key ref := by
    rw [List.mem_flatMap, onOurs, onTheirs, ← (each (select key)).mem_iff]
    constructor
    · rintro ⟨i, -, member⟩
      rwa [keyed i _ member]
    · exact fun member => ⟨select key, List.mem_finRange _, member⟩

/-- The keys that differ are the keys listed. -/
theorem setOf_ne (differences : Differences ours theirs diffs) :
    {key | ours key ≠ theirs key} = ↑(diffs.map Prod.fst).toFinset := by
  ext key
  simp only [Set.mem_ofPred_eq, Finset.mem_coe, List.mem_toFinset, List.mem_map]
  constructor
  · intro differ
    exact ⟨(key, (ours key, theirs key)), (differences.mem_iff _ _).mpr ⟨differ, rfl⟩, rfl⟩
  · rintro ⟨⟨key, ref⟩, member, rfl⟩
    exact ((differences.mem_iff key ref).mp member).1

theorem ncard_eq (differences : Differences ours theirs diffs) :
    {key | ours key ≠ theirs key}.ncard = diffs.length := by
  rw [differences.setOf_ne, Set.ncard_coe_finset, List.toFinset_card_of_nodup differences.nodup,
    List.length_map]

/-- The first listed differences, inserted in an empty map: what is found there differs. -/
theorem find?_insertAll_take (differences : Differences ours theirs diffs) (count : Nat)
    {key : Uint256} {ref : DeltaRef}
    (found : (SortedMap.empty.insertAll (diffs.take count)).find? key = some ref) :
    ours key ≠ theirs key ∧ ref = (ours key, theirs key) := by
  have nodup : ((diffs.take count).map Prod.fst).Nodup :=
    ((List.take_sublist count diffs).map Prod.fst).nodup differences.nodup
  rw [SortedMap.find?_insertAll nodup (fun _ _ => rfl), SortedMap.find?_empty] at found
  rcases found with member | impossible
  · exact (differences.mem_iff key ref).mp (List.mem_of_mem_take member)
  · cases impossible

/-- All the differences, inserted in an empty map: each differing key is found. -/
theorem find?_insertAll (differences : Differences ours theirs diffs) {key : Uint256}
    (differ : ours key ≠ theirs key) :
    (SortedMap.empty.insertAll diffs).find? key = some (ours key, theirs key) := by
  rw [SortedMap.find?_insertAll differences.nodup (fun _ _ => rfl)]
  exact .inl ((differences.mem_iff _ _).mpr ⟨differ, rfl⟩)

theorem length_insertAll_take (differences : Differences ours theirs diffs) (count : Nat) :
    (SortedMap.empty.insertAll (diffs.take count)).entries.length = min count diffs.length := by
  have nodup : ((diffs.take count).map Prod.fst).Nodup :=
    ((List.take_sublist count diffs).map Prod.fst).nodup differences.nodup
  rw [SortedMap.length_insertAll nodup (fun _ _ => rfl), List.length_take]
  exact Nat.zero_add _

end Differences

@[simp] theorem itemAt_nil (key : Uint256) : itemAt [] key = none := rfl

theorem itemAt_cons (item : SHAMapItem) (items : List SHAMapItem) (key : Uint256) :
    itemAt (item :: items) key = if item.key = key then some item else itemAt items key := by
  by_cases here : item.key = key <;> simp [itemAt, here]

theorem itemAt_eq_some {items : List SHAMapItem} (nodup : (items.map SHAMapItem.key).Nodup)
    {key : Uint256} {item : SHAMapItem} : itemAt items key = some item ↔ item ∈ items ∧ item.key = key := by
  constructor
  · intro found
    have passes := List.find?_some found
    exact ⟨List.mem_of_find?_eq_some found, beq_iff_eq.mp passes⟩
  · rintro ⟨member, rfl⟩
    induction items with
    | nil => cases member
    | cons head rest ih =>
      obtain ⟨outside, restNodup⟩ := List.nodup_cons.mp nodup
      rw [itemAt_cons]
      rcases List.mem_cons.mp member with rfl | later
      · exact if_pos rfl
      · have differs : head.key ≠ item.key := fun same =>
          outside (same ▸ List.mem_map_of_mem later)
        rw [if_neg differs]
        exact ih restNodup later

theorem itemAt_eq_none {items : List SHAMapItem} {key : Uint256}
    (absent : key ∉ items.map SHAMapItem.key) : itemAt items key = none := by
  rw [itemAt, List.find?_eq_none]
  intro item member same
  exact absent (beq_iff_eq.mp same ▸ List.mem_map_of_mem member)

/-- With distinct keys the order of the items does not matter. -/
theorem itemAt_reverse {items : List SHAMapItem} (nodup : (items.map SHAMapItem.key).Nodup) :
    itemAt items.reverse = itemAt items := by
  have nodup' : (items.reverse.map SHAMapItem.key).Nodup := by
    rw [List.map_reverse]
    exact List.nodup_reverse.mpr nodup
  funext key
  cases found : itemAt items key with
  | none =>
    refine itemAt_eq_none fun listed => ?_
    obtain ⟨item, member, rfl⟩ := List.mem_map.mp listed
    have held : itemAt items item.key = some item :=
      (itemAt_eq_some nodup).mpr ⟨List.mem_reverse.mp member, rfl⟩
    rw [found] at held
    cases held
  | some item =>
    obtain ⟨member, rfl⟩ := (itemAt_eq_some nodup).mp found
    exact (itemAt_eq_some nodup').mpr ⟨List.mem_reverse.mpr member, rfl⟩

/-! ## What the walks record -/

/-- What `walkStack` and then `addUnmatched` record for the leaves they visit, in order. -/
def walkDiffs (otherMapItem : Option SHAMapItem) (isFirstMap : Bool) :
    List SHAMapItem → Bool → List (Uint256 × DeltaRef)
  | [], emptyBranch =>
    match emptyBranch, otherMapItem with
    | false, some other => [(other.key, orient isFirstMap none (some other))]
    | _, _ => []
  | item :: items, emptyBranch =>
    if emptyBranch || otherMapItem.map SHAMapItem.key != some item.key then
      (item.key, orient isFirstMap (some item) none) :: walkDiffs otherMapItem isFirstMap items emptyBranch
    else if otherMapItem.map SHAMapItem.data != some item.data then
      (item.key, orient isFirstMap (some item) otherMapItem) ::
        walkDiffs otherMapItem isFirstMap items true
    else walkDiffs otherMapItem isFirstMap items true

/-- The leaves under the nodes of a stack, in the order a walk that pushes branches 0 to 15
visits them. -/
def visitOrder (nodeStack : List SHAMapAbstractNode) : List SHAMapItem :=
  nodeStack.flatMap fun node => (entries node).reverse

theorem visitOrder_cons (node : SHAMapAbstractNode) (nodeStack : List SHAMapAbstractNode) :
    visitOrder (node :: nodeStack) = (entries node).reverse ++ visitOrder nodeStack :=
  List.flatMap_cons

theorem entries_eq_flatMap_branches (children : Fin 16 → SHAMapAbstractNode) :
    entries (.inner children) = (branches children).flatMap fun i => entries (children i) := by
  rw [entries, branches, Concat.flatMap_filter]
  refine List.flatMap_congr fun i _ => ?_
  cases branch : children i <;> simp [isEmptyBranch, isEmpty, branch]

theorem visitOrder_pushBranches (children : Fin 16 → SHAMapAbstractNode)
    (nodeStack : List SHAMapAbstractNode) :
    visitOrder (pushBranches children nodeStack) = visitOrder (.inner children :: nodeStack) := by
  rw [visitOrder_cons, pushBranches, foldl_push, entries_eq_flatMap_branches, List.reverse_flatMap]
  simp [visitOrder, Function.comp_def, ← List.map_reverse, List.flatMap_map]

theorem addUnmatched_eq (otherMapItem : Option SHAMapItem) (isFirstMap emptyBranch : Bool) :
    addUnmatched otherMapItem isFirstMap emptyBranch =
      Budgeted.recordAll .full (walkDiffs otherMapItem isFirstMap [] emptyBranch) := by
  cases emptyBranch <;> cases otherMapItem <;>
    simp [addUnmatched, walkDiffs, Budgeted.recordAll_singleton]

/-- The walk below a stack, with its end, records `walkDiffs` of the leaves it visits. -/
theorem walkStack_addUnmatched (otherMapItem : Option SHAMapItem) (isFirstMap : Bool)
    (nodeStack : List SHAMapAbstractNode) (emptyBranch : Bool) :
    (walkStack otherMapItem isFirstMap nodeStack emptyBranch >>= addUnmatched otherMapItem isFirstMap) =
      Budgeted.recordAll .full (walkDiffs otherMapItem isFirstMap (visitOrder nodeStack) emptyBranch) := by
  fun_induction walkStack otherMapItem isFirstMap nodeStack emptyBranch with
  | case1 emptyBranch =>
    rw [pure_bind, addUnmatched_eq]
    rfl
  | case2 children nodeStack emptyBranch ih =>
    rw [ih, visitOrder_pushBranches]
  | case3 item type nodeStack emptyBranch unmatched ih =>
    rw [bind_assoc, ih, visitOrder_cons, entries_leaf, List.reverse_singleton, List.singleton_append,
      walkDiffs, if_pos unmatched, Budgeted.recordAll_cons]
  | case4 item type nodeStack emptyBranch matched differs ih =>
    rw [bind_assoc, ih, visitOrder_cons, entries_leaf, List.reverse_singleton, List.singleton_append,
      walkDiffs, if_neg matched, if_pos differs, Budgeted.recordAll_cons]
  | case5 item type nodeStack emptyBranch matched same ih =>
    rw [ih, visitOrder_cons, entries_leaf, List.reverse_singleton, List.singleton_append, walkDiffs,
      if_neg matched, if_neg same]
  | case6 nodeStack emptyBranch ih =>
    rw [ih, visitOrder_cons, entries_empty, List.reverse_nil, List.nil_append]

/-- `walkBranch` records `walkDiffs` of the leaves under its node, from branch 15 down. -/
theorem walkBranch_eq (node : SHAMapAbstractNode) (otherMapItem : Option SHAMapItem)
    (isFirstMap : Bool) :
    walkBranch node otherMapItem isFirstMap =
      Budgeted.recordAll .full
        (walkDiffs otherMapItem isFirstMap (entries node).reverse otherMapItem.isNone) := by
  rw [walkBranch, walkStack_addUnmatched, visitOrder, List.flatMap_singleton]

/-- The item a walk has yet to match: none once a leaf has matched it. -/
def pendingItem (otherMapItem : Option SHAMapItem) (emptyBranch : Bool) : Option SHAMapItem :=
  if emptyBranch then none else otherMapItem

/-- Over leaves with distinct keys, a walk over the first map records the differences between
those leaves and the item it has yet to match. -/
theorem walkDiffs_differences (otherMapItem : Option SHAMapItem) :
    ∀ (items : List SHAMapItem) (emptyBranch : Bool), (items.map SHAMapItem.key).Nodup →
      Differences (itemAt items) (itemAt (pendingItem otherMapItem emptyBranch).toList)
        (walkDiffs otherMapItem true items emptyBranch)
  | [], emptyBranch, _ => by
    have base : Differences (itemAt []) (itemAt []) [] := .nil fun _ => rfl
    cases emptyBranch with
    | true => exact base
    | false =>
      cases otherMapItem with
      | none => exact base
      | some other =>
        have added := base.add other.key (itemAt []) (itemAt [other]) rfl rfl fun key differs =>
          ⟨rfl, by rw [itemAt_cons, if_neg (Ne.symm differs)]⟩
        simpa [itemAt_cons, walkDiffs, pendingItem, orient] using added
  | item :: items, emptyBranch, nodup => by
    rw [List.map_cons, List.nodup_cons] at nodup
    obtain ⟨outside, restNodup⟩ := nodup
    have fresh : itemAt items item.key = none := itemAt_eq_none outside
    have elsewhere : ∀ key ≠ item.key, itemAt (item :: items) key = itemAt items key :=
      fun key differs => by rw [itemAt_cons, if_neg (Ne.symm differs)]
    have found : itemAt (item :: items) item.key = some item := by rw [itemAt_cons, if_pos rfl]
    rw [walkDiffs]
    split_ifs with unmatched differs
    · have pendingFresh : itemAt (pendingItem otherMapItem emptyBranch).toList item.key = none := by
        cases emptyBranch with
        | true => rfl
        | false =>
          cases otherMapItem with
          | none => rfl
          | some other =>
            simp only [Bool.false_or, Option.map_some, bne_iff_ne, ne_eq, Option.some.injEq] at unmatched
            simp [pendingItem, itemAt_cons, unmatched]
      have added := (walkDiffs_differences otherMapItem items emptyBranch restNodup).add item.key
        (itemAt (item :: items)) (itemAt (pendingItem otherMapItem emptyBranch).toList) fresh
        pendingFresh fun key differs => ⟨elsewhere key differs, rfl⟩
      rwa [found, pendingFresh, if_neg (Option.some_ne_none item)] at added
    all_goals
      simp only [Bool.or_eq_true, bne_iff_ne, ne_eq, not_or, Bool.not_eq_true, not_not,
        Option.map_eq_some_iff] at unmatched
      obtain ⟨notEmpty, other, rfl, sameKey⟩ := unmatched
      subst notEmpty
      have pending : (pendingItem (some other) false).toList = [other] := rfl
      have elsewhere' : ∀ key ≠ item.key,
          itemAt (item :: items) key = itemAt items key ∧ itemAt [other] key = itemAt [] key :=
        fun key differs => ⟨elsewhere key differs, by rw [itemAt_cons, sameKey, if_neg (Ne.symm differs)]⟩
      have added := (walkDiffs_differences (some other) items true restNodup).add item.key
        (itemAt (item :: items)) (itemAt [other]) fresh rfl elsewhere'
      have atKey : itemAt [other] item.key = some other := by rw [itemAt_cons, if_pos sameKey]
      rw [found, atKey] at added
      rw [pending]
    · have distinct : some item ≠ some other := fun same => by
        simp only [Option.map_some, bne_iff_ne, ne_eq, Option.some.injEq] at differs
        exact differs (by rw [Option.some.inj same])
      rwa [if_neg distinct] at added
    · have same : item = other := by
        simp only [Option.map_some, bne_iff_ne, ne_eq, Option.some.injEq, not_not] at differs
        cases item
        cases other
        simp only [SHAMapItem.mk.injEq]
        exact ⟨sameKey.symm, differs.symm⟩
      subst same
      rwa [if_pos rfl] at added

/-- A walk over the second map records the same differences the other way round. -/
theorem walkDiffs_swap (otherMapItem : Option SHAMapItem) :
    ∀ (items : List SHAMapItem) (emptyBranch : Bool),
      walkDiffs otherMapItem false items emptyBranch =
        (walkDiffs otherMapItem true items emptyBranch).map fun entry => (entry.1, entry.2.swap)
  | [], emptyBranch => by cases emptyBranch <;> cases otherMapItem <;> rfl
  | item :: items, emptyBranch => by
    rw [walkDiffs, walkDiffs]
    split_ifs <;> simp [walkDiffs_swap otherMapItem items, orient]

section compare

variable (sha512Half : List UInt8 → Uint256)

/-- What `compareBranches` records below branch `i`. -/
def oneSidedDiffs (ours other : Fin 16 → SHAMapAbstractNode) (i : Fin 16) :
    List (Uint256 × DeltaRef) :=
  if getNodeHash sha512Half (ours i) != getNodeHash sha512Half (other i) then
    if isEmptyBranch other i then walkDiffs none true (entries (ours i)).reverse true
    else if isEmptyBranch ours i then walkDiffs none false (entries (other i)).reverse true
    else []
  else []

theorem compareBranches_eq (ours other : Fin 16 → SHAMapAbstractNode) :
    compareBranches sha512Half ours other =
      Budgeted.recordAll .full ((List.finRange 16).flatMap (oneSidedDiffs sha512Half ours other)) := by
  rw [← Budgeted.forM_recordAll, compareBranches]
  congr
  funext i
  unfold oneSidedDiffs
  split_ifs <;> simp [walkBranch_eq]

/-- What `compareStack` records for a pair of nodes, in order. -/
def pairDiffs : SHAMapAbstractNode → SHAMapAbstractNode → List (Uint256 × DeltaRef)
  | .leaf ours _, .leaf other _ =>
    if ours.key == other.key then
      if ours.data != other.data then [(ours.key, (some ours, some other))] else []
    else [(ours.key, (some ours, none)), (other.key, (none, some other))]
  | .inner ours, .leaf other _ => walkDiffs (some other) true (entries (.inner ours)).reverse false
  | .leaf ours _, .inner other => walkDiffs (some ours) false (entries (.inner other)).reverse false
  | .inner ours, .inner other =>
    (List.finRange 16).flatMap (oneSidedDiffs sha512Half ours other) ++
      (differingBranches sha512Half ours other).reverse.flatMap fun i => pairDiffs (ours i) (other i)
  | .empty, _ => []
  | .leaf _ _, .empty => []
  | .inner _, .empty => []

/-- A pair of nodes that are both there. -/
def Present (pair : SHAMapAbstractNode × SHAMapAbstractNode) : Prop :=
  pair.1.isEmpty = false ∧ pair.2.isEmpty = false

theorem pushPairs_eq (ours other : Fin 16 → SHAMapAbstractNode)
    (nodeStack : List (SHAMapAbstractNode × SHAMapAbstractNode)) :
    pushPairs sha512Half ours other nodeStack =
      ((differingBranches sha512Half ours other).map fun i => (ours i, other i)).reverse ++ nodeStack :=
  foldl_push _ _ _

theorem present_of_differing {ours other : Fin 16 → SHAMapAbstractNode} {i : Fin 16}
    (differing : i ∈ differingBranches sha512Half ours other) : Present (ours i, other i) := by
  simp only [differingBranches, bothDiffer, List.mem_filter, Bool.and_eq_true, Bool.not_eq_true']
    at differing
  exact ⟨differing.2.2, differing.2.1.2⟩

/-- The walk over a stack of present pairs records `pairDiffs` of each pair, from the top. -/
theorem compareStack_eq (nodeStack : List (SHAMapAbstractNode × SHAMapAbstractNode))
    (present : ∀ pair ∈ nodeStack, Present pair) :
    compareStack sha512Half nodeStack =
      Budgeted.recordAll .full (nodeStack.flatMap fun pair => pairDiffs sha512Half pair.1 pair.2) := by
  fun_induction compareStack sha512Half nodeStack with
  | case1 => rfl
  | case2 ours type other otherType nodeStack sameKey differs ih =>
    rw [ih fun pair member => present pair (List.mem_cons_of_mem _ member), List.flatMap_cons,
      pairDiffs, if_pos sameKey, if_pos differs, Budgeted.recordAll_append, Budgeted.recordAll_singleton]
  | case3 ours type other otherType nodeStack sameKey same ih =>
    rw [ih fun pair member => present pair (List.mem_cons_of_mem _ member), List.flatMap_cons,
      pairDiffs, if_pos sameKey, if_neg same, List.nil_append]
  | case4 ours type other otherType nodeStack otherKey ih =>
    rw [ih fun pair member => present pair (List.mem_cons_of_mem _ member), List.flatMap_cons,
      pairDiffs, if_neg otherKey, Budgeted.recordAll_append, Budgeted.recordAll_cons,
      Budgeted.recordAll_singleton, bind_assoc]
  | case5 ours other type nodeStack ih =>
    rw [ih fun pair member => present pair (List.mem_cons_of_mem _ member), List.flatMap_cons,
      Budgeted.recordAll_append, pairDiffs, walkBranch_eq]
    rfl
  | case6 ours type other nodeStack ih =>
    rw [ih fun pair member => present pair (List.mem_cons_of_mem _ member), List.flatMap_cons,
      Budgeted.recordAll_append, pairDiffs, walkBranch_eq]
    rfl
  | case7 ours other nodeStack ih =>
    have pushed : ∀ pair ∈ pushPairs sha512Half ours other nodeStack, Present pair := by
      intro pair member
      rw [pushPairs_eq, List.mem_append, List.mem_reverse, List.mem_map] at member
      rcases member with ⟨i, differing, rfl⟩ | later
      · exact present_of_differing sha512Half differing
      · exact present pair (List.mem_cons_of_mem _ later)
    rw [ih pushed, compareBranches_eq, pushPairs_eq, List.flatMap_append, List.flatMap_cons,
      pairDiffs, Budgeted.recordAll_append, Budgeted.recordAll_append, Budgeted.recordAll_append,
      bind_assoc, ← List.map_reverse, List.flatMap_map]
  | case8 other nodeStack =>
    exact absurd (present _ List.mem_cons_self).1 (by simp [isEmpty])
  | case9 ours type nodeStack =>
    exact absurd (present _ List.mem_cons_self).2 (by simp [isEmpty])
  | case10 ours nodeStack =>
    exact absurd (present _ List.mem_cons_self).2 (by simp [isEmpty])

/-- Equal hashes at the same place in two trees mean the same items below: the reading of a
hash by which `compare` skips a branch. -/
def HashFaithful (ours other : SHAMapAbstractNode) : Prop :=
  (getNodeHash sha512Half ours = getNodeHash sha512Half other → entries ours = entries other) ∧
    match ours, other with
    | .inner ours, .inner other => ∀ i, HashFaithful (ours i) (other i)
    | _, _ => True

theorem HashFaithful.entries_eq {ours other : SHAMapAbstractNode}
    (faithful : HashFaithful sha512Half ours other)
    (sameHash : getNodeHash sha512Half ours = getNodeHash sha512Half other) : entries ours = entries other := by
  unfold HashFaithful at faithful
  exact faithful.1 sameHash

theorem HashFaithful.branch {ours other : Fin 16 → SHAMapAbstractNode}
    (faithful : HashFaithful sha512Half (.inner ours) (.inner other)) (i : Fin 16) :
    HashFaithful sha512Half (ours i) (other i) :=
  faithful.2 i

/-- A node compared with itself. -/
theorem hashFaithful_self (node : SHAMapAbstractNode) : HashFaithful sha512Half node node := by
  induction node with
  | empty => exact ⟨fun _ => rfl, trivial⟩
  | leaf item type => exact ⟨fun _ => rfl, trivial⟩
  | inner children ih => exact ⟨fun _ => rfl, ih⟩

end compare

/-! ## The differences of two placed trees -/

theorem nodup_keys {node : SHAMapAbstractNode} {depth : Nat} (placed : Placed depth node)
    (shared : Shared depth node) : ((entries node).map SHAMapItem.key).Nodup :=
  (List.pairwise_map.mpr (sorted_entries placed shared)).imp ne_of_lt

theorem itemAt_entries_inner {children : Fin 16 → SHAMapAbstractNode} {depth : Nat}
    (placed : Placed depth (.inner children)) (key : Uint256) :
    itemAt (entries (.inner children)) key = itemAt (entries (children (selectBranch depth key))) key :=
  find?_entries_inner placed key

/-- A key with an item in a branch of a placed node selects that branch. -/
theorem selectBranch_of_held {children : Fin 16 → SHAMapAbstractNode} {depth : Nat}
    (placed : Placed depth (.inner children)) {i : Fin 16} {key : Uint256}
    (held : itemAt (entries (children i)) key ≠ none) : selectBranch depth key = i := by
  obtain ⟨item, found⟩ := Option.ne_none_iff_exists'.mp held
  rw [itemAt] at found
  have passes := List.find?_some found
  have sameKey : item.key = key := beq_iff_eq.mp passes
  rw [← sameKey]
  exact ((placed_inner.mp placed) i).1 item (List.mem_of_find?_eq_some found)

/-- Two leaves: one difference for a key with two items, two for two keys. -/
theorem pairDiffs_leaf_differences (sha512Half : List UInt8 → Uint256) (item other : SHAMapItem)
    (type otherType : TNType) :
    Differences (itemAt [item]) (itemAt [other])
      (pairDiffs sha512Half (.leaf item type) (.leaf other otherType)) := by
  have base : Differences (itemAt []) (itemAt []) [] := .nil fun _ => rfl
  rw [pairDiffs]
  by_cases sameKey : item.key = other.key
  · have added := base.add item.key (itemAt [item]) (itemAt [other]) rfl rfl fun key differs =>
      ⟨by rw [itemAt_cons, if_neg (Ne.symm differs)], by rw [itemAt_cons, ← sameKey, if_neg (Ne.symm differs)]⟩
    rw [itemAt_cons, if_pos rfl, itemAt_cons, if_pos sameKey.symm] at added
    by_cases sameData : item.data = other.data
    · have same : item = other := by
        cases item
        cases other
        simp only [SHAMapItem.mk.injEq]
        exact ⟨sameKey, sameData⟩
      subst same
      simpa using added
    · have distinct : some item ≠ some other := fun same => sameData (by rw [Option.some.inj same])
      simpa [sameKey, sameData, distinct] using added
  · have second := base.add other.key (itemAt []) (itemAt [other]) rfl rfl fun key differs =>
      ⟨rfl, by rw [itemAt_cons, if_neg (Ne.symm differs)]⟩
    have first := second.add item.key (itemAt [item]) (itemAt [other]) rfl
      (by rw [itemAt_cons, if_neg (Ne.symm sameKey)]; rfl) fun key differs =>
        ⟨by rw [itemAt_cons, if_neg (Ne.symm differs)], rfl⟩
    simpa [itemAt_cons, sameKey, Ne.symm sameKey] using first

/-- A walk of one map's leaves, with distinct keys, against the single item of the other map or
against nothing: the differences of the two. -/
theorem walkDiffs_reverse_differences {items : List SHAMapItem}
    (nodup : (items.map SHAMapItem.key).Nodup) (otherMapItem : Option SHAMapItem) :
    Differences (itemAt items) (itemAt otherMapItem.toList)
      (walkDiffs otherMapItem true items.reverse otherMapItem.isNone) := by
  have reversed : (items.reverse.map SHAMapItem.key).Nodup := by
    rw [List.map_reverse]
    exact List.nodup_reverse.mpr nodup
  have walked := walkDiffs_differences otherMapItem items.reverse otherMapItem.isNone reversed
  have pending : pendingItem otherMapItem otherMapItem.isNone = otherMapItem := by
    cases otherMapItem <;> rfl
  rwa [itemAt_reverse nodup, pending] at walked

/-- The same walk over the second map. -/
theorem walkDiffs_reverse_differences_swap {items : List SHAMapItem}
    (nodup : (items.map SHAMapItem.key).Nodup) (otherMapItem : Option SHAMapItem) :
    Differences (itemAt otherMapItem.toList) (itemAt items)
      (walkDiffs otherMapItem false items.reverse otherMapItem.isNone) := by
  rw [walkDiffs_swap]
  exact (walkDiffs_reverse_differences nodup otherMapItem).swap

theorem entries_of_isEmptyBranch {children : Fin 16 → SHAMapAbstractNode} {i : Fin 16}
    (empty : isEmptyBranch children i = true) : entries (children i) = [] := by
  unfold isEmptyBranch at empty
  cases branch : children i with
  | empty => rfl
  | leaf item type => simp [branch, isEmpty] at empty
  | inner grandchildren => simp [branch, isEmpty] at empty

section compare

variable (sha512Half : List UInt8 → Uint256)

/-- What branch `i` of two inner nodes adds: nothing under equal hashes, a walk below a branch
only one of them has, and the pair's own differences below a branch both have. -/
theorem branch_differences {ours other : Fin 16 → SHAMapAbstractNode} {depth : Nat}
    (placed : Placed depth (.inner ours)) (shared : Shared depth (.inner ours))
    (otherPlaced : Placed depth (.inner other)) (otherShared : Shared depth (.inner other))
    (faithful : HashFaithful sha512Half (.inner ours) (.inner other)) (i : Fin 16)
    (paired : bothDiffer sha512Half ours other i = true →
      Differences (itemAt (entries (ours i))) (itemAt (entries (other i)))
        (pairDiffs sha512Half (ours i) (other i))) :
    Differences (itemAt (entries (ours i))) (itemAt (entries (other i)))
      (oneSidedDiffs sha512Half ours other i ++
        if bothDiffer sha512Half ours other i then pairDiffs sha512Half (ours i) (other i) else []) := by
  have nodup := nodup_keys ((placed_inner.mp placed) i).2 (shared.branch placed i)
  have otherNodup := nodup_keys ((placed_inner.mp otherPlaced) i).2 (otherShared.branch otherPlaced i)
  by_cases sameHash : getNodeHash sha512Half (ours i) = getNodeHash sha512Half (other i)
  · have pruned : oneSidedDiffs sha512Half ours other i = [] ∧ bothDiffer sha512Half ours other i = false := by
      simp [oneSidedDiffs, bothDiffer, sameHash]
    rw [pruned.1, pruned.2]
    exact .nil fun key => by rw [(faithful.branch sha512Half i).entries_eq sha512Half sameHash]
  cases otherEmpty : isEmptyBranch other i
  · cases oursEmpty : isEmptyBranch ours i
    · have both : bothDiffer sha512Half ours other i = true := by
        simp [bothDiffer, sameHash, otherEmpty, oursEmpty]
      have none : oneSidedDiffs sha512Half ours other i = [] := by
        simp [oneSidedDiffs, otherEmpty, oursEmpty]
      rw [none, both, if_pos rfl, List.nil_append]
      exact paired both
    · have walked : oneSidedDiffs sha512Half ours other i =
          walkDiffs none false (entries (other i)).reverse true := by
        simp [oneSidedDiffs, sameHash, otherEmpty, oursEmpty]
      have single : bothDiffer sha512Half ours other i = false := by
        simp [bothDiffer, oursEmpty]
      rw [walked, single, if_neg (by decide), List.append_nil, entries_of_isEmptyBranch oursEmpty]
      exact walkDiffs_reverse_differences_swap otherNodup none
  · have walked : oneSidedDiffs sha512Half ours other i =
        walkDiffs none true (entries (ours i)).reverse true := by
      simp [oneSidedDiffs, sameHash, otherEmpty]
    have single : bothDiffer sha512Half ours other i = false := by
      simp [bothDiffer, otherEmpty]
    rw [walked, single, if_neg (by decide), List.append_nil, entries_of_isEmptyBranch otherEmpty]
    exact walkDiffs_reverse_differences nodup none

/-- Under two placed trees whose hashes are faithful, `pairDiffs` lists each key where their
items differ once, with the two items. -/
theorem pairDiffs_differences {ours other : SHAMapAbstractNode} {depth : Nat}
    (placed : Placed depth ours) (shared : Shared depth ours) (otherPlaced : Placed depth other)
    (otherShared : Shared depth other) (faithful : HashFaithful sha512Half ours other)
    (present : Present (ours, other)) :
    Differences (itemAt (entries ours)) (itemAt (entries other)) (pairDiffs sha512Half ours other) := by
  induction ours generalizing other depth with
  | empty => exact absurd present.1 (by simp [isEmpty])
  | leaf item type =>
    cases other with
    | empty => exact absurd present.2 (by simp [isEmpty])
    | leaf otherItem otherType => exact pairDiffs_leaf_differences sha512Half item otherItem type otherType
    | inner otherChildren =>
      rw [pairDiffs]
      exact walkDiffs_reverse_differences_swap (nodup_keys otherPlaced otherShared) (some item)
  | inner children ih =>
    cases other with
    | empty => exact absurd present.2 (by simp [isEmpty])
    | leaf otherItem otherType =>
      rw [pairDiffs]
      exact walkDiffs_reverse_differences (nodup_keys placed shared) (some otherItem)
    | inner otherChildren =>
      have pieces := fun i => branch_differences sha512Half placed shared otherPlaced otherShared
        faithful i fun both =>
          ih i ((placed_inner.mp placed) i).2 (shared.branch placed i)
            ((placed_inner.mp otherPlaced) i).2 (otherShared.branch otherPlaced i)
            (faithful.branch sha512Half i)
            (present_of_differing sha512Half (List.mem_filter.mpr ⟨List.mem_finRange i, both⟩))
      have keyed : ∀ i, ∀ entry ∈ oneSidedDiffs sha512Half children otherChildren i ++
          (if bothDiffer sha512Half children otherChildren i then
            pairDiffs sha512Half (children i) (otherChildren i) else []),
          selectBranch depth entry.1 = i := by
        intro i entry member
        rcases (pieces i).held member with held | held
        · exact selectBranch_of_held placed held
        · exact selectBranch_of_held otherPlaced held
      have whole := Differences.flatMap (selectBranch depth) (itemAt_entries_inner placed)
        (itemAt_entries_inner otherPlaced) pieces keyed
      rw [pairDiffs]
      exact whole.perm (Concat.flatMap_append_filter_reverse_perm _ _ _ _).symm

/-- The keys at which two maps hold different items: held by one of them only, or by both
with different data. -/
def SHAMap.differingKeys (map otherMap : SHAMap) : Set Uint256 :=
  {key | map.fetch key ≠ otherMap.fetch key}

theorem SHAMap.fetch_eq_itemAt {map : SHAMap} (placed : Placed 0 map.root) :
    map.fetch = itemAt (entries map.root) :=
  funext fun key => walkToPointer_eq_find placed key

/-- Maps of equal hashes are compared at once. -/
theorem compare_of_getHash_eq {map otherMap : SHAMap}
    (sameHash : map.getHash sha512Half = otherMap.getHash sha512Half) (differences : Delta)
    (maxCount : Int) :
    map.compare sha512Half otherMap differences maxCount = some (true, differences) := by
  rw [SHAMap.compare, if_pos (beq_iff_eq.mpr sameHash)]

/-- Maps of different hashes: `compare` records the differences of the two roots under the
budget. -/
theorem compare_of_getHash_ne {type : TNType} {map otherMap : SHAMap}
    (canonical : map.Canonical type) (otherCanonical : otherMap.Canonical type)
    (otherHash : map.getHash sha512Half ≠ otherMap.getHash sha512Half) {maxCount : Int}
    (positive : 0 < maxCount) :
    map.compare sha512Half otherMap SortedMap.empty maxCount =
      some (decide ((pairDiffs sha512Half map.root otherMap.root).length < maxCount),
        SortedMap.empty.insertAll ((pairDiffs sha512Half map.root otherMap.root).take maxCount.toNat)) := by
  have present : ∀ pair ∈ [(map.root, otherMap.root)], Present pair := by
    intro pair member
    rw [List.mem_singleton] at member
    subst member
    exact ⟨rooted_isEmpty canonical.rooted, rooted_isEmpty otherCanonical.rooted⟩
  rw [SHAMap.compare, if_neg (fun same => otherHash (beq_iff_eq.mp same)),
    compareStack_eq sha512Half _ present, List.flatMap_singleton, Budgeted.recordAll_run _ _ _ positive]
  split_ifs with within <;> simp [within]

/-- `SHAMap::compare` of two canonical maps, from an empty `Delta`, returns `true` exactly when
fewer than `maxCount` keys differ; it records only differing keys, each with the items of the
two maps, all of them when it returns `true` and `maxCount` of them when it returns `false`. -/
theorem compare_differences {type : TNType} {map otherMap : SHAMap}
    (canonical : map.Canonical type) (otherCanonical : otherMap.Canonical type)
    (faithful : HashFaithful sha512Half map.root otherMap.root) {maxCount : Int}
    (positive : 0 < maxCount) :
    ∃ complete differences,
      map.compare sha512Half otherMap SortedMap.empty maxCount = some (complete, differences) ∧
      (map.differingKeys otherMap).Finite ∧
      (complete = true ↔ ((map.differingKeys otherMap).ncard : Int) < maxCount) ∧
      (∀ key ref, differences.find? key = some ref →
        key ∈ map.differingKeys otherMap ∧ ref = (map.fetch key, otherMap.fetch key)) ∧
      (complete = true → ∀ key ∈ map.differingKeys otherMap,
        differences.find? key = some (map.fetch key, otherMap.fetch key)) ∧
      (complete = false → (differences.entries.length : Int) = maxCount) := by
  have listed : Differences map.fetch otherMap.fetch (pairDiffs sha512Half map.root otherMap.root) := by
    rw [SHAMap.fetch_eq_itemAt canonical.placed, SHAMap.fetch_eq_itemAt otherCanonical.placed]
    exact pairDiffs_differences sha512Half canonical.placed (shared_zero _) otherCanonical.placed
      (shared_zero _) faithful ⟨rooted_isEmpty canonical.rooted, rooted_isEmpty otherCanonical.rooted⟩
  have finite : (map.differingKeys otherMap).Finite := by
    rw [SHAMap.differingKeys, listed.setOf_ne]
    exact Finset.finite_toSet _
  have count := listed.ncard_eq
  by_cases sameHash : map.getHash sha512Half = otherMap.getHash sha512Half
  · have same : map.fetch = otherMap.fetch := by
      rw [SHAMap.fetch_eq_itemAt canonical.placed, SHAMap.fetch_eq_itemAt otherCanonical.placed,
        faithful.entries_eq sha512Half sameHash]
    have none : map.differingKeys otherMap = ∅ := by
      simp [SHAMap.differingKeys, same]
    refine ⟨true, SortedMap.empty, compare_of_getHash_eq sha512Half sameHash _ _, finite, ?_, ?_, ?_, ?_⟩
    · simp [none, positive]
    · intro key ref found
      cases found
    · intro _ key member
      rw [none] at member
      cases member
    · intro impossible
      cases impossible
  · rw [compare_of_getHash_ne sha512Half canonical otherCanonical sameHash positive]
    refine ⟨_, _, rfl, finite, ?_, fun key ref found => listed.find?_insertAll_take _ found, ?_, ?_⟩
    · rw [decide_eq_true_iff, SHAMap.differingKeys, count]
    · intro within key differ
      rw [decide_eq_true_iff] at within
      rw [List.take_of_length_le (by omega)]
      exact listed.find?_insertAll differ
    · intro spent
      rw [decide_eq_false_iff_not] at spent
      rw [listed.length_insertAll_take]
      omega

/-- A map holding one item, under key zero. -/
def oneItemMap : SHAMap :=
  ⟨.inner fun i => if i.val = 0 then .leaf ⟨Uint256.zero, [1]⟩ .tnACCOUNT_STATE else .empty⟩

/-- A digest that gives every non-empty node one hash. -/
def constantHash : List UInt8 → Uint256 := fun _ => Uint256.ofNat 1

theorem oneItemMap_canonical : oneItemMap.Canonical .tnACCOUNT_STATE where
  rooted i := by
    by_cases first : i.val = 0 <;> simp [Compact, first]
  placed i := by
    by_cases first : i.val = 0
    · obtain rfl : i = 0 := Fin.ext first
      refine ⟨fun item member => ?_, trivial⟩
      simp only [if_pos first, entries_leaf, List.mem_singleton] at member
      subst member
      decide
    · simp [first]
  uniform i := by
    by_cases first : i.val = 0 <;> simp [Uniform, first]

theorem hashFaithful_oneItemMap :
    HashFaithful constantHash SHAMap.empty.root oneItemMap.root := by
  unfold HashFaithful
  refine ⟨fun same => absurd same (by decide), fun i => ?_⟩
  by_cases first : i.val = 0
  · obtain rfl : i = 0 := Fin.ext first
    unfold HashFaithful
    exact ⟨fun same => absurd same (by decide), trivial⟩
  · simp only [if_neg first]
    exact hashFaithful_self constantHash .empty

/-- The empty map against a map of one item, with a budget of one. -/
theorem compare_differences_oneItem :
    SHAMap.empty.Canonical .tnACCOUNT_STATE ∧ oneItemMap.Canonical .tnACCOUNT_STATE ∧
      HashFaithful constantHash SHAMap.empty.root oneItemMap.root ∧ (0 : Int) < 1 ∧
      ∃ complete differences,
        SHAMap.empty.compare constantHash oneItemMap SortedMap.empty 1 = some (complete, differences) ∧
        (SHAMap.empty.differingKeys oneItemMap).Finite ∧
        (complete = true ↔ ((SHAMap.empty.differingKeys oneItemMap).ncard : Int) < 1) ∧
        (∀ key ref, differences.find? key = some ref →
          key ∈ SHAMap.empty.differingKeys oneItemMap ∧ ref = (SHAMap.empty.fetch key, oneItemMap.fetch key)) ∧
        (complete = true → ∀ key ∈ SHAMap.empty.differingKeys oneItemMap,
          differences.find? key = some (SHAMap.empty.fetch key, oneItemMap.fetch key)) ∧
        (complete = false → (differences.entries.length : Int) = 1) :=
  ⟨SHAMap.canonical_empty _, oneItemMap_canonical, hashFaithful_oneItemMap, by decide,
    compare_differences constantHash (SHAMap.canonical_empty _) oneItemMap_canonical
      hashFaithful_oneItemMap (by decide)⟩

end compare

end RadardFormal.Shamap
