import RadardFormal.Shamap.Operations

/-!
# The stacked walks as recursion on the tree

`addGiveItem`, `delItem` and `updateGiveItem` walk to a key with `getStack` and then work
up the stack.  Here each of them is shown to be a recursion on the tree: the node where the
walk ends (`walkEnd`) is replaced (`replaceEnd`), and for `delItem` the path collapses on
the way back up (`removePath`).  No invariant of the tree is needed for these equations.
-/

namespace RadardFormal.Shamap

open RadardFormal.Protocol SHAMapAbstractNode

/-! ## The end of a walk -/

/-- The node where the walk of `getStack` towards `id` ends, with its depth: an inner node
whose branch towards `id` is empty, or a leaf. -/
def walkEnd (id : Uint256) : SHAMapAbstractNode → Nat → SHAMapAbstractNode × Nat
  | .inner children, depth =>
    if isEmptyBranch children (selectBranch depth id) then (.inner children, depth)
    else walkEnd id (children (selectBranch depth id)) (depth + 1)
  | node, depth => (node, depth)

/-- The tree with the node where the walk towards `id` ends replaced by `x`. -/
def replaceEnd (id : Uint256) (x : SHAMapAbstractNode) : SHAMapAbstractNode → Nat → SHAMapAbstractNode
  | .inner children, depth =>
    if isEmptyBranch children (selectBranch depth id) then x
    else .inner (setChild children (selectBranch depth id)
      (replaceEnd id x (children (selectBranch depth id)) (depth + 1)))
  | _, _ => x

/-- What `delItem` leaves of an inner node once a branch has changed: nothing for no
branch, a leaf for one branch over a single item, the node otherwise. -/
def collapse (type : TNType) (children : Fin 16 → SHAMapAbstractNode) : SHAMapAbstractNode :=
  if getBranchCount children = 0 then .empty
  else if getBranchCount children = 1 then
    match onlyBelow (.inner children) with
    | some item => .leaf item type
    | none => .inner children
  else .inner children

/-- A node below the root with the leaf of `id` removed, collapsing on the way up. -/
def removePath (id : Uint256) (type : TNType) : SHAMapAbstractNode → Nat → SHAMapAbstractNode
  | .inner children, depth =>
    collapse type (setChild children (selectBranch depth id)
      (removePath id type (children (selectBranch depth id)) (depth + 1)))
  | _, _ => .empty

/-- The nodes `addGiveItem` puts where a leaf was: an inner node on each nibble the two keys
share, then one with both leaves; none past the last nibble. -/
def splitChain (item other : SHAMapItem) (type : TNType) : Nat → Nat → Option SHAMapAbstractNode
  | 0, _ => none
  | fuel + 1, depth =>
    if selectBranch depth item.key = selectBranch depth other.key then
      (splitChain item other type fuel (depth + 1)).map fun below =>
        .inner (setChild (fun _ => .empty) (selectBranch depth item.key) below)
    else some (twoLeaves depth item other type)

section walks

variable {id : Uint256}

theorem walkEnd_inner {children : Fin 16 → SHAMapAbstractNode} {depth : Nat}
    (present : isEmptyBranch children (selectBranch depth id) = false) :
    walkEnd id (.inner children) depth = walkEnd id (children (selectBranch depth id)) (depth + 1) := by
  simp [walkEnd, present]

theorem replaceEnd_inner {children : Fin 16 → SHAMapAbstractNode} {depth : Nat} {x : SHAMapAbstractNode}
    (present : isEmptyBranch children (selectBranch depth id) = false) :
    replaceEnd id x (.inner children) depth = .inner (setChild children (selectBranch depth id)
      (replaceEnd id x (children (selectBranch depth id)) (depth + 1))) := by
  simp [replaceEnd, present]

/-- A walk from a node ends at a node, never at an empty branch. -/
theorem walkEnd_isEmpty {node : SHAMapAbstractNode} (present : node.isEmpty = false) (depth : Nat) :
    (walkEnd id node depth).1.isEmpty = false := by
  induction node generalizing depth with
  | empty => cases present
  | leaf item type => rfl
  | inner children ih =>
    unfold walkEnd
    split
    · rfl
    · rename_i goesOn
      exact ih _ (by simpa [isEmptyBranch] using goesOn) _

/-- `getStack` with an accumulated stack is its walk put on top of that stack. -/
theorem getStack_append (includeNonmatchingLeaf : Bool) (node : SHAMapAbstractNode)
    (depth : Nat) (stack : NodeStack) :
    getStack id includeNonmatchingLeaf node depth stack =
      getStack id includeNonmatchingLeaf node depth [] ++ stack := by
  induction node generalizing depth stack with
  | empty => rfl
  | leaf item type =>
    unfold getStack
    split <;> rfl
  | inner children ih =>
    unfold getStack
    dsimp only
    split
    · rfl
    · rw [ih, ih _ _ [(_, _)], List.append_assoc, List.singleton_append]

/-- The walk of `getStack` from a node: the node where it ends is on top, and `dirtyUp`
over the rest sets a node there, rebuilding the path. -/
theorem getStack_top (id : Uint256) {node : SHAMapAbstractNode} (present : node.isEmpty = false)
    (depth : Nat) (stack : NodeStack) :
    ∃ rest, getStack id true node depth stack = walkEnd id node depth :: rest ∧
      ∀ x, dirtyUp id rest x = dirtyUp id stack (replaceEnd id x node depth) := by
  induction node generalizing depth stack with
  | empty => cases present
  | leaf item type => exact ⟨stack, by simp [getStack, walkEnd], fun _ => rfl⟩
  | inner children ih =>
    by_cases ends : isEmptyBranch children (selectBranch depth id) = true
    · exact ⟨stack, by simp [getStack, walkEnd, ends], fun x => by simp [replaceEnd, ends]⟩
    · -- The walk goes on in the branch, with the inner node stacked.
      have goesOn : isEmptyBranch children (selectBranch depth id) = false := by simpa using ends
      obtain ⟨rest, stacked, plugs⟩ := ih (selectBranch depth id)
        (by simpa [isEmptyBranch] using goesOn) (depth + 1) ((.inner children, depth) :: stack)
      refine ⟨rest, ?_, fun x => ?_⟩
      · rw [walkEnd_inner goesOn, ← stacked]
        simp [getStack, goesOn]
      · rw [plugs, replaceEnd_inner goesOn]
        rfl

/-- `walkToPointer` finds the item of the leaf where the walk ends, when its key is `id`. -/
theorem walkToPointer_eq (node : SHAMapAbstractNode) (depth : Nat) :
    walkToPointer id node depth =
      match (walkEnd id node depth).1 with
      | .leaf item _ => if item.key == id then some item else none
      | _ => none := by
  induction node generalizing depth with
  | empty => rfl
  | leaf item type => rfl
  | inner children ih =>
    unfold walkToPointer walkEnd
    dsimp only
    split
    · rfl
    · exact ih _ _

end walks

/-! ## The loop that splits a leaf -/

/-- The inner nodes `pushCommon` stacks, set up by `dirtyUp`, are the chain of
`splitChain`. -/
theorem pushCommon_dirtyUp (item other : SHAMapItem) (type : TNType) (fuel depth : Nat)
    (stack : NodeStack) :
    (pushCommon item.key other.key fuel depth stack).map
        (fun parted => dirtyUp item.key parted.2 (twoLeaves parted.1 item other type)) =
      (splitChain item other type fuel depth).map (dirtyUp item.key stack) := by
  induction fuel generalizing depth stack with
  | zero => rfl
  | succ fuel ih =>
    unfold pushCommon splitChain
    split
    · rw [ih, Option.map_map]
      rfl
    · rfl

/-- The loop stops before the fuel runs out once the keys part within its reach. -/
theorem splitChain_isSome (item other : SHAMapItem) (type : TNType) {fuel depth : Nat}
    (parts : ∃ j, depth ≤ j ∧ j < depth + fuel ∧ selectBranch j item.key ≠ selectBranch j other.key) :
    (splitChain item other type fuel depth).isSome := by
  obtain ⟨j, low, high, parted⟩ := parts
  induction fuel generalizing depth with
  | zero => omega
  | succ fuel ih =>
    unfold splitChain
    split
    · -- The keys share this nibble, so they part further down.
      rename_i shared
      have later : depth + 1 ≤ j := by
        rcases Nat.lt_or_eq_of_le low with below | same
        · exact below
        · exact absurd (same ▸ shared) parted
      simpa using ih later (by omega)
    · rfl

/-! ## The loop of `delItem` -/

section remove

variable {id : Uint256} {type : TNType} {root : SHAMapAbstractNode}

/-- Below the root, a step of `removeUp` collapses the node it sets. -/
theorem removeUp_inner {children : Fin 16 → SHAMapAbstractNode} {depth : Nat} (belowRoot : depth ≠ 0)
    (stack : NodeStack) (prevNode : SHAMapAbstractNode) :
    removeUp id type root ((.inner children, depth) :: stack) prevNode =
      removeUp id type root stack (collapse type (setChild children (selectBranch depth id) prevNode)) := by
  simp only [removeUp, belowRoot, if_false, collapse]
  split_ifs
  · rfl
  · split <;> simp only [*]
  · rfl

/-- The walk of `delItem` to the leaf of `id` below the root: the stack under the leaf,
climbed by `removeUp`, leaves what `removePath` makes of the node. -/
theorem removeUp_getStack (type : TNType) {node : SHAMapAbstractNode} {depth endDepth : Nat}
    {old : SHAMapItem} {oldType : TNType} (belowRoot : depth ≠ 0)
    (ends : walkEnd id node depth = (.leaf old oldType, endDepth)) (stack : NodeStack) :
    ∃ rest, getStack id true node depth stack = (.leaf old oldType, endDepth) :: rest ∧
      ∀ root, removeUp id type root rest .empty =
        removeUp id type root stack (removePath id type node depth) := by
  induction node generalizing depth stack with
  | empty => cases ends
  | leaf item itemType =>
    simp only [walkEnd, Prod.mk.injEq, leaf.injEq] at ends
    obtain ⟨⟨rfl, rfl⟩, rfl⟩ := ends
    exact ⟨stack, by simp [getStack], fun _ => rfl⟩
  | inner children ih =>
    by_cases stops : isEmptyBranch children (selectBranch depth id) = true
    · simp [walkEnd, stops] at ends
    · -- The walk goes on below; one more collapsing step is climbed.
      have goesOn : isEmptyBranch children (selectBranch depth id) = false := by simpa using stops
      rw [walkEnd_inner goesOn] at ends
      obtain ⟨rest, stacked, climbs⟩ :=
        ih (selectBranch depth id) (Nat.succ_ne_zero depth) ends ((.inner children, depth) :: stack)
      refine ⟨rest, by simpa [getStack, goesOn] using stacked, fun root => ?_⟩
      rw [climbs, removeUp_inner belowRoot]
      rfl

end remove

/-! ## The operations as recursion -/

namespace SHAMap

/-- `addGiveItem` by where its walk ends: false at the key's own leaf; a new leaf on the
empty branch of an inner node; the chain of `splitChain` in place of another item's leaf. -/
theorem addGiveItem_eq {map : SHAMap} (present : map.root.isEmpty = false) (item : SHAMapItem)
    (isTransaction hasMeta : Bool) :
    map.addGiveItem item isTransaction hasMeta =
      match walkEnd item.key map.root 0 with
      | (.leaf other _, depth) =>
        if other.key = item.key then some (false, map)
        else (splitChain item other (leafType isTransaction hasMeta) (64 - depth) depth).map
          fun chain => (true, ⟨replaceEnd item.key chain map.root 0⟩)
      | (.inner children, depth) =>
        some (true, ⟨replaceEnd item.key (.inner (setChild children (selectBranch depth item.key)
          (.leaf item (leafType isTransaction hasMeta)))) map.root 0⟩)
      | (.empty, _) => none := by
  obtain ⟨rest, stacked, plugs⟩ := getStack_top item.key present 0 []
  unfold addGiveItem
  dsimp only
  rw [stacked]
  rcases walkEnd item.key map.root 0 with ⟨_ | ⟨other, otherType⟩ | children, depth⟩
  · rfl
  · dsimp only
    split
    · rfl
    · -- The stacked chain, set up by `dirtyUp`, is `splitChain` in place of the leaf.
      have chained := pushCommon_dirtyUp item other (leafType isTransaction hasMeta) (64 - depth)
        depth rest
      cases pushed : pushCommon item.key other.key (64 - depth) depth rest with
      | none =>
        rw [pushed, Option.map_none] at chained
        rw [(Option.map_eq_none_iff.mp chained.symm), Option.map_none]
      | some parted =>
        obtain ⟨parted, stack⟩ := parted
        rw [pushed, Option.map_some] at chained
        obtain ⟨chain, built, same⟩ := Option.map_eq_some_iff.mp chained.symm
        dsimp only at same ⊢
        rw [built, Option.map_some, ← same, plugs]
        rfl
  · simp only [plugs]
    rfl

/-- `updateGiveItem` by where its walk ends: the key's own leaf is replaced. -/
theorem updateGiveItem_eq {map : SHAMap} (present : map.root.isEmpty = false) (item : SHAMapItem)
    (isTransaction hasMeta : Bool) :
    map.updateGiveItem item isTransaction hasMeta =
      match walkEnd item.key map.root 0 with
      | (.leaf old _, _) =>
        if old.key ≠ item.key then some (false, map)
        else some (true, ⟨replaceEnd item.key (.leaf item (leafType isTransaction hasMeta)) map.root 0⟩)
      | _ => some (false, map) := by
  obtain ⟨rest, stacked, plugs⟩ := getStack_top item.key present 0 []
  unfold updateGiveItem
  dsimp only
  rw [stacked]
  rcases walkEnd item.key map.root 0 with ⟨_ | ⟨old, oldType⟩ | children, depth⟩
  · rfl
  · dsimp only
    split
    · rfl
    · rw [plugs]
      rfl
  · rfl

/-- `delItem` by where its walk ends: at the key's own leaf, the branch of the root towards
it takes what `removePath` leaves. -/
theorem delItem_eq {map : SHAMap} {children : Fin 16 → SHAMapAbstractNode}
    (root : map.root = .inner children) (id : Uint256) :
    map.delItem id =
      match walkEnd id map.root 0 with
      | (.leaf item type, _) =>
        if item.key ≠ id then some (false, map)
        else some (true, ⟨.inner (setChild children (selectBranch 0 id)
          (removePath id type (children (selectBranch 0 id)) 1))⟩)
      | _ => some (false, map) := by
  unfold delItem
  by_cases stops : isEmptyBranch children (selectBranch 0 id) = true
  · -- The walk stops at the root: nothing is deleted.
    simp [root, getStack, walkEnd, stops]
  · have goesOn : isEmptyBranch children (selectBranch 0 id) = false := by simpa using stops
    have descends : getStack id true map.root 0 [] =
        getStack id true (children (selectBranch 0 id)) 1 [(map.root, 0)] := by
      simp [root, getStack, goesOn]
    rw [root, walkEnd_inner goesOn, ← root, descends]
    rcases ends : walkEnd id (children (selectBranch 0 id)) 1 with
      ⟨_ | ⟨item, type⟩ | below, depth⟩
    · obtain ⟨rest, stacked, -⟩ := getStack_top id
        (by simpa [isEmptyBranch] using goesOn) 1 [(map.root, 0)]
      rw [stacked, ends]
    · obtain ⟨rest, stacked, climbs⟩ :=
        removeUp_getStack type Nat.one_ne_zero ends [(map.root, 0)]
      rw [stacked]
      dsimp only
      split
      · rfl
      · rw [climbs, root]
        rfl
    · obtain ⟨rest, stacked, -⟩ := getStack_top id
        (by simpa [isEmptyBranch] using goesOn) 1 [(map.root, 0)]
      rw [stacked, ends]

end SHAMap

end RadardFormal.Shamap
