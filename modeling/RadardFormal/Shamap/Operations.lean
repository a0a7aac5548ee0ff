import RadardFormal.Shamap.Node

/-!
# SHAMap operations

The members of `SHAMap` that read and change the tree, as `SHAMap.cpp` writes them: the
walk `getStack` that stacks the nodes on the way to a key, `dirtyUp` that sets a new node
back into every stacked one, and on them `addGiveItem`, `delItem` and `updateGiveItem`;
`walkToPointer`, `fetch` and `hasItem`; and the iteration of `const_iterator`
(`peekFirstItem`, `peekNextItem`) and `upper_bound`, which keep a stack of their own.

A stack is a list with its top first.  A thrown `SHAMapMissingNode` is `none`.
-/

namespace RadardFormal.Shamap

open RadardFormal.Protocol SHAMapAbstractNode

/-- A stack of nodes with their depths, the top first. -/
abbrev NodeStack := List (SHAMapAbstractNode × Nat)

/-! ## Walking to a key -/

/-- `SHAMap::getStack` from `node` at `depth`: every inner node on the way to `id` is
stacked, and the walk stops at an empty branch, or at a leaf, stacked when it holds `id` or
`includeNonmatchingLeaf` is set. -/
def getStack (id : Uint256) (includeNonmatchingLeaf : Bool) :
    SHAMapAbstractNode → Nat → NodeStack → NodeStack
  | .inner children, depth, stack =>
    let branch := selectBranch depth id
    if isEmptyBranch children branch then (.inner children, depth) :: stack
    else getStack id includeNonmatchingLeaf (children branch) (depth + 1)
      ((.inner children, depth) :: stack)
  | .leaf item type, depth, stack =>
    if includeNonmatchingLeaf || item.key == id then (.leaf item type, depth) :: stack
    else stack
  | .empty, _, stack => stack

/-- `SHAMap::dirtyUp`: from the top of the stack down, each stacked inner node takes `child`
on its branch towards `target` and becomes the child of the next; the last is the root. -/
def dirtyUp (target : Uint256) : NodeStack → SHAMapAbstractNode → SHAMapAbstractNode
  | [], child => child
  | (.inner children, depth) :: stack, child =>
    dirtyUp target stack (.inner (setChild children (selectBranch depth target) child))
  | _ :: stack, child => dirtyUp target stack child

/-- `SHAMap::walkToPointer` from `node` at `depth`: the item of the leaf on the way to `id`
when it holds `id`. -/
def walkToPointer (id : Uint256) : SHAMapAbstractNode → Nat → Option SHAMapItem
  | .inner children, depth =>
    let branch := selectBranch depth id
    if isEmptyBranch children branch then none
    else walkToPointer id (children branch) (depth + 1)
  | .leaf item _, _ => if item.key == id then some item else none
  | .empty, _ => none

namespace SHAMap

/-- `SHAMap::fetch`. -/
def fetch (map : SHAMap) (key : Uint256) : Option SHAMapItem := walkToPointer key map.root 0

/-- `SHAMap::hasItem`. -/
def hasItem (map : SHAMap) (id : Uint256) : Bool := (walkToPointer id map.root 0).isSome

end SHAMap

/-! ## Adding, deleting and updating an item -/

/-- The type `addGiveItem` and `updateGiveItem` give a new leaf. -/
def leafType (isTransaction hasMeta : Bool) : TNType :=
  if !isTransaction then .tnACCOUNT_STATE
  else if hasMeta then .tnTRANSACTION_MD else .tnTRANSACTION_NM

/-- The loop of `addGiveItem` that turns a leaf into inner nodes: while `tag` and the key
of the leaf's item take the same branch at `depth`, a new inner node is stacked there and
the walk goes down one level.  The result is the depth where the keys part, with the
stack; `none` past the last nibble, which two different keys never reach. -/
def pushCommon (tag other : Uint256) : Nat → Nat → NodeStack → Option (Nat × NodeStack)
  | 0, _, _ => none
  | fuel + 1, depth, stack =>
    if selectBranch depth tag = selectBranch depth other then
      pushCommon tag other fuel (depth + 1) ((emptyInner, depth) :: stack)
    else some (depth, stack)

/-- The inner node at the end of that loop, holding the two leaves. -/
def twoLeaves (depth : Nat) (item other : SHAMapItem) (type : TNType) : SHAMapAbstractNode :=
  .inner (setChild (setChild (fun _ => .empty) (selectBranch depth item.key) (.leaf item type))
    (selectBranch depth other.key) (.leaf other type))

/-- The loop of `delItem`: from the top of the stack down, each stacked inner node takes
`prevNode` on its branch towards `id`.  Below the root, a node left with no branch is
dropped, and one left with one branch over a single item is replaced by a new leaf for that
item, with the type of the deleted leaf; the root takes the node and stays. -/
def removeUp (id : Uint256) (type : TNType) (root : SHAMapAbstractNode) :
    NodeStack → SHAMapAbstractNode → SHAMapAbstractNode
  | [], _ => root
  | (.inner children, depth) :: stack, prevNode =>
    let children := setChild children (selectBranch depth id) prevNode
    if depth = 0 then removeUp id type (.inner children) stack prevNode
    else if getBranchCount children = 0 then removeUp id type root stack .empty
    else if getBranchCount children = 1 then
      match onlyBelow (.inner children) with
      | some item => removeUp id type root stack (.leaf item type)
      | none => removeUp id type root stack (.inner children)
    else removeUp id type root stack (.inner children)
  | _ :: stack, prevNode => removeUp id type root stack prevNode

namespace SHAMap

/-- `SHAMap::addGiveItem`: false when the key is present.  A walk that ends at an inner
node sets a new leaf on its empty branch; one that ends at another item's leaf turns it
into inner nodes down to the nibble where the keys part, with a leaf for each. -/
def addGiveItem (map : SHAMap) (item : SHAMapItem) (isTransaction hasMeta : Bool) :
    Option (Bool × SHAMap) :=
  let tag := item.key
  let type := leafType isTransaction hasMeta
  match getStack tag true map.root 0 [] with
  | [] => none
  | (.leaf otherItem _, depth) :: stack =>
    if otherItem.key = tag then some (false, map)
    else
      match pushCommon tag otherItem.key (64 - depth) depth stack with
      | none => none
      | some (depth, stack) => some (true, ⟨dirtyUp tag stack (twoLeaves depth item otherItem type)⟩)
  | (.inner children, depth) :: stack =>
    some (true, ⟨dirtyUp tag stack (.inner (setChild children (selectBranch depth tag) (.leaf item type)))⟩)
  | (.empty, _) :: _ => none

/-- `SHAMap::delItem`: false when the key is absent; otherwise the leaf is removed and the
nodes above it collapse with `removeUp`. -/
def delItem (map : SHAMap) (id : Uint256) : Option (Bool × SHAMap) :=
  match getStack id true map.root 0 [] with
  | [] => none
  | (.leaf item type, _) :: stack =>
    if item.key ≠ id then some (false, map)
    else some (true, ⟨removeUp id type map.root stack .empty⟩)
  | _ :: _ => some (false, map)

/-- `SHAMap::updateGiveItem`: false when the key is absent; otherwise its leaf takes the
item and the type.  `setItem` changes the leaf in place, and `dirtyUp` (skipped when the
leaf's hash is unchanged) sets it again into every node above: with every node the map's
own, the tree is the same either way. -/
def updateGiveItem (map : SHAMap) (item : SHAMapItem) (isTransaction hasMeta : Bool) :
    Option (Bool × SHAMap) :=
  let tag := item.key
  match getStack tag true map.root 0 [] with
  | [] => none
  | (.leaf old _, _) :: stack =>
    if old.key ≠ tag then some (false, map)
    else some (true, ⟨dirtyUp tag stack (.leaf item (leafType isTransaction hasMeta))⟩)
  | _ :: _ => some (false, map)

end SHAMap

/-! ## Iteration -/

/-- `SHAMap::firstBelow`: the first leaf under `node`, through the lowest non-empty branch
of each inner node, stacking each node it enters; none at an inner node with no branch. -/
def firstBelow : SHAMapAbstractNode → Nat → NodeStack → Option (SHAMapItem × NodeStack)
  | .leaf item _, _, stack => some (item, stack)
  | .inner children, depth, stack =>
    match (List.finRange 16).find? (fun i => !isEmptyBranch children i) with
    | some i => firstBelow (children i) (depth + 1) ((children i, depth + 1) :: stack)
    | none => none
  | .empty, _, _ => none

/-- The first non-empty branch after `branch`. -/
def laterBranch (children : Fin 16 → SHAMapAbstractNode) (branch : Fin 16) : Option (Fin 16) :=
  (List.finRange 16).find? fun i => branch < i && !isEmptyBranch children i

/-- The step of `peekNextItem` and `upper_bound` into branch `i` of an inner node on top of
`stack`: the branch's node is stacked and its first leaf found, and a branch with no leaf
throws `SHAMapMissingNode`. -/
def nextLeaf (children : Fin 16 → SHAMapAbstractNode) (depth : Nat) (i : Fin 16)
    (stack : NodeStack) : Option (Option (SHAMapItem × NodeStack)) :=
  (firstBelow (children i) (depth + 1) ((children i, depth + 1) :: stack)).map some

/-- The loop of `peekNextItem`: at each stacked inner node, the first non-empty branch after
the one towards `id`, or else the node is popped; `some none` once the stack is empty. -/
def peekNext (id : Uint256) : NodeStack → Option (Option (SHAMapItem × NodeStack))
  | [] => some none
  | (.inner children, depth) :: stack =>
    match laterBranch children (selectBranch depth id) with
    | some i => nextLeaf children depth i ((.inner children, depth) :: stack)
    | none => peekNext id stack
  | _ :: stack => peekNext id stack

/-- The loop of `upper_bound`: a stacked leaf with a key above `id` is the answer; an inner
node is scanned as in `peekNextItem`; anything else is popped. -/
def upperClimb (id : Uint256) : NodeStack → Option (Option (SHAMapItem × NodeStack))
  | [] => some none
  | (.leaf item type, depth) :: stack =>
    if id < item.key then some (some (item, (.leaf item type, depth) :: stack))
    else upperClimb id stack
  | (.inner children, depth) :: stack =>
    match laterBranch children (selectBranch depth id) with
    | some i => nextLeaf children depth i ((.inner children, depth) :: stack)
    | none => upperClimb id stack
  | (.empty, _) :: stack => upperClimb id stack

namespace SHAMap

/-- `SHAMap::peekFirstItem`: the first leaf of the map, the root stacked first. -/
def peekFirstItem (map : SHAMap) : Option (SHAMapItem × NodeStack) :=
  firstBelow map.root 0 [(map.root, 0)]

/-- `SHAMap::peekNextItem`: the leaf of the current item `id` is popped, then the stack is
climbed. -/
def peekNextItem (id : Uint256) (stack : NodeStack) : Option (Option (SHAMapItem × NodeStack)) :=
  peekNext id stack.tail

/-- `SHAMap::upper_bound`: the walk of `getStack` towards `id`, then the climb. -/
def upperBound (map : SHAMap) (id : Uint256) : Option (Option (SHAMapItem × NodeStack)) :=
  upperClimb id (getStack id true map.root 0 [])

/-- A range loop over the map from the current position: each item, then `operator++`
(`peekNextItem` from its key) until `end ()`; `none` when a step throws or the fuel runs
out. -/
def visitFrom : Nat → Option (SHAMapItem × NodeStack) → Option (List SHAMapItem)
  | _, none => some []
  | 0, some _ => none
  | fuel + 1, some (item, stack) =>
    match peekNextItem item.key stack with
    | none => none
    | some next => (visitFrom fuel next).map (item :: ·)

/-- A range loop over the whole map, from `begin ()`. -/
def visit (map : SHAMap) (fuel : Nat) : Option (List SHAMapItem) :=
  visitFrom fuel map.peekFirstItem

end SHAMap

end RadardFormal.Shamap
