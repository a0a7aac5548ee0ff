import RadardFormal.Shamap.Iteration

/-!
# The canonical shape of a SHAMap

The tree of a canonical map is a function of its items.  Two compact nodes placed at one depth,
of one leaf type and with the same items, are the same node, so two canonical maps with the
same items are the same map (`SHAMap.Canonical.eq_of_perm`): what `getHash` hashes does not
depend on the order of the `addGiveItem` and `delItem` calls that built the tree.

The place of each node is read off the keys.  Below the root, an inner node sits at a branch
path exactly when two items start with it (`SHAMap.innerAt_iff`); the leaf of an item sits on
its key's branches at the shortest path, of at least one branch, that no other item starts
with (`SHAMap.leafAt_iff`).  The root is an inner node whatever the map holds, so the leaf of a
lone item sits one branch down, although no prefix at all is needed to tell it apart.
-/

namespace RadardFormal.Shamap

open RadardFormal.Protocol SHAMapAbstractNode

/-! ## Paths -/

/-- The node at the end of `path` from `node`, one branch a step; none once the path runs past
a leaf or an empty branch. -/
def nodeAt : SHAMapAbstractNode → List (Fin 16) → Option SHAMapAbstractNode
  | node, [] => some node
  | .inner children, i :: path => nodeAt (children i) path
  | _, _ :: _ => none

/-- The `length` branches that `key` takes from a node at `depth` down: within the key, its
nibbles from `depth` on (`selectBranch_val`). -/
def keyPath (key : Uint256) : Nat → Nat → List (Fin 16)
  | _, 0 => []
  | depth, length + 1 => selectBranch depth key :: keyPath key (depth + 1) length

@[simp] theorem nodeAt_nil (node : SHAMapAbstractNode) : nodeAt node [] = some node := by
  cases node <;> rfl

@[simp] theorem nodeAt_inner_cons (children : Fin 16 → SHAMapAbstractNode) (i : Fin 16)
    (path : List (Fin 16)) : nodeAt (.inner children) (i :: path) = nodeAt (children i) path := rfl

@[simp] theorem nodeAt_empty_cons (i : Fin 16) (path : List (Fin 16)) : nodeAt .empty (i :: path) = none :=
  rfl

@[simp] theorem nodeAt_leaf_cons (item : SHAMapItem) (type : TNType) (i : Fin 16) (path : List (Fin 16)) :
    nodeAt (.leaf item type) (i :: path) = none := rfl

@[simp] theorem length_keyPath (key : Uint256) (depth length : Nat) :
    (keyPath key depth length).length = length := by
  induction length generalizing depth with
  | zero => rfl
  | succ length ih => simp [keyPath, ih]

theorem keyPath_succ_eq_cons {key : Uint256} {depth length : Nat} {i : Fin 16} {path : List (Fin 16)} :
    keyPath key depth (length + 1) = i :: path ↔
      selectBranch depth key = i ∧ keyPath key (depth + 1) length = path := by
  rw [keyPath, List.cons.injEq]

/-- Within the key, the path of a key from the root lists its first nibbles. -/
theorem keyPath_val (key : Uint256) {length : Nat} (inside : length ≤ 64) :
    (keyPath key 0 length).map Fin.val = (List.range length).map (nibble key) := by
  suffices shifted : ∀ depth, depth + length ≤ 64 →
      (keyPath key depth length).map Fin.val = (List.range length).map fun j => nibble key (depth + j) by
    simpa using shifted 0 (by omega)
  clear inside
  induction length with
  | zero => intro depth _; rfl
  | succ length ih =>
    intro depth within
    rw [keyPath, List.map_cons, List.range_succ_eq_map, List.map_cons, List.map_map,
      ih (depth + 1) (by omega), selectBranch_val (by omega), Nat.add_zero]
    congr 1
    refine List.map_congr_left fun j _ => ?_
    simp only [Function.comp_apply]
    congr 1
    omega

/-! ## The items of a placed node -/

section items

variable {depth : Nat} {children : Fin 16 → SHAMapAbstractNode}

/-- Each item of a placed node sits under one branch, so no item is listed twice. -/
theorem nodup_entries {node : SHAMapAbstractNode} (placed : Placed depth node) : (entries node).Nodup := by
  induction node generalizing depth with
  | empty => exact List.nodup_nil
  | leaf item type => exact List.nodup_singleton item
  | inner children ih =>
    rw [entries, List.nodup_flatMap]
    refine ⟨fun i _ => ih i ((placed_inner.mp placed) i).2, ?_⟩
    -- an item under two branches would take both at this depth
    refine (List.nodup_finRange 16).pairwise_of_forall_ne fun i _ j _ differs item inI inJ => differs ?_
    rw [← ((placed_inner.mp placed) i).1 item inI, ((placed_inner.mp placed) j).1 item inJ]

theorem mem_branch_iff (placed : Placed depth (.inner children)) {i : Fin 16} {item : SHAMapItem} :
    item ∈ entries (children i) ↔ item ∈ entries (.inner children) ∧ selectBranch depth item.key = i := by
  rw [← entries_branch placed i, List.mem_filter, decide_eq_true_iff]

/-- A compact inner node holds, beside any item, another one. -/
theorem exists_ne_of_compact (placed : Placed depth (.inner children)) (compact : Compact (.inner children))
    (item : SHAMapItem) : ∃ other ∈ entries (.inner children), other ≠ item := by
  have nodup := nodup_entries placed
  have atLeastTwo := (compact_inner.mp compact).1
  rcases listed : entries (.inner children) with _ | ⟨a, _ | ⟨b, rest⟩⟩
  · rw [listed] at atLeastTwo
    simp at atLeastTwo
  · rw [listed] at atLeastTwo
    simp at atLeastTwo
  · rw [listed] at nodup
    have differs : a ≠ b := fun same => (List.nodup_cons.mp nodup).1 (same ▸ List.mem_cons_self ..)
    by_cases isItem : a = item
    · exact ⟨b, by simp, fun same => differs (isItem.trans same.symm)⟩
    · exact ⟨a, by simp, isItem⟩

/-- A compact inner node holds two different items. -/
theorem exists_pair_of_compact (placed : Placed depth (.inner children)) (compact : Compact (.inner children)) :
    ∃ a ∈ entries (.inner children), ∃ b ∈ entries (.inner children), a ≠ b := by
  obtain ⟨a, aMem⟩ := List.length_pos_iff_exists_mem.mp
    (lt_of_lt_of_le (by decide) (compact_inner.mp compact).1)
  obtain ⟨b, bMem, differs⟩ := exists_ne_of_compact placed compact a
  exact ⟨a, aMem, b, bMem, differs.symm⟩

end items

/-! ## A canonical tree is determined by its items -/

section unique

variable {type : TNType}

/-- Inner nodes placed at one depth with the same items have branches with the same items, so
they are equal once each branch is determined by its items. -/
theorem inner_eq_of_perm {depth : Nat} {children children' : Fin 16 → SHAMapAbstractNode}
    (placed : Placed depth (.inner children)) (placed' : Placed depth (.inner children'))
    (branch : ∀ i, (entries (children i)).Perm (entries (children' i)) → children i = children' i)
    (same : (entries (.inner children)).Perm (entries (.inner children'))) : children = children' := by
  funext i
  apply branch i
  rw [← entries_branch placed i, ← entries_branch placed' i]
  exact same.filter _

/-- Compact nodes placed at one depth, of one leaf type and with the same items, are the same
node: the number of items tells an empty branch, a leaf and an inner node apart, and an inner
node's branches hold the items that take them. -/
theorem eq_of_perm_entries {a b : SHAMapAbstractNode} {depth : Nat} (placedA : Placed depth a)
    (placedB : Placed depth b) (compactA : Compact a) (compactB : Compact b) (uniformA : Uniform type a)
    (uniformB : Uniform type b) (same : (entries a).Perm (entries b)) : a = b := by
  have lengths := same.length_eq
  induction a generalizing b depth with
  | empty =>
    cases b with
    | empty => rfl
    | leaf item leafType => simp at lengths
    | inner children =>
      have atLeastTwo := (compact_inner.mp compactB).1
      simp only [entries_empty, List.length_nil] at lengths
      omega
  | leaf item leafType =>
    cases b with
    | empty => simp at lengths
    | leaf item' leafType' =>
      have sameItem : item = item' := List.singleton_perm_singleton.mp same
      have sameType : leafType = leafType' := (uniformA : leafType = type).trans (uniformB : leafType' = type).symm
      rw [sameItem, sameType]
    | inner children =>
      have atLeastTwo := (compact_inner.mp compactB).1
      simp only [entries_leaf, List.length_singleton] at lengths
      omega
  | inner children ih =>
    have atLeastTwo := (compact_inner.mp compactA).1
    cases b with
    | empty =>
      simp only [entries_empty, List.length_nil] at lengths
      omega
    | leaf item' leafType' =>
      simp only [entries_leaf, List.length_singleton] at lengths
      omega
    | inner children' =>
      refine congrArg SHAMapAbstractNode.inner (inner_eq_of_perm placedA placedB (fun i sameBranch => ?_) same)
      exact ih i ((placed_inner.mp placedA) i).2 ((placed_inner.mp placedB) i).2 ((compact_inner.mp compactA).2 i)
        ((compact_inner.mp compactB).2 i) (uniform_inner.mp uniformA i) (uniform_inner.mp uniformB i) sameBranch
        sameBranch.length_eq

/-- Two canonical maps of one leaf type with the same items are the same map. -/
theorem SHAMap.Canonical.eq_of_perm {map map' : SHAMap} (canonical : map.Canonical type)
    (canonical' : map'.Canonical type) (same : (entries map.root).Perm (entries map'.root)) : map = map' := by
  obtain ⟨children, root⟩ := canonical.exists_root
  obtain ⟨children', root'⟩ := canonical'.exists_root
  have placed := canonical.placed
  have placed' := canonical'.placed
  have rooted := canonical.rooted
  have rooted' := canonical'.rooted
  have uniform := canonical.uniform
  have uniform' := canonical'.uniform
  rw [root] at placed rooted uniform same
  rw [root'] at placed' rooted' uniform' same
  -- the roots are inner nodes, and each branch is a compact node
  have branches : children = children' := inner_eq_of_perm placed placed' (fun i sameBranch =>
    eq_of_perm_entries ((placed_inner.mp placed) i).2 ((placed_inner.mp placed') i).2 (rooted i) (rooted' i)
      (uniform_inner.mp uniform i) (uniform_inner.mp uniform' i) sameBranch) same
  cases map
  cases map'
  dsimp only at root root'
  rw [root, root', branches]

end unique

/-! ## Where the nodes sit -/

/-- Two different items of `items` take the branches of `path` from `depth` down. -/
def InnerPlace (items : List SHAMapItem) (depth : Nat) (path : List (Fin 16)) : Prop :=
  ∃ a ∈ items, ∃ b ∈ items, a ≠ b ∧ keyPath a.key depth path.length = path ∧
    keyPath b.key depth path.length = path

/-- Where the leaf of `item` sits among `items`, below a node at `depth`: on the item's own
branches, at a path of at least `shallowest` branches that no other item starts with, while
each shorter prefix of at least `shallowest` branches is shared with another item. -/
structure LeafPlace (items : List SHAMapItem) (depth shallowest : Nat) (item : SHAMapItem)
    (path : List (Fin 16)) : Prop where
  mem : item ∈ items
  deep : shallowest ≤ path.length
  onPath : keyPath item.key depth path.length = path
  alone : ∀ other ∈ items, other ≠ item → keyPath other.key depth path.length ≠ path
  shared : ∀ n, shallowest ≤ n → n < path.length →
    ∃ other ∈ items, other ≠ item ∧ keyPath other.key depth n = keyPath item.key depth n

section branch

variable {depth : Nat} {children : Fin 16 → SHAMapAbstractNode} {i : Fin 16} {path : List (Fin 16)}

/-- Two items start with a path below a branch exactly when they start with the path that
takes the branch first. -/
theorem innerPlace_branch (placed : Placed depth (.inner children)) :
    InnerPlace (entries (children i)) (depth + 1) path ↔ InnerPlace (entries (.inner children)) depth (i :: path) := by
  simp only [InnerPlace, List.length_cons, keyPath_succ_eq_cons, mem_branch_iff placed]
  constructor
  · rintro ⟨a, ⟨aMem, aTakes⟩, b, ⟨bMem, bTakes⟩, differs, aPath, bPath⟩
    exact ⟨a, aMem, b, bMem, differs, ⟨aTakes, aPath⟩, ⟨bTakes, bPath⟩⟩
  · rintro ⟨a, aMem, b, bMem, differs, ⟨aTakes, aPath⟩, ⟨bTakes, bPath⟩⟩
    exact ⟨a, ⟨aMem, aTakes⟩, b, ⟨bMem, bTakes⟩, differs, aPath, bPath⟩

/-- The place of a leaf below a branch, counted from the branch, is its place from the node
counted from one branch down. -/
theorem leafPlace_branch (placed : Placed depth (.inner children)) {item : SHAMapItem} :
    LeafPlace (entries (children i)) (depth + 1) 0 item path ↔
      LeafPlace (entries (.inner children)) depth 1 item (i :: path) := by
  constructor
  · rintro ⟨mem, -, onPath, alone, shared⟩
    obtain ⟨inNode, takes⟩ := (mem_branch_iff placed).mp mem
    refine ⟨inNode, by simp, keyPath_succ_eq_cons.mpr ⟨takes, onPath⟩, ?_, ?_⟩
    · intro other otherMem differs otherPath
      obtain ⟨otherTakes, otherRest⟩ := keyPath_succ_eq_cons.mp otherPath
      exact alone other ((mem_branch_iff placed).mpr ⟨otherMem, otherTakes⟩) differs otherRest
    · intro n atLeast below
      obtain ⟨m, rfl⟩ : ∃ m, n = m + 1 := ⟨n - 1, by omega⟩
      obtain ⟨other, otherMem, differs, sharedPath⟩ := shared m (Nat.zero_le m) (by simpa using below)
      obtain ⟨otherInNode, otherTakes⟩ := (mem_branch_iff placed).mp otherMem
      refine ⟨other, otherInNode, differs, ?_⟩
      rw [keyPath, keyPath, otherTakes, takes, sharedPath]
  · rintro ⟨mem, -, onPath, alone, shared⟩
    obtain ⟨takes, onRest⟩ := keyPath_succ_eq_cons.mp onPath
    refine ⟨(mem_branch_iff placed).mpr ⟨mem, takes⟩, Nat.zero_le _, onRest, ?_, ?_⟩
    · intro other otherMem differs otherRest
      obtain ⟨otherInNode, otherTakes⟩ := (mem_branch_iff placed).mp otherMem
      exact alone other otherInNode differs (keyPath_succ_eq_cons.mpr ⟨otherTakes, otherRest⟩)
    · intro m _ below
      obtain ⟨other, otherMem, differs, sharedPath⟩ := shared (m + 1) (by omega) (by simpa using below)
      -- sharing `m + 1` branches from the node is sharing its branch and then `m` more
      simp only [keyPath, List.cons.injEq] at sharedPath
      exact ⟨other, (mem_branch_iff placed).mpr ⟨otherMem, sharedPath.1.trans takes⟩, differs, sharedPath.2⟩

/-- Where another item sits beside `item`, it shares the empty prefix, so for a path that is not
empty, counting prefixes from no branch or from one gives the same places. -/
theorem leafPlace_zero_iff {items : List SHAMapItem} {item : SHAMapItem}
    (other : ∃ other ∈ items, other ≠ item) :
    LeafPlace items depth 0 item (i :: path) ↔ LeafPlace items depth 1 item (i :: path) := by
  constructor
  · rintro ⟨mem, -, onPath, alone, shared⟩
    exact ⟨mem, by simp, onPath, alone, fun n _ below => shared n (Nat.zero_le n) below⟩
  · rintro ⟨mem, -, onPath, alone, shared⟩
    refine ⟨mem, Nat.zero_le _, onPath, alone, fun n _ below => ?_⟩
    rcases Nat.eq_zero_or_pos n with rfl | positive
    · obtain ⟨other, otherMem, differs⟩ := other
      exact ⟨other, otherMem, differs, rfl⟩
    · exact shared n positive below

end branch

section compact

variable {node : SHAMapAbstractNode} {depth : Nat}

/-- Below a compact node, an inner node sits at a path exactly when two items start with it. -/
theorem innerAt_compact_iff (placed : Placed depth node) (compact : Compact node) (path : List (Fin 16)) :
    (∃ children, nodeAt node path = some (.inner children)) ↔ InnerPlace (entries node) depth path := by
  induction node generalizing depth path with
  | empty => cases path <;> simp [InnerPlace]
  | leaf item type =>
    -- a leaf holds one item, and nothing is below it
    cases path <;> simp [InnerPlace]
  | inner children ih =>
    cases path with
    | nil =>
      obtain ⟨a, aMem, b, bMem, differs⟩ := exists_pair_of_compact placed compact
      exact iff_of_true ⟨children, rfl⟩ ⟨a, aMem, b, bMem, differs, rfl, rfl⟩
    | cons i path =>
      rw [nodeAt_inner_cons, ← innerPlace_branch placed]
      exact ih i ((placed_inner.mp placed) i).2 ((compact_inner.mp compact).2 i) path

/-- Below a compact node, the leaf of an item sits on the item's branches at the shortest path
that no other item starts with. -/
theorem leafAt_compact_iff (placed : Placed depth node) (compact : Compact node) (item : SHAMapItem)
    (path : List (Fin 16)) :
    (∃ type, nodeAt node path = some (.leaf item type)) ↔ LeafPlace (entries node) depth 0 item path := by
  induction node generalizing depth path with
  | empty =>
    refine iff_of_false ?_ fun place => by simpa using place.mem
    cases path <;> simp
  | leaf leafItem leafType =>
    cases path with
    | nil =>
      constructor
      · rintro ⟨type, found⟩
        obtain ⟨rfl, -⟩ : leafItem = item ∧ leafType = type := by simpa using found
        exact ⟨List.mem_singleton_self _, Nat.zero_le _, rfl,
          fun other otherMem differs => absurd (List.mem_singleton.mp otherMem) differs,
          fun n _ below => absurd below (Nat.not_lt_zero n)⟩
      · rintro ⟨mem, -, -, -, -⟩
        rw [List.mem_singleton.mp mem]
        exact ⟨leafType, rfl⟩
    | cons i path =>
      -- nothing is below a leaf, and its item is the only one to share the empty prefix with
      refine iff_of_false (by simp) fun place => ?_
      obtain ⟨other, otherMem, differs, -⟩ := place.shared 0 le_rfl (Nat.succ_pos _)
      exact differs ((List.mem_singleton.mp otherMem).trans (List.mem_singleton.mp place.mem).symm)
  | inner children ih =>
    cases path with
    | nil =>
      refine iff_of_false (by simp) fun place => ?_
      obtain ⟨other, otherMem, differs⟩ := exists_ne_of_compact placed compact item
      exact place.alone other otherMem differs rfl
    | cons i path =>
      rw [nodeAt_inner_cons, ih i ((placed_inner.mp placed) i).2 ((compact_inner.mp compact).2 i) path,
        leafPlace_branch placed]
      exact (leafPlace_zero_iff (exists_ne_of_compact placed compact item)).symm

end compact

namespace SHAMap

variable {type : TNType} {map : SHAMap}

/-- Below the root of a canonical map, an inner node sits at a path exactly when two items
start with it. -/
theorem innerAt_iff (canonical : map.Canonical type) {path : List (Fin 16)} (belowRoot : path ≠ []) :
    (∃ children, nodeAt map.root path = some (.inner children)) ↔ InnerPlace (entries map.root) 0 path := by
  obtain ⟨children, root⟩ := canonical.exists_root
  obtain ⟨i, path, rfl⟩ := List.exists_cons_of_ne_nil belowRoot
  have placed := canonical.placed
  have rooted := canonical.rooted
  rw [root] at placed rooted ⊢
  rw [nodeAt_inner_cons, ← innerPlace_branch placed]
  exact innerAt_compact_iff ((placed_inner.mp placed) i).2 (rooted i) path

/-- The leaf of an item of a canonical map sits on the item's branches, at the shortest path of
at least one branch that no other item starts with. -/
theorem leafAt_iff (canonical : map.Canonical type) (item : SHAMapItem) (path : List (Fin 16)) :
    (∃ leafType, nodeAt map.root path = some (.leaf item leafType)) ↔ LeafPlace (entries map.root) 0 1 item path := by
  obtain ⟨children, root⟩ := canonical.exists_root
  have placed := canonical.placed
  have rooted := canonical.rooted
  rw [root] at placed rooted ⊢
  cases path with
  | nil =>
    -- the root is an inner node, and a leaf is at least one branch down
    refine iff_of_false (by simp) fun place => ?_
    exact absurd place.deep (by simp)
  | cons i path =>
    rw [nodeAt_inner_cons, ← leafPlace_branch placed]
    exact leafAt_compact_iff ((placed_inner.mp placed) i).2 (rooted i) item path

end SHAMap

end RadardFormal.Shamap
