import RadardFormal.Shamap.Invariant

/-!
# The operations on a canonical map

A map is canonical for a leaf type when its root is an inner node over compact branches,
its items are placed and its leaves have that type.  `addGiveItem`, `delItem` and
`updateGiveItem` with that type keep it canonical, refuse exactly when the key is present
(for `addGiveItem`) or absent (for the others), and change the items of the tree by the
one item they add, remove or replace.
-/

namespace RadardFormal.Shamap

open RadardFormal.Protocol SHAMapAbstractNode

/-- The shape of a map built by the operations with leaves of `type`. -/
structure SHAMap.Canonical (type : TNType) (map : SHAMap) : Prop where
  rooted : Rooted map.root
  placed : Placed 0 map.root
  uniform : Uniform type map.root

theorem SHAMap.canonical_empty (type : TNType) : SHAMap.empty.Canonical type :=
  ⟨fun _ => trivial, fun _ => ⟨fun _ member => (by simp at member), trivial⟩, fun _ => trivial⟩

/-- The root of a canonical map is an inner node. -/
theorem SHAMap.Canonical.exists_root {type : TNType} {map : SHAMap} (canonical : map.Canonical type) :
    ∃ children, map.root = .inner children := by
  cases here : map.root with
  | inner children => exact ⟨children, rfl⟩
  | _ => have := canonical.rooted; rw [here] at this; exact this.elim

/-! ## Where a walk from a canonical root ends -/

section ends

variable {id : Uint256}

theorem compact_walkEnd {node : SHAMapAbstractNode} {depth : Nat} (compact : Compact node) :
    Compact (walkEnd id node depth).1 := by
  induction node generalizing depth with
  | empty => trivial
  | leaf item type => trivial
  | inner children ih =>
    unfold walkEnd
    split
    · exact compact
    · exact ih _ ((compact_inner.mp compact).2 _)

theorem uniform_walkEnd {type : TNType} {node : SHAMapAbstractNode} {depth : Nat}
    (uniform : Uniform type node) : Uniform type (walkEnd id node depth).1 := by
  induction node generalizing depth with
  | empty => trivial
  | leaf item leafType => exact uniform
  | inner children ih =>
    unfold walkEnd
    split
    · exact uniform
    · exact ih _ (uniform _)

/-- A walk that ends at an inner node ends at its empty branch towards the key. -/
theorem walkEnd_stops {node : SHAMapAbstractNode} {depth : Nat} {children : Fin 16 → SHAMapAbstractNode}
    (ends : (walkEnd id node depth).1 = .inner children) :
    isEmptyBranch children (selectBranch (walkEnd id node depth).2 id) = true := by
  induction node generalizing depth with
  | empty => cases ends
  | leaf item type => cases ends
  | inner below ih =>
    unfold walkEnd at ends ⊢
    split
    · rename_i stops
      rw [if_pos stops] at ends
      cases ends
      exact stops
    · rename_i goesOn
      rw [if_neg goesOn] at ends
      exact ih _ ends

/-- A walk from the root ends at the root itself when its branch is empty, and below it
otherwise. -/
theorem walkEnd_root {children : Fin 16 → SHAMapAbstractNode}
    (goesOn : isEmptyBranch children (selectBranch 0 id) = false) :
    walkEnd id (.inner children) 0 = walkEnd id (children (selectBranch 0 id)) 1 :=
  walkEnd_inner goesOn

/-- `fetch` finds an item exactly when the walk ends at its leaf. -/
theorem SHAMap.fetch_eq_some {map : SHAMap} {item : SHAMapItem} (found : map.fetch id = some item) :
    ∃ type, (walkEnd id map.root 0).1 = .leaf item type ∧ item.key = id := by
  unfold SHAMap.fetch at found
  rw [walkToPointer_eq] at found
  split at found
  · rename_i leafItem type ends
    split at found
    · rename_i keyMatches
      cases found
      exact ⟨type, ends, by simpa using keyMatches⟩
    · cases found
  · cases found

theorem SHAMap.fetch_eq_none {map : SHAMap} (absent : map.fetch id = none) {item : SHAMapItem}
    {type : TNType} (ends : (walkEnd id map.root 0).1 = .leaf item type) : item.key ≠ id := by
  unfold SHAMap.fetch at absent
  rw [walkToPointer_eq, ends] at absent
  simpa using absent

/-- A walk from an inner root that ends at a leaf has left the root. -/
theorem goesOn_of_ends_leaf {children : Fin 16 → SHAMapAbstractNode} {item : SHAMapItem} {type : TNType}
    (ends : (walkEnd id (.inner children) 0).1 = .leaf item type) :
    isEmptyBranch children (selectBranch 0 id) = false := by
  cases stops : isEmptyBranch children (selectBranch 0 id) with
  | false => rfl
  | true => simp [walkEnd, stops] at ends

end ends

/-- A new leaf on a branch of a placed inner node, for an item taking that branch. -/
theorem placed_setChild_leaf {depth : Nat} {children : Fin 16 → SHAMapAbstractNode}
    (placed : Placed depth (.inner children)) (item : SHAMapItem) (type : TNType) :
    Placed depth (.inner (setChild children (selectBranch depth item.key) (.leaf item type))) :=
  placed_setChild placed (fun x member => by rw [entries_leaf, List.mem_singleton] at member; rw [member]) trivial

theorem rooted_isEmpty {node : SHAMapAbstractNode} (rooted : Rooted node) : node.isEmpty = false := by
  cases node with
  | empty => exact rooted.elim
  | leaf item type => exact rooted.elim
  | inner children => rfl

/-! ## The removed leaf -/

/-- Removing the leaf where the walk ends takes exactly its item away. -/
theorem entries_removePath_perm {id : Uint256} {type oldType : TNType} {node : SHAMapAbstractNode}
    {depth endDepth : Nat} {old : SHAMapItem}
    (ends : walkEnd id node depth = (.leaf old oldType, endDepth)) :
    (entries (removePath id type node depth) ++ [old]).Perm (entries node) := by
  induction node generalizing depth with
  | empty => cases ends
  | leaf item leafType =>
    simp only [walkEnd, Prod.mk.injEq, leaf.injEq] at ends
    obtain ⟨⟨rfl, rfl⟩, rfl⟩ := ends
    exact List.Perm.refl _
  | inner children ih =>
    by_cases stops : isEmptyBranch children (selectBranch depth id) = true
    · simp [walkEnd, stops] at ends
    · have goesOn : isEmptyBranch children (selectBranch depth id) = false := by simpa using stops
      rw [walkEnd_inner goesOn] at ends
      rw [removePath, entries_collapse]
      have branch := entries_setChild_perm children (selectBranch depth id)
        (removePath id type (children (selectBranch depth id)) (depth + 1))
      have below := ih _ ends
      -- Cancel the new branch from both sides.
      refine (List.perm_append_right_iff
        (entries (removePath id type (children (selectBranch depth id)) (depth + 1)))).mp ?_
      calc List.Perm _ (entries (.inner (setChild children (selectBranch depth id)
              (removePath id type (children (selectBranch depth id)) (depth + 1)))) ++
            (entries (removePath id type (children (selectBranch depth id)) (depth + 1)) ++ [old])) := by
            simpa only [List.append_assoc] using List.perm_append_comm.append_left _
        List.Perm _ _ := (below.append_left _).trans branch

namespace SHAMap

variable {type : TNType} {map : SHAMap}

/-! ## Adding an item -/

theorem addGiveItem_present (canonical : map.Canonical type) {item old : SHAMapItem}
    (isTransaction hasMeta : Bool) (found : map.fetch item.key = some old) :
    map.addGiveItem item isTransaction hasMeta = some (false, map) := by
  obtain ⟨oldType, ends, sameKey⟩ := fetch_eq_some found
  rw [addGiveItem_eq (rooted_isEmpty canonical.rooted)]
  rcases walked : walkEnd item.key map.root 0 with ⟨node, depth⟩
  rw [walked] at ends
  cases ends
  simp [sameKey]

/-- The node `addGiveItem` puts at the end of its walk, for an absent key. -/
theorem addGiveItem_absent (canonical : map.Canonical type) {item : SHAMapItem}
    {isTransaction hasMeta : Bool} (typed : leafType isTransaction hasMeta = type)
    (absent : map.fetch item.key = none) :
    ∃ map', map.addGiveItem item isTransaction hasMeta = some (true, map') ∧
      map'.Canonical type ∧ (entries map'.root).Perm (entries map.root ++ [item]) := by
  obtain ⟨children, root⟩ : ∃ children, map.root = .inner children := by
    cases here : map.root with
    | inner children => exact ⟨children, rfl⟩
    | _ => have := canonical.rooted; rw [here] at this; exact this.elim
  have rooted := canonical.rooted
  have placedEnd : Placed (walkEnd item.key map.root 0).2 (walkEnd item.key map.root 0).1 :=
    placed_walkEnd canonical.placed
  have onPathEnd : ∀ x ∈ entries (walkEnd item.key map.root 0).1, ∀ j, 0 ≤ j →
      j < (walkEnd item.key map.root 0).2 → selectBranch j x.key = selectBranch j item.key :=
    walkEnd_branches canonical.placed
  have compactEnd : ∀ goesOn : isEmptyBranch children (selectBranch 0 item.key) = false,
      Compact (walkEnd item.key map.root 0).1 := fun goesOn => by
    rw [root, walkEnd_root goesOn]
    exact compact_walkEnd ((root ▸ rooted : Rooted (.inner children)) _)
  have uniformEnd : Uniform type (walkEnd item.key map.root 0).1 := uniform_walkEnd canonical.uniform
  have shrinks := entries_replaceEnd_perm item.key
  rw [addGiveItem_eq (rooted_isEmpty rooted)]
  rcases walked : walkEnd item.key map.root 0 with ⟨node, depth⟩
  rw [walked] at placedEnd onPathEnd compactEnd uniformEnd
  cases node with
  | empty =>
    have present : (walkEnd item.key map.root 0).1.isEmpty = false :=
      walkEnd_isEmpty (rooted_isEmpty rooted) 0
    rw [walked] at present
    cases present
  | leaf other otherType =>
    have differs : other.key ≠ item.key := fetch_eq_none absent (by rw [walked])
    -- The walk left the root, since it ends at a leaf.
    have goesOn : isEmptyBranch children (selectBranch 0 item.key) = false := by
      by_contra stops
      rw [root] at walked
      simp [walkEnd, stops] at walked
    -- The two keys part at some nibble at or below the leaf.
    have parts : ∃ j, depth ≤ j ∧ j < depth + (64 - depth) ∧
        selectBranch j item.key ≠ selectBranch j other.key := by
      obtain ⟨j, inside, nibbles⟩ : ∃ j < 64, nibble other.key j ≠ nibble item.key j := by
        by_contra same
        exact differs (eq_of_nibble_eq fun j inside =>
          Decidable.byContradiction fun unequal => same ⟨j, inside, unequal⟩)
      have sameNibble : selectBranch j item.key = selectBranch j other.key →
          nibble other.key j = nibble item.key j := fun same => by
        rw [← selectBranch_val inside, ← selectBranch_val inside, same]
      refine ⟨j, ?_, by omega, fun same => nibbles (sameNibble same)⟩
      by_contra above
      exact nibbles (sameNibble (onPathEnd other (by simp) j (Nat.zero_le _) (by omega)).symm)
    obtain ⟨chain, built⟩ := Option.isSome_iff_exists.mp
      (splitChain_isSome item other (leafType isTransaction hasMeta) parts)
    have holds := entries_splitChain_perm built
    dsimp only
    rw [if_neg differs, built, Option.map_some]
    refine ⟨_, rfl, ⟨?_, ?_, ?_⟩, ?_⟩
    · have grows : (entries (walkEnd item.key (.inner children) 0).1).length ≤ (entries chain).length := by
        rw [← root, walked, holds.length_eq]
        simp
      rw [root] at rooted ⊢
      exact rooted_replaceEnd rooted goesOn (compact_splitChain built) grows
    · refine placed_replaceEnd canonical.placed (by rw [walked]; exact placed_splitChain built) ?_
      rw [walked]
      intro x member j low high
      rcases List.mem_pair.mp (holds.subset member) with rfl | rfl
      · rfl
      · exact onPathEnd x (by simp) j low high
    · exact uniform_replaceEnd canonical.uniform (typed ▸ uniform_splitChain built)
    · -- The leaf's item is in the chain, with the new one.
      have replaced := shrinks chain map.root 0
      rw [walked, entries_leaf] at replaced
      refine (List.perm_append_right_iff [other]).mp (replaced.trans ?_)
      simpa only [List.append_assoc, List.singleton_append] using holds.append_left (entries map.root)
  | inner below =>
    have stops : isEmptyBranch below (selectBranch (walkEnd item.key map.root 0).2 item.key) = true :=
      walkEnd_stops (by rw [walked])
    rw [walked] at stops
    -- The new leaf goes on the empty branch of the node where the walk ends.
    have added := entries_setChild_perm below (selectBranch depth item.key) (.leaf item type)
    have emptyBranch : entries (below (selectBranch depth item.key)) = [] := by
      cases branch : below (selectBranch depth item.key) <;> simp_all [isEmptyBranch, isEmpty]
    rw [emptyBranch, List.append_nil, entries_leaf] at added
    dsimp only
    rw [typed]
    refine ⟨_, rfl, ⟨?_, ?_, ?_⟩, ?_⟩
    · by_cases atRoot : isEmptyBranch children (selectBranch 0 item.key) = true
      · -- The walk stopped at the root, which takes the leaf itself.
        have ended := walked
        rw [root] at ended
        simp only [walkEnd, atRoot, if_true, Prod.mk.injEq, inner.injEq] at ended
        obtain ⟨rfl, rfl⟩ := ended
        rw [root] at rooted ⊢
        simp only [replaceEnd, atRoot, if_true]
        exact rooted_setChild rooted trivial
      · have goesOn : isEmptyBranch children (selectBranch 0 item.key) = false := by simpa using atRoot
        have compactBelow := compactEnd goesOn
        have grows : (entries (walkEnd item.key (.inner children) 0).1).length ≤
            (entries (.inner (setChild below (selectBranch depth item.key) (.leaf item type)))).length := by
          rw [← root, walked, added.length_eq]
          simp
        rw [root] at rooted ⊢
        refine rooted_replaceEnd rooted goesOn ⟨?_, fun i => ?_⟩ grows
        · rw [added.length_eq, List.length_append]
          have := compactBelow.1
          omega
        · by_cases same : i = selectBranch depth item.key
          · subst same
            rw [setChild_self]
            trivial
          · rw [setChild_ne _ _ same]
            exact compactBelow.2 i
    · refine placed_replaceEnd canonical.placed
        (by rw [walked]; exact placed_setChild_leaf placedEnd item type) ?_
      rw [walked]
      intro x member j low high
      rcases List.mem_append.mp (added.subset member) with old | new
      · exact onPathEnd x old j low high
      · rw [List.mem_singleton.mp new]
    · refine uniform_replaceEnd canonical.uniform fun i => ?_
      by_cases same : i = selectBranch depth item.key
      · subst same
        rw [setChild_self]
        rfl
      · rw [setChild_ne _ _ same]
        exact uniformEnd i
    · have replaced := shrinks (.inner (setChild below (selectBranch depth item.key) (.leaf item type)))
        map.root 0
      rw [walked] at replaced
      refine (List.perm_append_right_iff (entries (.inner below))).mp (replaced.trans ?_)
      calc List.Perm _ (entries map.root ++ (entries (.inner below) ++ [item])) := added.append_left _
        List.Perm _ _ := by
          simpa only [List.append_assoc] using List.perm_append_comm.append_left (entries map.root)

/-! ## Deleting an item -/

/-- `delItem` of an absent key refuses and keeps the map. -/
theorem delItem_absent (canonical : map.Canonical type) {id : Uint256} (absent : map.fetch id = none) :
    map.delItem id = some (false, map) := by
  obtain ⟨children, root⟩ := canonical.exists_root
  rw [delItem_eq root]
  rcases walked : walkEnd id map.root 0 with ⟨_ | ⟨item, itemType⟩ | below, depth⟩
  · rfl
  · dsimp only
    rw [if_pos (fetch_eq_none absent (by rw [walked]))]
  · rfl

/-- `delItem` of a present key takes its item away, and the map stays canonical: the branch of
the root towards the key is what `removePath` leaves of it. -/
theorem delItem_present (canonical : map.Canonical type) {id : Uint256} {old : SHAMapItem}
    (found : map.fetch id = some old) :
    ∃ map', map.delItem id = some (true, map') ∧ map'.Canonical type ∧
      (entries map'.root ++ [old]).Perm (entries map.root) := by
  obtain ⟨oldType, ends, sameKey⟩ := fetch_eq_some found
  obtain ⟨children, root⟩ := canonical.exists_root
  -- the deleted leaf has the map's type, which `removePath` gives a collapsed leaf
  have typed : oldType = type := by
    have uniformEnd : Uniform type (walkEnd id map.root 0).1 := uniform_walkEnd canonical.uniform
    rwa [ends] at uniformEnd
  subst typed
  have placed := canonical.placed
  have rooted := canonical.rooted
  have uniform := canonical.uniform
  rw [root] at ends placed rooted uniform
  have goesOn := goesOn_of_ends_leaf ends
  rw [walkEnd_root goesOn] at ends
  have endsAt : walkEnd id (children (selectBranch 0 id)) 1 =
      (.leaf old oldType, (walkEnd id (children (selectBranch 0 id)) 1).2) := Prod.ext ends rfl
  rw [delItem_eq root, root, walkEnd_root goesOn, endsAt]
  dsimp only
  rw [if_neg (not_not.mpr sameKey)]
  have branch := (placed_inner.mp placed) (selectBranch 0 id)
  refine ⟨_, rfl, ⟨?_, ?_, ?_⟩, ?_⟩
  · exact rooted_setChild rooted (compact_removePath (rooted _))
  · exact placed_setChild placed (fun item member => branch.1 item (mem_entries_removePath member))
      (placed_removePath branch.2)
  · exact uniform_setChild uniform (uniform_removePath (uniform _))
  · -- the branch loses the leaf: cancel what is left of it from both sides
    have removed : (entries (removePath id oldType (children (selectBranch 0 id)) 1) ++ [old]).Perm
        (entries (children (selectBranch 0 id))) := entries_removePath_perm endsAt
    have changed := entries_setChild_perm children (selectBranch 0 id)
      (removePath id oldType (children (selectBranch 0 id)) 1)
    refine (List.perm_append_right_iff (entries (removePath id oldType (children (selectBranch 0 id)) 1))).mp ?_
    calc List.Perm _ (entries (.inner (setChild children (selectBranch 0 id)
            (removePath id oldType (children (selectBranch 0 id)) 1))) ++
          (entries (removePath id oldType (children (selectBranch 0 id)) 1) ++ [old])) := by
          simpa only [List.append_assoc] using List.perm_append_comm.append_left _
      List.Perm _ _ := (removed.append_left _).trans changed

/-! ## Replacing an item -/

/-- `updateGiveItem` of an absent key refuses and keeps the map. -/
theorem updateGiveItem_absent (canonical : map.Canonical type) {item : SHAMapItem} (isTransaction hasMeta : Bool)
    (absent : map.fetch item.key = none) : map.updateGiveItem item isTransaction hasMeta = some (false, map) := by
  rw [updateGiveItem_eq (rooted_isEmpty canonical.rooted)]
  rcases walked : walkEnd item.key map.root 0 with ⟨_ | ⟨old, oldType⟩ | below, depth⟩
  · rfl
  · dsimp only
    rw [if_pos (fetch_eq_none absent (by rw [walked]))]
  · rfl

/-- `updateGiveItem` of a present key puts the new item in the place of the old, and the map
stays canonical. -/
theorem updateGiveItem_present (canonical : map.Canonical type) {item old : SHAMapItem}
    {isTransaction hasMeta : Bool} (typed : leafType isTransaction hasMeta = type)
    (found : map.fetch item.key = some old) :
    ∃ map', map.updateGiveItem item isTransaction hasMeta = some (true, map') ∧ map'.Canonical type ∧
      (entries map'.root ++ [old]).Perm (entries map.root ++ [item]) := by
  obtain ⟨oldType, ends, sameKey⟩ := fetch_eq_some found
  obtain ⟨children, root⟩ := canonical.exists_root
  have goesOn : isEmptyBranch children (selectBranch 0 item.key) = false :=
    goesOn_of_ends_leaf (by rw [← root]; exact ends)
  have replaced := entries_replaceEnd_perm item.key (.leaf item type) map.root 0
  rw [ends, entries_leaf] at replaced
  have grows : (entries (walkEnd item.key (.inner children) 0).1).length ≤ (entries (.leaf item type)).length := by
    rw [← root, ends]
    rfl
  have rooted := canonical.rooted
  rw [root] at rooted
  rw [updateGiveItem_eq (rooted_isEmpty canonical.rooted)]
  rcases walked : walkEnd item.key map.root 0 with ⟨node, depth⟩
  rw [walked] at ends
  cases ends
  dsimp only
  rw [if_neg (not_not.mpr sameKey), typed]
  refine ⟨_, rfl, ⟨?_, ?_, ?_⟩, replaced⟩
  · rw [root]
    exact rooted_replaceEnd rooted goesOn trivial grows
  · exact placed_replaceEnd canonical.placed trivial fun x member j _ _ => by
      rw [List.mem_singleton.mp member]
  · exact uniform_replaceEnd canonical.uniform rfl

end SHAMap

end RadardFormal.Shamap
