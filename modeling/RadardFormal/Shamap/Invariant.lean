import RadardFormal.Shamap.Paths
import RadardFormal.Support.Concat

/-!
# The shape of a SHAMap

What every map built by `addGiveItem`, `delItem` and `updateGiveItem` keeps:

* `Placed`: each item under a branch of an inner node takes that branch;
* `Compact`: each inner node below the root has at least two items under it;
* `Uniform`: every leaf has the one type the map is built with.

Under `Placed`, `walkToPointer` finds exactly the item with the key, and the items of a
tree, branch by branch, are in strictly increasing key order.  Each operation keeps the
three properties and changes the items of the tree as a finite map would.
-/

namespace RadardFormal.Shamap

open RadardFormal.Protocol RadardFormal.Support SHAMapAbstractNode

/-! ## The items of a tree -/

section entries

@[simp] theorem entries_empty : entries .empty = [] := rfl

@[simp] theorem entries_leaf (item : SHAMapItem) (type : TNType) : entries (.leaf item type) = [item] :=
  rfl

@[simp] theorem entries_emptyInner : entries (.inner fun _ => .empty) = [] := by
  simp [entries]

@[simp] theorem mem_entries_inner {children : Fin 16 → SHAMapAbstractNode} {item : SHAMapItem} :
    item ∈ entries (.inner children) ↔ ∃ i, item ∈ entries (children i) := by
  simp [entries]

/-- Setting one branch changes the items of an inner node by the items of that branch. -/
theorem entries_setChild_perm (children : Fin 16 → SHAMapAbstractNode) (m : Fin 16)
    (child : SHAMapAbstractNode) :
    (entries (.inner (setChild children m child)) ++ entries (children m)).Perm
      (entries (.inner children) ++ entries child) := by
  have blocks := Concat.flatMap_update_perm (List.nodup_finRange 16) (List.mem_finRange m)
    (fun i => entries (children i)) (entries child)
  have pointwise : (fun i => entries (setChild children m child i)) =
      Function.update (fun i => entries (children i)) m (entries child) := by
    funext i
    by_cases same : i = m
    · subst same
      simp
    · simp [same]
  simp only [entries, pointwise]
  exact blocks

/-- The items of an inner node whose only branch is `i` are those of the branch. -/
theorem entries_of_branches {children : Fin 16 → SHAMapAbstractNode} {i : Fin 16}
    (only : branches children = [i]) : entries (.inner children) = entries (children i) := by
  have others : ∀ j ∈ List.finRange 16, j ≠ i → ∀ x ∈ entries (children j), (fun _ => true) x = false := by
    intro j _ differs x member
    have absent : j ∉ branches children := by simp [only, differs]
    simp only [branches, List.mem_filter, List.mem_finRange, true_and, Bool.not_eq_true'] at absent
    simp [isEmptyBranch] at absent
    cases found : children j <;> simp_all [isEmpty, entries]
  have whole := Concat.filter_flatMap_of_only (List.nodup_finRange 16) (List.mem_finRange i)
    (fun j => entries (children j)) (fun _ => true) others
  simpa [entries] using whole

/-- An inner node with no branch has no items. -/
theorem entries_of_no_branches {children : Fin 16 → SHAMapAbstractNode}
    (none : getBranchCount children = 0) : entries (.inner children) = [] := by
  simp only [getBranchCount, branches, List.length_eq_zero_iff, List.filter_eq_nil_iff,
    List.mem_finRange, true_implies, Bool.not_eq_true', isEmptyBranch] at none
  simp only [entries, List.flatMap_eq_nil_iff, List.mem_finRange, true_implies]
  intro i
  have emptyBranch := none i
  cases found : children i with
  | empty => rfl
  | leaf item type => simp [found, isEmpty] at emptyBranch
  | inner below => simp [found, isEmpty] at emptyBranch

/-- `onlyBelow` finds an item only under a node that holds just that item. -/
theorem entries_of_onlyBelow {node : SHAMapAbstractNode} {item : SHAMapItem}
    (found : onlyBelow node = some item) : entries node = [item] := by
  induction node with
  | empty => cases found
  | leaf leafItem type =>
    cases found
    rfl
  | inner children ih =>
    unfold onlyBelow at found
    split at found
    · rename_i i only
      rw [entries_of_branches only]
      exact ih i found
    · cases found

/-- What `delItem` leaves of a node holds the node's items. -/
theorem entries_collapse (type : TNType) (children : Fin 16 → SHAMapAbstractNode) :
    entries (collapse type children) = entries (.inner children) := by
  unfold collapse
  split
  · rw [entries_of_no_branches ‹_›]
    rfl
  · split
    · split
      · rename_i item found
        rw [entries_of_onlyBelow found]
        rfl
      · rfl
    · rfl

/-- Replacing the end of a walk changes the items of a tree by those of the end. -/
theorem entries_replaceEnd_perm (id : Uint256) (x : SHAMapAbstractNode) (node : SHAMapAbstractNode)
    (depth : Nat) :
    (entries (replaceEnd id x node depth) ++ entries (walkEnd id node depth).1).Perm
      (entries node ++ entries x) := by
  induction node generalizing depth with
  | empty => exact List.perm_append_comm
  | leaf item type => exact List.perm_append_comm
  | inner children ih =>
    by_cases stops : isEmptyBranch children (selectBranch depth id) = true
    · simp only [replaceEnd, walkEnd, stops, if_true]
      exact List.perm_append_comm
    · have goesOn : isEmptyBranch children (selectBranch depth id) = false := by simpa using stops
      rw [replaceEnd_inner goesOn, walkEnd_inner goesOn]
      -- The branch changes as the subtree below does; cancel the old branch.
      have branch := entries_setChild_perm children (selectBranch depth id)
        (replaceEnd id x (children (selectBranch depth id)) (depth + 1))
      have below := ih (selectBranch depth id) (depth + 1)
      refine (List.perm_append_right_iff (entries (children (selectBranch depth id)))).mp ?_
      calc List.Perm _ (entries (.inner (setChild children (selectBranch depth id)
              (replaceEnd id x (children (selectBranch depth id)) (depth + 1)))) ++
            entries (children (selectBranch depth id)) ++
            entries (walkEnd id (children (selectBranch depth id)) (depth + 1)).1) := by
            simpa only [List.append_assoc] using List.perm_append_comm.append_left _
        List.Perm _ (entries (.inner children) ++ entries (replaceEnd id x
            (children (selectBranch depth id)) (depth + 1)) ++
            entries (walkEnd id (children (selectBranch depth id)) (depth + 1)).1) :=
            branch.append_right _
        List.Perm _ (entries (.inner children) ++ (entries (children (selectBranch depth id)) ++
            entries x)) := by
            simpa only [List.append_assoc] using below.append_left _
        List.Perm _ _ := by
            simpa only [List.append_assoc] using (List.perm_append_comm.append_left _)

/-- `removePath` keeps only items of the node. -/
theorem mem_entries_removePath {id : Uint256} {type : TNType} {node : SHAMapAbstractNode}
    {depth : Nat} {item : SHAMapItem} (kept : item ∈ entries (removePath id type node depth)) :
    item ∈ entries node := by
  induction node generalizing depth with
  | empty => cases kept
  | leaf leafItem leafType => cases kept
  | inner children ih =>
    rw [removePath, entries_collapse, mem_entries_inner] at kept
    obtain ⟨i, member⟩ := kept
    rw [mem_entries_inner]
    by_cases same : i = selectBranch depth id
    · subst same
      exact ⟨_, ih _ (by simpa using member)⟩
    · exact ⟨i, by simpa [same] using member⟩

/-- The two leaves at the end of the split hold the two items. -/
theorem entries_twoLeaves_perm {depth : Nat} {item other : SHAMapItem} (type : TNType)
    (parted : selectBranch depth item.key ≠ selectBranch depth other.key) :
    (entries (twoLeaves depth item other type)).Perm [item, other] := by
  have first := entries_setChild_perm (fun _ => .empty) (selectBranch depth item.key) (.leaf item type)
  have second := entries_setChild_perm
    (setChild (fun _ => .empty) (selectBranch depth item.key) (.leaf item type))
    (selectBranch depth other.key) (.leaf other type)
  rw [setChild_ne _ _ (Ne.symm parted)] at second
  simp only [entries_empty, entries_leaf, entries_emptyInner, List.append_nil, List.nil_append] at first second
  unfold twoLeaves
  exact second.trans (first.append_right [other])

/-- The chain of `splitChain` holds the two items. -/
theorem entries_splitChain_perm {item other : SHAMapItem} {type : TNType} {fuel depth : Nat}
    {chain : SHAMapAbstractNode} (built : splitChain item other type fuel depth = some chain) :
    (entries chain).Perm [item, other] := by
  induction fuel generalizing depth chain with
  | zero => cases built
  | succ fuel ih =>
    unfold splitChain at built
    split at built
    · obtain ⟨below, belowBuilt, rfl⟩ := Option.map_eq_some_iff.mp built
      have single := entries_setChild_perm (fun _ => .empty) (selectBranch depth item.key) below
      simp only [entries_empty, entries_emptyInner, List.nil_append, List.append_nil] at single
      exact single.trans (ih belowBuilt)
    · cases built
      exact entries_twoLeaves_perm type ‹_›

end entries

/-! ## The invariant -/

/-- Each item under a branch of an inner node at `depth` takes that branch, at every level. -/
def Placed : Nat → SHAMapAbstractNode → Prop
  | depth, .inner children => ∀ i, (∀ item ∈ entries (children i), selectBranch depth item.key = i) ∧
      Placed (depth + 1) (children i)
  | _, _ => True

/-- Every inner node holds at least two items. -/
def Compact : SHAMapAbstractNode → Prop
  | .inner children => 2 ≤ (entries (.inner children)).length ∧ ∀ i, Compact (children i)
  | _ => True

/-- Every leaf has the type `type`. -/
def Uniform (type : TNType) : SHAMapAbstractNode → Prop
  | .leaf _ leafType => leafType = type
  | .inner children => ∀ i, Uniform type (children i)
  | .empty => True

/-- A root: an inner node whose branches are compact. -/
def Rooted : SHAMapAbstractNode → Prop
  | .inner children => ∀ i, Compact (children i)
  | _ => False

@[simp] theorem placed_inner {depth : Nat} {children : Fin 16 → SHAMapAbstractNode} :
    Placed depth (.inner children) ↔ ∀ i, (∀ item ∈ entries (children i),
      selectBranch depth item.key = i) ∧ Placed (depth + 1) (children i) := Iff.rfl

@[simp] theorem placed_leaf {depth : Nat} {item : SHAMapItem} {type : TNType} :
    Placed depth (.leaf item type) := trivial

@[simp] theorem placed_empty {depth : Nat} : Placed depth .empty := trivial

@[simp] theorem compact_inner {children : Fin 16 → SHAMapAbstractNode} :
    Compact (.inner children) ↔ 2 ≤ (entries (.inner children)).length ∧ ∀ i, Compact (children i) :=
  Iff.rfl

@[simp] theorem uniform_inner {type : TNType} {children : Fin 16 → SHAMapAbstractNode} :
    Uniform type (.inner children) ↔ ∀ i, Uniform type (children i) := Iff.rfl

/-! ## Setting one branch -/

section setChild

variable {children : Fin 16 → SHAMapAbstractNode} {m : Fin 16} {child : SHAMapAbstractNode}

/-- A branch set to a placed node whose items take that branch leaves an inner node placed. -/
theorem placed_setChild {depth : Nat} (placed : Placed depth (.inner children))
    (taken : ∀ item ∈ entries child, selectBranch depth item.key = m) (placedChild : Placed (depth + 1) child) :
    Placed depth (.inner (setChild children m child)) :=
  forall_setChild (P := fun i node => (∀ item ∈ entries node, selectBranch depth item.key = i) ∧
    Placed (depth + 1) node) ⟨taken, placedChild⟩ fun i _ => (placed_inner.mp placed) i

/-- A branch set to a compact node leaves a root a root. -/
theorem rooted_setChild (rooted : Rooted (.inner children)) (compact : Compact child) :
    Rooted (.inner (setChild children m child)) :=
  forall_setChild (P := fun _ node => Compact node) compact fun i _ => rooted i

theorem uniform_setChild {type : TNType} (uniform : Uniform type (.inner children)) (uniformChild : Uniform type child) :
    Uniform type (.inner (setChild children m child)) :=
  forall_setChild (P := fun _ node => Uniform type node) uniformChild fun i _ => uniform i

end setChild

section placed

variable {id : Uint256}

/-- The items at the end of a walk are items of the tree. -/
theorem mem_entries_walkEnd {node : SHAMapAbstractNode} {depth : Nat} {item : SHAMapItem}
    (member : item ∈ entries (walkEnd id node depth).1) : item ∈ entries node := by
  induction node generalizing depth with
  | empty => exact member
  | leaf leafItem type => exact member
  | inner children ih =>
    unfold walkEnd at member
    split at member
    · exact member
    · exact mem_entries_inner.mpr ⟨_, ih _ member⟩

/-- The walk goes down, never up. -/
theorem le_walkEnd_depth (node : SHAMapAbstractNode) (depth : Nat) : depth ≤ (walkEnd id node depth).2 := by
  induction node generalizing depth with
  | empty => exact Nat.le_refl _
  | leaf item type => exact Nat.le_refl _
  | inner children ih =>
    unfold walkEnd
    split
    · exact Nat.le_refl _
    · exact Nat.le_of_succ_le (ih _ _)

/-- The node where a walk ends is placed at its depth. -/
theorem placed_walkEnd {node : SHAMapAbstractNode} {depth : Nat} (placed : Placed depth node) :
    Placed (walkEnd id node depth).2 (walkEnd id node depth).1 := by
  induction node generalizing depth with
  | empty => trivial
  | leaf item type => trivial
  | inner children ih =>
    unfold walkEnd
    split
    · exact placed
    · exact ih _ ((placed_inner.mp placed) _).2

/-- The items at the end of a walk took the walk's branches on the way down. -/
theorem walkEnd_branches {node : SHAMapAbstractNode} {depth : Nat} (placed : Placed depth node) :
    ∀ item ∈ entries (walkEnd id node depth).1, ∀ j, depth ≤ j → j < (walkEnd id node depth).2 →
      selectBranch j item.key = selectBranch j id := by
  induction node generalizing depth with
  | empty => intro _ _ j low high; exact absurd high (by simp [walkEnd]; omega)
  | leaf item type => intro _ _ j low high; exact absurd high (by simp [walkEnd]; omega)
  | inner children ih =>
    by_cases stops : isEmptyBranch children (selectBranch depth id) = true
    · intro _ _ j low high
      simp [walkEnd, stops] at high
      omega
    · have goesOn : isEmptyBranch children (selectBranch depth id) = false := by simpa using stops
      rw [walkEnd_inner goesOn]
      intro item member j low high
      have branch := ((placed_inner.mp placed) (selectBranch depth id))
      rcases Nat.lt_or_eq_of_le low with deeper | rfl
      · exact ih _ branch.2 item member j deeper high
      · -- At the node itself: the end lies in the branch towards the key.
        exact branch.1 item (mem_entries_walkEnd member)

/-- Replacing the end of a walk by a placed node whose items take the walk's branches keeps
the tree placed. -/
theorem placed_replaceEnd {node x : SHAMapAbstractNode} {depth : Nat} (placed : Placed depth node)
    (placedEnd : Placed (walkEnd id node depth).2 x)
    (onPath : ∀ item ∈ entries x, ∀ j, depth ≤ j → j < (walkEnd id node depth).2 →
      selectBranch j item.key = selectBranch j id) :
    Placed depth (replaceEnd id x node depth) := by
  induction node generalizing depth with
  | empty => exact placedEnd
  | leaf item type => exact placedEnd
  | inner children ih =>
    by_cases stops : isEmptyBranch children (selectBranch depth id) = true
    · simp only [walkEnd, stops, if_true] at placedEnd
      simpa [replaceEnd, stops] using placedEnd
    · have goesOn : isEmptyBranch children (selectBranch depth id) = false := by simpa using stops
      rw [walkEnd_inner goesOn] at placedEnd onPath
      rw [replaceEnd_inner goesOn]
      have deeper : depth + 1 ≤ (walkEnd id (children (selectBranch depth id)) (depth + 1)).2 :=
        le_walkEnd_depth _ _
      refine placed_setChild placed (fun item member => ?_) (ih _ ((placed_inner.mp placed) _).2 placedEnd
        fun item member j low high => onPath item member j (by omega) high)
      -- An item of the new branch was in the old branch or comes from `x`.
      have origin := (entries_replaceEnd_perm id x (children (selectBranch depth id)) (depth + 1)).subset
        (List.mem_append_left _ member)
      rcases List.mem_append.mp origin with old | new
      · exact ((placed_inner.mp placed) _).1 item old
      · exact onPath item new depth (Nat.le_refl _) (by omega)

/-- The node `collapse` leaves of a placed inner node is placed. -/
theorem placed_collapse {type : TNType} {children : Fin 16 → SHAMapAbstractNode} {depth : Nat}
    (placed : Placed depth (.inner children)) : Placed depth (collapse type children) := by
  unfold collapse
  split
  · trivial
  · split
    · split
      · trivial
      · exact placed
    · exact placed

/-- Removing the leaf of `id` keeps a tree placed. -/
theorem placed_removePath {type : TNType} {node : SHAMapAbstractNode} {depth : Nat}
    (placed : Placed depth node) : Placed depth (removePath id type node depth) := by
  induction node generalizing depth with
  | empty => trivial
  | leaf item leafType => trivial
  | inner children ih =>
    apply placed_collapse
    exact placed_setChild placed (fun item member => ((placed_inner.mp placed) _).1 item (mem_entries_removePath member))
      (ih _ ((placed_inner.mp placed) _).2)

/-- The chain of `splitChain` is placed, its two items on their branches. -/
theorem placed_splitChain {item other : SHAMapItem} {type : TNType} {fuel depth : Nat}
    {chain : SHAMapAbstractNode} (built : splitChain item other type fuel depth = some chain) :
    Placed depth chain := by
  induction fuel generalizing depth chain with
  | zero => cases built
  | succ fuel ih =>
    unfold splitChain at built
    split at built
    · rename_i shared
      obtain ⟨below, belowBuilt, rfl⟩ := Option.map_eq_some_iff.mp built
      have emptyPlaced : Placed depth (.inner fun _ => .empty) := fun _ => ⟨fun x member => (by cases member), trivial⟩
      refine placed_setChild emptyPlaced (fun x member => ?_) (ih belowBuilt)
      -- Both items take the branch they share.
      rcases List.mem_pair.mp ((entries_splitChain_perm belowBuilt).subset member) with rfl | rfl
      · rfl
      · exact shared.symm
    · rename_i parted
      cases built
      rw [twoLeaves, placed_inner]
      intro i
      by_cases second : i = selectBranch depth other.key
      · subst second
        simp
      · by_cases first : i = selectBranch depth item.key
        · subst first
          simp [setChild_ne _ _ parted]
        · simp [setChild_ne _ _ second, setChild_ne _ _ first]

end placed

/-! ## Compactness and the type of the leaves -/

section compact

variable {id : Uint256}

/-- A compact node that is not an empty branch holds an item. -/
theorem one_le_length_entries {node : SHAMapAbstractNode} (compact : Compact node)
    (present : node.isEmpty = false) : 1 ≤ (entries node).length := by
  cases node with
  | empty => cases present
  | leaf item type => simp
  | inner children => exact Nat.le_of_succ_le compact.1

/-- Replacing the end of a walk by a compact node with as many items keeps a compact tree
compact. -/
theorem compact_replaceEnd {node x : SHAMapAbstractNode} {depth : Nat} (compact : Compact node)
    (compactEnd : Compact x) (grows : (entries (walkEnd id node depth).1).length ≤ (entries x).length) :
    Compact (replaceEnd id x node depth) := by
  induction node generalizing depth with
  | empty => exact compactEnd
  | leaf item type => exact compactEnd
  | inner children ih =>
    by_cases stops : isEmptyBranch children (selectBranch depth id) = true
    · simpa [replaceEnd, stops] using compactEnd
    · have goesOn : isEmptyBranch children (selectBranch depth id) = false := by simpa using stops
      rw [walkEnd_inner goesOn] at grows
      rw [replaceEnd_inner goesOn, compact_inner]
      -- The branch has at least as many items as before, so the node too.
      have branch := (entries_setChild_perm children (selectBranch depth id)
        (replaceEnd id x (children (selectBranch depth id)) (depth + 1))).length_eq
      have below := (entries_replaceEnd_perm id x (children (selectBranch depth id)) (depth + 1)).length_eq
      simp only [List.length_append] at branch below
      exact ⟨by have := (compact_inner.mp compact).1; omega,
        rooted_setChild (compact_inner.mp compact).2 (ih _ ((compact_inner.mp compact).2 _) grows)⟩

/-- The same below the root: a walk that leaves the root keeps it a root. -/
theorem rooted_replaceEnd {children : Fin 16 → SHAMapAbstractNode} {x : SHAMapAbstractNode}
    (rooted : Rooted (.inner children)) (goesOn : isEmptyBranch children (selectBranch 0 id) = false)
    (compactEnd : Compact x)
    (grows : (entries (walkEnd id (.inner children) 0).1).length ≤ (entries x).length) :
    Rooted (replaceEnd id x (.inner children) 0) := by
  rw [walkEnd_inner goesOn] at grows
  rw [replaceEnd_inner goesOn]
  exact rooted_setChild rooted (compact_replaceEnd (rooted _) compactEnd grows)

/-- An inner node over compact branches has an item for each non-empty branch. -/
theorem getBranchCount_le_length {children : Fin 16 → SHAMapAbstractNode}
    (compact : ∀ i, Compact (children i)) :
    getBranchCount children ≤ (entries (.inner children)).length := by
  unfold getBranchCount branches
  rw [← List.countP_eq_length_filter]
  exact Concat.countP_le_length_flatMap _ _ _ fun i _ present =>
    one_le_length_entries (compact i) (by simpa [isEmptyBranch] using present)

/-- `collapse` of an inner node over compact branches is compact: a single branch over one
item becomes a leaf, and a single branch over more is an inner node holding them. -/
theorem compact_collapse {type : TNType} {children : Fin 16 → SHAMapAbstractNode}
    (compact : ∀ i, Compact (children i)) : Compact (collapse type children) := by
  have counted := getBranchCount_le_length compact
  unfold collapse
  split
  · trivial
  · split
    · rename_i one
      obtain ⟨i, only⟩ : ∃ i, branches children = [i] := List.length_eq_one_iff.mp one
      split
      · trivial
      · rename_i noItem
        -- The only branch is not a leaf, so it is an inner node with two items.
        have below : onlyBelow (children i) = none := by
          simpa [onlyBelow, only] using noItem
        have present : isEmptyBranch children i = false := by
          have member : i ∈ branches children := by simp [only]
          simpa [branches] using member
        refine ⟨?_, compact⟩
        rw [entries_of_branches only]
        cases branch : children i with
        | empty => simp [isEmptyBranch, branch, isEmpty] at present
        | leaf item leafType => simp [branch, onlyBelow] at below
        | inner grandchildren => exact (compact_inner.mp (branch ▸ compact i)).1
    · exact ⟨by omega, compact⟩

/-- Removing the leaf of `id` keeps a compact tree compact. -/
theorem compact_removePath {type : TNType} {node : SHAMapAbstractNode} {depth : Nat}
    (compact : Compact node) : Compact (removePath id type node depth) := by
  induction node generalizing depth with
  | empty => trivial
  | leaf item leafType => trivial
  | inner children ih =>
    exact compact_collapse (rooted_setChild (compact_inner.mp compact).2 (ih _ ((compact_inner.mp compact).2 _)))

/-- The chain of `splitChain` is compact: each of its inner nodes holds the two items. -/
theorem compact_splitChain {item other : SHAMapItem} {type : TNType} {fuel depth : Nat}
    {chain : SHAMapAbstractNode} (built : splitChain item other type fuel depth = some chain) :
    Compact chain := by
  induction fuel generalizing depth chain with
  | zero => cases built
  | succ fuel ih =>
    have two := (entries_splitChain_perm built).length_eq
    unfold splitChain at built
    split at built
    · obtain ⟨below, belowBuilt, rfl⟩ := Option.map_eq_some_iff.mp built
      exact ⟨by simp only [List.length_cons, List.length_nil] at two; omega,
        rooted_setChild (fun _ => trivial) (ih belowBuilt)⟩
    · cases built
      unfold twoLeaves at two
      refine ⟨by simp only [List.length_cons, List.length_nil] at two; omega, fun i => ?_⟩
      unfold setChild
      by_cases second : i = selectBranch depth other.key
      · subst second
        simp
        trivial
      · by_cases first : i = selectBranch depth item.key
        · subst first
          simp [second]
          trivial
        · simp [second, first]
          trivial

variable {type : TNType}

/-- Replacing the end of a walk by a node of uniform leaves keeps the leaves uniform. -/
theorem uniform_replaceEnd {node x : SHAMapAbstractNode} {depth : Nat} (uniform : Uniform type node)
    (uniformEnd : Uniform type x) : Uniform type (replaceEnd id x node depth) := by
  induction node generalizing depth with
  | empty => exact uniformEnd
  | leaf item leafType => exact uniformEnd
  | inner children ih =>
    unfold replaceEnd
    split
    · exact uniformEnd
    · exact uniform_setChild uniform (ih _ (uniform _))

/-- Removing a leaf with the leaves' own type keeps them uniform. -/
theorem uniform_removePath {node : SHAMapAbstractNode} {depth : Nat} (uniform : Uniform type node) :
    Uniform type (removePath id type node depth) := by
  induction node generalizing depth with
  | empty => trivial
  | leaf item leafType => trivial
  | inner children ih =>
    have below : Uniform type (.inner (setChild children (selectBranch depth id)
        (removePath id type (children (selectBranch depth id)) (depth + 1)))) :=
      uniform_setChild uniform (ih _ (uniform _))
    unfold removePath collapse
    split
    · trivial
    · split
      · split
        · rfl
        · exact below
      · exact below

/-- The chain of `splitChain` has leaves of its type only. -/
theorem uniform_splitChain {item other : SHAMapItem} {fuel depth : Nat}
    {chain : SHAMapAbstractNode} (built : splitChain item other type fuel depth = some chain) :
    Uniform type chain := by
  induction fuel generalizing depth chain with
  | zero => cases built
  | succ fuel ih =>
    unfold splitChain at built
    split at built
    · obtain ⟨below, belowBuilt, rfl⟩ := Option.map_eq_some_iff.mp built
      exact uniform_setChild (fun _ => trivial) (ih belowBuilt)
    · cases built
      intro i
      unfold setChild
      by_cases second : i = selectBranch depth other.key
      · subst second
        simp [Uniform]
      · by_cases first : i = selectBranch depth item.key
        · subst first
          simp [second, Uniform]
        · simp [second, first, Uniform]

end compact

/-! ## Finding and ordering the items -/

section order

/-- Two keys that take the same branches down to `depth` are ordered by the branch they take
there: within the key by their nibbles, and past its end no two different keys agree that
far. -/
theorem key_lt_of_branch_lt {a b : Uint256} {depth : Nat}
    (shared : ∀ j < depth, selectBranch j a = selectBranch j b)
    (less : selectBranch depth a < selectBranch depth b) : a < b := by
  by_cases inside : depth < 64
  · apply lt_of_nibble_lt inside
    · intro j below
      rw [← selectBranch_val (by omega), ← selectBranch_val (by omega), shared j below]
    · rw [← selectBranch_val inside, ← selectBranch_val inside]
      exact Fin.lt_def.mp less
  · -- Past the last nibble the keys agree everywhere, so they take the same branch.
    have same : a = b := eq_of_nibble_eq fun j below => by
      rw [← selectBranch_val below, ← selectBranch_val below, shared j (by omega)]
    subst same
    exact absurd less (lt_irrefl _)

/-- The items under a node at `depth` took the same branches above it. -/
def Shared (depth : Nat) (node : SHAMapAbstractNode) : Prop :=
  ∀ a ∈ entries node, ∀ b ∈ entries node, ∀ j < depth, selectBranch j a.key = selectBranch j b.key

theorem shared_zero (node : SHAMapAbstractNode) : Shared 0 node :=
  fun _ _ _ _ _ below => absurd below (Nat.not_lt_zero _)

/-- A branch of a placed node shares one more branch. -/
theorem Shared.branch {depth : Nat} {children : Fin 16 → SHAMapAbstractNode}
    (placed : Placed depth (.inner children)) (shared : Shared depth (.inner children)) (i : Fin 16) :
    Shared (depth + 1) (children i) := by
  intro a aMem b bMem j below
  rcases Nat.lt_succ_iff_lt_or_eq.mp below with above | rfl
  · exact shared a (mem_entries_inner.mpr ⟨i, aMem⟩) b (mem_entries_inner.mpr ⟨i, bMem⟩) j above
  · rw [((placed_inner.mp placed) i).1 a aMem, ((placed_inner.mp placed) i).1 b bMem]

/-- The items of a placed tree, branch by branch, are in strictly increasing key order. -/
theorem sorted_entries {node : SHAMapAbstractNode} {depth : Nat} (placed : Placed depth node)
    (shared : Shared depth node) : (entries node).Pairwise fun a b => a.key < b.key := by
  induction node generalizing depth with
  | empty => simp
  | leaf item type => simp
  | inner children ih =>
    unfold entries
    rw [List.pairwise_flatMap]
    refine ⟨fun i _ => ih i ((placed_inner.mp placed) i).2 (shared.branch placed i), ?_⟩
    -- Items of a lower branch come before those of a higher one.
    refine (List.pairwise_lt_finRange 16).imp fun {i j} less a aMem b bMem =>
      key_lt_of_branch_lt (shared a (mem_entries_inner.mpr ⟨i, aMem⟩) b (mem_entries_inner.mpr ⟨j, bMem⟩)) ?_
    rw [((placed_inner.mp placed) i).1 a aMem, ((placed_inner.mp placed) j).1 b bMem]
    exact less

/-- Under a placed inner node, the item with a key is in the branch the key takes. -/
theorem find?_entries_inner {depth : Nat} {children : Fin 16 → SHAMapAbstractNode}
    (placed : Placed depth (.inner children)) (id : Uint256) :
    (entries (.inner children)).find? (fun item => item.key == id) =
      (entries (children (selectBranch depth id))).find? fun item => item.key == id := by
  rw [entries]
  refine Concat.find?_flatMap_of_only (List.nodup_finRange 16)
    (List.mem_finRange (selectBranch depth id)) (fun i => entries (children i))
    (fun item => item.key == id) fun i _ differs item member => ?_
  have taken := ((placed_inner.mp placed) i).1 item member
  simp only [beq_eq_false_iff_ne]
  rintro rfl
  exact differs taken.symm

/-- Under a placed node, `walkToPointer` finds the item with the key. -/
theorem walkToPointer_eq_find {node : SHAMapAbstractNode} {depth : Nat} (placed : Placed depth node)
    (id : Uint256) :
    walkToPointer id node depth = (entries node).find? fun item => item.key == id := by
  induction node generalizing depth with
  | empty => rfl
  | leaf item type =>
    simp only [walkToPointer, entries_leaf, List.find?_cons, List.find?_nil]
    cases item.key == id <;> rfl
  | inner children ih =>
    unfold walkToPointer
    dsimp only
    rw [find?_entries_inner placed]
    split
    · rename_i stops
      cases branch : children (selectBranch depth id) <;> simp_all [isEmptyBranch, isEmpty]
    · exact ih _ ((placed_inner.mp placed) _).2

/-- The items of a branch of a placed node are the node's items that take it. -/
theorem entries_branch {depth : Nat} {children : Fin 16 → SHAMapAbstractNode}
    (placed : Placed depth (.inner children)) (i : Fin 16) :
    (entries (.inner children)).filter (fun item => selectBranch depth item.key = i) =
      entries (children i) := by
  have only := Concat.filter_flatMap_of_only (List.nodup_finRange 16) (List.mem_finRange i)
    (fun j => entries (children j)) (fun item => decide (selectBranch depth item.key = i))
    fun j _ differs item member => by
      simp [((placed_inner.mp placed) j).1 item member, differs]
  rw [entries, only, List.filter_eq_self]
  intro item member
  simp [((placed_inner.mp placed) i).1 item member]

end order

end RadardFormal.Shamap
