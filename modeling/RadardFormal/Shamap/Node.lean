import RadardFormal.Protocol.Basics
import RadardFormal.Support.Digits

/-!
# SHAMap nodes

The tree of a `SHAMap`.  An inner node (`SHAMapInnerNode`) has sixteen branches, each empty
or holding a node.  A leaf (`SHAMapTreeNode`) holds one item, a key with its data, and the
type that selects how the leaf is hashed.  A node at depth `d` sends a key down the branch
given by nibble `d` of the key (`SHAMapNodeID::selectBranch`).  The rest of a node ID, the
path to the node, is read only by assertions, so a position here is a depth.

The hash of a node is `sha512Half` of a hash prefix and the node's contents, with the digest
a parameter.  The hashes an inner node caches, and the sharing of nodes between snapshots,
are not modelled: a tree is a value.
-/

namespace RadardFormal.Shamap

open RadardFormal.Protocol RadardFormal.Support

/-! ## Items, leaves and inner nodes -/

/-- `SHAMapItem`: a key (`tag_`) and its data. -/
structure SHAMapItem where
  key : Uint256
  data : List UInt8
  deriving DecidableEq, Repr

/-- `SHAMapTreeNode::TNType` of a leaf. -/
inductive TNType where
  | tnTRANSACTION_NM
  | tnTRANSACTION_MD
  | tnACCOUNT_STATE
  deriving DecidableEq, Repr

/-- A node of the tree: `empty` is an empty branch (a null child pointer), `leaf` a
`SHAMapTreeNode` and `inner` a `SHAMapInnerNode` with its sixteen branches. -/
inductive SHAMapAbstractNode where
  | empty
  | leaf (item : SHAMapItem) (type : TNType)
  | inner (children : Fin 16 → SHAMapAbstractNode)

namespace SHAMapAbstractNode

/-- A null pointer. -/
def isEmpty : SHAMapAbstractNode → Bool
  | .empty => true
  | _ => false

/-- `SHAMapAbstractNode::isLeaf`. -/
def isLeaf : SHAMapAbstractNode → Bool
  | .leaf _ _ => true
  | _ => false

/-- `SHAMapAbstractNode::isInner`. -/
def isInner : SHAMapAbstractNode → Bool
  | .inner _ => true
  | _ => false

/-- The items under a node, branch by branch. -/
def entries : SHAMapAbstractNode → List SHAMapItem
  | .empty => []
  | .leaf item _ => [item]
  | .inner children => (List.finRange 16).flatMap fun i => entries (children i)

end SHAMapAbstractNode

open SHAMapAbstractNode

/-- `SHAMapInnerNode::isEmptyBranch`. -/
def isEmptyBranch (children : Fin 16 → SHAMapAbstractNode) (m : Fin 16) : Bool :=
  (children m).isEmpty

/-- `SHAMapInnerNode::setChild`: branch `m` holds `child`, empty for a null pointer. -/
def setChild (children : Fin 16 → SHAMapAbstractNode) (m : Fin 16) (child : SHAMapAbstractNode) :
    Fin 16 → SHAMapAbstractNode :=
  Function.update children m child

/-- The branches that are not empty, in order. -/
def branches (children : Fin 16 → SHAMapAbstractNode) : List (Fin 16) :=
  (List.finRange 16).filter fun i => !isEmptyBranch children i

/-- `SHAMapInnerNode::getBranchCount`. -/
def getBranchCount (children : Fin 16 → SHAMapAbstractNode) : Nat :=
  (branches children).length

/-- An inner node with no branch, as `SHAMapInnerNode`'s constructor makes it. -/
def emptyInner : SHAMapAbstractNode := .inner fun _ => .empty

/-- `SHAMap::onlyBelow`: the item of the only leaf under a node, found by following the
only branch of each inner node; none once an inner node has two branches or none. -/
def onlyBelow : SHAMapAbstractNode → Option SHAMapItem
  | .leaf item _ => some item
  | .inner children =>
    match branches children with
    | [i] => onlyBelow (children i)
    | _ => none
  | .empty => none

@[simp] theorem setChild_self (children : Fin 16 → SHAMapAbstractNode) (m : Fin 16)
    (child : SHAMapAbstractNode) : setChild children m child m = child := by
  simp [setChild]

@[simp] theorem setChild_ne (children : Fin 16 → SHAMapAbstractNode) {m i : Fin 16}
    (child : SHAMapAbstractNode) (other : i ≠ m) : setChild children m child i = children i := by
  simp [setChild, other]

/-- What holds of the new branch and of every other branch holds of each branch after
`setChild`. -/
theorem forall_setChild {P : Fin 16 → SHAMapAbstractNode → Prop} {children : Fin 16 → SHAMapAbstractNode}
    {m : Fin 16} {child : SHAMapAbstractNode} (new : P m child) (old : ∀ i, i ≠ m → P i (children i)) :
    ∀ i, P i (setChild children m child i) := by
  intro i
  by_cases same : i = m
  · subst same
    rw [setChild_self]
    exact new
  · rw [setChild_ne _ _ same]
    exact old i same

/-! ## Branch selection -/

/-- `SHAMapNodeID::selectBranch`: the branch that `hash` takes at a node of `depth`, the
high nibble of byte `depth / 2` at an even depth and its low nibble at an odd one. -/
def selectBranch (depth : Nat) (hash : Uint256) : Fin 16 :=
  let branch := hash.byte (depth / 2)
  if depth % 2 = 1 then Fin.ofNat 16 (branch % 16) else Fin.ofNat 16 (branch / 16)

/-- Nibble `depth` of a key, among its 64 nibbles. -/
def nibble (hash : Uint256) (depth : Nat) : Nat := Digits.digit 16 64 hash.val.val depth

theorem val_lt_pow (hash : Uint256) : hash.val.val < 16 ^ 64 :=
  hash.val.isLt

/-- Within the key, the branch is the nibble at that depth. -/
theorem selectBranch_val {depth : Nat} (inside : depth < 64) (hash : Uint256) :
    (selectBranch depth hash).val = nibble hash depth := by
  have bytePow : ∀ k, (256 : Nat) ^ k = 16 ^ (2 * k) := fun k => by
    rw [Nat.pow_mul]
  unfold selectBranch nibble Digits.digit Uint256.byte
  dsimp only
  split
  · -- The low nibble of the byte.
    rename_i odd
    rw [Fin.val_ofNat, Nat.mod_mod, Nat.mod_mod_of_dvd _ (by decide : 16 ∣ 256), bytePow,
      show 2 * (31 - depth / 2) = 64 - 1 - depth by omega]
  · -- The high nibble of the byte.
    rename_i even
    have high : ∀ w : Nat, w % 256 / 16 % 16 = w / 16 % 16 := fun w => by
      rw [show (256 : Nat) = 16 * 16 from rfl, Nat.mod_mul_right_div_self, Nat.mod_mod]
    rw [Fin.val_ofNat, high, Nat.div_div_eq_div_mul, bytePow, ← Nat.pow_add_one,
      show 2 * (31 - depth / 2) + 1 = 64 - 1 - depth by omega]

/-- Two keys whose 64 nibbles agree are the same key. -/
theorem eq_of_nibble_eq {a b : Uint256} (same : ∀ depth < 64, nibble a depth = nibble b depth) :
    a = b :=
  Uint256.val_injective (Fin.ext (Digits.eq_of_digit_eq (val_lt_pow a) (val_lt_pow b) same))

/-- Two keys that share their first `depth` nibbles are ordered by the next one. -/
theorem lt_of_nibble_lt {a b : Uint256} {depth : Nat} (inside : depth < 64)
    (shared : ∀ j < depth, nibble a j = nibble b j) (less : nibble a depth < nibble b depth) :
    a < b :=
  Uint256.lt_iff_val_lt.mpr (Digits.lt_of_digit_lt inside (val_lt_pow a) (val_lt_pow b) shared less)

/-! ## Hashes -/

/-- `HashPrefix::innerNode`, `'M' 'I' 'N'`, as the four bytes `sha512Half` reads. -/
def HashPrefix.innerNode : List UInt8 := [0x4D, 0x49, 0x4E, 0]

/-- `HashPrefix::leafNode`, `'M' 'L' 'N'`. -/
def HashPrefix.leafNode : List UInt8 := [0x4D, 0x4C, 0x4E, 0]

/-- `HashPrefix::txNode`, `'S' 'N' 'D'`. -/
def HashPrefix.txNode : List UInt8 := [0x53, 0x4E, 0x44, 0]

/-- `HashPrefix::transactionID`, `'T' 'X' 'N'`. -/
def HashPrefix.transactionID : List UInt8 := [0x54, 0x58, 0x4E, 0]

section hash

variable (sha512Half : List UInt8 → Uint256)

/-- `SHAMapTreeNode::updateHash`: a transaction without metadata hashes its data alone, the
other leaves their data and key. -/
def leafHash (item : SHAMapItem) : TNType → Uint256
  | .tnTRANSACTION_NM => sha512Half (HashPrefix.transactionID ++ item.data)
  | .tnACCOUNT_STATE => sha512Half (HashPrefix.leafNode ++ item.data ++ item.key.bytes)
  | .tnTRANSACTION_MD => sha512Half (HashPrefix.txNode ++ item.data ++ item.key.bytes)

/-- `getNodeHash`: zero for an empty branch and for an inner node with no branch
(`SHAMapInnerNode::updateHash`), otherwise the hash of the sixteen branch hashes. -/
def getNodeHash : SHAMapAbstractNode → Uint256
  | .empty => Uint256.zero
  | .leaf item type => leafHash sha512Half item type
  | .inner children =>
    if (List.finRange 16).all fun i => isEmptyBranch children i then Uint256.zero
    else sha512Half (HashPrefix.innerNode ++
      (List.finRange 16).flatMap fun i => (getNodeHash (children i)).bytes)

end hash

/-! ## The map -/

/-- A `SHAMap` in memory, by its root, which `SHAMap`'s constructor makes an inner node. -/
structure SHAMap where
  root : SHAMapAbstractNode

namespace SHAMap

/-- A new map: its root is an inner node with no branch. -/
def empty : SHAMap := ⟨emptyInner⟩

/-- `SHAMap::getHash`: the hash of the root. -/
def getHash (sha512Half : List UInt8 → Uint256) (map : SHAMap) : Uint256 :=
  getNodeHash sha512Half map.root

end SHAMap

end RadardFormal.Shamap
