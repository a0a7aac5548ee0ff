import RadardFormal.Shamap.Node
import RadardFormal.Protocol.Serializer
import RadardFormal.Ledger.QualityIndex
import RadardFormal.Support.Concat

/-!
# The SHAMap node codec

`addRaw` writes a node in one of three formats: `snfWIRE`, how nodes travel between peers, with
a type byte last; `snfPREFIX`, how they are stored and hashed, behind a four-byte hash prefix;
and `snfHASH`, the node's hash alone.  `SHAMapAbstractNode::make` reads the first two back.

A leaf is written as its data and then, but for a transaction without metadata, its key; the
key of such a transaction is not sent, and `make` computes it again from the data.  An inner
node travels without its children: as the sixteen hashes `mHashes` of its branches, from which
`make` sets the bitmap `mIsBranch` of the branches that are not empty (here the set of those
branches).  On the wire an inner node with fewer than twelve branches is compressed, each
branch that is not empty written as its hash and its position.

Every node `make` reads back from what `addRaw` wrote is the node written, up to the hash it
computes (`make_addRaw_leaf`, `make_addRaw_inner`, `make_wireFull`, `make_wireCompressed`), and
the hash of every node, read or built, is the hash of its prefix form (`updateHash_hash`,
`make_hash`).  The digest `sha512Half` is a parameter.
-/

namespace RadardFormal.Protocol.Serializer

open RadardFormal.Support

/-! ## What the codec writes and reads -/

/-- `Serializer::add32`: four bytes, most significant first. -/
def add32 (s : Serializer) (i : Nat) : Serializer := s ++ Bytes.bigEndian 4 i

/-- `Serializer::add256`: the 32 bytes of the value as it is stored. -/
def add256 (s : Serializer) (u : Uint256) : Serializer := s ++ u.bytes

/-- `Serializer::addRaw`. -/
def addRaw (s : Serializer) (data : List UInt8) : Serializer := s ++ data

/-- `Serializer::get8`: the byte at `offset`; none where `get8` returns false. -/
def get8 (s : Serializer) (offset : Nat) : Option Nat := s[offset]?.map UInt8.toNat

/-- `Serializer::get256`: the `uint256` stored in the 32 bytes at `offset`; none where they run
past the end and `get256` returns false. -/
def get256 (s : Serializer) (offset : Nat) : Option Uint256 :=
  if offset + 32 ≤ s.length then some (Uint256.ofBytes ((s.drop offset).take 32)) else none

/-- `Serializer::chop`: the last `bytes` bytes cut off, and nothing cut when there are fewer. -/
def chop (s : Serializer) (bytes : Nat) : Serializer :=
  if bytes ≤ s.length then s.take (s.length - bytes) else s

/-- A four-byte hash prefix, written as the number it is, is its four bytes. -/
theorem add32_ofBigEndian (s : Serializer) {bytes : List UInt8} (four : bytes.length = 4) :
    s.add32 (Bytes.ofBigEndian bytes) = s ++ bytes := by
  rw [add32, ← four, Bytes.bigEndian_ofBigEndian]

theorem get256_of_block {s : Serializer} {offset : Nat} {u : Uint256}
    (block : (s.drop offset).take 32 = u.bytes) : s.get256 offset = some u := by
  have long : offset + 32 ≤ s.length := by
    have lengths := congrArg List.length block
    simp only [List.length_take, List.length_drop, Uint256.length_bytes] at lengths
    omega
  rw [get256, if_pos long, block, Uint256.ofBytes_bytes]

theorem get8_of_block {s : Serializer} {offset : Nat} {front : List UInt8} {byte : UInt8}
    (block : (s.drop offset).take (front.length + 1) = front ++ [byte]) :
    s.get8 (offset + front.length) = some byte.toNat := by
  have read : (s.drop offset)[front.length]? = some byte := by
    rw [← List.getElem?_take_of_lt (Nat.lt_succ_self front.length), block]
    simp
  rw [get8, ← List.getElem?_drop, read]
  rfl

/-- The key written after the data is read back from the last 32 bytes, and `chop (32)` leaves
the data. -/
theorem get256_append_bytes (data : List UInt8) (u : Uint256) :
    Serializer.get256 (data ++ u.bytes) data.length = some u :=
  get256_of_block (by rw [List.drop_left' rfl, List.take_of_length_le (by simp)])

theorem chop_append_bytes (data : List UInt8) (u : Uint256) : Serializer.chop (data ++ u.bytes) 32 = data := by
  rw [chop, if_pos (by simp), List.length_append, Uint256.length_bytes, Nat.add_sub_cancel, List.take_left' rfl]

end RadardFormal.Protocol.Serializer

namespace RadardFormal.Shamap

open RadardFormal.Protocol RadardFormal.Support RadardFormal.Support.Bytes

/-! ## Nodes as they are written -/

/-- `SHANodeFormat`. -/
inductive SHANodeFormat where
  | snfPREFIX
  | snfWIRE
  | snfHASH
  deriving DecidableEq, Repr

/-- `SHAMapTreeNode`, a leaf: its item, its type and its hash `mHash`. -/
structure SHAMapTreeNode where
  item : SHAMapItem
  type : TNType
  hash : Uint256

/-- `SHAMapInnerNode` without its children: the hashes `mHashes` of its branches, the branches
`mIsBranch` marks as not empty, and its hash `mHash`. -/
@[ext] structure SHAMapInnerNode where
  hashes : Fin 16 → Uint256
  isBranch : Fin 16 → Bool
  hash : Uint256

/-- A node as `make` returns it. -/
inductive HashedNode where
  | leaf (node : SHAMapTreeNode)
  | inner (node : SHAMapInnerNode)

namespace SHAMapTreeNode

variable (sha512Half : List UInt8 → Uint256)

/-- `SHAMapTreeNode::updateHash`. -/
def updateHash (node : SHAMapTreeNode) : SHAMapTreeNode :=
  { node with hash := leafHash sha512Half node.item node.type }

/-- `SHAMapTreeNode::addRaw`. -/
def addRaw (node : SHAMapTreeNode) (s : Serializer) : SHANodeFormat → Serializer
  | .snfHASH => s.add256 node.hash
  | .snfPREFIX =>
    match node.type with
    | .tnACCOUNT_STATE => ((s.add32 (ofBigEndian HashPrefix.leafNode)).addRaw node.item.data).add256 node.item.key
    | .tnTRANSACTION_NM => (s.add32 (ofBigEndian HashPrefix.transactionID)).addRaw node.item.data
    | .tnTRANSACTION_MD => ((s.add32 (ofBigEndian HashPrefix.txNode)).addRaw node.item.data).add256 node.item.key
  | .snfWIRE =>
    match node.type with
    | .tnACCOUNT_STATE => ((s.addRaw node.item.data).add256 node.item.key).add8 1
    | .tnTRANSACTION_NM => (s.addRaw node.item.data).add8 0
    | .tnTRANSACTION_MD => ((s.addRaw node.item.data).add256 node.item.key).add8 4

end SHAMapTreeNode

namespace SHAMapInnerNode

variable (sha512Half : List UInt8 → Uint256)

/-- A new `SHAMapInnerNode`: no branch, every hash zero. -/
def blank : SHAMapInnerNode := ⟨fun _ => Uint256.zero, fun _ => false, Uint256.zero⟩

/-- `SHAMapInnerNode::isEmptyBranch`. -/
def isEmptyBranch (node : SHAMapInnerNode) (m : Fin 16) : Bool := !node.isBranch m

/-- `SHAMapInnerNode::isEmpty`: `mIsBranch` is zero. -/
def isEmpty (node : SHAMapInnerNode) : Bool := (List.finRange 16).all node.isEmptyBranch

/-- The branches that are not empty, in order. -/
def branches (node : SHAMapInnerNode) : List (Fin 16) := (List.finRange 16).filter fun i => !node.isEmptyBranch i

/-- `SHAMapInnerNode::getBranchCount`. -/
def getBranchCount (node : SHAMapInnerNode) : Nat := node.branches.length

/-- The sixteen hashes as they lie in memory, each stored most significant byte first. -/
def hashBytes (node : SHAMapInnerNode) : List UInt8 := (List.finRange 16).flatMap fun i => (node.hashes i).bytes

/-- `SHAMapInnerNode::updateHash`: zero for a node with no branch. -/
def updateHash (node : SHAMapInnerNode) : SHAMapInnerNode :=
  { node with hash := if !node.isEmpty then sha512Half (HashPrefix.innerNode ++ node.hashBytes) else Uint256.zero }

/-- One hash read into branch `i` by `make`, which marks the branch when the hash is not zero. -/
def putHash (node : SHAMapInnerNode) (i : Fin 16) (hash : Uint256) : SHAMapInnerNode where
  hashes := Function.update node.hashes i hash
  isBranch := if !hash.isZero then Function.update node.isBranch i true else node.isBranch
  hash := node.hash

/-- The full wire form: the sixteen hashes, then the type byte 2. -/
def wireFull (node : SHAMapInnerNode) (s : Serializer) : Serializer :=
  ((List.finRange 16).foldl (fun s i => s.add256 (node.hashes i)) s).add8 2

/-- The compressed wire form: each branch that is not empty as its hash and its position, then
the type byte 3. -/
def wireCompressed (node : SHAMapInnerNode) (s : Serializer) : Serializer :=
  ((List.finRange 16).foldl (fun s i => if !node.isEmptyBranch i then (s.add256 (node.hashes i)).add8 i else s) s).add8 3

/-- `SHAMapInnerNode::addRaw`. -/
def addRaw (node : SHAMapInnerNode) (s : Serializer) : SHANodeFormat → Serializer
  | .snfHASH => s.add256 node.hash
  | .snfPREFIX => (List.finRange 16).foldl (fun s i => s.add256 (node.hashes i)) (s.add32 (ofBigEndian HashPrefix.innerNode))
  | .snfWIRE => if node.getBranchCount < 12 then node.wireCompressed s else node.wireFull s

/-- An empty branch has a zero hash, as the constructor, `setChild` and `make` leave it. -/
def WellFormed (node : SHAMapInnerNode) : Prop := ∀ i, node.isEmptyBranch i = true → node.hashes i = Uint256.zero

/-- The inner node `make` builds from sixteen hashes: its branches are those whose hash is not
zero. -/
def ofHashes (hashes : Fin 16 → Uint256) : SHAMapInnerNode := ⟨hashes, fun i => !(hashes i).isZero, Uint256.zero⟩

end SHAMapInnerNode

namespace HashedNode

variable (sha512Half : List UInt8 → Uint256)

/-- `getNodeHash`. -/
def hash : HashedNode → Uint256
  | .leaf node => node.hash
  | .inner node => node.hash

def updateHash : HashedNode → HashedNode
  | .leaf node => .leaf (node.updateHash sha512Half)
  | .inner node => .inner (node.updateHash sha512Half)

def addRaw (s : Serializer) (format : SHANodeFormat) : HashedNode → Serializer
  | .leaf node => node.addRaw s format
  | .inner node => node.addRaw s format

/-- A leaf, or an inner node with a branch: the nodes `addRaw` writes. -/
def Present : HashedNode → Prop
  | .leaf _ => True
  | .inner node => node.isEmpty = false

end HashedNode

/-! ## `make` -/

section make

variable (sha512Half : List UInt8 → Uint256)

/-- A leaf as `make` builds it: with the hash it is given when `hashValid`, and otherwise with
the hash `updateHash` computes. -/
def makeLeaf (item : SHAMapItem) (type : TNType) (hash : Uint256) (hashValid : Bool) : HashedNode :=
  .leaf (if hashValid then ⟨item, type, hash⟩ else SHAMapTreeNode.updateHash sha512Half ⟨item, type, Uint256.zero⟩)

/-- An inner node as `make` builds it, its hash given or computed. -/
def makeInner (node : SHAMapInnerNode) (hash : Uint256) (hashValid : Bool) : HashedNode :=
  .inner (if hashValid then { node with hash := hash } else node.updateHash sha512Half)

/-- The item of a leaf written with its key last: `short` thrown when fewer than 32 bytes
remain, the key `get256` reads from the last 32, the data what `chop (32)` leaves, and, where
an `invalid` text is given, that text thrown for a zero key. -/
def readKeyed (s : Serializer) (short : String) (invalid : Option String) : Except String SHAMapItem :=
  if s.length < 32 then .error short
  else
    let key := (s.get256 (s.length - 32)).getD Uint256.zero
    match invalid with
    | some message => if key.isZero then .error message else .ok ⟨key, s.chop 32⟩
    | none => .ok ⟨key, s.chop 32⟩

/-- A full inner node: hash `i` from the 32 bytes at `32 i`. -/
def readFull (s : Serializer) : SHAMapInnerNode :=
  (List.finRange 16).foldl (fun node i => node.putHash i ((s.get256 (i.val * 32)).getD (node.hashes i)))
    SHAMapInnerNode.blank

/-- The loop of `make` over the records of a compressed inner node, from record `i` on: a hash,
then the branch it goes in; `short CI node` when the branch byte is missing and
`invalid CI node` when it names no branch. -/
def readCompressed (s : Serializer) : Nat → Nat → SHAMapInnerNode → Except String SHAMapInnerNode
  | _, 0, node => .ok node
  | i, count + 1, node =>
    match s.get8 (32 + i * 33) with
    | none => .error "short CI node"
    | some pos =>
      if inside : pos < 16 then
        readCompressed s (i + 1) count
          (node.putHash ⟨pos, inside⟩ ((s.get256 (i * 33)).getD (node.hashes ⟨pos, inside⟩)))
      else .error "invalid CI node"

/-- `make` of a wire form: `s` the bytes before the type byte `type`. -/
def makeWire (s : Serializer) (type : Nat) (hash : Uint256) (hashValid : Bool) : Except String (Option HashedNode) :=
  if 4 < type then .ok none
  else if type = 0 then
    -- a transaction: its key is the hash of its data
    .ok (some (makeLeaf sha512Half ⟨sha512Half (HashPrefix.transactionID ++ s), s⟩ .tnTRANSACTION_NM hash hashValid))
  else if type = 1 then
    (readKeyed s "short AS node" (some "invalid AS node")).map fun item =>
      some (makeLeaf sha512Half item .tnACCOUNT_STATE hash hashValid)
  else if type = 2 then
    if s.length ≠ 512 then .error "invalid FI node"
    else .ok (some (makeInner sha512Half (readFull s) hash hashValid))
  else if type = 3 then
    (readCompressed s 0 (s.length / 33) SHAMapInnerNode.blank).map fun node =>
      some (makeInner sha512Half node hash hashValid)
  else
    (readKeyed s "short TM node" (some "invalid TM node")).map fun item =>
      some (makeLeaf sha512Half item .tnTRANSACTION_MD hash hashValid)

/-- `make` of a prefix form. -/
def makePrefix (rawNode : List UInt8) (hash : Uint256) (hashValid : Bool) : Except String (Option HashedNode) :=
  if rawNode.length < 4 then .error "invalid P node"
  else
    -- the prefix, the first four bytes read as a `std::uint32_t`
    let tag := ofBigEndian (rawNode.take 4)
    let s : Serializer := rawNode.drop 4
    if tag = ofBigEndian HashPrefix.transactionID then
      .ok (some (makeLeaf sha512Half ⟨sha512Half rawNode, s⟩ .tnTRANSACTION_NM hash hashValid))
    else if tag = ofBigEndian HashPrefix.leafNode then
      (readKeyed s "short PLN node" (some "invalid PLN node")).map fun item =>
        some (makeLeaf sha512Half item .tnACCOUNT_STATE hash hashValid)
    else if tag = ofBigEndian HashPrefix.innerNode then
      if s.length ≠ 512 then .error "invalid PIN node"
      else .ok (some (makeInner sha512Half (readFull s) hash hashValid))
    else if tag = ofBigEndian HashPrefix.txNode then
      -- the key of a transaction with metadata is not checked against zero here
      (readKeyed s "short TXN node" none).map fun item =>
        some (makeLeaf sha512Half item .tnTRANSACTION_MD hash hashValid)
    else .error "invalid node prefix"

/-- `SHAMapAbstractNode::make`: the node read from `rawNode` in `format`; `none` where `make`
returns a null pointer, and the text of what it throws. -/
def make (rawNode : List UInt8) (format : SHANodeFormat) (hash : Uint256) (hashValid : Bool) :
    Except String (Option HashedNode) :=
  match format with
  | .snfWIRE =>
    match rawNode.getLast? with
    | none => .ok none
    | some type => makeWire sha512Half rawNode.dropLast type.toNat hash hashValid
  | .snfPREFIX => makePrefix sha512Half rawNode hash hashValid
  | .snfHASH => .error "Unknown format"

end make

/-! ## What `addRaw` writes -/

theorem isZero_eq_false {u : Uint256} (nonzero : u ≠ Uint256.zero) : u.isZero = false := by
  simpa [Uint256.isZero] using nonzero

@[simp] theorem isZero_zero : Uint256.zero.isZero = true := by
  simp [Uint256.isZero]

namespace SHAMapInnerNode

/-- The hashes written one after another are their concatenation. -/
theorem foldl_add256 (node : SHAMapInnerNode) (s : Serializer) :
    (List.finRange 16).foldl (fun s i => s.add256 (node.hashes i)) s = s ++ node.hashBytes := by
  simp only [Serializer.add256]
  exact Concat.foldl_append_eq_flatMap _ _ s

theorem wireFull_eq (node : SHAMapInnerNode) : node.wireFull [] = node.hashBytes ++ [UInt8.ofNat 2] := by
  rw [wireFull, foldl_add256, List.nil_append]
  rfl

/-- The records of the compressed form: each branch that is not empty, its hash and position. -/
theorem wireCompressed_eq (node : SHAMapInnerNode) :
    node.wireCompressed [] =
      node.branches.flatMap (fun i => (node.hashes i).bytes ++ [UInt8.ofNat i.val]) ++ [UInt8.ofNat 3] := by
  have record : (fun (s : Serializer) (i : Fin 16) =>
      if !node.isEmptyBranch i then (s.add256 (node.hashes i)).add8 i else s) =
      fun s i => s ++ if !node.isEmptyBranch i then (node.hashes i).bytes ++ [UInt8.ofNat i.val] else [] := by
    funext s i
    split <;> simp [Serializer.add256, Serializer.add8]
  rw [wireCompressed, record, Concat.foldl_append_eq_flatMap, branches, Concat.flatMap_filter, List.nil_append]
  rfl

theorem addRaw_prefix (node : SHAMapInnerNode) :
    node.addRaw [] .snfPREFIX = HashPrefix.innerNode ++ node.hashBytes := by
  rw [addRaw, foldl_add256, Serializer.add32_ofBigEndian [] (rfl : HashPrefix.innerNode.length = 4), List.nil_append]

theorem length_hashBytes (node : SHAMapInnerNode) : node.hashBytes.length = 512 := by
  rw [hashBytes, Concat.length_flatMap_of_sized fun i _ => Uint256.length_bytes (node.hashes i)]
  rfl

theorem get256_hashBytes (node : SHAMapInnerNode) (i : Fin 16) :
    Serializer.get256 node.hashBytes (i.val * 32) = some (node.hashes i) := by
  apply Serializer.get256_of_block
  have block := Concat.take_drop_flatMap (l := List.finRange 16) (f := fun i => (node.hashes i).bytes)
    (fun i _ => Uint256.length_bytes (node.hashes i)) (k := i.val) (by simp)
  rw [hashBytes, block, List.getElem_finRange]
  rfl

/-- Hashes read into a list of branches, each its own: the branches listed hold their hashes,
marked where the hash is not zero, and the others are as they were. -/
theorem foldl_putHash (H : Fin 16 → Uint256) :
    ∀ (positions : List (Fin 16)) (node : SHAMapInnerNode),
      positions.foldl (fun node i => node.putHash i (H i)) node =
        ⟨fun i => if i ∈ positions then H i else node.hashes i,
          fun i => (decide (i ∈ positions) && !(H i).isZero) || node.isBranch i, node.hash⟩
  | [], node => by
    ext i <;> simp
  | b :: rest, node => by
    rw [List.foldl_cons, foldl_putHash H rest]
    ext i
    · by_cases same : i = b
      · subst same
        simp [putHash]
      · simp [putHash, same]
    · by_cases same : i = b
      · subst same
        cases zero : (H i).isZero <;> simp [putHash, zero]
      · cases zero : (H b).isZero <;> simp [putHash, zero, same]
    · rfl

/-- A full inner node is read hash by hash. -/
theorem readFull_eq {s : Serializer} {H : Fin 16 → Uint256} (reads : ∀ i : Fin 16, s.get256 (i.val * 32) = some (H i)) :
    readFull s = ofHashes H := by
  have read : (fun (node : SHAMapInnerNode) (i : Fin 16) =>
      node.putHash i ((s.get256 (i.val * 32)).getD (node.hashes i))) = fun node i => node.putHash i (H i) := by
    funext node i
    rw [reads i]
    rfl
  rw [readFull, read, foldl_putHash]
  ext i <;> simp [ofHashes, blank]

/-- The loop over compressed records, each the hash of its branch and the branch: every record is
read, in order. -/
theorem readCompressed_records (s : Serializer) (H : Fin 16 → Uint256) :
    ∀ (positions : List (Fin 16)) (i : Nat) (node : SHAMapInnerNode),
      (∀ j (inside : j < positions.length),
        (s.drop ((i + j) * 33)).take 33 = (H positions[j]).bytes ++ [UInt8.ofNat positions[j].val]) →
      readCompressed s i positions.length node = .ok (positions.foldl (fun node b => node.putHash b (H b)) node)
  | [], _, node, _ => rfl
  | b :: rest, i, node, records => by
    have first := records 0 (by simp)
    simp only [Nat.add_zero, List.getElem_cons_zero] at first
    -- the branch byte after the hash, and the hash before it
    have position : s.get8 (32 + i * 33) = some b.val := by
      rw [Nat.add_comm, ← Uint256.length_bytes (H b), Serializer.get8_of_block (by rw [Uint256.length_bytes]; exact first),
        UInt8.toNat_ofNat', Nat.mod_eq_of_lt (by omega)]
    have hash : s.get256 (i * 33) = some (H b) := by
      apply Serializer.get256_of_block
      have front : ((H b).bytes ++ [UInt8.ofNat b.val]).take 32 = (H b).bytes :=
        List.take_left' (Uint256.length_bytes (H b))
      rw [← front, ← first, List.take_take]
      rfl
    rw [List.length_cons, readCompressed, position]
    dsimp only
    rw [dif_pos b.isLt, hash, Option.getD_some, List.foldl_cons]
    refine readCompressed_records s H rest (i + 1) _ fun j inside => ?_
    have later := records (j + 1) (by simpa using inside)
    rw [show i + (j + 1) = i + 1 + j by omega] at later
    simpa using later

/-- Reading the records of the branches that are not empty, from a blank node, gives back a
well-formed node's hashes. -/
theorem foldl_branches (node : SHAMapInnerNode) (wellFormed : node.WellFormed) :
    node.branches.foldl (fun read b => read.putHash b (node.hashes b)) blank = ofHashes node.hashes := by
  rw [foldl_putHash]
  ext i
  · by_cases listed : i ∈ node.branches
    · simp [listed, ofHashes]
    · have empty : node.isEmptyBranch i = true := by simpa [branches] using listed
      simp [listed, ofHashes, blank, wellFormed i empty]
  · by_cases listed : i ∈ node.branches
    · simp [listed, ofHashes, blank]
    · have empty : node.isEmptyBranch i = true := by simpa [branches] using listed
      simp [listed, ofHashes, blank, wellFormed i empty]
  · rfl

end SHAMapInnerNode

section codec

variable (sha512Half : List UInt8 → Uint256)

/-- What `make` sees of a wire form: the type byte last, and the bytes before it. -/
theorem make_wire_form (body : List UInt8) {type : Nat} (small : type < 256) (hash : Uint256) (hashValid : Bool) :
    make sha512Half (body ++ [UInt8.ofNat type]) .snfWIRE hash hashValid = makeWire sha512Half body type hash hashValid := by
  simp only [make, List.getLast?_concat, List.dropLast_concat, UInt8.toNat_ofNat', Nat.mod_eq_of_lt small]

/-- A prefix form: the prefix read, and the bytes after it. -/
theorem take_four_append {tag : List UInt8} (four : tag.length = 4) (rest : List UInt8) :
    (tag ++ rest).take 4 = tag ∧ (tag ++ rest).drop 4 = rest ∧ ¬(tag ++ rest).length < 4 :=
  ⟨List.take_left' four, List.drop_left' four, by simp [four]⟩

theorem readKeyed_append_bytes (data : List UInt8) {key : Uint256} (keyed : key ≠ Uint256.zero) (short : String)
    (invalid : Option String) : readKeyed (data ++ key.bytes) short invalid = .ok ⟨key, data⟩ := by
  cases invalid <;>
    simp [readKeyed, Serializer.get256_append_bytes, isZero_eq_false keyed, Serializer.chop_append_bytes]

/-- Both forms of a leaf with a key that is not zero read back the leaf, its hash computed
again; the key of a transaction without metadata is computed from its data, so it must be that
hash. -/
theorem make_addRaw_leaf (node : SHAMapTreeNode) (keyed : node.item.key ≠ Uint256.zero)
    (derived : node.type = .tnTRANSACTION_NM → node.item.key = sha512Half (HashPrefix.transactionID ++ node.item.data))
    {format : SHANodeFormat} (written : format ≠ .snfHASH) (hash : Uint256) :
    make sha512Half (node.addRaw [] format) format hash false = .ok (some (.leaf (node.updateHash sha512Half))) := by
  rcases node with ⟨⟨key, data⟩, type, oldHash⟩
  dsimp only at keyed derived
  cases format with
  | snfHASH => exact absurd rfl written
  | snfWIRE =>
    cases type with
    | tnACCOUNT_STATE =>
      simp only [SHAMapTreeNode.addRaw, Serializer.addRaw, Serializer.add256, Serializer.add8, List.nil_append]
      rw [make_wire_form sha512Half _ (by decide), makeWire, if_neg (by decide), if_neg (by decide), if_pos rfl,
        readKeyed_append_bytes data keyed]
      rfl
    | tnTRANSACTION_NM =>
      simp only [SHAMapTreeNode.addRaw, Serializer.addRaw, Serializer.add8, List.nil_append]
      rw [make_wire_form sha512Half _ (by decide), makeWire, if_neg (by decide), if_pos rfl, ← derived rfl]
      rfl
    | tnTRANSACTION_MD =>
      simp only [SHAMapTreeNode.addRaw, Serializer.addRaw, Serializer.add256, Serializer.add8, List.nil_append]
      rw [make_wire_form sha512Half _ (by decide), makeWire, if_neg (by decide), if_neg (by decide),
        if_neg (by decide), if_neg (by decide), if_neg (by decide), readKeyed_append_bytes data keyed]
      rfl
  | snfPREFIX =>
    cases type with
    | tnACCOUNT_STATE =>
      obtain ⟨front, rest, long⟩ := take_four_append (rfl : HashPrefix.leafNode.length = 4) (data ++ key.bytes)
      simp only [SHAMapTreeNode.addRaw, Serializer.addRaw, Serializer.add256, Serializer.add32_ofBigEndian [] (rfl : HashPrefix.leafNode.length = 4),
        List.nil_append, List.append_assoc]
      rw [make, makePrefix, if_neg long]
      dsimp only
      rw [front, rest, if_neg (by decide), if_pos rfl, readKeyed_append_bytes data keyed]
      rfl
    | tnTRANSACTION_NM =>
      obtain ⟨front, rest, long⟩ := take_four_append (rfl : HashPrefix.transactionID.length = 4) data
      simp only [SHAMapTreeNode.addRaw, Serializer.addRaw,
        Serializer.add32_ofBigEndian [] (rfl : HashPrefix.transactionID.length = 4), List.nil_append]
      rw [make, makePrefix, if_neg long]
      dsimp only
      rw [front, rest, if_pos rfl, ← derived rfl]
      rfl
    | tnTRANSACTION_MD =>
      obtain ⟨front, rest, long⟩ := take_four_append (rfl : HashPrefix.txNode.length = 4) (data ++ key.bytes)
      simp only [SHAMapTreeNode.addRaw, Serializer.addRaw, Serializer.add256, Serializer.add32_ofBigEndian [] (rfl : HashPrefix.txNode.length = 4),
        List.nil_append, List.append_assoc]
      rw [make, makePrefix, if_neg long]
      dsimp only
      rw [front, rest, if_neg (by decide), if_neg (by decide), if_neg (by decide), if_pos rfl,
        readKeyed_append_bytes data keyed]
      rfl

/-- The full wire form reads back the sixteen hashes, marked where not zero. -/
theorem make_wireFull (node : SHAMapInnerNode) (hash : Uint256) :
    make sha512Half (node.wireFull []) .snfWIRE hash false =
      .ok (some (.inner ((SHAMapInnerNode.ofHashes node.hashes).updateHash sha512Half))) := by
  rw [node.wireFull_eq, make_wire_form sha512Half _ (by decide), makeWire, if_neg (by decide), if_neg (by decide),
    if_neg (by decide), if_pos rfl, if_neg (by rw [node.length_hashBytes]; decide),
    SHAMapInnerNode.readFull_eq node.get256_hashBytes]
  rfl

/-- The compressed wire form reads back the hashes of a well-formed node, its empty branches
zero. -/
theorem make_wireCompressed (node : SHAMapInnerNode) (wellFormed : node.WellFormed) (hash : Uint256) :
    make sha512Half (node.wireCompressed []) .snfWIRE hash false =
      .ok (some (.inner ((SHAMapInnerNode.ofHashes node.hashes).updateHash sha512Half))) := by
  have sized : ∀ b ∈ node.branches, ((node.hashes b).bytes ++ [UInt8.ofNat b.val]).length = 33 := by simp
  have length := Concat.length_flatMap_of_sized sized
  have read := SHAMapInnerNode.readCompressed_records
    (node.branches.flatMap fun b => (node.hashes b).bytes ++ [UInt8.ofNat b.val]) node.hashes node.branches 0
    SHAMapInnerNode.blank fun j inside => by
      rw [Nat.zero_add]
      exact Concat.take_drop_flatMap sized inside
  rw [node.wireCompressed_eq, make_wire_form sha512Half _ (by decide), makeWire, if_neg (by decide), if_neg (by decide),
    if_neg (by decide), if_neg (by decide), if_pos rfl, length, Nat.mul_div_cancel _ (by decide), read,
    node.foldl_branches wellFormed]
  rfl

/-- The prefix form of an inner node reads back its sixteen hashes. -/
theorem make_addRaw_inner_prefix (node : SHAMapInnerNode) (hash : Uint256) :
    make sha512Half (node.addRaw [] .snfPREFIX) .snfPREFIX hash false =
      .ok (some (.inner ((SHAMapInnerNode.ofHashes node.hashes).updateHash sha512Half))) := by
  obtain ⟨front, rest, long⟩ := take_four_append (rfl : HashPrefix.innerNode.length = 4) node.hashBytes
  rw [node.addRaw_prefix, make, makePrefix, if_neg long]
  dsimp only
  rw [front, rest, if_neg (by decide), if_neg (by decide), if_pos rfl, if_neg (by rw [node.length_hashBytes]; decide),
    SHAMapInnerNode.readFull_eq node.get256_hashBytes]
  rfl

/-- The prefix and wire forms of an inner node read back its sixteen hashes. -/
theorem make_addRaw_inner (node : SHAMapInnerNode) (wellFormed : node.WellFormed) {format : SHANodeFormat}
    (written : format ≠ .snfHASH) (hash : Uint256) :
    make sha512Half (node.addRaw [] format) format hash false =
      .ok (some (.inner ((SHAMapInnerNode.ofHashes node.hashes).updateHash sha512Half))) := by
  cases format with
  | snfHASH => exact absurd rfl written
  | snfPREFIX => exact make_addRaw_inner_prefix sha512Half node hash
  | snfWIRE =>
    rw [SHAMapInnerNode.addRaw]
    split
    · exact make_wireCompressed sha512Half node wellFormed hash
    · exact make_wireFull sha512Half node hash

/-- The wire form is compressed, type byte 3, exactly when fewer than twelve branches are not
empty; otherwise it is full, type byte 2. -/
theorem addRaw_wire_compressed_iff (node : SHAMapInnerNode) :
    (node.addRaw [] .snfWIRE).getLast? = some (UInt8.ofNat 3) ↔ node.getBranchCount < 12 := by
  rw [SHAMapInnerNode.addRaw]
  split
  · rename_i few
    rw [node.wireCompressed_eq, List.getLast?_concat]
    exact iff_of_true rfl few
  · rename_i many
    rw [node.wireFull_eq, List.getLast?_concat]
    exact iff_of_false (by decide) many

/-- A transaction with metadata under a zero key: the prefix form takes it, the wire form
throws. -/
theorem make_zero_key_txNode (data : List UInt8) (hash : Uint256) :
    make sha512Half (HashPrefix.txNode ++ (data ++ Uint256.zero.bytes)) .snfPREFIX hash false =
      .ok (some (makeLeaf sha512Half ⟨Uint256.zero, data⟩ .tnTRANSACTION_MD hash false)) ∧
    make sha512Half (data ++ Uint256.zero.bytes ++ [UInt8.ofNat 4]) .snfWIRE hash false = .error "invalid TM node" := by
  obtain ⟨front, rest, long⟩ := take_four_append (rfl : HashPrefix.txNode.length = 4) (data ++ Uint256.zero.bytes)
  constructor
  · rw [make, makePrefix, if_neg long]
    dsimp only
    rw [front, rest, if_neg (by decide), if_neg (by decide), if_neg (by decide), if_pos rfl]
    simp [readKeyed, Serializer.get256_append_bytes, Serializer.chop_append_bytes, Except.map]
  · rw [make_wire_form sha512Half _ (by decide), makeWire, if_neg (by decide), if_neg (by decide),
      if_neg (by decide), if_neg (by decide), if_neg (by decide)]
    simp [readKeyed, Serializer.get256_append_bytes, Except.map]

end codec

/-! ## Hashes -/

section hashes

variable (sha512Half : List UInt8 → Uint256)

/-- A leaf's hash is the hash of its prefix form. -/
theorem SHAMapTreeNode.updateHash_hash (node : SHAMapTreeNode) :
    (node.updateHash sha512Half).hash = sha512Half (node.addRaw [] .snfPREFIX) := by
  rcases node with ⟨⟨key, data⟩, type, hash⟩
  cases type <;>
    simp [SHAMapTreeNode.updateHash, SHAMapTreeNode.addRaw, leafHash, Serializer.addRaw, Serializer.add256,
      Serializer.add32_ofBigEndian [] (rfl : HashPrefix.leafNode.length = 4),
      Serializer.add32_ofBigEndian [] (rfl : HashPrefix.transactionID.length = 4),
      Serializer.add32_ofBigEndian [] (rfl : HashPrefix.txNode.length = 4)]

/-- An inner node with a branch has the hash of its prefix form. -/
theorem SHAMapInnerNode.updateHash_hash (node : SHAMapInnerNode) (present : node.isEmpty = false) :
    (node.updateHash sha512Half).hash = sha512Half (node.addRaw [] .snfPREFIX) := by
  rw [node.addRaw_prefix]
  simp [SHAMapInnerNode.updateHash, present]

theorem HashedNode.updateHash_hash (node : HashedNode) (present : node.Present) :
    (node.updateHash sha512Half).hash = sha512Half (node.addRaw [] .snfPREFIX) := by
  cases node with
  | leaf node => exact node.updateHash_hash sha512Half
  | inner node => exact node.updateHash_hash sha512Half present

/-- What `make` builds with `hashValid` false carries the hash `updateHash` gives it. -/
theorem make_updated {rawNode : List UInt8} {format : SHANodeFormat} {hash : Uint256} {node : HashedNode}
    (made : make sha512Half rawNode format hash false = .ok (some node)) : node.updateHash sha512Half = node := by
  have leafMade : ∀ {read : Except String SHAMapItem} {type : TNType},
      (read.map fun item => some (makeLeaf sha512Half item type hash false)) = .ok (some node) →
        node.updateHash sha512Half = node := by
    intro read type mapped
    cases read with
    | error => cases mapped
    | ok item =>
      cases mapped
      rfl
  have innerMade : ∀ {read : Except String SHAMapInnerNode},
      (read.map fun inner => some (makeInner sha512Half inner hash false)) = .ok (some node) →
        node.updateHash sha512Half = node := by
    intro read mapped
    cases read with
    | error => cases mapped
    | ok inner =>
      cases mapped
      rfl
  cases format with
  | snfHASH => cases made
  | snfPREFIX =>
    simp only [make, makePrefix] at made
    split_ifs at made
    all_goals first
      | (cases made <;> rfl)
      | exact leafMade made
  | snfWIRE =>
    simp only [make] at made
    split at made
    · cases made
    · simp only [makeWire] at made
      split_ifs at made
      all_goals first
        | (cases made <;> rfl)
        | exact leafMade made
        | exact innerMade made

/-- Every leaf, and every inner node with a branch, that `make` reads from any bytes in either
form has the hash of its prefix form. -/
theorem make_hash {rawNode : List UInt8} {format : SHANodeFormat} {hash : Uint256} {node : HashedNode}
    (made : make sha512Half rawNode format hash false = .ok (some node)) (present : node.Present) :
    node.hash = sha512Half (node.addRaw [] .snfPREFIX) :=
  calc node.hash = (node.updateHash sha512Half).hash := by rw [make_updated sha512Half made]
    _ = sha512Half (node.addRaw [] .snfPREFIX) := node.updateHash_hash sha512Half present

/-- The inner node of the tree with branches `children` as it is written: the hash of each branch,
and the branches that hold a node. -/
def SHAMapInnerNode.ofChildren (children : Fin 16 → SHAMapAbstractNode) : SHAMapInnerNode :=
  ⟨fun i => getNodeHash sha512Half (children i), fun i => !(children i).isEmpty, getNodeHash sha512Half (.inner children)⟩

theorem SHAMapInnerNode.isEmpty_ofChildren (children : Fin 16 → SHAMapAbstractNode) :
    (ofChildren sha512Half children).isEmpty =
      (List.finRange 16).all fun i => RadardFormal.Shamap.isEmptyBranch children i := by
  unfold isEmpty isEmptyBranch ofChildren
  simp [RadardFormal.Shamap.isEmptyBranch]

/-- The hash the tree gives an inner node is the one `updateHash` computes from its branches'
hashes. -/
theorem SHAMapInnerNode.updateHash_ofChildren (children : Fin 16 → SHAMapAbstractNode) :
    (ofChildren sha512Half children).updateHash sha512Half = ofChildren sha512Half children := by
  ext i
  · rfl
  · rfl
  · show (if !(ofChildren sha512Half children).isEmpty then
        sha512Half (HashPrefix.innerNode ++ (ofChildren sha512Half children).hashBytes) else Uint256.zero) =
      getNodeHash sha512Half (.inner children)
    rw [isEmpty_ofChildren, getNodeHash]
    cases (List.finRange 16).all fun i => RadardFormal.Shamap.isEmptyBranch children i <;> rfl

/-- A tree's inner node is well formed: an empty branch hashes to zero. -/
theorem SHAMapInnerNode.ofChildren_wellFormed (children : Fin 16 → SHAMapAbstractNode) :
    (ofChildren sha512Half children).WellFormed := by
  intro i empty
  have isEmpty : (children i).isEmpty = true := by simpa [isEmptyBranch, ofChildren] using empty
  show getNodeHash sha512Half (children i) = Uint256.zero
  cases here : children i with
  | empty => rfl
  | leaf item type => rw [here] at isEmpty; cases isEmpty
  | inner grandchildren => rw [here] at isEmpty; cases isEmpty

/-- The hash of a tree's inner node with a branch is the hash of its prefix form. -/
theorem getNodeHash_inner_eq (children : Fin 16 → SHAMapAbstractNode) (present : ∃ i, (children i).isEmpty = false) :
    getNodeHash sha512Half (.inner children) =
      sha512Half ((SHAMapInnerNode.ofChildren sha512Half children).addRaw [] .snfPREFIX) := by
  have notEmpty : (SHAMapInnerNode.ofChildren sha512Half children).isEmpty = false := by
    obtain ⟨i, held⟩ := present
    simp only [SHAMapInnerNode.isEmpty, List.all_eq_false]
    exact ⟨i, List.mem_finRange i, by simp [SHAMapInnerNode.isEmptyBranch, SHAMapInnerNode.ofChildren, held]⟩
  rw [← SHAMapInnerNode.updateHash_hash sha512Half _ notEmpty, SHAMapInnerNode.updateHash_ofChildren]
  rfl

end hashes

/-! ## What `make` accepts is well formed -/

namespace SHAMapInnerNode

theorem blank_wellFormed : blank.WellFormed := fun _ _ => rfl

/-- A hash read into a branch leaves the node well formed: a zero hash may leave a branch
marked, but never an unmarked branch with a hash. -/
theorem WellFormed.putHash {node : SHAMapInnerNode} (wellFormed : node.WellFormed) (i : Fin 16) (hash : Uint256) :
    (node.putHash i hash).WellFormed := by
  intro j empty
  cases zero : hash.isZero with
  | true =>
    have isZero : hash = Uint256.zero := by simpa [Uint256.isZero] using zero
    by_cases same : j = i
    · subst same
      simp [SHAMapInnerNode.putHash, isZero]
    · simp only [isEmptyBranch, SHAMapInnerNode.putHash, zero] at empty
      simpa [SHAMapInnerNode.putHash, same] using wellFormed j empty
  | false =>
    by_cases same : j = i
    · subst same
      simp [isEmptyBranch, SHAMapInnerNode.putHash, zero] at empty
    · simp only [isEmptyBranch, SHAMapInnerNode.putHash, zero] at empty
      simpa [SHAMapInnerNode.putHash, same, isEmptyBranch] using wellFormed j (by simpa [isEmptyBranch, same] using empty)

theorem foldl_putHash_wellFormed (read : SHAMapInnerNode → Fin 16 → Uint256) :
    ∀ (positions : List (Fin 16)) {node : SHAMapInnerNode}, node.WellFormed →
      (positions.foldl (fun node i => node.putHash i (read node i)) node).WellFormed
  | [], _, wellFormed => wellFormed
  | i :: rest, _, wellFormed => foldl_putHash_wellFormed read rest (wellFormed.putHash i _)

theorem readCompressed_wellFormed (s : Serializer) :
    ∀ (count i : Nat) {node read : SHAMapInnerNode}, node.WellFormed → readCompressed s i count node = .ok read →
      read.WellFormed
  | 0, _, _, _, wellFormed, done => by
    cases done
    exact wellFormed
  | count + 1, i, node, read, wellFormed, done => by
    rw [readCompressed] at done
    split at done
    · cases done
    · split at done
      · exact readCompressed_wellFormed s count (i + 1) (wellFormed.putHash _ _) done
      · cases done

end SHAMapInnerNode

section accepted

variable (sha512Half : List UInt8 → Uint256)

/-- Every inner node `make` reads, from any bytes in either form, is well formed. -/
theorem make_wellFormed {rawNode : List UInt8} {format : SHANodeFormat} {hash : Uint256} {hashValid : Bool}
    {inner : SHAMapInnerNode} (made : make sha512Half rawNode format hash hashValid = .ok (some (.inner inner))) :
    inner.WellFormed := by
  -- what each way of building a node gives
  have fromInner : ∀ {node : SHAMapInnerNode}, node.WellFormed →
      (.ok (some (makeInner sha512Half node hash hashValid)) : Except String (Option HashedNode)) =
        .ok (some (.inner inner)) → inner.WellFormed := by
    intro node wellFormed built
    cases hashValid <;> (cases built; exact wellFormed)
  have fromLeaf : ∀ {item : SHAMapItem} {type : TNType},
      (.ok (some (makeLeaf sha512Half item type hash hashValid)) : Except String (Option HashedNode)) ≠
        .ok (some (.inner inner)) := by
    intro item type built
    cases hashValid <;> cases built
  have fromRead : ∀ {read : Except String SHAMapInnerNode}, (∀ node, read = .ok node → node.WellFormed) →
      (read.map fun node => some (makeInner sha512Half node hash hashValid)) = .ok (some (.inner inner)) →
        inner.WellFormed := by
    intro read good built
    cases read with
    | error => cases built
    | ok node => exact fromInner (good node rfl) built
  have fromKeyed : ∀ {read : Except String SHAMapItem} {type : TNType},
      (read.map fun item => some (makeLeaf sha512Half item type hash hashValid)) ≠ .ok (some (.inner inner)) := by
    intro read type built
    cases read with
    | error => cases built
    | ok item => exact fromLeaf built
  have full : ∀ s : Serializer, (readFull s).WellFormed := fun s =>
    SHAMapInnerNode.foldl_putHash_wellFormed _ _ SHAMapInnerNode.blank_wellFormed
  have compressed : ∀ (s : Serializer) (count : Nat) (node : SHAMapInnerNode),
      readCompressed s 0 count SHAMapInnerNode.blank = .ok node → node.WellFormed := fun s count _ read =>
    SHAMapInnerNode.readCompressed_wellFormed s count 0 SHAMapInnerNode.blank_wellFormed read
  cases format with
  | snfHASH => cases made
  | snfPREFIX =>
    simp only [make, makePrefix] at made
    split_ifs at made
    all_goals first
      | exact absurd made fromLeaf
      | exact absurd made fromKeyed
      | exact fromInner (full _) made
  | snfWIRE =>
    simp only [make] at made
    split at made
    · cases made
    · simp only [makeWire] at made
      split_ifs at made
      all_goals first
        | exact absurd made fromLeaf
        | exact absurd made fromKeyed
        | exact fromInner (full _) made
        | exact fromRead (compressed _ _) made
        | cases made

end accepted

/-! ## The codec -/

/-- What `addRaw` writes in the wire or the prefix form, `make` reads back: a leaf with a key
that is not zero (for a transaction without metadata, the hash of its data) and a well-formed
inner node, the hashes of whose branches are read back, each branch marked exactly when its hash
is not zero.  The wire form of an inner node is compressed exactly when it has fewer than
twelve branches, and both wire forms read back the same hashes.  The hash `updateHash` gives a
leaf or an inner node with a branch is the hash of its prefix form, and so is the hash of every
such node `make` reads from any bytes. -/
theorem node_codec (sha512Half : List UInt8 → Uint256) :
    (∀ (node : SHAMapTreeNode) (format : SHANodeFormat) (hash : Uint256), node.item.key ≠ Uint256.zero →
      (node.type = .tnTRANSACTION_NM → node.item.key = sha512Half (HashPrefix.transactionID ++ node.item.data)) →
      format ≠ .snfHASH →
      make sha512Half ((HashedNode.leaf node).addRaw [] format) format hash false =
        .ok (some (.leaf (node.updateHash sha512Half)))) ∧
    (∀ (node : SHAMapInnerNode) (format : SHANodeFormat) (hash : Uint256), node.WellFormed → format ≠ .snfHASH →
      make sha512Half ((HashedNode.inner node).addRaw [] format) format hash false =
        .ok (some (.inner ((SHAMapInnerNode.ofHashes node.hashes).updateHash sha512Half)))) ∧
    (∀ node : SHAMapInnerNode, node.WellFormed →
      ((node.addRaw [] .snfWIRE).getLast? = some (UInt8.ofNat 3) ↔ node.getBranchCount < 12) ∧
      ∀ hash, make sha512Half (node.wireCompressed []) .snfWIRE hash false =
        make sha512Half (node.wireFull []) .snfWIRE hash false) ∧
    (∀ node : HashedNode, node.Present → (node.updateHash sha512Half).hash = sha512Half (node.addRaw [] .snfPREFIX)) ∧
    (∀ (rawNode : List UInt8) (format : SHANodeFormat) (hash : Uint256) (node : HashedNode),
      make sha512Half rawNode format hash false = .ok (some node) → node.Present →
        node.hash = sha512Half (node.addRaw [] .snfPREFIX)) := by
  refine ⟨fun node format hash keyed derived written => make_addRaw_leaf sha512Half node keyed derived written hash,
    fun node format hash wellFormed written => make_addRaw_inner sha512Half node wellFormed written hash,
    fun node wellFormed => ⟨addRaw_wire_compressed_iff node, fun hash => ?_⟩,
    fun node present => node.updateHash_hash sha512Half present,
    fun rawNode format hash node made present => make_hash sha512Half made present⟩
  rw [make_wireCompressed sha512Half node wellFormed, make_wireFull]

/-- A stand-in for \`sha512Half\`: any function of the bytes will do for the codec. -/
def lengthDigest (bytes : List UInt8) : Uint256 := Uint256.ofNat bytes.length

/-- An account-state leaf with key one. -/
def sampleLeaf : SHAMapTreeNode := ⟨⟨Uint256.ofNat 1, [7]⟩, .tnACCOUNT_STATE, Uint256.zero⟩

/-- The account-state leaf and the inner node without branches are read back from their prefix
and wire forms, and the leaf's computed hash is that of its prefix form. -/
theorem node_codec_sample :
    make lengthDigest ((HashedNode.leaf sampleLeaf).addRaw [] .snfPREFIX) .snfPREFIX Uint256.zero false =
        .ok (some (.leaf (sampleLeaf.updateHash lengthDigest))) ∧
      make lengthDigest ((HashedNode.inner SHAMapInnerNode.blank).addRaw [] .snfWIRE) .snfWIRE Uint256.zero false =
        .ok (some (.inner ((SHAMapInnerNode.ofHashes SHAMapInnerNode.blank.hashes).updateHash lengthDigest))) ∧
      ((HashedNode.leaf sampleLeaf).updateHash lengthDigest).hash =
        lengthDigest ((HashedNode.leaf sampleLeaf).addRaw [] .snfPREFIX) :=
  ⟨(node_codec lengthDigest).1 sampleLeaf .snfPREFIX Uint256.zero (by decide) (fun nm => nomatch nm) (by decide),
    (node_codec lengthDigest).2.1 SHAMapInnerNode.blank .snfWIRE Uint256.zero
      SHAMapInnerNode.blank_wellFormed (by decide),
    (node_codec lengthDigest).2.2.2.1 (.leaf sampleLeaf) trivial⟩

end RadardFormal.Shamap
