import Mathlib.Data.Nat.Bitwise
import RadardFormal.Nodestore.Varint
import RadardFormal.Shamap.Node
import RadardFormal.Support.Bytes

/-!
# The node-store codecs

`codec.h`: the framing of the LZ4 and snappy primitives, and `nodeobject_compress`, which
stores a 525-byte inner node blob as a bit mask of its non-zero child hashes followed by those
hashes (type 2), or as all sixteen hashes (type 3), and every other blob LZ4-compressed behind
a varint type (type 1).  The vendored compressors are abstract: `LZ4` and `Snappy` carry the
laws that make each an inverse pair.

`nodeobjectDecompress_compress`: decompressing what `nodeobject_compress` wrote gives the blob
back through `filter_inner`, which erases an inner node's nine-byte header, for every blob but a
525-byte inner node whose hashes are all zero.
-/

namespace RadardFormal.Nodestore

open RadardFormal.Support RadardFormal.Shamap

/-- A codec's result, or the text of the exception it throws. -/
abbrev CodecResult := Except String

/-- The LZ4 calls the codec makes, as an inverse pair. -/
structure LZ4 where
  /-- `LZ4_compress`: the block written, never empty. -/
  compress : List UInt8 → List UInt8
  /-- `LZ4_decompress_fast (source, dest, originalSize)`: what it writes and how many bytes of
  `source` it reads, or none for a negative result. -/
  decompressFast : List UInt8 → Nat → Option (List UInt8 × Nat)
  compress_ne_nil : ∀ input, compress input ≠ []
  decompressFast_compress : ∀ input,
    decompressFast (compress input) input.length = some (input, (compress input).length)

/-- The snappy calls the codec makes, as an inverse pair. -/
structure Snappy where
  rawCompress : List UInt8 → List UInt8
  getUncompressedLength : List UInt8 → Option Nat
  rawUncompress : List UInt8 → Option (List UInt8)
  getUncompressedLength_rawCompress : ∀ input,
    getUncompressedLength (rawCompress input) = some input.length
  rawUncompress_rawCompress : ∀ input, rawUncompress (rawCompress input) = some input

/-- A block format with a one-byte tag and the bytes as they are: both laws hold of it. -/
def LZ4.literal : LZ4 where
  compress input := 0 :: input
  decompressFast source size := some ((source.drop 1).take size, size + 1)
  compress_ne_nil _ := List.cons_ne_nil _ _
  decompressFast_compress input := by simp

variable (lz4 : LZ4) (snappy : Snappy)

/-- `lz4_compress`: the varint of the input size, then the LZ4 block. -/
def lz4Compress (input : List UInt8) : CodecResult (List UInt8) :=
  let vi := writeVarint input.length
  let out := lz4.compress input
  if out.length = 0 then .error "lz4 compress" else .ok (vi ++ out)

/-- `lz4_decompress`. -/
def lz4Decompress (input : List UInt8) : CodecResult (List UInt8) :=
  match readVarint input with
  | none => .error "lz4 decompress"
  | some (size, n) =>
    match lz4.decompressFast (input.drop n) size with
    | none => .error "lz4 decompress"
    | some (out, read) => if read + n ≠ input.length then .error "lz4 decompress" else .ok out

/-- `snappy_compress`. -/
def snappyCompress (input : List UInt8) : CodecResult (List UInt8) :=
  .ok (snappy.rawCompress input)

/-- `snappy_decompress`. -/
def snappyDecompress (input : List UInt8) : CodecResult (List UInt8) :=
  match snappy.getUncompressedLength input with
  | none => .error "snappy decompress"
  | some _ =>
    match snappy.rawUncompress input with
    | none => .error "snappy decompress"
    | some out => .ok out

/-- `NodeObjectType`. -/
inductive NodeObjectType
  | hotUNKNOWN | hotLEDGER | hotACCOUNT_NODE | hotTRANSACTION_NODE
  deriving DecidableEq, Repr

namespace NodeObjectType

def toUInt8 : NodeObjectType → UInt8
  | hotUNKNOWN => 0
  | hotLEDGER => 1
  | hotACCOUNT_NODE => 3
  | hotTRANSACTION_NODE => 4

/-- The cases of `DecodedBlob`'s switch on the type byte. -/
def ofByte : UInt8 → Option NodeObjectType
  | 0 => some hotUNKNOWN
  | 1 => some hotLEDGER
  | 3 => some hotACCOUNT_NODE
  | 4 => some hotTRANSACTION_NODE
  | _ => none

theorem ofByte_toUInt8 (type : NodeObjectType) : ofByte type.toUInt8 = some type := by
  cases type <;> rfl

end NodeObjectType

/-- `HashPrefix::innerNode` as the `std::uint32_t` the codec reads and writes. -/
def innerNodePrefix : Nat := Bytes.ofBigEndian HashPrefix.innerNode

/-- `zero32 ()`. -/
def zero32 : List UInt8 := List.replicate 32 0

/-- The `std::uint32_t` at bytes 9 to 12 of a blob, where an inner node has its prefix. -/
def blobPrefix (input : List UInt8) : Nat := Bytes.ofBigEndian ((input.drop 9).take 4)

/-- `count` reads of 32 bytes in a row from an `istream`. -/
def chunks : Nat → List UInt8 → List (List UInt8)
  | 0, _ => []
  | count + 1, input => input.take 32 :: chunks count (input.drop 32)

/-- The loop of `nodeobject_compress` over the hashes, from bit `0x8000` down: the number of
non-zero hashes, the mask of their bits and the hashes themselves. -/
def packHashes : Nat → Nat × Nat × List UInt8 → List (List UInt8) → Nat × Nat × List UInt8
  | _, packed, [] => packed
  | bit, (n, mask, vh), h :: rest =>
    if h = zero32 then packHashes (bit >>> 1) (n, mask, vh) rest
    else packHashes (bit >>> 1) (n + 1, mask ||| bit, vh ++ h) rest

/-- `nodeobject_compress`. -/
def nodeobjectCompress (input : List UInt8) : CodecResult (List UInt8) :=
  if input.length = 525 ∧ blobPrefix input = innerNodePrefix then
    let (n, mask, vh) := packHashes 0x8000 (0, 0, []) (chunks 16 (input.drop 13))
    if n < 16 then .ok (writeVarint 2 ++ Bytes.bigEndian 2 mask ++ vh)
    else .ok (writeVarint 3 ++ vh)
  else do
    let lzr ← lz4Compress lz4 input
    pure (writeVarint 1 ++ lzr)

/-- The thirteen bytes `nodeobject_decompress` writes before an inner node's hashes: two zero
`std::uint32_t`s, `hotUNKNOWN` and the inner node prefix. -/
def innerHeader : List UInt8 :=
  Bytes.bigEndian 4 0 ++ Bytes.bigEndian 4 0 ++ [NodeObjectType.hotUNKNOWN.toUInt8] ++
    Bytes.bigEndian 4 innerNodePrefix

/-- The loop of `nodeobject_decompress` for a compressed inner node, from bit `0x8000` down:
the next 32 bytes of the input where the mask has the bit, 32 zeros where it has not; and the
input left. -/
def expandHashes (mask : Nat) : Nat → Nat → List UInt8 → CodecResult (List UInt8 × List UInt8)
  | 0, _, input => .ok ([], input)
  | count + 1, bit, input =>
    if mask &&& bit ≠ 0 then
      if input.length < 32 then .error "nodeobject codec: short inner node"
      else do
        let (out, rest) ← expandHashes mask count (bit >>> 1) (input.drop 32)
        pure (input.take 32 ++ out, rest)
    else do
      let (out, rest) ← expandHashes mask count (bit >>> 1) input
      pure (zero32 ++ out, rest)

/-- `nodeobject_decompress`. -/
def nodeobjectDecompress (input : List UInt8) : CodecResult (List UInt8) :=
  match readVarint input with
  | none => .error "nodeobject decompress"
  | some (type, vn) =>
    let p := input.drop vn
    match type with
    | 0 => .ok p
    | 1 => lz4Decompress lz4 p
    | 2 =>
      if p.length < 2 + 32 then .error "nodeobject codec: short inner node"
      else
        let mask := Bytes.ofBigEndian (p.take 2)
        if mask = 0 then .error "nodeobject codec: empty inner node"
        else do
          let (hashes, rest) ← expandHashes mask 16 0x8000 (p.drop 2)
          if rest.length > 0 then .error "nodeobject codec: long inner node"
          else pure (innerHeader ++ hashes)
    | 3 =>
      if p.length ≠ 16 * 32 then .error "nodeobject codec: short full inner node"
      else .ok (innerHeader ++ p.take 512)
    | type => .error ("nodeobject codec: bad type=" ++ toString type)

/-- `filter_inner`: an inner node blob with its ledger sequence and type erased. -/
def filterInner (input : List UInt8) : List UInt8 :=
  if input.length = 525 ∧ blobPrefix input = innerNodePrefix then
    Bytes.bigEndian 4 0 ++ Bytes.bigEndian 4 0 ++ [NodeObjectType.hotUNKNOWN.toUInt8] ++ input.drop 9
  else input

/-- A codec class of `codec.h`: its `compress` and `decompress`. -/
structure CodecClass where
  compress : List UInt8 → CodecResult (List UInt8)
  decompress : List UInt8 → CodecResult (List UInt8)

/-- `snappy_codec`. -/
def snappyCodec : CodecClass := ⟨snappyCompress snappy, snappyDecompress snappy⟩

/-- `lz4_codec`, whose `decompress` calls `lz4_compress`. -/
def lz4Codec : CodecClass := ⟨lz4Compress lz4, lz4Compress lz4⟩

/-- `nodeobject_codec`. -/
def nodeobjectCodec : CodecClass := ⟨nodeobjectCompress lz4, nodeobjectDecompress lz4⟩

/-! ### Round trips -/

theorem lz4Compress_eq (input : List UInt8) :
    lz4Compress lz4 input = .ok (writeVarint input.length ++ lz4.compress input) := by
  rw [lz4Compress, if_neg (by rw [List.length_eq_zero_iff]; exact lz4.compress_ne_nil input)]

/-- `lz4_decompress` reads back what `lz4_compress` wrote. -/
theorem lz4Decompress_compress {input : List UInt8} (fits : input.length < 2 ^ 64) :
    lz4Decompress lz4 (writeVarint input.length ++ lz4.compress input) = .ok input := by
  have after : (writeVarint input.length ++ lz4.compress input).drop (sizeVarint input.length) =
      lz4.compress input := List.drop_left' (length_writeVarint _)
  have whole : (lz4.compress input).length + sizeVarint input.length =
      (writeVarint input.length ++ lz4.compress input).length := by
    rw [List.length_append, length_writeVarint, Nat.add_comm]
  rw [lz4Decompress, readVarint_writeVarint fits]
  simp only [after, lz4.decompressFast_compress, whole, ne_eq, not_true_eq_false, if_false]

/-- The hashes that are not all zero. -/
def present (hashes : List (List UInt8)) : List (List UInt8) := hashes.filter (· != zero32)

/-- The mask of the hashes that are present, the first at the highest bit. -/
def hashMask : List (List UInt8) → Nat
  | [] => 0
  | h :: rest => (if h = zero32 then 0 else 2 ^ rest.length) ||| hashMask rest

theorem present_cons_zero (rest : List (List UInt8)) : present (zero32 :: rest) = present rest := by
  simp [present]

theorem present_cons {h : List UInt8} (nonzero : h ≠ zero32) (rest : List (List UInt8)) :
    present (h :: rest) = h :: present rest := by
  simp [present, nonzero]

theorem hashMask_lt (hashes : List (List UInt8)) : hashMask hashes < 2 ^ hashes.length := by
  induction hashes with
  | nil => exact Nat.one_pos
  | cons h rest ih =>
    have below : (if h = zero32 then 0 else 2 ^ rest.length) < 2 ^ (rest.length + 1) := by
      split
      · exact Nat.two_pow_pos _
      · exact Nat.pow_lt_pow_succ (by decide)
    rw [List.length_cons]
    exact Nat.or_lt_two_pow below (Nat.lt_trans ih (Nat.pow_lt_pow_succ (by decide)))

theorem hashMask_ne_zero {hashes : List (List UInt8)} (some : present hashes ≠ []) :
    hashMask hashes ≠ 0 := by
  induction hashes with
  | nil => exact absurd rfl some
  | cons h rest ih =>
    rw [hashMask]
    by_cases zero : h = zero32
    · subst zero
      rw [present_cons_zero] at some
      rw [if_pos rfl, Nat.zero_or]
      exact ih some
    · rw [if_neg zero]
      intro both
      have := (Nat.or_eq_zero_iff.mp both).1
      exact absurd this (Nat.two_pow_pos _).ne'

theorem shiftRight_one_two_pow (m : Nat) : 2 ^ (m + 1) >>> 1 = 2 ^ m := by
  rw [Nat.shiftRight_eq_div_pow, Nat.pow_succ, Nat.pow_one, Nat.mul_div_cancel _ (by decide)]

/-- Where the loop's bit stands for the first of the hashes left. -/
def Aligned (bit : Nat) (hashes : List (List UInt8)) : Prop :=
  hashes ≠ [] → bit = 2 ^ (hashes.length - 1)

theorem Aligned.tail {bit : Nat} {h : List UInt8} {rest : List (List UInt8)}
    (aligned : Aligned bit (h :: rest)) : Aligned (bit >>> 1) rest := by
  intro nonempty
  obtain ⟨k, length⟩ : ∃ k, rest.length = k + 1 :=
    Nat.exists_eq_succ_of_ne_zero (by simpa using nonempty)
  rw [aligned (List.cons_ne_nil _ _), List.length_cons, length, Nat.add_sub_cancel,
    shiftRight_one_two_pow, Nat.add_sub_cancel]

/-- The compressing loop counts, masks and keeps the hashes that are present. -/
theorem packHashes_eq (hashes : List (List UInt8)) {bit : Nat} (aligned : Aligned bit hashes)
    (n mask : Nat) (vh : List UInt8) :
    packHashes bit (n, mask, vh) hashes =
      (n + (present hashes).length, mask ||| hashMask hashes, vh ++ (present hashes).flatten) := by
  induction hashes generalizing bit n mask vh with
  | nil => simp [packHashes, present, hashMask]
  | cons h rest ih =>
    have top : bit = 2 ^ rest.length := by simpa using aligned (List.cons_ne_nil _ _)
    by_cases zero : h = zero32
    · subst zero
      rw [packHashes, if_pos rfl, ih aligned.tail, present_cons_zero, hashMask, if_pos rfl,
        Nat.zero_or]
    · rw [packHashes, if_neg zero, ih aligned.tail, present_cons zero, hashMask, if_neg zero, top,
        List.length_cons, List.flatten_cons, Nat.or_assoc, List.append_assoc, Nat.add_assoc,
        Nat.add_comm 1]

/-- The expanding loop, over a mask whose low bits are those of the hashes, puts back each
hash that is present and zeros for the others. -/
theorem expandHashes_present (hashes : List (List UInt8)) {bit : Nat} (aligned : Aligned bit hashes)
    (sized : ∀ h ∈ hashes, h.length = 32) {high : Nat}
    (above : ∀ i < hashes.length, high.testBit i = false) (rest : List UInt8) :
    expandHashes (high ||| hashMask hashes) hashes.length bit ((present hashes).flatten ++ rest) =
      .ok (hashes.flatten, rest) := by
  induction hashes generalizing bit high with
  | nil => rfl
  | cons h tail ih =>
    have top : bit = 2 ^ tail.length := by simpa using aligned (List.cons_ne_nil _ _)
    let own := if h = zero32 then 0 else 2 ^ tail.length
    have regroup : high ||| hashMask (h :: tail) = (high ||| own) ||| hashMask tail := by
      rw [hashMask, Nat.or_assoc]
    have lower : ∀ i < tail.length, (high ||| own).testBit i = false := by
      intro i below
      have ownBit : own.testBit i = false := by
        simp only [own]
        split
        · exact Nat.zero_testBit i
        · rw [Nat.testBit_two_pow]
          simp only [decide_eq_false_iff_not]
          omega
      rw [Nat.testBit_or, above i (by simp; omega), ownBit, Bool.or_false]
    have tested : (high ||| hashMask (h :: tail)).testBit tail.length = decide (h ≠ zero32) := by
      rw [regroup, Nat.testBit_or, Nat.testBit_or, above _ (by simp),
        Nat.testBit_lt_two_pow (hashMask_lt tail), Bool.false_or, Bool.or_false]
      simp only [own]
      split
      · rename_i zero
        simp [zero]
      · rename_i nonzero
        simp [nonzero]
    have masked : (high ||| hashMask (h :: tail)) &&& bit ≠ 0 ↔ h ≠ zero32 := by
      rw [top, Nat.and_two_pow, tested]
      by_cases zero : h = zero32 <;> simp [zero]
    have next := ih aligned.tail (fun h' member => sized h' (List.mem_cons_of_mem _ member)) lower
    rw [← regroup] at next
    rw [List.length_cons, expandHashes]
    by_cases zero : h = zero32
    · rw [if_neg (by rw [masked]; exact not_not.mpr zero)]
      subst zero
      rw [present_cons_zero, next]
      rfl
    · have long : ¬(h ++ (present tail).flatten ++ rest).length < 32 := by
        simp [sized h List.mem_cons_self]
      rw [if_pos (masked.mpr zero), present_cons zero, List.flatten_cons, List.append_assoc,
        if_neg (by rw [← List.append_assoc]; exact long)]
      have front : (h ++ ((present tail).flatten ++ rest)).drop 32 = (present tail).flatten ++ rest :=
        List.drop_left' (sized h List.mem_cons_self)
      have back : (h ++ ((present tail).flatten ++ rest)).take 32 = h :=
        List.take_left' (sized h List.mem_cons_self)
      rw [front, next]
      simp only [back, List.flatten_cons]
      rfl

theorem length_chunks (count : Nat) (input : List UInt8) : (chunks count input).length = count := by
  induction count generalizing input with
  | zero => rfl
  | succ count ih => rw [chunks, List.length_cons, ih]

theorem flatten_chunks (count : Nat) (input : List UInt8) :
    (chunks count input).flatten = input.take (32 * count) := by
  induction count generalizing input with
  | zero => rfl
  | succ count ih =>
    rw [chunks, List.flatten_cons, ih, Nat.mul_succ, Nat.add_comm, List.take_add]

theorem sized_chunks {count : Nat} {input : List UInt8} (long : 32 * count ≤ input.length) :
    ∀ h ∈ chunks count input, h.length = 32 := by
  induction count generalizing input with
  | zero => simp [chunks]
  | succ count ih =>
    intro h member
    rw [chunks, List.mem_cons] at member
    rcases member with first | later
    · rw [first, List.length_take]
      omega
    · exact ih (by rw [List.length_drop]; omega) h later

theorem chunks_replicate (count : Nat) :
    chunks count (List.replicate (32 * count) 0) = List.replicate count zero32 := by
  induction count with
  | zero => rfl
  | succ count ih =>
    rw [chunks, List.take_replicate, List.drop_replicate, Nat.mul_succ,
      show min 32 (32 * count + 32) = 32 by omega, Nat.add_sub_cancel, ih, List.replicate_succ]
    rfl

theorem packHashes_zeros (count bit : Nat) (packed : Nat × Nat × List UInt8) :
    packHashes bit packed (List.replicate count zero32) = packed := by
  induction count generalizing bit with
  | zero => rfl
  | succ count ih =>
    obtain ⟨n, mask, vh⟩ := packed
    rw [List.replicate_succ, packHashes, if_pos rfl, ih]

theorem flatten_of_present_nil {hashes : List (List UInt8)} (none : present hashes = []) :
    hashes.flatten = List.replicate (32 * hashes.length) 0 := by
  induction hashes with
  | nil => rfl
  | cons h rest ih =>
    by_cases zero : h = zero32
    · subst zero
      rw [present_cons_zero] at none
      rw [List.flatten_cons, ih none, List.length_cons, Nat.mul_succ, Nat.add_comm,
        List.replicate_add]
      rfl
    · rw [present_cons zero] at none
      exact absurd none (List.cons_ne_nil _ _)

theorem length_flatten_of_sized {hashes : List (List UInt8)} (sized : ∀ h ∈ hashes, h.length = 32) :
    hashes.flatten.length = 32 * hashes.length := by
  induction hashes with
  | nil => rfl
  | cons h rest ih =>
    rw [List.flatten_cons, List.length_append, sized h List.mem_cons_self,
      ih (fun h' member => sized h' (List.mem_cons_of_mem _ member)), List.length_cons, Nat.mul_succ,
      Nat.add_comm]

theorem mem_of_mem_present {hashes : List (List UInt8)} {h : List UInt8} (member : h ∈ present hashes) :
    h ∈ hashes :=
  List.mem_of_mem_filter member

theorem present_eq_self {hashes : List (List UInt8)} (full : hashes.length ≤ (present hashes).length) :
    present hashes = hashes :=
  List.filter_eq_self.mpr (List.length_filter_eq_length_iff.mp
    (Nat.le_antisymm (List.length_filter_le _ _) full))

theorem drop_writeVarint (v : Nat) (rest : List UInt8) :
    (writeVarint v ++ rest).drop (sizeVarint v) = rest :=
  List.drop_left' (length_writeVarint v)

/-- An inner node blob, filtered, is the header `nodeobject_decompress` writes and its hashes. -/
theorem filterInner_of_inner {input : List UInt8}
    (inner : input.length = 525 ∧ blobPrefix input = innerNodePrefix) :
    filterInner input = innerHeader ++ input.drop 13 := by
  have prefixBytes : (input.drop 9).take 4 = Bytes.bigEndian 4 innerNodePrefix := by
    have four : ((input.drop 9).take 4).length = 4 := by simp; omega
    have back := Bytes.bigEndian_ofBigEndian ((input.drop 9).take 4)
    rw [four] at back
    rw [← inner.2, blobPrefix]
    exact back.symm
  have split : input.drop 9 = (input.drop 9).take 4 ++ input.drop 13 := by
    have whole := List.take_append_drop 4 (input.drop 9)
    rw [List.drop_drop] at whole
    exact whole.symm
  rw [filterInner, if_pos inner, split, prefixBytes, innerHeader]
  simp only [List.append_assoc]

/-- `nodeobject_decompress` undoes `nodeobject_compress` up to `filter_inner`, for every blob
but an inner node whose hashes are all zero. -/
theorem nodeobjectDecompress_compress {input : List UInt8} (fits : input.length < 2 ^ 64)
    (notEmpty : ¬(input.length = 525 ∧ blobPrefix input = innerNodePrefix ∧
      input.drop 13 = List.replicate 512 0)) :
    (nodeobjectCompress lz4 input).bind (nodeobjectDecompress lz4) = .ok (filterInner input) := by
  by_cases inner : input.length = 525 ∧ blobPrefix input = innerNodePrefix
  · obtain ⟨long, prefixed⟩ := inner
    have sized := sized_chunks (show 32 * 16 ≤ (input.drop 13).length by rw [List.length_drop]; omega)
    have whole : (chunks 16 (input.drop 13)).flatten = input.drop 13 := by
      rw [flatten_chunks, List.take_of_length_le (by rw [List.length_drop]; omega)]
    have sixteen := length_chunks 16 (input.drop 13)
    have aligned : Aligned 0x8000 (chunks 16 (input.drop 13)) := fun _ => by rw [sixteen]; rfl
    have some : present (chunks 16 (input.drop 13)) ≠ [] := by
      intro none
      have zeros := flatten_of_present_nil none
      rw [whole, sixteen] at zeros
      exact notEmpty ⟨long, prefixed, zeros⟩
    have packed := packHashes_eq _ aligned 0 0 []
    rw [nodeobjectCompress, if_pos ⟨long, prefixed⟩, filterInner_of_inner ⟨long, prefixed⟩]
    generalize chunks 16 (input.drop 13) = hashes at *
    rw [← whole]
    have kept : (present hashes).flatten.length = 32 * (present hashes).length :=
      length_flatten_of_sized fun h member => sized h (mem_of_mem_present member)
    simp only [packed, Nat.zero_add, Nat.zero_or, List.nil_append]
    split
    · rename_i fewer
      have masked : Bytes.ofBigEndian ((Bytes.bigEndian 2 (hashMask hashes) ++
          (present hashes).flatten).take 2) = hashMask hashes := by
        rw [List.take_left' (Bytes.length_bigEndian 2 _), Bytes.ofBigEndian_bigEndian,
          Nat.mod_eq_of_lt (by have := hashMask_lt hashes; rw [sixteen] at this; exact this)]
      have expanded := expandHashes_present hashes aligned sized (fun i _ => Nat.zero_testBit i) []
      rw [Nat.zero_or, List.append_nil, sixteen] at expanded
      have enough : ¬(Bytes.bigEndian 2 (hashMask hashes) ++ (present hashes).flatten).length <
          2 + 32 := by
        have := List.length_pos_iff.mpr some
        rw [List.length_append, Bytes.length_bigEndian, kept]
        omega
      rw [List.append_assoc]
      show nodeobjectDecompress lz4
        (writeVarint 2 ++ (Bytes.bigEndian 2 (hashMask hashes) ++ (present hashes).flatten)) = _
      rw [nodeobjectDecompress, readVarint_writeVarint (by decide)]
      simp only [drop_writeVarint, if_neg enough, masked, if_neg (hashMask_ne_zero some),
        List.drop_left' (Bytes.length_bigEndian 2 _), expanded]
      rfl
    · rename_i full
      have all := present_eq_self (by rw [sixteen]; omega)
      have size : (present hashes).flatten.length = 16 * 32 := by rw [kept, all, sixteen]
      show nodeobjectDecompress lz4 (writeVarint 3 ++ (present hashes).flatten) = _
      rw [nodeobjectDecompress, readVarint_writeVarint (by decide)]
      simp only [drop_writeVarint, size, ne_eq, not_true_eq_false, if_false]
      rw [List.take_of_length_le (by omega), all]
  · rw [nodeobjectCompress, if_neg inner, lz4Compress_eq, filterInner, if_neg inner]
    show nodeobjectDecompress lz4 (writeVarint 1 ++ (writeVarint input.length ++ lz4.compress input)) = _
    rw [nodeobjectDecompress, readVarint_writeVarint (by decide)]
    simp only [drop_writeVarint]
    exact lz4Decompress_compress lz4 fits

end RadardFormal.Nodestore
