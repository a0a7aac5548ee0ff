import RadardFormal.Nodestore.Codec

/-!
# Node objects through the NuDB backend

`EncodedBlob::prepare` lays a node object out as eight unused zero bytes, its type byte and
its data; the NuDB backend stores that blob through `nodeobject_codec` and reads it back with
`DecodedBlob`.  `storeThenFetch_eq`: every object whose data is not empty comes back with its
key and data, and with its type unless it is an inner node, which `filter_inner` turns into
`hotUNKNOWN`; the one exception is an inner node whose hashes are all zero.
-/

namespace RadardFormal.Nodestore

open RadardFormal.Protocol RadardFormal.Shamap RadardFormal.Support

/-- `NodeObject`. -/
structure NodeObject where
  type : NodeObjectType
  data : List UInt8
  hash : Uint256
  deriving DecidableEq

/-- `EncodedBlob::prepare`: the bytes stored under the object's hash. -/
def EncodedBlob.prepare (object : NodeObject) : List UInt8 :=
  List.replicate 8 0 ++ [object.type.toUInt8] ++ object.data

/-- `DecodedBlob`: what its constructor reads from a stored value. -/
structure DecodedBlob where
  key : Uint256
  objectType : UInt8
  objectData : List UInt8
  success : Bool

/-- `DecodedBlob::DecodedBlob`. -/
def DecodedBlob.new (key : Uint256) (value : List UInt8) : DecodedBlob :=
  let objectType : UInt8 :=
    if value.length > 8 then value.getD 8 0 else NodeObjectType.hotUNKNOWN.toUInt8
  ⟨key, objectType, value.drop 9,
    decide (value.length > 9) && (NodeObjectType.ofByte objectType).isSome⟩

/-- `DecodedBlob::createObject`. -/
def DecodedBlob.createObject (blob : DecodedBlob) : Option NodeObject :=
  if blob.success then (NodeObjectType.ofByte blob.objectType).map fun type =>
    ⟨type, blob.objectData, blob.key⟩
  else none

variable (lz4 : LZ4)

/-- `NuDBBackend::fetch` of an object `store` wrote: the blob through the node-object codec
and back, read by `DecodedBlob`; none where `fetch` reports `dataCorrupt`. -/
def storeThenFetch (object : NodeObject) : CodecResult (Option NodeObject) := do
  let stored ← nodeobjectCompress lz4 (EncodedBlob.prepare object)
  let value ← nodeobjectDecompress lz4 stored
  pure (DecodedBlob.new object.hash value).createObject

/-- An object's data, as `SHAMap::writeNode` stores an inner node: the inner node prefix and
sixteen hashes. -/
def IsInnerData (data : List UInt8) : Prop :=
  data.length = 516 ∧ data.take 4 = HashPrefix.innerNode

instance (data : List UInt8) : Decidable (IsInnerData data) :=
  inferInstanceAs (Decidable (_ ∧ _))

theorem length_prepare (object : NodeObject) :
    (EncodedBlob.prepare object).length = object.data.length + 9 := by
  simp [EncodedBlob.prepare]

theorem drop_prepare (object : NodeObject) (count : Nat) :
    (EncodedBlob.prepare object).drop (9 + count) = object.data.drop count := by
  rw [← List.drop_drop, EncodedBlob.prepare, List.drop_left' (by simp)]

/-- A stored blob is an inner node blob exactly when the object's data is inner node data. -/
theorem inner_prepare_iff (object : NodeObject) :
    ((EncodedBlob.prepare object).length = 525 ∧
        blobPrefix (EncodedBlob.prepare object) = innerNodePrefix) ↔ IsInnerData object.data := by
  have front : (EncodedBlob.prepare object).drop 9 = object.data := drop_prepare object 0
  rw [length_prepare, blobPrefix, front, IsInnerData, innerNodePrefix]
  constructor
  · rintro ⟨long, same⟩
    have four : (object.data.take 4).length = 4 := by simp; omega
    have back := Bytes.bigEndian_ofBigEndian (object.data.take 4)
    rw [four, same] at back
    exact ⟨by omega, back.symm⟩
  · rintro ⟨long, same⟩
    exact ⟨by omega, by rw [same]⟩

theorem filterInner_prepare (object : NodeObject) :
    filterInner (EncodedBlob.prepare object) =
      if IsInnerData object.data then
        EncodedBlob.prepare { object with type := .hotUNKNOWN }
      else EncodedBlob.prepare object := by
  rw [filterInner]
  by_cases inner : IsInnerData object.data
  · rw [if_pos ((inner_prepare_iff object).mpr inner), if_pos inner, drop_prepare object 0]
    rfl
  · rw [if_neg (fun both => inner ((inner_prepare_iff object).mp both)), if_neg inner]

/-- `DecodedBlob` reads back every blob `prepare` wrote for an object with data. -/
theorem createObject_prepare (object : NodeObject) (nonempty : object.data ≠ []) :
    (DecodedBlob.new object.hash (EncodedBlob.prepare object)).createObject = some object := by
  have long : (EncodedBlob.prepare object).length > 9 := by
    rw [length_prepare]
    have := List.length_pos_iff.mpr nonempty
    omega
  have typed : (if (EncodedBlob.prepare object).length > 8 then (EncodedBlob.prepare object).getD 8 0
      else NodeObjectType.hotUNKNOWN.toUInt8) = object.type.toUInt8 := by
    rw [if_pos (by omega)]
    simp [EncodedBlob.prepare]
  simp only [DecodedBlob.new, DecodedBlob.createObject, typed, NodeObjectType.ofByte_toUInt8,
    decide_eq_true long, Option.isSome_some, Bool.and_self, if_true, Option.map_some,
    drop_prepare object 0, List.drop_zero]

/-- Storing an object and fetching it gives it back, as `hotUNKNOWN` when it is an inner node,
for every object with data but an inner node whose hashes are all zero. -/
theorem storeThenFetch_eq (object : NodeObject) (fits : object.data.length + 9 < 2 ^ 64)
    (nonempty : object.data ≠ [])
    (notEmpty : ¬(IsInnerData object.data ∧ object.data.drop 4 = List.replicate 512 0)) :
    storeThenFetch lz4 object =
      .ok (some (if IsInnerData object.data then { object with type := .hotUNKNOWN } else object)) := by
  have notEmptyBlob : ¬((EncodedBlob.prepare object).length = 525 ∧
      blobPrefix (EncodedBlob.prepare object) = innerNodePrefix ∧
      (EncodedBlob.prepare object).drop 13 = List.replicate 512 0) := by
    rintro ⟨long, prefixed, zeros⟩
    rw [show 13 = 9 + 4 from rfl, drop_prepare] at zeros
    exact notEmpty ⟨(inner_prepare_iff object).mp ⟨long, prefixed⟩, zeros⟩
  have roundTrip := nodeobjectDecompress_compress lz4
    (show (EncodedBlob.prepare object).length < 2 ^ 64 by rw [length_prepare]; exact fits) notEmptyBlob
  have regroup : storeThenFetch lz4 object =
      ((nodeobjectCompress lz4 (EncodedBlob.prepare object)).bind (nodeobjectDecompress lz4)).bind
        fun value => .ok (DecodedBlob.new object.hash value).createObject := by
    unfold storeThenFetch
    cases nodeobjectCompress lz4 (EncodedBlob.prepare object) <;> rfl
  rw [regroup, roundTrip, filterInner_prepare]
  by_cases inner : IsInnerData object.data
  · rw [if_pos inner, if_pos inner]
    show Except.ok _ = _
    rw [createObject_prepare { object with type := .hotUNKNOWN } nonempty]
  · rw [if_neg inner, if_neg inner]
    show Except.ok _ = _
    rw [createObject_prepare object nonempty]

/-- `lz4_codec` does not give back what it compressed; and an inner node whose hashes are all
zero is stored but cannot be fetched. -/
theorem codec_round_trips_fail :
    (∀ lz4 : LZ4, ((lz4Codec lz4).compress []).bind (lz4Codec lz4).decompress ≠ .ok []) ∧
    ∀ (lz4 : LZ4) (hash : Uint256),
      storeThenFetch lz4 ⟨.hotACCOUNT_NODE, HashPrefix.innerNode ++ List.replicate 512 0, hash⟩ =
        .error "nodeobject codec: short inner node" := by
  refine ⟨fun lz4 => ?_, fun lz4 hash => ?_⟩
  · show lz4Compress lz4 [] >>= lz4Compress lz4 ≠ _
    rw [lz4Compress_eq]
    show lz4Compress lz4 (writeVarint [].length ++ lz4.compress []) ≠ _
    rw [lz4Compress_eq]
    intro same
    injection same with empty
    have size := congrArg List.length empty
    rw [List.length_append, length_writeVarint, List.length_nil] at size
    have positive := sizeVarint_pos (writeVarint 0 ++ lz4.compress []).length
    omega
  · have isInner : IsInnerData (HashPrefix.innerNode ++ List.replicate 512 0) :=
      ⟨by rw [List.length_append, List.length_replicate]; rfl, List.take_left' rfl⟩
    have inner := (inner_prepare_iff ⟨.hotACCOUNT_NODE, _, hash⟩).mpr isInner
    have zeros : (EncodedBlob.prepare ⟨.hotACCOUNT_NODE, HashPrefix.innerNode ++ List.replicate 512 0,
        hash⟩).drop 13 = List.replicate 512 0 := by
      rw [show 13 = 9 + 4 from rfl, drop_prepare]
      rfl
    have packed : packHashes 0x8000 (0, 0, []) (chunks 16 (List.replicate (32 * 16) 0)) =
        (0, 0, []) := by
      rw [chunks_replicate, packHashes_zeros]
    unfold storeThenFetch
    rw [nodeobjectCompress, if_pos inner, zeros, show 512 = 32 * 16 from rfl, packed, writeVarint_of_lt (show 2 / 127 = 0 from rfl)]
    rfl

end RadardFormal.Nodestore
