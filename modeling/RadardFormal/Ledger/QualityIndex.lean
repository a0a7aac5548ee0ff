import RadardFormal.Protocol.Basics
import RadardFormal.Support.Bytes
import RadardFormal.Support.Radix
import RadardFormal.Support.Walk
import RadardFormal.Ledger.RawStateTable

/-!
# Quality-indexed keys

Order books and asset states keep the entries of one base side by side: `getQualityIndex`
overwrites the last eight bytes of the base's `uint256` with a 64-bit quality, written
big-endian with `htobe64`, and `getQuality` reads them back with `be64toh`.  The keys of one
base then run from `getQualityIndex (uBase, 0)` up to `getQualityNext` of it, the base plus
`2^64` by `base_uint::operator+=`, and the scans of `assetRelease` and the order books walk
`view.succ` over that range.

A `uint256` is stored as its 32 bytes, most significant first, and is read here through that
storage: `operator+=` adds the 32-bit words `pn` read with `bigendToHost`, and `compare` looks
for the first differing byte.  Both agree with the number the bytes write, so a quality index
is the base's upper 192 bits followed by the quality, and the range is exactly the keys with
those upper bits.  `view.succ` never returns the key it starts from: the scan finds every key
of the base but the one of quality zero, which the callers read on their own.
-/

namespace RadardFormal.Protocol.Uint256

open RadardFormal.Support RadardFormal.Support.Bytes RadardFormal.Support.Radix

/-- The `uint256` stored as `data`, 32 bytes most significant first. -/
def ofBytes (data : List UInt8) : Uint256 := ofNat (ofBigEndian data)

/-- The 32-bit words `pn` of stored bytes, each four bytes read with `bigendToHost`. -/
def words : List UInt8 → List Nat
  | b0 :: b1 :: b2 :: b3 :: rest => ofBigEndian [b0, b1, b2, b3] :: words rest
  | _ => []

/-- `operator+`, which adds `b` to a copy of `a` with `base_uint::operator+=`: the words are
added from the last with a carry, each keeping the low 32 bits of its sum (`n & 0xffffffff`,
that is `n % 2 ^ 32`) and carrying the rest (`n >> 32`), and stored back with
`hostToBigend`. -/
def add (a b : Uint256) : Uint256 :=
  ofBytes ((addDigits (2 ^ 32) (words a.bytes) (words b.bytes) 0).1.flatMap (bigEndian 4))

instance : Add Uint256 := ⟨add⟩

/-- `compare` of two `base_uint`s: the first stored byte where they differ decides. -/
def compare (a b : Uint256) : Int := compareBytes a.bytes b.bytes

/-! ## The storage and the number -/

theorem ext_val {a b : Uint256} (same : a.val.val = b.val.val) : a = b :=
  val_injective (Fin.ext same)

theorem eq_iff_val_eq {a b : Uint256} : a = b ↔ a.val.val = b.val.val :=
  ⟨fun same => same ▸ rfl, ext_val⟩

theorem le_iff_val_le {a b : Uint256} : a ≤ b ↔ a.val ≤ b.val := Iff.rfl

theorem val_ofBytes (data : List UInt8) : (ofBytes data).val.val = ofBigEndian data % 2 ^ 256 :=
  Fin.val_ofNat _ _

/-- Bytes listed by position are the number written big-endian. -/
theorem map_range_eq_bigEndian (width value : Nat) :
    (List.range width).map (fun i => UInt8.ofNat (value / 256 ^ (width - 1 - i) % 256)) =
      bigEndian width value := by
  induction width with
  | zero => rfl
  | succ width ih =>
    have leading : UInt8.ofNat (value / 256 ^ (width + 1 - 1 - 0) % 256) = UInt8.ofNat (value / 256 ^ width) := by
      apply UInt8.toNat.inj
      simp only [UInt8.toNat_ofNat', Nat.add_sub_cancel, Nat.sub_zero]
      exact Nat.mod_mod_of_dvd _ (by decide)
    have shifted : ∀ i, width + 1 - 1 - (i + 1) = width - 1 - i := by omega
    rw [List.range_succ_eq_map, List.map_cons, List.map_map, bigEndian, leading, ← ih]
    simp only [Function.comp_def, shifted]

theorem bytes_eq_bigEndian (u : Uint256) : u.bytes = bigEndian 32 u.val.val :=
  map_range_eq_bigEndian 32 u.val.val

@[simp] theorem length_bytes (u : Uint256) : u.bytes.length = 32 := by
  rw [bytes_eq_bigEndian, length_bigEndian]

theorem ofBigEndian_bytes (u : Uint256) : ofBigEndian u.bytes = u.val.val := by
  rw [bytes_eq_bigEndian, ofBigEndian_bigEndian, Nat.mod_eq_of_lt (by simp)]

/-- A `uint256` read from the bytes it is stored as is itself. -/
theorem ofBytes_bytes (u : Uint256) : ofBytes u.bytes = u := by
  apply ext_val
  rw [val_ofBytes, ofBigEndian_bytes, Nat.mod_eq_of_lt u.val.isLt]

/-- The upper 24 bytes hold the number above its low 64 bits, the last eight those bits. -/
theorem bytes_split (u : Uint256) : u.bytes = bigEndian 24 (u.val.val / 2 ^ 64) ++ bigEndian 8 u.val.val := by
  rw [bytes_eq_bigEndian, show 32 = 24 + 8 from rfl, bigEndian_add]
  rfl

/-! ## `compare` -/

/-- `compare` answers as the numbers compare. -/
theorem compare_eq (a b : Uint256) : a.compare b = if a < b then -1 else if a = b then 0 else 1 := by
  have below : a.val.val < b.val.val ↔ a < b := by rw [lt_iff_val_lt, Fin.lt_def]
  rw [compare, compareBytes_eq (by simp), ofBigEndian_bytes, ofBigEndian_bytes]
  simp only [below, ← eq_iff_val_eq]

theorem compare_lt_iff (a b : Uint256) : a.compare b < 0 ↔ a < b := by
  rw [compare_eq]
  split_ifs with below same <;> simp [below]

theorem compare_le_iff (a b : Uint256) : a.compare b ≤ 0 ↔ a ≤ b := by
  rw [compare_eq]
  split_ifs with below same
  · simp [le_of_lt below]
  · simp [same]
  · simp only [Int.reduceLE, false_iff, not_le]
    exact lt_of_le_of_ne (not_lt.mp below) (Ne.symm same)

/-! ## `operator+=` -/

theorem length_words : ∀ data : List UInt8, (words data).length = data.length / 4
  | b0 :: b1 :: b2 :: b3 :: rest => by
    rw [words, List.length_cons, length_words rest]
    simp only [List.length_cons]
    omega
  | [] | [_] | [_, _] | [_, _, _] => by simp [words]

theorem lt_of_mem_words : ∀ (data : List UInt8), ∀ w ∈ words data, w < 2 ^ 32
  | b0 :: b1 :: b2 :: b3 :: rest => by
    intro w mem
    rcases List.mem_cons.mp mem with rfl | later
    · exact (ofBigEndian_lt [b0, b1, b2, b3]).trans_eq (by norm_num)
    · exact lt_of_mem_words rest w later
  | [] | [_] | [_, _] | [_, _, _] => by simp [words]

/-- Read as words, whole words of bytes write the same number. -/
theorem value_words : ∀ data : List UInt8, data.length % 4 = 0 →
    value (2 ^ 32) (words data) = ofBigEndian data
  | b0 :: b1 :: b2 :: b3 :: rest, aligned => by
    have restAligned : rest.length % 4 = 0 := by simp only [List.length_cons] at aligned; omega
    have width : (2 ^ 32) ^ (rest.length / 4) = 256 ^ rest.length := by
      rw [← Nat.div_add_mod rest.length 4, restAligned, Nat.add_zero, Nat.mul_div_cancel_left _ (by decide),
        Nat.pow_mul]
      norm_num
    rw [words, value_cons, length_words, value_words rest restAligned, width,
      show b0 :: b1 :: b2 :: b3 :: rest = [b0, b1, b2, b3] ++ rest from rfl, ofBigEndian_append]
  | [], _ => rfl
  | [_], aligned | [_, _], aligned | [_, _, _], aligned => by simp at aligned

/-- Words stored back four bytes each write the number the words do. -/
theorem ofBigEndian_flatMap_bigEndian :
    ∀ digits : List Nat, (∀ d ∈ digits, d < 2 ^ 32) →
      ofBigEndian (digits.flatMap (bigEndian 4)) = value (2 ^ 32) digits
  | [], _ => rfl
  | d :: ds, small => by
    have rest := ofBigEndian_flatMap_bigEndian ds fun x mem => small x (List.mem_cons_of_mem d mem)
    have length : (ds.flatMap (bigEndian 4)).length = 4 * ds.length := by
      simp [List.length_flatMap, Nat.mul_comm]
    have word : ofBigEndian (bigEndian 4 d) = d :=
      (ofBigEndian_bigEndian 4 d).trans (Nat.mod_eq_of_lt (small d List.mem_cons_self))
    rw [List.flatMap_cons, ofBigEndian_append, rest, word, length, value_cons, Nat.pow_mul]
    norm_num

/-- `operator+` is addition modulo `2^256`. -/
theorem val_add (a b : Uint256) : (a + b).val.val = (a.val.val + b.val.val) % 2 ^ 256 := by
  have sameLength : (words a.bytes).length = (words b.bytes).length := by simp [length_words]
  have small := lt_of_mem_addDigits (Nat.two_pow_pos 32) (words a.bytes) (words b.bytes) 0
  have aligned : ∀ u : Uint256, u.bytes.length % 4 = 0 := fun u => by simp
  change (add a b).val.val = _
  rw [add, val_ofBytes, ofBigEndian_flatMap_bigEndian _ small,
    value_addDigits_eq_mod (by decide) sameLength, value_words _ (aligned a), value_words _ (aligned b),
    ofBigEndian_bytes, ofBigEndian_bytes, length_words, length_bytes, Nat.add_zero]
  rw [show (2 ^ 32) ^ (32 / 4) = 2 ^ 256 by norm_num, Nat.mod_mod]

end RadardFormal.Protocol.Uint256

namespace RadardFormal.Ledger

open RadardFormal.Protocol RadardFormal.Support RadardFormal.Support.Bytes

/-- `getQualityIndex`: the base with its last eight bytes replaced by the quality, written with
`htobe64` so that the storage reads it big-endian. -/
def getQualityIndex (uBase : Uint256) (uNodeDir : UInt64) : Uint256 :=
  Uint256.ofBytes (uBase.bytes.take 24 ++ bigEndian 8 uNodeDir.toNat)

/-- `from_hex_text<uint256> ("10000000000000000")`: one above the largest quality. -/
def uNext : Uint256 := Uint256.ofNat (2 ^ 64)

/-- `getQualityNext`: the base of the next range. -/
def getQualityNext (uBase : Uint256) : Uint256 := uBase + uNext

/-- `getQuality`: the last eight bytes read with `be64toh`. -/
def getQuality (uBase : Uint256) : UInt64 := UInt64.ofNat (ofBigEndian (uBase.bytes.drop 24))

/-! ## The numbers of the keys -/

/-- A quality index is the base's upper 192 bits above the quality. -/
theorem val_getQualityIndex (uBase : Uint256) (uNodeDir : UInt64) :
    (getQualityIndex uBase uNodeDir).val.val = uBase.val.val / 2 ^ 64 * 2 ^ 64 + uNodeDir.toNat := by
  have upper : uBase.val.val / 2 ^ 64 < 256 ^ 24 := by
    have := uBase.val.isLt
    omega
  have quality : uNodeDir.toNat < 256 ^ 8 := uNodeDir.toNat_lt
  have front : uBase.bytes.take 24 = bigEndian 24 (uBase.val.val / 2 ^ 64) := by
    rw [Uint256.bytes_split, List.take_left' (length_bigEndian _ _)]
  rw [getQualityIndex, Uint256.val_ofBytes, front, ofBigEndian_append, ofBigEndian_bigEndian,
    ofBigEndian_bigEndian, length_bigEndian, Nat.mod_eq_of_lt upper, Nat.mod_eq_of_lt quality]
  have whole : uBase.val.val / 2 ^ 64 * 256 ^ 8 + uNodeDir.toNat < 2 ^ 256 := by omega
  rw [Nat.mod_eq_of_lt whole]
  rfl

/-- The quality of a key is its low 64 bits. -/
theorem toNat_getQuality (k : Uint256) : (getQuality k).toNat = k.val.val % 2 ^ 64 := by
  have back : k.bytes.drop 24 = bigEndian 8 k.val.val := by
    rw [Uint256.bytes_split, List.drop_left' (length_bigEndian _ _)]
  rw [getQuality, back, ofBigEndian_bigEndian, UInt64.toNat_ofNat', Nat.mod_mod_of_dvd _ (by decide)]

theorem val_getQualityNext (k : Uint256) : (getQualityNext k).val.val = (k.val.val + 2 ^ 64) % 2 ^ 256 := by
  rw [getQualityNext, Uint256.val_add]
  rfl

/-! ## The range of one base -/

section Range

variable (uBase : Uint256)

theorem getQuality_getQualityIndex (q : UInt64) : getQuality (getQualityIndex uBase q) = q := by
  have small := q.toNat_lt
  apply UInt64.toNat_inj.mp
  rw [toNat_getQuality, val_getQualityIndex]
  omega

theorem getQualityIndex_getQualityIndex (q q' : UInt64) :
    getQualityIndex (getQualityIndex uBase q) q' = getQualityIndex uBase q' := by
  have small := q.toNat_lt
  apply Uint256.ext_val
  rw [val_getQualityIndex, val_getQualityIndex, val_getQualityIndex]
  omega

/-- On one base, `compare` orders the quality indexes as their qualities. -/
theorem compare_getQualityIndex_lt_iff (q q' : UInt64) :
    (getQualityIndex uBase q).compare (getQualityIndex uBase q') < 0 ↔ q < q' := by
  rw [Uint256.compare_lt_iff, Uint256.lt_iff_val_lt, Fin.lt_def, val_getQualityIndex, val_getQualityIndex,
    UInt64.lt_iff_toNat_lt]
  omega

/-- A key is the quality index of its own quality exactly when its upper bits are the base's. -/
theorem eq_getQualityIndex_getQuality_iff (k : Uint256) :
    k = getQualityIndex uBase (getQuality k) ↔ k.val.val / 2 ^ 64 = uBase.val.val / 2 ^ 64 := by
  rw [Uint256.eq_iff_val_eq, val_getQualityIndex, toNat_getQuality]
  omega

section NotAllOnes

variable {uBase} (notAllOnes : uBase.val.val / 2 ^ 64 ≠ 2 ^ 192 - 1)
include notAllOnes

/-- Below the all-ones base the end of the range is the next base: the sum does not wrap. -/
theorem val_getQualityNext_getQualityIndex :
    (getQualityNext (getQualityIndex uBase 0)).val.val = (uBase.val.val / 2 ^ 64 + 1) * 2 ^ 64 := by
  have below := uBase.val.isLt
  rw [val_getQualityNext, val_getQualityIndex, UInt64.toNat_zero]
  omega

/-- The keys from the base's index of quality zero up to the next base are those with the
base's upper bits. -/
theorem mem_range_iff (k : Uint256) :
    ((getQualityIndex uBase 0).compare k ≤ 0 ∧ k.compare (getQualityNext (getQualityIndex uBase 0)) < 0) ↔
      k.val.val / 2 ^ 64 = uBase.val.val / 2 ^ 64 := by
  rw [Uint256.compare_le_iff, Uint256.compare_lt_iff, Uint256.le_iff_val_le, Uint256.lt_iff_val_lt,
    Fin.le_def, Fin.lt_def, val_getQualityNext_getQualityIndex notAllOnes, val_getQualityIndex,
    UInt64.toNat_zero]
  omega

/-- Strictly inside the range lie the keys of the base with a quality other than zero. -/
theorem mem_scan_iff (k : Uint256) :
    (k < getQualityNext (getQualityIndex uBase 0) ∧ getQualityIndex uBase 0 < k) ↔
      k.val.val / 2 ^ 64 = uBase.val.val / 2 ^ 64 ∧ getQuality k ≠ 0 := by
  have quality : getQuality k ≠ 0 ↔ k.val.val % 2 ^ 64 ≠ 0 := by
    rw [ne_eq, ← UInt64.toNat_inj, toNat_getQuality, UInt64.toNat_zero]
  rw [quality, Uint256.lt_iff_val_lt, Uint256.lt_iff_val_lt, Fin.lt_def, Fin.lt_def,
    val_getQualityNext_getQualityIndex notAllOnes, val_getQualityIndex, UInt64.toNat_zero]
  omega

end NotAllOnes

/-- Keys of one base are ordered as their qualities. -/
theorem getQuality_lt_of_lt {a b : Uint256} (sameA : a.val.val / 2 ^ 64 = uBase.val.val / 2 ^ 64)
    (sameB : b.val.val / 2 ^ 64 = uBase.val.val / 2 ^ 64) (lt : a < b) : getQuality a < getQuality b := by
  rw [Uint256.lt_iff_val_lt, Fin.lt_def] at lt
  rw [UInt64.lt_iff_toNat_lt, toNat_getQuality, toNat_getQuality]
  omega

end Range

/-! ## Scanning a range with `succ` -/

section Scan

variable {V : Type} (map : Uint256 → Option V) (succ : Uint256 → Option Uint256 → Option Uint256)

/-- The scan of `assetRelease` and the order books over a view standing for a finite `map`:
asking `succ` from the base's index of quality zero, below the next base, finds the keys of
the base with a quality other than zero, in increasing quality, and then nothing. -/
theorem scan_eq {uBase : Uint256} (notAllOnes : uBase.val.val / 2 ^ 64 ≠ 2 ^ 192 - 1)
    (realizes : ∀ key last, LeastOf (keysBetween map key last) (succ key last))
    (finite : Set.Finite {k | map k ≠ none}) :
    ∃ visited : List Uint256, (visited.map getQuality).Pairwise (· < ·) ∧
      (∀ k, k ∈ visited ↔ map k ≠ none ∧ k.val.val / 2 ^ 64 = uBase.val.val / 2 ^ 64 ∧ getQuality k ≠ 0) ∧
      ∀ fuel, visited.length ≤ fuel →
        walk (fun key => succ key (some (getQualityNext (getQualityIndex uBase 0)))) fuel
          (getQualityIndex uBase 0) = visited := by
  -- the walk steps through the keys of the map below the end of the range
  have least : ∀ key, LeastOf {m | m ∈ {m | m < getQualityNext (getQualityIndex uBase 0) ∧ map m ≠ none} ∧ key < m}
      (succ key (some (getQualityNext (getQualityIndex uBase 0)))) := by
    intro key
    have same : {m | m ∈ {m | m < getQualityNext (getQualityIndex uBase 0) ∧ map m ≠ none} ∧ key < m} =
        keysBetween map key (some (getQualityNext (getQualityIndex uBase 0))) := by
      ext m
      constructor
      · rintro ⟨⟨below, present⟩, above⟩
        exact ⟨above, fun l isLast => Option.some.inj isLast ▸ below, present⟩
      · rintro ⟨above, below, present⟩
        exact ⟨⟨below _ rfl, present⟩, above⟩
    rw [same]
    exact realizes key _
  obtain ⟨visited, increasing, members, ends⟩ :=
    exists_walk_eq (finite.subset fun _ inRange => inRange.2) least (getQualityIndex uBase 0)
  have exact : ∀ k, k ∈ visited ↔
      map k ≠ none ∧ k.val.val / 2 ^ 64 = uBase.val.val / 2 ^ 64 ∧ getQuality k ≠ 0 := by
    intro k
    rw [members, ← mem_scan_iff notAllOnes k]
    exact ⟨fun ⟨⟨below, present⟩, above⟩ => ⟨present, below, above⟩,
      fun ⟨present, below, above⟩ => ⟨⟨below, present⟩, above⟩⟩
  refine ⟨visited, ?_, exact, ends⟩
  rw [List.pairwise_map]
  exact increasing.imp_of_mem fun aMem bMem lt =>
    getQuality_lt_of_lt uBase ((exact _).mp aMem).2.1 ((exact _).mp bMem).2.1 lt

end Scan

/-- Quality indexes of a base whose upper 192 bits are not all ones: the quality reads back,
re-indexing replaces it, `compare` orders indexes as their qualities, the range from quality
zero to `getQualityNext` holds exactly the keys with the base's upper bits, and the `succ`
scan from the start of the range finds those keys of non-zero quality, in increasing
quality. -/
theorem qualityIndex_key_ranges (uBase : Uint256) (notAllOnes : uBase.val.val / 2 ^ 64 ≠ 2 ^ 192 - 1) :
    (∀ q : UInt64, getQuality (getQualityIndex uBase q) = q) ∧
    (∀ q q' : UInt64, getQualityIndex (getQualityIndex uBase q) q' = getQualityIndex uBase q') ∧
    (∀ q q' : UInt64, q < q' ↔ (getQualityIndex uBase q).compare (getQualityIndex uBase q') < 0) ∧
    (∀ k : Uint256,
      ((getQualityIndex uBase 0).compare k ≤ 0 ∧ k.compare (getQualityNext (getQualityIndex uBase 0)) < 0) ↔
        k = getQualityIndex uBase (getQuality k) ∧ k.val.val / 2 ^ 64 = uBase.val.val / 2 ^ 64) ∧
    (∀ {V : Type} (map : Uint256 → Option V) (succ : Uint256 → Option Uint256 → Option Uint256),
      (∀ key last, LeastOf (keysBetween map key last) (succ key last)) → Set.Finite {k | map k ≠ none} →
      ∃ visited : List Uint256, (visited.map getQuality).Pairwise (· < ·) ∧
        (∀ k, k ∈ visited ↔ map k ≠ none ∧ k.val.val / 2 ^ 64 = uBase.val.val / 2 ^ 64 ∧ getQuality k ≠ 0) ∧
        ∀ fuel, visited.length ≤ fuel →
          walk (fun key => succ key (some (getQualityNext (getQualityIndex uBase 0)))) fuel
            (getQualityIndex uBase 0) = visited) := by
  refine ⟨getQuality_getQualityIndex uBase, getQualityIndex_getQualityIndex uBase,
    fun q q' => (compare_getQualityIndex_lt_iff uBase q q').symm, fun k => ?_,
    fun map succ realizes finite => scan_eq map succ notAllOnes realizes finite⟩
  rw [mem_range_iff notAllOnes, eq_getQualityIndex_getQuality_iff uBase k, and_self]

theorem qualityIndex_key_ranges_zero_base :
    Uint256.zero.val.val / 2 ^ 64 ≠ 2 ^ 192 - 1 ∧
    (∀ q : UInt64, getQuality (getQualityIndex Uint256.zero q) = q) ∧
    (∀ q q' : UInt64, getQualityIndex (getQualityIndex Uint256.zero q) q' = getQualityIndex Uint256.zero q') ∧
    (∀ q q' : UInt64, q < q' ↔ (getQualityIndex Uint256.zero q).compare (getQualityIndex Uint256.zero q') < 0) ∧
    (∀ k : Uint256,
      ((getQualityIndex Uint256.zero 0).compare k ≤ 0 ∧
          k.compare (getQualityNext (getQualityIndex Uint256.zero 0)) < 0) ↔
        k = getQualityIndex Uint256.zero (getQuality k) ∧ k.val.val / 2 ^ 64 = Uint256.zero.val.val / 2 ^ 64) ∧
    (∀ {V : Type} (map : Uint256 → Option V) (succ : Uint256 → Option Uint256 → Option Uint256),
      (∀ key last, LeastOf (keysBetween map key last) (succ key last)) → Set.Finite {k | map k ≠ none} →
      ∃ visited : List Uint256, (visited.map getQuality).Pairwise (· < ·) ∧
        (∀ k, k ∈ visited ↔
          map k ≠ none ∧ k.val.val / 2 ^ 64 = Uint256.zero.val.val / 2 ^ 64 ∧ getQuality k ≠ 0) ∧
        ∀ fuel, visited.length ≤ fuel →
          walk (fun key => succ key (some (getQualityNext (getQualityIndex Uint256.zero 0)))) fuel
            (getQualityIndex Uint256.zero 0) = visited) :=
  ⟨by decide, qualityIndex_key_ranges Uint256.zero (by decide)⟩

/-- A ledger whose one entry is under the zero base's key of quality zero. -/
def zeroQualityLedger : SortedMap Uint256 Unit :=
  SortedMap.empty.alter (getQualityIndex Uint256.zero 0) fun _ => some ()

/-- The `succ` scan from the start of a range never returns the start itself: the key of
quality zero, in the ledger and with the base's upper bits, is missed however long the scan
runs. -/
theorem scan_skips_zero_quality :
    zeroQualityLedger.find? (getQualityIndex Uint256.zero 0) ≠ none ∧
      (getQualityIndex Uint256.zero 0).val.val / 2 ^ 64 = Uint256.zero.val.val / 2 ^ 64 ∧
      ∀ fuel, getQualityIndex Uint256.zero 0 ∉
        walk (fun key => (RawStateTable.empty : RawStateTable Uint256 Unit).succ zeroQualityLedger key
          (some (getQualityNext (getQualityIndex Uint256.zero 0)))) fuel (getQualityIndex Uint256.zero 0) := by
  have present : zeroQualityLedger.find? (getQualityIndex Uint256.zero 0) ≠ none := by
    simp [zeroQualityLedger, SortedMap.find?_alter]
  have up : ∀ key found, (RawStateTable.empty : RawStateTable Uint256 Unit).succ zeroQualityLedger key
      (some (getQualityNext (getQualityIndex Uint256.zero 0))) = some found → key < found :=
    fun key found answer => ((RawStateTable.succ_spec _ _ key _).1 found answer).1.1
  refine ⟨present, (eq_getQualityIndex_getQuality_iff Uint256.zero _).mp ?_, fun fuel visited =>
    lt_irrefl _ (lt_of_mem_walk up fuel _ _ visited)⟩
  rw [getQuality_getQualityIndex]

end RadardFormal.Ledger
