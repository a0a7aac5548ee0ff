import Mathlib.Data.List.Basic
import Mathlib.Algebra.Group.Nat.Defs

/-!
# Big-endian byte strings

A number written in a fixed number of bytes, the most significant byte first, and read
back from the front of a byte string.  `bigEndian width value` keeps the value modulo
`256 ^ width`, as a truncating cast to a narrower word does, and `takeBigEndian` reads
`width` bytes or fails on a shorter string.

Nothing here depends on what the bytes encode.
-/

namespace RadardFormal.Support.Bytes

/-- The `width` low bytes of `value`, most significant first. -/
def bigEndian : Nat → Nat → List UInt8
  | 0, _ => []
  | width + 1, value => UInt8.ofNat (value / 256 ^ width) :: bigEndian width value

/-- The number a byte string writes, most significant byte first. -/
def ofBigEndian : List UInt8 → Nat
  | [] => 0
  | byte :: rest => byte.toNat * 256 ^ rest.length + ofBigEndian rest

/-- Read a `width`-byte number from the front of `input`: the number and the bytes
after it, or `none` when fewer than `width` bytes remain. -/
def takeBigEndian (width : Nat) (input : List UInt8) : Option (Nat × List UInt8) :=
  if input.length < width then none else some (ofBigEndian (input.take width), input.drop width)

@[simp] theorem length_bigEndian (width value : Nat) : (bigEndian width value).length = width := by
  induction width with
  | zero => rfl
  | succ width ih => simp [bigEndian, ih]

theorem ofBigEndian_lt (bytes : List UInt8) : ofBigEndian bytes < 256 ^ bytes.length := by
  induction bytes with
  | nil => exact Nat.one_pos
  | cons byte rest ih =>
    have small : byte.toNat < 256 := byte.toNat_lt
    rw [ofBigEndian, List.length_cons, Nat.pow_succ]
    calc byte.toNat * 256 ^ rest.length + ofBigEndian rest
        < byte.toNat * 256 ^ rest.length + 256 ^ rest.length := Nat.add_lt_add_left ih _
      _ = (byte.toNat + 1) * 256 ^ rest.length := by rw [Nat.succ_mul]
      _ ≤ 256 * 256 ^ rest.length := Nat.mul_le_mul_right _ small
      _ = 256 ^ rest.length * 256 := Nat.mul_comm _ _

/-- Reading the bytes back gives the value modulo the width. -/
theorem ofBigEndian_bigEndian (width value : Nat) :
    ofBigEndian (bigEndian width value) = value % 256 ^ width := by
  induction width with
  | zero => simp [bigEndian, ofBigEndian, Nat.mod_one]
  | succ width ih =>
    have split : value % 256 ^ (width + 1) =
        value % 256 ^ width + 256 ^ width * (value / 256 ^ width % 256) := Nat.mod_pow_succ
    rw [bigEndian, ofBigEndian, length_bigEndian, ih, split, UInt8.toNat_ofNat', Nat.add_comm,
      Nat.mul_comm]

/-- A byte keeps a number modulo 256. -/
theorem ofNat_add_mul (value extra : Nat) : UInt8.ofNat (value + 256 * extra) = UInt8.ofNat value := by
  apply UInt8.toNat.inj
  rw [UInt8.toNat_ofNat', UInt8.toNat_ofNat']
  exact Nat.add_mul_mod_self_left value (2 ^ 8) extra

/-- Multiples of `256 ^ width` do not show in the low bytes. -/
theorem bigEndian_add_mul (width value extra : Nat) :
    bigEndian width (value + 256 ^ width * extra) = bigEndian width value := by
  induction width generalizing extra with
  | zero => rfl
  | succ width ih =>
    have shifted : (value + 256 ^ (width + 1) * extra) / 256 ^ width =
        value / 256 ^ width + 256 * extra := by
      rw [Nat.pow_succ, Nat.mul_assoc, Nat.add_mul_div_left _ _ (Nat.pow_pos (by decide))]
    have high : 256 ^ (width + 1) * extra = 256 ^ width * (256 * extra) := by
      rw [Nat.pow_succ, Nat.mul_assoc]
    rw [bigEndian, bigEndian, shifted, high, ih, ofNat_add_mul]

theorem bigEndian_zero (width : Nat) : bigEndian width 0 = List.replicate width 0 := by
  induction width with
  | zero => rfl
  | succ width ih => simp [bigEndian, ih, List.replicate_succ]

/-- A wide number is its high part in the leading bytes followed by its low bytes. -/
theorem bigEndian_add (width extra value : Nat) :
    bigEndian (width + extra) value = bigEndian width (value / 256 ^ extra) ++ bigEndian extra value := by
  induction width with
  | zero => simp [bigEndian]
  | succ width ih =>
    have high : value / 256 ^ extra / 256 ^ width = value / 256 ^ (width + extra) := by
      rw [Nat.div_div_eq_div_mul, ← Nat.pow_add, Nat.add_comm extra]
    rw [Nat.add_right_comm, bigEndian, bigEndian, ih, high, List.cons_append]

theorem ofBigEndian_append (front back : List UInt8) :
    ofBigEndian (front ++ back) = ofBigEndian front * 256 ^ back.length + ofBigEndian back := by
  induction front with
  | nil => simp [ofBigEndian]
  | cons byte rest ih =>
    rw [List.cons_append, ofBigEndian, ofBigEndian, ih, List.length_append, Nat.pow_add, Nat.add_mul,
      Nat.mul_assoc, Nat.add_assoc]

theorem ofBigEndian_replicate_zero (count : Nat) : ofBigEndian (List.replicate count 0) = 0 := by
  induction count with
  | zero => rfl
  | succ count ih => simp [List.replicate_succ, ofBigEndian, ih]

/-- Writing a byte string's number in its own width gives the string back. -/
theorem bigEndian_ofBigEndian (bytes : List UInt8) :
    bigEndian bytes.length (ofBigEndian bytes) = bytes := by
  induction bytes with
  | nil => rfl
  | cons byte rest ih =>
    have small := ofBigEndian_lt rest
    have leading : (byte.toNat * 256 ^ rest.length + ofBigEndian rest) / 256 ^ rest.length =
        byte.toNat := by
      rw [Nat.add_comm, Nat.add_mul_div_right _ _ (Nat.pow_pos (by decide)),
        Nat.div_eq_of_lt small, Nat.zero_add]
    rw [List.length_cons, ofBigEndian, bigEndian, leading, Nat.add_comm, Nat.mul_comm,
      bigEndian_add_mul, ih, UInt8.ofNat_toNat]

/-- A number written in its width is read back, with the bytes after it. -/
theorem takeBigEndian_bigEndian (width value : Nat) (rest : List UInt8) :
    takeBigEndian width (bigEndian width value ++ rest) = some (value % 256 ^ width, rest) := by
  have enough : ¬(bigEndian width value ++ rest).length < width := by simp
  rw [takeBigEndian, if_neg enough]
  have front : (bigEndian width value ++ rest).take width = bigEndian width value := by
    exact List.take_left' (length_bigEndian width value)
  have back : (bigEndian width value ++ rest).drop width = rest := by
    exact List.drop_left' (length_bigEndian width value)
  rw [front, back, ofBigEndian_bigEndian]

/-! ## Comparing byte strings -/

/-- Compare two byte strings at the first byte where they differ, the place `std::mismatch`
finds: `1` when the first string's byte is the larger there, `-1` when it is the smaller,
`0` when no byte differs. -/
def compareBytes : List UInt8 → List UInt8 → Int
  | a :: as, b :: bs => if a = b then compareBytes as bs else if a > b then 1 else -1
  | _, _ => 0

/-- Of two strings of one length, the one with the smaller leading byte writes the smaller
number, whatever follows. -/
theorem ofBigEndian_lt_of_head_lt {x y : UInt8} {xs ys : List UInt8} (same : xs.length = ys.length)
    (lt : x.toNat < y.toNat) : ofBigEndian (x :: xs) < ofBigEndian (y :: ys) := by
  have rest := ofBigEndian_lt xs
  rw [ofBigEndian, ofBigEndian, ← same]
  calc x.toNat * 256 ^ xs.length + ofBigEndian xs
      < x.toNat * 256 ^ xs.length + 256 ^ xs.length := Nat.add_lt_add_left rest _
    _ = (x.toNat + 1) * 256 ^ xs.length := by rw [Nat.succ_mul]
    _ ≤ y.toNat * 256 ^ xs.length := Nat.mul_le_mul_right _ lt
    _ ≤ y.toNat * 256 ^ xs.length + ofBigEndian ys := Nat.le_add_right _ _

/-- On strings of one length the first differing byte decides as the numbers do. -/
theorem compareBytes_eq {a b : List UInt8} (same : a.length = b.length) :
    compareBytes a b =
      if ofBigEndian a < ofBigEndian b then -1 else if ofBigEndian a = ofBigEndian b then 0 else 1 := by
  induction a generalizing b with
  | nil =>
    rw [List.length_nil, eq_comm, List.length_eq_zero_iff] at same
    subst same
    rfl
  | cons x xs ih =>
    cases b with
    | nil => cases same
    | cons y ys =>
      have sameRest : xs.length = ys.length := Nat.succ.inj same
      by_cases equal : x = y
      · -- an equal leading byte adds the same to both numbers
        subst equal
        simp only [compareBytes, if_true, ofBigEndian, ← sameRest, Nat.add_lt_add_iff_left,
          Nat.add_left_cancel_iff]
        exact ih sameRest
      · have apart : x.toNat ≠ y.toNat := fun eq => equal (UInt8.toNat_inj.mp eq)
        rw [compareBytes, if_neg equal]
        by_cases greater : x > y
        · have below := ofBigEndian_lt_of_head_lt sameRest.symm (UInt8.lt_iff_toNat_lt.mp greater)
          rw [if_pos greater, if_neg (Nat.lt_asymm below), if_neg (Nat.ne_of_gt below)]
        · have smaller : x.toNat < y.toNat := by
            rw [gt_iff_lt, UInt8.lt_iff_toNat_lt] at greater
            omega
          rw [if_neg greater, if_pos (ofBigEndian_lt_of_head_lt sameRest smaller)]

/-- What `takeBigEndian` reads is a number below the width, written in front of the
bytes it leaves. -/
theorem takeBigEndian_eq_some {width : Nat} {input rest : List UInt8} {value : Nat}
    (read : takeBigEndian width input = some (value, rest)) :
    value < 256 ^ width ∧ input = bigEndian width value ++ rest := by
  unfold takeBigEndian at read
  split at read
  · cases read
  · rename_i enough
    obtain ⟨rfl, rfl⟩ := Prod.mk.inj (Option.some.inj read)
    have taken : (input.take width).length = width := List.length_take_of_le (by omega)
    have bound := ofBigEndian_lt (input.take width)
    have back := bigEndian_ofBigEndian (input.take width)
    rw [taken] at bound back
    rw [back]
    exact ⟨bound, (List.take_append_drop width input).symm⟩

end RadardFormal.Support.Bytes
