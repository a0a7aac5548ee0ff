import Mathlib.Data.List.Basic
import Mathlib.Algebra.Group.Nat.Defs

/-!
# NuDB varints

The variable-length integers of `beast/nudb/detail/varint.h` that frame node-store blobs.
Digits are base 127, least significant first, with the high bit set on every byte but the
last.  `read_varint` finds the last byte, then folds the digits back from the most
significant in `std::size_t`, failing where the running value does not grow.

`readVarint_writeVarint`: every `std::size_t` is read back from its varint, with the number of
bytes used, whatever follows it.
-/

namespace RadardFormal.Nodestore

/-- The first loop of `read_varint`: the bytes up to and including the first without the high
bit, or none when the buffer ends first. -/
def varintLength : List UInt8 → Option Nat
  | [] => none
  | d :: rest => if d &&& 0x80 ≠ 0 then (varintLength rest).map (· + 1) else some 1

/-- The second loop of `read_varint`, from the last digit to the first, in `std::size_t`:
none where the running value fails to grow, its overflow check. -/
def accumulate : List UInt8 → Option Nat
  | [] => some 0
  | d :: rest => (accumulate rest).bind fun t0 =>
      let t := (t0 * 127 + (d &&& 0x7f).toNat) % 2 ^ 64
      if t ≤ t0 then none else some t

/-- `read_varint`: the value and the number of bytes used, or none where it returns 0. -/
def readVarint (buf : List UInt8) : Option (Nat × Nat) :=
  match varintLength buf with
  | none => none
  | some n =>
    if n = 1 ∧ buf.head? = some 0 then some (0, 1)
    else (accumulate (buf.take n)).map fun t => (t, n)

/-- `write_varint`. -/
def writeVarint (v : Nat) : List UInt8 :=
  if v / 127 = 0 then [UInt8.ofNat (v % 127)]
  else (UInt8.ofNat (v % 127) ||| 0x80) :: writeVarint (v / 127)
termination_by v
decreasing_by omega

/-- `size_varint`. -/
def sizeVarint (v : Nat) : Nat :=
  if v / 127 = 0 then 1 else sizeVarint (v / 127) + 1
termination_by v
decreasing_by omega

/-- A digit below 127 has its high bit clear, gets it from `|= 0x80`, and keeps its value
under `& 0x7f` either way. -/
theorem digit_bits : ∀ d : Fin 127,
    UInt8.ofNat d &&& 0x80 = 0 ∧ (UInt8.ofNat d ||| 0x80) &&& 0x80 ≠ 0 ∧
      (UInt8.ofNat d &&& 0x7f).toNat = d ∧ ((UInt8.ofNat d ||| 0x80) &&& 0x7f).toNat = d := by
  decide

theorem digit_bits_mod (v : Nat) :
    UInt8.ofNat (v % 127) &&& 0x80 = 0 ∧ (UInt8.ofNat (v % 127) ||| 0x80) &&& 0x80 ≠ 0 ∧
      (UInt8.ofNat (v % 127) &&& 0x7f).toNat = v % 127 ∧
        ((UInt8.ofNat (v % 127) ||| 0x80) &&& 0x7f).toNat = v % 127 :=
  digit_bits ⟨v % 127, Nat.mod_lt _ (by decide)⟩

theorem writeVarint_of_lt {v : Nat} (small : v / 127 = 0) : writeVarint v = [UInt8.ofNat (v % 127)] := by
  rw [writeVarint, if_pos small]

theorem writeVarint_of_ge {v : Nat} (large : v / 127 ≠ 0) :
    writeVarint v = (UInt8.ofNat (v % 127) ||| 0x80) :: writeVarint (v / 127) := by
  rw [writeVarint, if_neg large]

theorem sizeVarint_pos (v : Nat) : 0 < sizeVarint v := by
  rw [sizeVarint]
  split <;> omega

theorem length_writeVarint (v : Nat) : (writeVarint v).length = sizeVarint v := by
  induction v using Nat.strongRecOn with
  | ind v ih =>
    by_cases small : v / 127 = 0
    · rw [writeVarint_of_lt small, sizeVarint, if_pos small]
      rfl
    · rw [writeVarint_of_ge small, sizeVarint, if_neg small, List.length_cons, ih _ (by omega)]

theorem varintLength_writeVarint (v : Nat) (rest : List UInt8) :
    varintLength (writeVarint v ++ rest) = some (sizeVarint v) := by
  induction v using Nat.strongRecOn with
  | ind v ih =>
    obtain ⟨clear, set, -, -⟩ := digit_bits_mod v
    by_cases small : v / 127 = 0
    · rw [writeVarint_of_lt small, sizeVarint, if_pos small, List.singleton_append, varintLength,
        if_neg (by rw [clear]; decide)]
    · rw [writeVarint_of_ge small, sizeVarint, if_neg small, List.cons_append, varintLength,
        if_pos set, ih _ (by omega)]
      rfl

/-- Folding the digits back gives the value, for every positive `std::size_t`. -/
theorem accumulate_writeVarint {v : Nat} (positive : 0 < v) (fits : v < 2 ^ 64) :
    accumulate (writeVarint v) = some v := by
  induction v using Nat.strongRecOn with
  | ind v ih =>
    obtain ⟨-, -, low, high⟩ := digit_bits_mod v
    by_cases small : v / 127 = 0
    · have grows : ¬(0 * 127 + v % 127) % 2 ^ 64 ≤ 0 := by omega
      rw [writeVarint_of_lt small, accumulate, accumulate, Option.bind_some, low]
      simp only [grows, if_false]
      congr 1
      omega
    · have grows : ¬(v / 127 * 127 + v % 127) % 2 ^ 64 ≤ v / 127 := by omega
      rw [writeVarint_of_ge small, accumulate, ih _ (by omega) (by omega) (by omega),
        Option.bind_some, high]
      simp only [grows, if_false]
      congr 1
      omega

theorem readVarint_writeVarint {v : Nat} (fits : v < 2 ^ 64) (rest : List UInt8) :
    readVarint (writeVarint v ++ rest) = some (v, sizeVarint v) := by
  have taken : (writeVarint v ++ rest).take (sizeVarint v) = writeVarint v :=
    List.take_left' (length_writeVarint v)
  unfold readVarint
  rw [varintLength_writeVarint]
  simp only
  by_cases zero : v = 0
  · subst zero
    have one : sizeVarint 0 = 1 := by rw [sizeVarint, if_pos rfl]
    rw [one, writeVarint_of_lt rfl]
    rfl
  · have notZero : ¬(sizeVarint v = 1 ∧ (writeVarint v ++ rest).head? = some 0) := by
      rintro ⟨one, first⟩
      have small : v / 127 = 0 := by
        by_contra large
        rw [sizeVarint, if_neg large] at one
        have := sizeVarint_pos (v / 127)
        omega
      rw [writeVarint_of_lt small, List.singleton_append, List.head?_cons, Option.some.injEq] at first
      have := congrArg UInt8.toNat first
      rw [UInt8.toNat_ofNat'] at this
      have lt : v % 127 = v := Nat.mod_eq_of_lt (by omega)
      simp only [UInt8.toNat_zero] at this
      omega
    rw [if_neg notZero, taken, accumulate_writeVarint (Nat.pos_of_ne_zero zero) fits]
    rfl

end RadardFormal.Nodestore
