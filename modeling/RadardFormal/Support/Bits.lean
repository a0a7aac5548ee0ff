import Mathlib.Data.Nat.Bitwise

/-!
# Fields of a machine word

A word whose `k` low bits hold one field and whose higher bits hold another is
`high <<< k ||| low` with `low < 2 ^ k`.  Masking, shifting and complementing such a word
act on the two fields apart; these are the rules a packed encoding is read with.  The
trailing zero bits of a word count the powers of two that divide it.
-/

namespace RadardFormal.Support.Bits

/-- `~x` on a word of `width` bits. -/
def complement (width x : Nat) : Nat := (2 ^ width - 1) ^^^ x

variable {k low : Nat}

theorem testBit_of_lt_two_pow (small : low < 2 ^ k) {i : Nat} (above : k ≤ i) :
    low.testBit i = false :=
  Nat.testBit_lt_two_pow (Nat.lt_of_lt_of_le small (Nat.pow_le_pow_right (by decide) above))

/-- The two fields side by side are their sum. -/
theorem shiftLeft_or_eq_add (small : low < 2 ^ k) (high : Nat) :
    high <<< k ||| low = high * 2 ^ k + low := by
  rw [← Nat.shiftLeft_add_eq_or_of_lt small, Nat.shiftLeft_eq]

/-- Every word splits at bit `k`. -/
theorem eq_shiftLeft_or (word k : Nat) : word = (word >>> k) <<< k ||| word % 2 ^ k := by
  rw [shiftLeft_or_eq_add (Nat.mod_lt _ (Nat.pow_pos (by decide))), Nat.shiftRight_eq_div_pow]
  exact (Nat.div_add_mod' word (2 ^ k)).symm

theorem shiftLeft_or_shiftRight (small : low < 2 ^ k) (high : Nat) :
    (high <<< k ||| low) >>> k = high := by
  apply Nat.eq_of_testBit_eq
  intro i
  rw [Nat.testBit_shiftRight, Nat.testBit_or, Nat.testBit_shiftLeft,
    testBit_of_lt_two_pow small (Nat.le_add_right k i)]
  simp

theorem shiftLeft_or_and_low (small : low < 2 ^ k) (high : Nat) :
    (high <<< k ||| low) &&& (2 ^ k - 1) = low := by
  rw [Nat.and_two_pow_sub_one_eq_mod, shiftLeft_or_eq_add small, Nat.mul_add_mod_self_right,
    Nat.mod_eq_of_lt small]

/-- A mask on the high field reads that field alone. -/
theorem shiftLeft_or_and_shiftLeft (small : low < 2 ^ k) (high mask : Nat) :
    (high <<< k ||| low) &&& mask <<< k = (high &&& mask) <<< k := by
  apply Nat.eq_of_testBit_eq
  intro i
  simp only [Nat.testBit_and, Nat.testBit_or, Nat.testBit_shiftLeft]
  by_cases below : i < k
  · simp [Nat.not_le.mpr below]
  · rw [testBit_of_lt_two_pow small (Nat.le_of_not_lt below)]
    simp [Nat.le_of_not_lt below]

/-- A mask that keeps the low field whole acts on the high field alone. -/
theorem shiftLeft_or_and_mask (small : low < 2 ^ k) (high mask : Nat) :
    (high <<< k ||| low) &&& (mask <<< k ||| (2 ^ k - 1)) = (high &&& mask) <<< k ||| low := by
  apply Nat.eq_of_testBit_eq
  intro i
  simp only [Nat.testBit_and, Nat.testBit_or, Nat.testBit_shiftLeft, Nat.testBit_two_pow_sub_one]
  by_cases below : i < k
  · simp [Nat.not_le.mpr below, below]
  · rw [testBit_of_lt_two_pow small (Nat.le_of_not_lt below)]
    simp [Nat.le_of_not_lt below, below]

/-- A one-bit mask reads that bit. -/
theorem and_two_pow (x k : Nat) : x &&& 2 ^ k = 2 ^ k * (x / 2 ^ k % 2) := by
  apply Nat.eq_of_testBit_eq
  intro i
  rw [Nat.testBit_and, Nat.testBit_two_pow, Nat.mul_comm, Nat.testBit_mul_two_pow]
  have bit : x / 2 ^ k % 2 < 2 ^ 1 := Nat.mod_lt _ (by decide)
  by_cases same : k = i
  · subst same
    rw [Nat.testBit_eq_decide_div_mod_eq (x := x), Nat.sub_self]
    rcases Nat.mod_two_eq_zero_or_one (x / 2 ^ k) with bitValue | bitValue <;> simp [bitValue]
  · by_cases above : k ≤ i
    · rw [testBit_of_lt_two_pow bit (by omega)]
      simp [same]
    · simp [same, above]

theorem shiftLeft_eq_zero_iff (high k : Nat) : high <<< k = 0 ↔ high = 0 := by
  rw [Nat.shiftLeft_eq, Nat.mul_eq_zero]
  simp

/-- The trailing zero bits of a word of `width` bits, scanned from the least significant one; the
zero word has `width`. -/
def trailingZeros : Nat → Nat → Nat
  | 0, _ => 0
  | width + 1, n => if n % 2 = 0 then trailingZeros width (n / 2) + 1 else 0

theorem trailingZeros_le (width n : Nat) : trailingZeros width n ≤ width := by
  induction width generalizing n with
  | zero => exact Nat.le_refl 0
  | succ width ih =>
    unfold trailingZeros
    split
    · exact Nat.succ_le_succ (ih (n / 2))
    · exact Nat.zero_le _

theorem two_pow_trailingZeros_dvd (width n : Nat) : 2 ^ trailingZeros width n ∣ n := by
  induction width generalizing n with
  | zero => exact Nat.one_dvd n
  | succ width ih =>
    unfold trailingZeros
    split
    case isTrue even =>
      have halves : n / 2 * 2 = n := Nat.div_mul_cancel (Nat.dvd_of_mod_eq_zero even)
      have doubled := Nat.mul_dvd_mul_right (ih (n / 2)) 2
      rwa [halves, ← Nat.pow_succ] at doubled
    case isFalse => exact Nat.one_dvd n

/-- Every power of two dividing a word, up to its width, is counted among its trailing zeros. -/
theorem le_trailingZeros_of_dvd {width j n : Nat} (le : j ≤ width) (dvd : 2 ^ j ∣ n) :
    j ≤ trailingZeros width n := by
  induction width generalizing j n with
  | zero => exact le
  | succ width ih =>
    cases j with
    | zero => exact Nat.zero_le _
    | succ j =>
      rw [Nat.pow_succ'] at dvd
      have even : n % 2 = 0 := Nat.mod_eq_zero_of_dvd (Nat.dvd_trans (Nat.dvd_mul_right 2 _) dvd)
      have half : 2 ^ j ∣ n / 2 := Nat.dvd_div_of_mul_dvd dvd
      rw [trailingZeros, if_pos even]
      exact Nat.succ_le_succ (ih (by omega) half)

end RadardFormal.Support.Bits
