import Mathlib.Algebra.Order.Field.Power
import Mathlib.Algebra.Order.Field.Rat
import Mathlib.Data.Rat.Floor

/-!
# Numbers in scientific notation

A magnitude `m * b ^ e` whose mantissa has exactly `p + 1` digits in base `b`.  Two of them
compare by exponent first and by mantissa next, so each magnitude has one such notation.
Dropping the low digits of a mantissa, as a truncating division does, loses less than one unit
of the last digit kept; scaling the mantissa against the exponent loses nothing.  Truncating a
number toward zero to a multiple of `b ^ k` is such a division when the number is a magnitude
in this notation, and the number is whole exactly when `b ^ -e` divides its mantissa.
-/

namespace RadardFormal.Support.Scientific

/-- A mantissa of exactly `p + 1` digits in base `b`. -/
def Normal (b p m : ℕ) : Prop := b ^ p ≤ m ∧ m < b ^ (p + 1)

/-- `v` truncated toward zero to a multiple of `b ^ k`. -/
def truncateTo (b : ℕ) (k : ℤ) (v : ℚ) : ℚ :=
  if 0 ≤ v then ⌊v / (b : ℚ) ^ k⌋ * (b : ℚ) ^ k else -(⌊-v / (b : ℚ) ^ k⌋ * (b : ℚ) ^ k)

/-- Truncated to the units, every number is whole. -/
theorem truncateTo_units_isInt (b : ℕ) (v : ℚ) : ∃ n : ℤ, truncateTo b 0 v = n := by
  unfold truncateTo
  split
  · exact ⟨⌊v⌋, by simp⟩
  · exact ⟨-⌊-v⌋, by simp⟩

theorem truncateTo_units_intCast (b : ℕ) (n : ℤ) : truncateTo b 0 n = n := by
  unfold truncateTo
  split
  · simp
  · rw [zpow_zero, div_one, ← Int.cast_neg, Int.floor_intCast]
    simp

theorem truncateTo_neg (b : ℕ) (k : ℤ) (v : ℚ) : truncateTo b k (-v) = -truncateTo b k v := by
  unfold truncateTo
  rcases lt_trichotomy v 0 with negative | rfl | positive
  · rw [if_pos (neg_nonneg.mpr negative.le), if_neg (not_le.mpr negative)]
    simp
  · simp
  · rw [if_neg (by simpa using positive), if_pos positive.le, neg_neg]

section

variable {b p : ℕ} {m₁ m₂ : ℕ} {e₁ e₂ : ℤ}

theorem value_lt_of_exponent_lt (base : 1 < b) (normal₁ : Normal b p m₁) (normal₂ : Normal b p m₂)
    (lt : e₁ < e₂) : (m₁ : ℚ) * (b : ℚ) ^ e₁ < m₂ * (b : ℚ) ^ e₂ := by
  have one_le : (1 : ℚ) ≤ b := by exact_mod_cast base.le
  have positive : (0 : ℚ) < b := Nat.cast_pos.mpr (by omega)
  have above : (m₁ : ℚ) < (b : ℚ) ^ (p + 1) := by exact_mod_cast normal₁.2
  have below : (b : ℚ) ^ p ≤ m₂ := by exact_mod_cast normal₂.1
  calc (m₁ : ℚ) * (b : ℚ) ^ e₁
      < (b : ℚ) ^ (p + 1) * (b : ℚ) ^ e₁ := mul_lt_mul_of_pos_right above (zpow_pos positive e₁)
    _ = (b : ℚ) ^ (((p + 1 : ℕ) : ℤ) + e₁) := by rw [zpow_add₀ positive.ne', zpow_natCast]
    _ ≤ (b : ℚ) ^ ((p : ℤ) + e₂) := zpow_le_zpow_right₀ one_le (by omega)
    _ = (b : ℚ) ^ p * (b : ℚ) ^ e₂ := by rw [zpow_add₀ positive.ne', zpow_natCast]
    _ ≤ m₂ * (b : ℚ) ^ e₂ := mul_le_mul_of_nonneg_right below (zpow_nonneg positive.le e₂)

/-- Normal magnitudes compare lexicographically by exponent and mantissa. -/
theorem value_lt_value_iff (base : 1 < b) (normal₁ : Normal b p m₁) (normal₂ : Normal b p m₂) :
    (m₁ : ℚ) * (b : ℚ) ^ e₁ < m₂ * (b : ℚ) ^ e₂ ↔ e₁ < e₂ ∨ e₁ = e₂ ∧ m₁ < m₂ := by
  have positive : (0 : ℚ) < (b : ℚ) ^ e₂ := zpow_pos (Nat.cast_pos.mpr (by omega)) e₂
  rcases lt_trichotomy e₁ e₂ with lt | rfl | gt
  · exact iff_of_true (value_lt_of_exponent_lt base normal₁ normal₂ lt) (.inl lt)
  · rw [mul_lt_mul_iff_left₀ positive, Nat.cast_lt]
    simp
  · have reverse := value_lt_of_exponent_lt base normal₂ normal₁ gt
    refine iff_of_false (not_lt.mpr reverse.le) ?_
    omega

theorem value_eq_value_iff (base : 1 < b) (normal₁ : Normal b p m₁) (normal₂ : Normal b p m₂) :
    (m₁ : ℚ) * (b : ℚ) ^ e₁ = m₂ * (b : ℚ) ^ e₂ ↔ e₁ = e₂ ∧ m₁ = m₂ := by
  constructor
  · intro same
    have notLt : ¬(e₁ < e₂ ∨ e₁ = e₂ ∧ m₁ < m₂) :=
      fun lt => same.not_lt ((value_lt_value_iff base normal₁ normal₂).mpr lt)
    have notGt : ¬(e₂ < e₁ ∨ e₂ = e₁ ∧ m₂ < m₁) :=
      fun gt => same.not_gt ((value_lt_value_iff base normal₂ normal₁).mpr gt)
    omega
  · rintro ⟨rfl, rfl⟩
    rfl

/-- Dropping the low `j` digits of a mantissa while raising the exponent by `j` never increases
the magnitude. -/
theorem truncate_le (base : 0 < b) (m j : ℕ) (e : ℤ) :
    ((m / b ^ j : ℕ) : ℚ) * (b : ℚ) ^ (e + j) ≤ m * (b : ℚ) ^ e := by
  have positive : (0 : ℚ) < b := Nat.cast_pos.mpr base
  have whole : ((m / b ^ j * b ^ j : ℕ) : ℚ) ≤ m := Nat.cast_le.mpr (Nat.div_mul_le_self m _)
  rw [zpow_add₀ positive.ne', zpow_natCast, mul_comm ((b : ℚ) ^ e), ← mul_assoc]
  push_cast at whole
  exact mul_le_mul_of_nonneg_right whole (zpow_nonneg positive.le e)

/-- Dropping the low `j` digits loses less than one unit of the last digit kept. -/
theorem lt_truncate_succ (base : 0 < b) (m j : ℕ) (e : ℤ) :
    (m : ℚ) * (b : ℚ) ^ e < (((m / b ^ j : ℕ) : ℚ) + 1) * (b : ℚ) ^ (e + j) := by
  have positive : (0 : ℚ) < b := Nat.cast_pos.mpr base
  have below : (m : ℚ) < (((m / b ^ j : ℕ) : ℚ) + 1) * (b : ℚ) ^ j := by
    have whole : m < b ^ j * (m / b ^ j + 1) := Nat.lt_mul_div_succ m (Nat.pow_pos base)
    rw [mul_comm] at whole
    exact_mod_cast whole
  rw [zpow_add₀ positive.ne', zpow_natCast, mul_comm ((b : ℚ) ^ e), ← mul_assoc]
  exact mul_lt_mul_of_pos_right below (zpow_pos positive e)

/-- Scaling a mantissa up by `b ^ k` and the exponent down by `k` keeps the magnitude. -/
theorem scale_eq (base : 0 < b) (m k : ℕ) (e : ℤ) :
    ((m * b ^ k : ℕ) : ℚ) * (b : ℚ) ^ (e - k) = m * (b : ℚ) ^ e := by
  have positive : (0 : ℚ) < b := Nat.cast_pos.mpr base
  have power : (b : ℚ) ^ k ≠ 0 := pow_ne_zero k positive.ne'
  rw [zpow_sub₀ positive.ne', zpow_natCast]
  push_cast
  rw [mul_assoc, mul_div_assoc', mul_div_cancel_left₀ _ power]

/-- Truncating a magnitude `m * b ^ e` to a multiple of `b ^ (e + j)` drops the low `j` digits of
its mantissa. -/
theorem truncateTo_natCast_mul (base : 0 < b) (m j : ℕ) (e : ℤ) :
    truncateTo b (e + j) (m * (b : ℚ) ^ e) = ((m / b ^ j : ℕ) : ℚ) * (b : ℚ) ^ (e + j) := by
  have positive : (0 : ℚ) < b := Nat.cast_pos.mpr base
  have quotient : (m : ℚ) * (b : ℚ) ^ e / (b : ℚ) ^ (e + j) = (m : ℚ) / ((b ^ j : ℕ) : ℚ) := by
    rw [zpow_add₀ positive.ne', mul_comm ((b : ℚ) ^ e), mul_div_mul_right _ _ (zpow_ne_zero e positive.ne'),
      zpow_natCast, Nat.cast_pow]
  have nonneg : (0 : ℚ) ≤ m * (b : ℚ) ^ e := mul_nonneg (Nat.cast_nonneg m) (zpow_nonneg positive.le e)
  rw [truncateTo, if_pos nonneg, quotient, Rat.floor_natCast_div_natCast, ← Int.natCast_div, Int.cast_natCast]

/-- A magnitude whose exponent is at least `k` is a multiple of `b ^ k` already. -/
theorem truncateTo_of_le (base : 0 < b) (m : ℕ) {e k : ℤ} (le : k ≤ e) :
    truncateTo b k (m * (b : ℚ) ^ e) = m * (b : ℚ) ^ e := by
  have whole := truncateTo_natCast_mul base (m * b ^ (e - k).toNat) 0 k
  simp only [Nat.cast_zero, add_zero, pow_zero, Nat.div_one] at whole
  rw [← scale_eq base m (e - k).toNat e, show e - ((e - k).toNat : ℤ) = k by omega]
  exact whole

/-- A magnitude `m * b ^ -j` is a whole number exactly when `b ^ j` divides `m`. -/
theorem isInt_iff_dvd (base : 0 < b) (m j : ℕ) :
    (∃ n : ℤ, (m : ℚ) * (b : ℚ) ^ (-(j : ℤ)) = n) ↔ b ^ j ∣ m := by
  have power : ((b ^ j : ℕ) : ℚ) ≠ 0 := Nat.cast_ne_zero.mpr (pow_ne_zero j base.ne')
  have quotient : (m : ℚ) * (b : ℚ) ^ (-(j : ℤ)) = m / ((b ^ j : ℕ) : ℚ) := by
    rw [zpow_neg, zpow_natCast, Nat.cast_pow, div_eq_mul_inv]
  rw [quotient]
  constructor
  · rintro ⟨n, whole⟩
    rw [div_eq_iff power] at whole
    have product : (m : ℤ) = n * (b ^ j : ℕ) := by exact_mod_cast whole
    exact Int.natCast_dvd_natCast.mp ⟨n, by rw [product, mul_comm]⟩
  · rintro ⟨c, rfl⟩
    refine ⟨c, ?_⟩
    rw [Nat.cast_mul, mul_div_cancel_left₀ _ power, Int.cast_natCast]

end

end RadardFormal.Support.Scientific
