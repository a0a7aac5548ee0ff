import Mathlib.Tactic.Linarith
import Mathlib.Tactic.Positivity
import RadardFormal.Protocol.IOUAmount
import RadardFormal.Support.Scientific

/-!
# The canonical forms of amounts

`CanonicalForm` is what `canonicalize` is meant to leave: the nativeness of the currency; a
native amount at offset zero and never a negative zero; any other amount `IOUCanonical`.
`canonicalForm_canonicalize` says that every amount `canonicalize` returns is in that form but
for a native one whose drops were truncated to zero, which keeps the sign it came with; `plus`
and `negate` keep the form, and `divide` of two native amounts reaches the exception.

On amounts in canonical form of one currency `operator<` and `operator==` are the order and the
equality of the numbers they stand for (`comparison_faithful_to_value`), since sixteen-digit
mantissas compare as numbers in scientific notation do.
-/

namespace RadardFormal.Protocol

namespace STAmount

open RadardFormal.Support

/-- The forms the canonical-form invariant names. -/
def CanonicalForm (amount : STAmount) : Prop :=
  amount.isNative = true ∧ amount.issue.currency.isNative = true ∧ amount.exponent = 0 ∧
      (amount.mantissa = 0 → amount.isNegative = false) ∨
    IOUCanonical amount

instance : DecidablePred CanonicalForm := fun _ => inferInstanceAs (Decidable (_ ∨ _))

/-! ## What `canonicalize` returns -/

/-- An IOU comes out of `canonicalize` canonical, with its sign unless it became zero. -/
theorem iouCanonical_canonicalize {amount r : STAmount} (ok : canonicalize amount = .ok r)
    (notNative : amount.issue.currency.isNative = false) :
    r.issue = amount.issue ∧ IOUCanonical r ∧ (r.mantissa ≠ 0 → r.isNegative = amount.isNegative) := by
  unfold canonicalize at ok
  rw [if_neg (by simp [notNative])] at ok
  split at ok
  · rename_i zero
    cases ok
    exact ⟨rfl, ⟨rfl, notNative, .inl ⟨zero, rfl, rfl⟩⟩, fun nonzero => absurd zero nonzero⟩
  · split at ok
    split at ok
    · cases ok
    · rename_i finalValue finalOffset lowered
      have atMost : finalValue ≤ cMaxValue := lowerMantissa_le (Nat.le_refl _) lowered
      split at ok
      · cases ok
        exact ⟨rfl, ⟨rfl, notNative, .inl ⟨rfl, rfl, rfl⟩⟩, fun nonzero => absurd rfl nonzero⟩
      · rename_i inRange
        split at ok
        · cases ok
        · rename_i notOverflow
          cases ok
          refine ⟨rfl, ⟨rfl, notNative, .inr ⟨?_, atMost, ?_, ?_⟩⟩, fun _ => rfl⟩ <;> simp only at * <;> omega

/-- A native amount comes out of `canonicalize` at offset zero and within `cMaxNativeN`; a zero
input comes out non-negative, and any other keeps its sign, even where its drops are truncated
to zero. -/
theorem native_canonicalize {amount r : STAmount} (ok : canonicalize amount = .ok r)
    (native : amount.issue.currency.isNative = true) :
    r.issue = amount.issue ∧ r.isNative = true ∧ r.exponent = 0 ∧ r.mantissa ≤ cMaxNativeN ∧
      (amount.mantissa = 0 ∧ r.mantissa = 0 ∧ r.isNegative = false ∨
        amount.mantissa ≠ 0 ∧ r.isNegative = amount.isNegative) := by
  unfold canonicalize at ok
  rw [if_pos native] at ok
  split at ok
  · rename_i zero
    cases ok
    exact ⟨rfl, rfl, rfl, by simp [zero], .inl ⟨zero, zero, rfl⟩⟩
  · rename_i nonzero
    dsimp only at ok
    generalize (if amount.exponent < 0 then divideTens (-amount.exponent).toNat amount.mantissa
      else multiplyTens amount.exponent.toNat amount.mantissa) = value at ok
    split at ok
    · cases ok
    · rename_i inRange
      cases ok
      exact ⟨rfl, rfl, rfl, Nat.le_of_not_lt inRange, .inr ⟨nonzero, rfl⟩⟩

/-- A native amount already at offset zero and within `cMaxNativeN` is kept, but for the sign
of a zero. -/
theorem canonicalize_native_of_exponent_zero (amount : STAmount)
    (native : amount.issue.currency.isNative = true) (exponent : amount.exponent = 0)
    (atMost : amount.mantissa ≤ cMaxNativeN) :
    canonicalize amount =
      .ok { amount with isNative := true, isNegative := amount.isNegative && amount.mantissa != 0 } := by
  obtain ⟨issue, mantissa, offset, isNative, isNegative⟩ := amount
  simp only at native exponent atMost ⊢
  subst exponent
  unfold canonicalize
  by_cases zero : mantissa = 0
  · simp [native, zero]
  · simp [native, zero, multiplyTens, Nat.not_lt.mpr atMost]

/-- The native loop that lowers a positive offset multiplies by ten without wrapping while the
product fits the word. -/
theorem multiplyTens_eq (count value : Nat) (small : value * 10 ^ count < 2 ^ 64) :
    multiplyTens count value = value * 10 ^ count := by
  induction count generalizing value with
  | zero => simp [multiplyTens]
  | succ count ih =>
    have shifted : value * 10 * 10 ^ count = value * 10 ^ (count + 1) := by
      rw [Nat.pow_succ', Nat.mul_assoc]
    have tenfold : value * 10 < 2 ^ 64 :=
      Nat.lt_of_le_of_lt (Nat.le_mul_of_pos_right _ (Nat.pow_pos (by decide : 0 < 10))) (by rw [shifted]; exact small)
    rw [multiplyTens, Nat.mod_eq_of_lt tenfold, ih (value * 10) (by rw [shifted]; exact small), shifted]

/-- A native amount at a non-negative offset whose drops fit `cMaxNativeN` is scaled to offset
zero; a zero comes out non-negative. -/
theorem canonicalize_native_of_exponent_nonneg (amount : STAmount)
    (native : amount.issue.currency.isNative = true) (nonneg : 0 ≤ amount.exponent)
    (atMost : amount.mantissa * 10 ^ amount.exponent.toNat ≤ cMaxNativeN) :
    canonicalize amount =
      .ok { amount with
        isNative := true, mantissa := amount.mantissa * 10 ^ amount.exponent.toNat, exponent := 0,
        isNegative := amount.isNegative && amount.mantissa != 0 } := by
  unfold canonicalize
  rw [if_pos native]
  by_cases zero : amount.mantissa = 0
  · simp [zero]
  · have scaled : multiplyTens amount.exponent.toNat amount.mantissa =
        amount.mantissa * 10 ^ amount.exponent.toNat :=
      multiplyTens_eq _ _ (by simp only [cMaxNativeN] at atMost; omega)
    simp [zero, Int.not_lt.mpr nonneg, scaled, Nat.not_lt.mpr atMost]

/-- Every amount `canonicalize` returns is in canonical form, but a native one whose drops were
truncated to zero from a negative amount. -/
theorem canonicalForm_canonicalize {amount r : STAmount} (ok : canonicalize amount = .ok r) :
    r.issue = amount.issue ∧
      (CanonicalForm r ∨ r.isNative = true ∧ r.mantissa = 0 ∧ r.isNegative = true ∧
        amount.mantissa ≠ 0 ∧ amount.isNegative = true) := by
  cases native : amount.issue.currency.isNative
  · obtain ⟨issue, canonical, -⟩ := iouCanonical_canonicalize ok native
    exact ⟨issue, .inl (.inr canonical)⟩
  · obtain ⟨issue, isNative, exponent, -, sign⟩ := native_canonicalize ok native
    refine ⟨issue, ?_⟩
    by_cases negativeZero : r.mantissa = 0 ∧ r.isNegative = true
    · rcases sign with ⟨-, -, positive⟩ | ⟨nonzero, same⟩
      · simp [positive] at negativeZero
      · exact .inr ⟨isNative, negativeZero.1, negativeZero.2, nonzero, same ▸ negativeZero.2⟩
    · refine .inl (.inl ⟨isNative, issue ▸ native, exponent, fun zero => ?_⟩)
      simpa [zero] using negativeZero

/-- `canonicalize` of a non-negative amount gives an amount in canonical form. -/
theorem canonicalForm_canonicalize_of_nonneg {amount r : STAmount} (nonneg : amount.isNegative = false)
    (ok : canonicalize amount = .ok r) : CanonicalForm r := by
  rcases (canonicalForm_canonicalize ok).2 with canonical | ⟨-, -, -, -, negative⟩
  · exact canonical
  · simp [nonneg] at negative

/-- The first loop of `canonicalize` multiplies the mantissa by ten `k` times, lowering the
offset as often; it stops at `cMinValue` or at `cMinOffset`. -/
theorem raiseMantissa_eq (fuel value : Nat) (offset : Int) (enough : offset - cMinOffset ≤ fuel) :
    ∃ k : Nat, raiseMantissa fuel value offset = (value * 10 ^ k, offset - k) ∧
      (cMinValue ≤ value * 10 ^ k ∨ offset - k ≤ cMinOffset) ∧
      (0 < k → value * 10 ^ (k - 1) < cMinValue ∧ cMinOffset ≤ offset - k) := by
  induction fuel generalizing value offset with
  | zero => exact ⟨0, by simp [raiseMantissa], .inr (by omega), fun positive => absurd positive (Nat.lt_irrefl 0)⟩
  | succ fuel ih =>
    unfold raiseMantissa
    split
    case isTrue step =>
      obtain ⟨k, raised, stop, last⟩ := ih (value * 10) (offset - 1) (by omega)
      refine ⟨k + 1, ?_, ?_, fun _ => ?_⟩
      · rw [raised, Nat.mul_assoc, ← Nat.pow_succ']
        congr 1
        omega
      · rw [Nat.pow_succ', ← Nat.mul_assoc]
        omega
      · rcases Nat.eq_zero_or_pos k with rfl | positive
        · refine ⟨by simpa using step.1, by omega⟩
        · obtain ⟨below, reached⟩ := last positive
          refine ⟨?_, by omega⟩
          rw [show k + 1 - 1 = (k - 1) + 1 by omega, Nat.pow_succ', ← Nat.mul_assoc]
          exact below
    case isFalse stop =>
      refine ⟨0, by simp, ?_, fun positive => absurd positive (Nat.lt_irrefl 0)⟩
      simp only [Nat.pow_zero, Nat.mul_one, Nat.cast_zero, Int.sub_zero]
      omega

/-- The second loop divides the mantissa by ten `j` times, raising the offset as often, and
stops at or below `cMaxValue`. -/
theorem lowerMantissa_eq {fuel value : Nat} (enough : value ≤ fuel) {offset : Int} {result : Nat × Int}
    (lowered : lowerMantissa fuel value offset = .ok result) :
    ∃ j : Nat, result = (value / 10 ^ j, offset + j) ∧ value / 10 ^ j ≤ cMaxValue ∧
      (0 < j → cMaxValue < value / 10 ^ (j - 1)) := by
  induction fuel generalizing value offset with
  | zero =>
    cases lowered
    refine ⟨0, by simp [Nat.le_zero.mp enough], by simp [Nat.le_zero.mp enough], ?_⟩
    exact fun positive => absurd positive (Nat.lt_irrefl 0)
  | succ fuel ih =>
    unfold lowerMantissa at lowered
    split at lowered
    case isTrue large =>
      split at lowered
      case isTrue => cases lowered
      case isFalse =>
        obtain ⟨j, rfl, atMost, last⟩ := ih (by omega) lowered
        refine ⟨j + 1, ?_, ?_, fun _ => ?_⟩
        · rw [Nat.div_div_eq_div_mul, ← Nat.pow_succ']
          congr 1
          omega
        · rw [Nat.pow_succ', ← Nat.div_div_eq_div_mul]
          exact atMost
        · rcases Nat.eq_zero_or_pos j with rfl | positive
          · simpa using large
          · rw [show j + 1 - 1 = (j - 1) + 1 by omega, Nat.pow_succ', ← Nat.div_div_eq_div_mul]
            exact last positive
    case isFalse small =>
      cases lowered
      exact ⟨0, by simp, by simpa using small, fun positive => absurd positive (Nat.lt_irrefl 0)⟩

/-- `canonicalize` of a non-zero IOU at an offset no lower than `cMinOffset`: either it flushes
to zero a magnitude below `10 ^ (cMinOffset + 15)`, or it keeps the sign and truncates the
magnitude to its last kept digit, exactly when the mantissa was already at most `cMaxValue`, and
raising the offset at most once when the mantissa is below `10 ^ 17`. -/
theorem canonicalize_iou_value {amount r : STAmount} (ok : canonicalize amount = .ok r)
    (notNative : amount.issue.currency.isNative = false) (nonzero : amount.mantissa ≠ 0)
    (above : cMinOffset ≤ amount.exponent) :
    r.mantissa = 0 ∧ (amount.mantissa : ℚ) * 10 ^ amount.exponent < 10 ^ (cMinOffset + 15) ∨
      r.mantissa ≠ 0 ∧ r.isNegative = amount.isNegative ∧
        (r.mantissa : ℚ) * 10 ^ r.exponent ≤ amount.mantissa * 10 ^ amount.exponent ∧
        (amount.mantissa : ℚ) * 10 ^ amount.exponent < (r.mantissa + 1) * 10 ^ r.exponent ∧
        (amount.mantissa ≤ cMaxValue →
          (r.mantissa : ℚ) * 10 ^ r.exponent = amount.mantissa * 10 ^ amount.exponent) ∧
        (amount.mantissa < 10 ^ 17 → r.exponent ≤ amount.exponent + 1) := by
  obtain ⟨k, raised, stop, last⟩ := raiseMantissa_eq (amount.exponent - cMinOffset).toNat amount.mantissa
    amount.exponent (by omega)
  have scaled : ((amount.mantissa * 10 ^ k : ℕ) : ℚ) * 10 ^ (amount.exponent - k) =
      amount.mantissa * 10 ^ amount.exponent := by
    simpa using Scientific.scale_eq (by norm_num : 0 < 10) amount.mantissa k amount.exponent
  have reached : cMinOffset ≤ amount.exponent - k := by
    rcases Nat.eq_zero_or_pos k with rfl | positive
    · simpa using above
    · exact (last positive).2
  have fits : 0 < k → amount.mantissa * 10 ^ k ≤ cMaxValue := fun positive => by
    have below := (last positive).1
    rw [show k = (k - 1) + 1 by omega, Nat.pow_succ, ← Nat.mul_assoc]
    simp only [cMinValue, cMaxValue] at below ⊢
    omega
  unfold canonicalize at ok
  rw [if_neg (by simp [notNative]), if_neg nonzero, raised] at ok
  dsimp only at ok
  cases lowered : lowerMantissa (amount.mantissa * 10 ^ k) (amount.mantissa * 10 ^ k) (amount.exponent - k) with
  | error message =>
    rw [lowered] at ok
    cases ok
  | ok result =>
    rw [lowered] at ok
    obtain ⟨j, rfl, atMost, lastLower⟩ := lowerMantissa_eq (Nat.le_refl _) lowered
    dsimp only at ok
    have notBoth : 0 < j → k = 0 := fun positive => by
      by_contra raisedAny
      have := Nat.div_le_self (amount.mantissa * 10 ^ k) (10 ^ (j - 1))
      have := fits (Nat.pos_of_ne_zero raisedAny)
      have := lastLower positive
      omega
    have loweredIsNormal : 0 < j → cMinValue ≤ amount.mantissa * 10 ^ k / 10 ^ j := fun positive => by
      have large := lastLower positive
      rw [show j = (j - 1) + 1 by omega, Nat.pow_succ, ← Nat.div_div_eq_div_mul]
      simp only [cMinValue, cMaxValue] at large ⊢
      omega
    split at ok
    · rename_i flush
      cases ok
      left
      refine ⟨rfl, ?_⟩
      have noLowering : j = 0 := by
        by_contra lowering
        have := loweredIsNormal (Nat.pos_of_ne_zero lowering)
        omega
      subst noLowering
      have atFloor : amount.exponent - k = cMinOffset := by
        simp only [Nat.pow_zero, Nat.div_one, Nat.cast_zero, Int.add_zero] at flush
        omega
      have small : ((amount.mantissa * 10 ^ k : ℕ) : ℚ) < 10 ^ 15 := by
        simp only [Nat.pow_zero, Nat.div_one, Nat.cast_zero, Int.add_zero] at flush
        have : amount.mantissa * 10 ^ k < 10 ^ 15 := by
          simp only [cMinValue] at flush
          omega
        exact_mod_cast this
      rw [← scaled, atFloor, zpow_add₀ (by norm_num), mul_comm ((10 : ℚ) ^ cMinOffset)]
      exact mul_lt_mul_of_pos_right (by simpa using small) (zpow_pos (by norm_num) _)
    · rename_i inRange
      split at ok
      · cases ok
      · cases ok
        right
        have truncated := Scientific.truncate_le (by norm_num : 0 < 10) (amount.mantissa * 10 ^ k) j
          (amount.exponent - k)
        have bounded := Scientific.lt_truncate_succ (by norm_num : 0 < 10) (amount.mantissa * 10 ^ k) j
          (amount.exponent - k)
        push_cast at truncated bounded scaled
        refine ⟨?_, rfl, ?_, ?_, fun small => ?_, fun small => ?_⟩
        · show amount.mantissa * 10 ^ k / 10 ^ j ≠ 0
          simp only [cMinValue] at inRange
          omega
        · rw [← scaled]
          exact truncated
        · rw [← scaled]
          exact bounded
        · have noLowering : j = 0 := by
            by_contra lowering
            have positive := Nat.pos_of_ne_zero lowering
            have large := lastLower positive
            have shrinks := Nat.div_le_self (amount.mantissa * 10 ^ k) (10 ^ (j - 1))
            rw [notBoth positive, Nat.pow_zero, Nat.mul_one] at large shrinks
            omega
          subst noLowering
          simpa using scaled
        · show amount.exponent - k + j ≤ amount.exponent + 1
          by_contra twice
          have positive : 0 < j := by omega
          have large := lastLower positive
          rw [notBoth positive, Nat.pow_zero, Nat.mul_one] at large
          have tenfold : 10 ≤ 10 ^ (j - 1) := by
            calc 10 = 10 ^ 1 := rfl
              _ ≤ 10 ^ (j - 1) := Nat.pow_le_pow_right (by norm_num) (by omega)
          have : 10 ^ 16 * 10 ^ (j - 1) ≤ amount.mantissa :=
            (Nat.le_div_iff_mul_le (Nat.pow_pos (by norm_num))).mp (by simp only [cMaxValue] at large; omega)
          have : 10 ^ 16 * 10 ≤ 10 ^ 16 * 10 ^ (j - 1) := Nat.mul_le_mul_left _ tenfold
          omega

/-- `canonicalize` of a non-zero IOU whose mantissa is at most `cMaxValue`, at an offset in range
and no smaller than the least normal magnitude, succeeds and keeps its sign and magnitude. -/
theorem canonicalize_iou_exact {amount : STAmount} (notNative : amount.issue.currency.isNative = false)
    (nonzero : amount.mantissa ≠ 0) (atMost : amount.mantissa ≤ cMaxValue)
    (above : cMinOffset ≤ amount.exponent) (below : amount.exponent ≤ cMaxOffset)
    (large : (10 : ℚ) ^ (cMinOffset + 15) ≤ amount.mantissa * 10 ^ amount.exponent) :
    ∃ r, canonicalize amount = .ok r ∧ r.issue = amount.issue ∧ IOUCanonical r ∧
      r.isNegative = amount.isNegative ∧
      (r.mantissa : ℚ) * 10 ^ r.exponent = amount.mantissa * 10 ^ amount.exponent := by
  cases ok : canonicalize amount with
  | error message =>
    -- raising keeps the mantissa at most `cMaxValue`, so only the offset check could throw
    obtain ⟨k, raised, -, last⟩ := raiseMantissa_eq (amount.exponent - cMinOffset).toNat amount.mantissa
      amount.exponent (by omega)
    have fits : amount.mantissa * 10 ^ k ≤ cMaxValue := by
      rcases Nat.eq_zero_or_pos k with rfl | positive
      · simpa using atMost
      · have below := (last positive).1
        rw [show k = (k - 1) + 1 by omega, Nat.pow_succ, ← Nat.mul_assoc]
        simp only [cMinValue, cMaxValue] at below ⊢
        omega
    unfold canonicalize at ok
    rw [if_neg (by simp [notNative]), if_neg nonzero, raised] at ok
    dsimp only at ok
    rw [lowerMantissa_of_le fits] at ok
    dsimp only at ok
    -- the two successful branches close themselves; the overflow branch contradicts `below`
    split_ifs at ok with flush overflow
    omega
  | ok r =>
    obtain ⟨issue, canonical, -⟩ := iouCanonical_canonicalize ok notNative
    rcases canonicalize_iou_value ok notNative nonzero above with ⟨-, small⟩ | ⟨-, sign, -, -, exact, -⟩
    · exact absurd small (not_lt.mpr large)
    · exact ⟨r, rfl, issue, canonical, sign, exact atMost⟩

/-- `canonicalize` keeps an IOU amount already canonical. -/
theorem canonicalize_of_iouCanonical {amount : STAmount} (canonical : IOUCanonical amount) :
    canonicalize amount = .ok amount := by
  obtain ⟨native, currency, ⟨zero, exponent, positive⟩ | ⟨atLeast, atMost, above, below⟩⟩ := canonical
  · rw [canonicalize_zero currency zero]
    obtain ⟨issue, mantissa, offset, isNative, isNegative⟩ := amount
    simp only at native exponent positive ⊢
    rw [native, exponent, positive]
  · rw [canonicalize_of_inRange currency atLeast atMost above below]
    obtain ⟨issue, mantissa, offset, isNative, isNegative⟩ := amount
    simp only at native ⊢
    rw [native]

/-- `canonicalize` of a zero depends on its issue alone. -/
theorem canonicalize_of_mantissa_zero {amount : STAmount} (zero : amount.mantissa = 0) :
    canonicalize amount = canonicalize ⟨amount.issue, 0, 0, false, false⟩ := by
  simp [canonicalize, zero]

/-- `canonicalize` never reads `mIsNative`: it sets it from the currency on every path. -/
theorem canonicalize_isNative (amount : STAmount) (isNative : Bool) :
    canonicalize { amount with isNative := isNative } = canonicalize amount := rfl

/-! ## Facts of the canonical form -/

namespace CanonicalForm

variable {a b : STAmount}

theorem isNative_eq (canonical : CanonicalForm a) : a.isNative = a.issue.currency.isNative := by
  rcases canonical with ⟨native, currency, -⟩ | ⟨native, currency, -⟩ <;> rw [native, currency]

theorem exponent_of_zero (canonical : CanonicalForm a) (zero : a.mantissa = 0) :
    a.isNegative = false ∧ a.exponent = if a.isNative then 0 else -100 := by
  rcases canonical with ⟨native, -, exponent, positive⟩ | ⟨native, -, ⟨-, exponent, positive⟩ | ⟨atLeast, -⟩⟩
  · simp [native, exponent, positive zero]
  · simp [native, exponent, positive]
  · simp only [cMinValue] at atLeast
    omega

theorem mantissa_ne_zero_of_negative (canonical : CanonicalForm a) (negative : a.isNegative = true) :
    a.mantissa ≠ 0 := fun zero => by
  simp [(canonical.exponent_of_zero zero).1] at negative

/-- A non-zero IOU amount in canonical form has a mantissa of sixteen digits. -/
theorem normal (canonical : CanonicalForm a) (notNative : a.isNative = false) (nonzero : a.mantissa ≠ 0) :
    Scientific.Normal 10 15 a.mantissa := by
  rcases canonical with ⟨native, -⟩ | ⟨-, -, ⟨zero, -⟩ | ⟨atLeast, atMost, -⟩⟩
  · simp [native] at notNative
  · exact absurd zero nonzero
  · simp only [cMinValue, cMaxValue] at atLeast atMost
    exact ⟨atLeast, by norm_num; omega⟩

theorem areComparable_eq (canonicalA : CanonicalForm a) (canonicalB : CanonicalForm b)
    (same : a.issue.currency = b.issue.currency) : areComparable a b = true := by
  have natives : a.isNative = b.isNative := by
    rw [canonicalA.isNative_eq, canonicalB.isNative_eq, same]
  unfold areComparable native
  cases native : b.isNative <;> simp [natives, native, same]

end CanonicalForm

/-- A non-negative amount stands for its magnitude. -/
theorem toRat_of_nonneg {a : STAmount} (nonneg : a.isNegative = false) :
    a.toRat = (a.mantissa : ℚ) * 10 ^ a.exponent := by
  simp [toRat, nonneg]

/-- A negative amount stands for the opposite of its magnitude. -/
theorem toRat_of_negative {a : STAmount} (negative : a.isNegative = true) :
    a.toRat = -((a.mantissa : ℚ) * 10 ^ a.exponent) := by
  simp [toRat, negative]

theorem magnitude_pos {a : STAmount} (nonzero : a.mantissa ≠ 0) : 0 < (a.mantissa : ℚ) * 10 ^ a.exponent :=
  mul_pos (Nat.cast_pos.mpr (Nat.pos_of_ne_zero nonzero)) (zpow_pos (by norm_num) _)

section magnitude

variable {a b : STAmount} (canonicalA : CanonicalForm a) (canonicalB : CanonicalForm b)
  (natives : a.isNative = b.isNative) (nonzeroA : a.mantissa ≠ 0) (nonzeroB : b.mantissa ≠ 0)
include canonicalA canonicalB natives nonzeroA nonzeroB

/-- Non-zero magnitudes of one nativeness compare by offset first and by mantissa next. -/
theorem magnitude_lt_iff :
    (a.mantissa : ℚ) * 10 ^ a.exponent < (b.mantissa : ℚ) * 10 ^ b.exponent ↔
      a.exponent < b.exponent ∨ a.exponent = b.exponent ∧ a.mantissa < b.mantissa := by
  cases native : a.isNative
  · have compare : (a.mantissa : ℚ) * ((10 : ℕ) : ℚ) ^ a.exponent < (b.mantissa : ℚ) * ((10 : ℕ) : ℚ) ^ b.exponent ↔
        a.exponent < b.exponent ∨ a.exponent = b.exponent ∧ a.mantissa < b.mantissa :=
      Scientific.value_lt_value_iff (by norm_num) (canonicalA.normal native nonzeroA)
        (canonicalB.normal (natives ▸ native) nonzeroB)
    simpa using compare
  · have offsetA : a.exponent = 0 := by
      rcases canonicalA with ⟨-, -, offset, -⟩ | ⟨wrong, -⟩
      · exact offset
      · simp [native] at wrong
    have offsetB : b.exponent = 0 := by
      rcases canonicalB with ⟨-, -, offset, -⟩ | ⟨wrong, -⟩
      · exact offset
      · simp [← natives, native] at wrong
    simp [offsetA, offsetB]

theorem magnitude_eq_iff :
    (a.mantissa : ℚ) * 10 ^ a.exponent = (b.mantissa : ℚ) * 10 ^ b.exponent ↔
      a.exponent = b.exponent ∧ a.mantissa = b.mantissa := by
  constructor
  · intro same
    have notLt := (magnitude_lt_iff canonicalA canonicalB natives nonzeroA nonzeroB).not.mp same.not_lt
    have notGt := (magnitude_lt_iff canonicalB canonicalA natives.symm nonzeroB nonzeroA).not.mp
      same.not_gt
    omega
  · rintro ⟨offset, mantissa⟩
    rw [offset, mantissa]

end magnitude

/-- On non-zero amounts of one sign `operator<` compares offsets and then mantissas, the other
way round for negative amounts. -/
theorem lt_of_nonzero {a b : STAmount} (nonzeroA : a.mantissa ≠ 0) (nonzeroB : b.mantissa ≠ 0)
    (sign : a.isNegative = b.isNegative) :
    lt a b = if a.isNegative then
        decide (b.exponent < a.exponent ∨ b.exponent = a.exponent ∧ b.mantissa < a.mantissa)
      else decide (a.exponent < b.exponent ∨ a.exponent = b.exponent ∧ a.mantissa < b.mantissa) := by
  unfold lt
  cases negative : a.isNegative <;>
    simp only [← sign, negative, nonzeroA, nonzeroB, bne_self_eq_false, beq_iff_eq,
      Bool.false_eq_true, if_false, if_true] <;>
    split_ifs <;> simp <;> omega

/-- On amounts in canonical form of one currency `operator<` is the order of the numbers. -/
theorem lt_iff_toRat_lt {a b : STAmount} (canonicalA : CanonicalForm a) (canonicalB : CanonicalForm b)
    (same : a.issue.currency = b.issue.currency) : lt a b = true ↔ a.toRat < b.toRat := by
  have natives : a.isNative = b.isNative := by
    rw [canonicalA.isNative_eq, canonicalB.isNative_eq, same]
  cases signA : a.isNegative <;> cases signB : b.isNegative
  case false.false =>
    rw [toRat_of_nonneg signA, toRat_of_nonneg signB]
    by_cases zeroA : a.mantissa = 0
    · have ltZero : lt a b = (b.mantissa != 0) := by simp [lt, signA, signB, zeroA]
      by_cases zeroB : b.mantissa = 0
      · simp [ltZero, zeroA, zeroB]
      · simp [ltZero, zeroA, zeroB, magnitude_pos zeroB]
    · by_cases zeroB : b.mantissa = 0
      · have ltZero : lt a b = false := by simp [lt, signA, signB, zeroA, zeroB]
        simp [ltZero, zeroB, (magnitude_pos zeroA).le]
      · rw [lt_of_nonzero zeroA zeroB (signA.trans signB.symm), signA,
          magnitude_lt_iff canonicalA canonicalB natives zeroA zeroB]
        simp
  case false.true =>
    have ltSign : lt a b = false := by simp [lt, signA, signB]
    rw [ltSign, toRat_of_nonneg signA, toRat_of_negative signB]
    have positiveB := magnitude_pos (canonicalB.mantissa_ne_zero_of_negative signB)
    have nonnegA : 0 ≤ (a.mantissa : ℚ) * 10 ^ a.exponent := by positivity
    simp only [Bool.false_eq_true, false_iff, not_lt]
    linarith
  case true.false =>
    have ltSign : lt a b = true := by simp [lt, signA, signB]
    rw [ltSign, toRat_of_negative signA, toRat_of_nonneg signB]
    have positiveA := magnitude_pos (canonicalA.mantissa_ne_zero_of_negative signA)
    have nonnegB : 0 ≤ (b.mantissa : ℚ) * 10 ^ b.exponent := by positivity
    simp only [true_iff]
    linarith
  case true.true =>
    have zeroA := canonicalA.mantissa_ne_zero_of_negative signA
    have zeroB := canonicalB.mantissa_ne_zero_of_negative signB
    rw [toRat_of_negative signA, toRat_of_negative signB, neg_lt_neg_iff,
      lt_of_nonzero zeroA zeroB (signA.trans signB.symm), signA,
      magnitude_lt_iff canonicalB canonicalA natives.symm zeroB zeroA]
    simp

/-- On amounts in canonical form of one currency `operator==` is the equality of the numbers. -/
theorem eq_iff_toRat_eq {a b : STAmount} (canonicalA : CanonicalForm a) (canonicalB : CanonicalForm b)
    (same : a.issue.currency = b.issue.currency) : eq a b = true ↔ a.toRat = b.toRat := by
  have natives : a.isNative = b.isNative := by
    rw [canonicalA.isNative_eq, canonicalB.isNative_eq, same]
  have fields : eq a b = true ↔
      a.isNegative = b.isNegative ∧ a.exponent = b.exponent ∧ a.mantissa = b.mantissa := by
    simp [eq, canonicalA.areComparable_eq canonicalB same, and_assoc]
  rw [fields]
  cases signA : a.isNegative <;> cases signB : b.isNegative
  case false.false =>
    rw [toRat_of_nonneg signA, toRat_of_nonneg signB]
    by_cases zeroA : a.mantissa = 0 <;> by_cases zeroB : b.mantissa = 0
    · have offsets : a.exponent = b.exponent := by
        rw [(canonicalA.exponent_of_zero zeroA).2, (canonicalB.exponent_of_zero zeroB).2, natives]
      simp [zeroA, zeroB, offsets]
    · have differ := (magnitude_pos zeroB).ne
      simp [zeroA, Ne.symm zeroB, differ]
    · have differ := (magnitude_pos zeroA).ne'
      simp [zeroB, zeroA, differ]
    · rw [magnitude_eq_iff canonicalA canonicalB natives zeroA zeroB]
      simp
  case false.true =>
    have positiveB := magnitude_pos (canonicalB.mantissa_ne_zero_of_negative signB)
    have nonnegA : 0 ≤ (a.mantissa : ℚ) * 10 ^ a.exponent := by positivity
    rw [toRat_of_nonneg signA, toRat_of_negative signB]
    simp only [Bool.false_eq_true, false_and, false_iff]
    intro same
    linarith
  case true.false =>
    have positiveA := magnitude_pos (canonicalA.mantissa_ne_zero_of_negative signA)
    have nonnegB : 0 ≤ (b.mantissa : ℚ) * 10 ^ b.exponent := by positivity
    rw [toRat_of_negative signA, toRat_of_nonneg signB]
    simp only [Bool.true_eq_false, false_and, false_iff]
    intro same
    linarith
  case true.true =>
    rw [toRat_of_negative signA, toRat_of_negative signB, neg_inj,
      magnitude_eq_iff canonicalA canonicalB natives (canonicalA.mantissa_ne_zero_of_negative signA)
        (canonicalB.mantissa_ne_zero_of_negative signB)]
    simp

/-- An amount in canonical form is fixed by its issue and its value. -/
theorem CanonicalForm.eq_of_toRat_eq {a b : STAmount} (canonicalA : CanonicalForm a)
    (canonicalB : CanonicalForm b) (issue : a.issue = b.issue) (value : a.toRat = b.toRat) : a = b := by
  have same := (eq_iff_toRat_eq canonicalA canonicalB (congrArg Issue.currency issue)).mpr value
  have natives : a.isNative = b.isNative := by
    rw [canonicalA.isNative_eq, canonicalB.isNative_eq, issue]
  simp only [eq, canonicalA.areComparable_eq canonicalB (congrArg Issue.currency issue), Bool.true_and,
    Bool.and_eq_true, beq_iff_eq] at same
  obtain ⟨⟨sign, exponent⟩, mantissa⟩ := same
  obtain ⟨issueA, mantissaA, exponentA, nativeA, negativeA⟩ := a
  obtain ⟨issueB, mantissaB, exponentB, nativeB, negativeB⟩ := b
  simp only at issue natives sign exponent mantissa
  rw [issue, natives, sign, exponent, mantissa]

/-- `operator<` and `operator==` are faithful to value on amounts in canonical form of one
currency; hence `operator<` is irreflexive, transitive and, with `operator==`, trichotomous
there. -/
theorem comparison_faithful_to_value {a b : STAmount} (canonicalA : CanonicalForm a)
    (canonicalB : CanonicalForm b) (same : a.issue.currency = b.issue.currency) :
    (lt a b = true ↔ a.toRat < b.toRat) ∧ (eq a b = true ↔ a.toRat = b.toRat) ∧
      (lt a b = true ∨ eq a b = true ∨ lt b a = true) ∧ lt a a = false ∧
      ∀ c, CanonicalForm c → c.issue.currency = a.issue.currency →
        lt a b = true → lt b c = true → lt a c = true := by
  have ltAB := lt_iff_toRat_lt canonicalA canonicalB same
  have ltBA := lt_iff_toRat_lt canonicalB canonicalA same.symm
  have eqAB := eq_iff_toRat_eq canonicalA canonicalB same
  refine ⟨ltAB, eqAB, ?_, ?_, fun c canonicalC sameC first second => ?_⟩
  · rcases lt_trichotomy a.toRat b.toRat with lt | equal | gt
    · exact .inl (ltAB.mpr lt)
    · exact .inr (.inl (eqAB.mpr equal))
    · exact .inr (.inr (ltBA.mpr gt))
  · have irreflexive := (lt_iff_toRat_lt canonicalA canonicalA rfl).not.mpr (lt_irrefl _)
    simpa using irreflexive
  · have ltBC := (lt_iff_toRat_lt canonicalB canonicalC (same.symm.trans sameC.symm)).mp second
    exact (lt_iff_toRat_lt canonicalA canonicalC sameC.symm).mpr (lt_trans (ltAB.mp first) ltBC)

theorem comparison_faithful_to_value_usd :
    CanonicalForm (usd 1500000000000000 (-15)) ∧ CanonicalForm (usd 2500000000000000 (-16)) ∧
      (lt (usd 1500000000000000 (-15)) (usd 2500000000000000 (-16)) = true ↔
        (usd 1500000000000000 (-15)).toRat < (usd 2500000000000000 (-16)).toRat) :=
  ⟨by decide, by decide,
    (comparison_faithful_to_value (by decide : CanonicalForm (usd 1500000000000000 (-15)))
      (by decide : CanonicalForm (usd 2500000000000000 (-16))) rfl).1⟩

/-! ## The producers -/

theorem canonicalForm_ofDrops (isVBC : Bool) (drops : Int) : CanonicalForm (ofDrops isVBC drops) := by
  refine .inl ⟨rfl, ?_, rfl, fun zero => ?_⟩
  · cases isVBC <;> simp only [ofDrops, Bool.false_eq_true, if_false, if_true] <;> decide
  · have : drops = 0 := Int.natAbs_eq_zero.mp zero
    simp [ofDrops, this]

theorem canonicalForm_negate {a : STAmount} (canonical : CanonicalForm a) : CanonicalForm (negate a) := by
  unfold negate
  by_cases zero : a.mantissa = 0
  · simpa [zero] using canonical
  · simp only [zero, beq_iff_eq, if_false]
    rcases canonical with ⟨native, currency, exponent, -⟩ | ⟨native, currency, ⟨zero', -⟩ | range⟩
    · exact .inl ⟨native, currency, exponent, fun zero' => absurd zero' zero⟩
    · exact absurd zero' zero
    · exact .inr ⟨native, currency, .inr range⟩

theorem natives_of_areComparable {a b : STAmount} (comparable : areComparable a b = true) :
    a.isNative = b.isNative := by
  unfold areComparable native at comparable
  cases native : b.isNative <;> simp_all

/-- The alignment loop of `operator+` divides a signed mantissa by ten once per step, so by a
power of ten in all, truncating toward zero. -/
theorem alignExponent_eq (fuel : Nat) (negative : Bool) (mantissa : Nat) (exponent target : Int)
    (distance : target - exponent ≤ fuel) :
    alignExponent fuel (if negative then -(mantissa : Int) else mantissa) exponent target =
      (if negative then -((mantissa / 10 ^ (target - exponent).toNat : Nat) : Int)
        else ((mantissa / 10 ^ (target - exponent).toNat : Nat) : Int), max exponent target) := by
  induction fuel generalizing mantissa exponent with
  | zero =>
    have reached : (target - exponent).toNat = 0 := by omega
    simp only [alignExponent, reached, pow_zero, Nat.div_one, Prod.mk.injEq, true_and]
    omega
  | succ fuel ih =>
    unfold alignExponent
    split
    case isTrue below =>
      have tenth : (if negative then -(mantissa : Int) else mantissa).tdiv 10 =
          if negative then -((mantissa / 10 : Nat) : Int) else ((mantissa / 10 : Nat) : Int) := by
        cases negative <;> simp [Int.neg_tdiv]
      have steps : (target - exponent).toNat = (target - (exponent + 1)).toNat + 1 := by omega
      rw [tenth, ih (mantissa / 10) (exponent + 1) (by omega), steps, pow_succ', ← Nat.div_div_eq_div_mul]
      congr 1
      omega
    case isFalse reached =>
      have zero : (target - exponent).toNat = 0 := by omega
      simp only [zero, pow_zero, Nat.div_one, Prod.mk.injEq]
      cases negative <;> simp <;> omega

/-- `operator+` of two non-zero IOU amounts: the sum of the signed mantissas truncated to the
larger offset, snapped to zero within ten units and canonicalized. -/
theorem plus_of_iou {a b : STAmount} (comparable : areComparable a b = true) (nonzeroA : a.mantissa ≠ 0)
    (nonzeroB : b.mantissa ≠ 0) (notNative : a.isNative = false) :
    plus a b =
      let fv := (if a.isNegative then -((a.mantissa / 10 ^ (b.exponent - a.exponent).toNat : Nat) : Int)
          else ((a.mantissa / 10 ^ (b.exponent - a.exponent).toNat : Nat) : Int)) +
        (if b.isNegative then -((b.mantissa / 10 ^ (a.exponent - b.exponent).toNat : Nat) : Int)
          else ((b.mantissa / 10 ^ (a.exponent - b.exponent).toNat : Nat) : Int))
      if -10 ≤ fv ∧ fv ≤ 10 then canonicalize ⟨a.issue, 0, 0, false, false⟩
      else if 0 ≤ fv then canonicalize ⟨a.issue, fv.toNat, max a.exponent b.exponent, false, false⟩
      else canonicalize ⟨a.issue, (-fv).toNat, max a.exponent b.exponent, false, true⟩ := by
  unfold plus
  rw [if_neg (by simp [comparable]), if_neg nonzeroB, if_neg nonzeroA, if_neg (by simp [native, notNative])]
  dsimp only
  rw [alignExponent_eq (b.exponent - a.exponent).toNat a.isNegative a.mantissa a.exponent b.exponent
      (by omega),
    alignExponent_eq (max a.exponent b.exponent - b.exponent).toNat b.isNegative b.mantissa b.exponent
      (max a.exponent b.exponent) (by omega),
    show (max a.exponent b.exponent - b.exponent).toNat = (a.exponent - b.exponent).toNat by omega]

/-- `operator+` keeps the canonical form. -/
theorem canonicalForm_plus {a b r : STAmount} (canonicalA : CanonicalForm a) (canonicalB : CanonicalForm b)
    (ok : plus a b = .ok r) : CanonicalForm r := by
  by_cases comparable : areComparable a b = true
  · have natives := natives_of_areComparable comparable
    by_cases zeroB : b.mantissa = 0
    · rw [plus, if_neg (by simp [comparable]), if_pos zeroB] at ok
      cases ok
      exact canonicalA
    by_cases zeroA : a.mantissa = 0
    · rw [plus, if_neg (by simp [comparable]), if_neg zeroB, if_pos zeroA] at ok
      cases native : a.issue.currency.isNative
      · exact .inr (iouCanonical_canonicalize ok native).2.1
      · have nativeB : b.isNative = true := by rw [← natives, canonicalA.isNative_eq, native]
        have exponent : b.exponent = 0 := by
          rcases canonicalB with ⟨-, -, offset, -⟩ | ⟨wrong, -⟩
          · exact offset
          · simp [nativeB] at wrong
        have atMost : b.mantissa ≤ cMaxNativeN := by
          by_contra large
          unfold canonicalize at ok
          simp [native, zeroB, exponent, multiplyTens, Nat.lt_of_not_le large] at ok
        rw [canonicalize_native_of_exponent_zero ⟨a.issue, b.mantissa, b.exponent, false, b.isNegative⟩
          native exponent atMost] at ok
        cases ok
        refine .inl ⟨rfl, native, exponent, fun zero => absurd zero zeroB⟩
    cases nativeA : a.isNative
    · have currency : a.issue.currency.isNative = false := by rw [← canonicalA.isNative_eq, nativeA]
      rw [plus_of_iou comparable zeroA zeroB nativeA] at ok
      dsimp only at ok
      split_ifs at ok <;> exact .inr (iouCanonical_canonicalize ok currency).2.1
    · rw [plus, if_neg (by simp [comparable]), if_neg zeroB, if_neg zeroA, if_pos (by simpa [native] using nativeA)]
        at ok
      cases ok
      exact canonicalForm_ofDrops _ _
  · rw [plus, if_pos (by simpa using comparable)] at ok
    cases ok

/-- One USD less a quarter: the sum is renormalized to three quarters, in canonical form. -/
theorem canonicalForm_plus_quarter :
    plus (usd 1000000000000000 (-15)) ⟨usdIssue, 2500000000000000, -16, false, true⟩ =
        .ok ⟨usdIssue, 7500000000000000, -16, false, false⟩ ∧
      CanonicalForm ⟨usdIssue, 7500000000000000, -16, false, false⟩ := by
  have summed : plus (usd 1000000000000000 (-15)) ⟨usdIssue, 2500000000000000, -16, false, true⟩ =
      .ok ⟨usdIssue, 7500000000000000, -16, false, false⟩ := by decide
  exact ⟨summed, canonicalForm_plus (by decide) (by decide) summed⟩

/-- `divide` of one negative drop by three drops into VRP truncates the quotient to zero drops
and keeps the sign: a negative zero, which no amount in canonical form is.  Both operands are in
canonical form. -/
theorem divide_leaves_negative_native_zero :
    CanonicalForm (ofDrops false (-1)) ∧ CanonicalForm (ofDrops false 3) ∧
      divide (ofDrops false (-1)) (ofDrops false 3) xrpIssue = .ok ⟨xrpIssue, 0, 0, true, true⟩ ∧
      ¬CanonicalForm ⟨xrpIssue, 0, 0, true, true⟩ := by
  decide

end STAmount

end RadardFormal.Protocol
