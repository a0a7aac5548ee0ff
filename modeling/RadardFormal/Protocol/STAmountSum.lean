import Mathlib.Tactic.Ring
import RadardFormal.Protocol.STAmountCanonical

/-!
# Sums of IOU amounts

`operator+` on IOU amounts in canonical form of one currency.  It commutes up to the issuer it
writes, the zero is neutral, the negation is an inverse and `operator-` adds the negation.  Its
value is the exact sum but for four losses: the truncation of the operands to the larger
offset, the snap to zero within ten units, the digit `canonicalize` drops from a seventeen-digit
sum, and the flush to zero of magnitudes below `10 ^ -81`.  The last is not bounded by the
offsets of the operands.  The result never has the sign opposite to the exact sum.
-/

namespace RadardFormal.Protocol

namespace STAmount

open RadardFormal.Support

/-- `operator- (STAmount, STAmount)`. -/
def minus (v1 v2 : STAmount) : Except String STAmount := plus v1 (negate v2)

/-- `canonicalize` carries the issue along and reads only its currency. -/
theorem canonicalize_setIssue (amount : STAmount) {issue : Issue}
    (currency : issue.currency = amount.issue.currency) :
    canonicalize { amount with issue := issue } =
      (canonicalize amount).map fun r => { r with issue := issue } := by
  obtain ⟨issue', mantissa, exponent, isNative, isNegative⟩ := amount
  simp only at currency ⊢
  unfold canonicalize
  simp only [currency]
  split_ifs <;> try rfl
  rcases lowerMantissa (raiseMantissa (exponent - cMinOffset).toNat mantissa exponent).1
      (raiseMantissa (exponent - cMinOffset).toNat mantissa exponent).1
      (raiseMantissa (exponent - cMinOffset).toNat mantissa exponent).2 with _ | ⟨value, offset⟩
  · rfl
  · dsimp only
    split_ifs <;> rfl

/-- The sum of the signed mantissas `operator+` computes at the larger offset. -/
def alignedSum (a b : STAmount) : Int :=
  (if a.isNegative then -((a.mantissa / 10 ^ (b.exponent - a.exponent).toNat : Nat) : Int)
    else ((a.mantissa / 10 ^ (b.exponent - a.exponent).toNat : Nat) : Int)) +
  (if b.isNegative then -((b.mantissa / 10 ^ (a.exponent - b.exponent).toNat : Nat) : Int)
    else ((b.mantissa / 10 ^ (a.exponent - b.exponent).toNat : Nat) : Int))

theorem alignedSum_comm (a b : STAmount) : alignedSum a b = alignedSum b a := Int.add_comm _ _

/-- `operator+` of two non-zero IOU amounts through `alignedSum`: the canonical zero within ten
units, else the canonicalized magnitude and sign at the larger offset. -/
theorem plus_eq_alignedSum {a b : STAmount} (comparable : areComparable a b = true)
    (nonzeroA : a.mantissa ≠ 0) (nonzeroB : b.mantissa ≠ 0) (notNative : a.isNative = false) :
    plus a b =
      if -10 ≤ alignedSum a b ∧ alignedSum a b ≤ 10 then canonicalize ⟨a.issue, 0, 0, false, false⟩
      else canonicalize ⟨a.issue, (alignedSum a b).natAbs, max a.exponent b.exponent, false,
        decide (alignedSum a b < 0)⟩ := by
  rw [plus_of_iou comparable nonzeroA nonzeroB notNative]
  dsimp only
  rw [← alignedSum]
  split_ifs with small nonneg <;> try rfl
  · rw [decide_eq_false (by omega), show (alignedSum a b).toNat = (alignedSum a b).natAbs by omega]
  · rw [decide_eq_true (by omega), show (-alignedSum a b).toNat = (alignedSum a b).natAbs by omega]

/-- Truncating one signed mantissa to a larger offset loses less than one unit there. -/
theorem truncated_term_error (negative : Bool) (m : ℕ) {e E : ℤ} (le : e ≤ E) :
    |(((if negative then -((m / 10 ^ (E - e).toNat : ℕ) : ℤ) else ((m / 10 ^ (E - e).toNat : ℕ) : ℤ)) : ℤ) : ℚ) *
        10 ^ E - (if negative then -1 else 1) * (m : ℚ) * 10 ^ e| < 10 ^ E := by
  have lifted : e + ((E - e).toNat : ℤ) = E := by omega
  have lower := Scientific.truncate_le (by norm_num : 0 < 10) m (E - e).toNat e
  have upper := Scientific.lt_truncate_succ (by norm_num : 0 < 10) m (E - e).toNat e
  push_cast at lower upper
  rw [lifted] at lower upper
  rw [abs_sub_lt_iff]
  cases negative <;> simp only [Bool.false_eq_true, if_false, if_true, Int.cast_neg, Int.cast_natCast] <;>
    constructor <;> linarith

/-- The aligned sum at the larger offset is within two units there of the exact sum. -/
theorem alignedSum_error (a b : STAmount) :
    |(alignedSum a b : ℚ) * 10 ^ max a.exponent b.exponent - (a.toRat + b.toRat)| <
      2 * 10 ^ max a.exponent b.exponent := by
  have termA := truncated_term_error a.isNegative a.mantissa (le_max_left a.exponent b.exponent)
  have termB := truncated_term_error b.isNegative b.mantissa (le_max_right a.exponent b.exponent)
  rw [show (max a.exponent b.exponent - a.exponent).toNat = (b.exponent - a.exponent).toNat by omega]
    at termA
  rw [show (max a.exponent b.exponent - b.exponent).toNat = (a.exponent - b.exponent).toNat by omega]
    at termB
  have split : (alignedSum a b : ℚ) * 10 ^ max a.exponent b.exponent - (a.toRat + b.toRat) =
      ((((if a.isNegative then -((a.mantissa / 10 ^ (b.exponent - a.exponent).toNat : ℕ) : ℤ)
          else ((a.mantissa / 10 ^ (b.exponent - a.exponent).toNat : ℕ) : ℤ)) : ℤ) : ℚ) *
          10 ^ max a.exponent b.exponent - a.toRat) +
      ((((if b.isNegative then -((b.mantissa / 10 ^ (a.exponent - b.exponent).toNat : ℕ) : ℤ)
          else ((b.mantissa / 10 ^ (a.exponent - b.exponent).toNat : ℕ) : ℤ)) : ℤ) : ℚ) *
          10 ^ max a.exponent b.exponent - b.toRat) := by
    rw [alignedSum, Int.cast_add]
    ring
  rw [split]
  calc _ ≤ _ := abs_add_le _ _
    _ < 10 ^ max a.exponent b.exponent + 10 ^ max a.exponent b.exponent := add_lt_add termA termB
    _ = _ := by ring

section

variable {a b : STAmount} (canonicalA : IOUCanonical a) (canonicalB : IOUCanonical b)
  (same : a.issue.currency = b.issue.currency)

include canonicalA canonicalB same in
theorem areComparable_of_iouCanonical : areComparable a b = true :=
  CanonicalForm.areComparable_eq (.inr canonicalA) (.inr canonicalB) same

include canonicalA in
theorem eq_zero_of_iouCanonical (zero : a.mantissa = 0) : a = ⟨a.issue, 0, -100, false, false⟩ := by
  obtain ⟨native, -, ⟨-, exponent, positive⟩ | ⟨atLeast, -⟩⟩ := canonicalA
  · obtain ⟨issue, mantissa, offset, isNative, isNegative⟩ := a
    simp only at native exponent positive zero ⊢
    rw [native, exponent, positive, zero]
  · simp only [cMinValue] at atLeast
    omega

include canonicalB in
/-- `operator+` with a zero left operand writes the right operand under the left issue. -/
theorem plus_of_zero_left (comparable : areComparable a b = true) (zeroA : a.mantissa = 0)
    (nonzeroB : b.mantissa ≠ 0) (currency : a.issue.currency = b.issue.currency) :
    plus a b = .ok { b with issue := a.issue } := by
  rw [plus, if_neg (by simp [comparable]), if_neg nonzeroB, if_pos zeroA]
  have literal : (⟨a.issue, b.mantissa, b.exponent, false, b.isNegative⟩ : STAmount) =
      { b with issue := a.issue } := by
    rw [canonicalB.1]
  rw [literal, canonicalize_setIssue b currency, canonicalize_of_iouCanonical canonicalB]
  rfl

include canonicalA canonicalB same in
/-- `a + b` is `b + a` written under the issue of `a`. -/
theorem plus_comm_issue : plus a b = (plus b a).map fun r => { r with issue := a.issue } := by
  have comparableAB := areComparable_of_iouCanonical canonicalA canonicalB same
  have comparableBA := areComparable_of_iouCanonical canonicalB canonicalA same.symm
  by_cases zeroA : a.mantissa = 0 <;> by_cases zeroB : b.mantissa = 0
  · rw [plus, if_neg (by simp [comparableAB]), if_pos zeroB, plus, if_neg (by simp [comparableBA]),
      if_pos zeroA, eq_zero_of_iouCanonical canonicalA zeroA, eq_zero_of_iouCanonical canonicalB zeroB]
    rfl
  · rw [plus_of_zero_left canonicalB comparableAB zeroA zeroB same, plus,
      if_neg (by simp [comparableBA]), if_pos zeroA]
    rfl
  · rw [plus_of_zero_left canonicalA comparableBA zeroB zeroA same.symm, plus,
      if_neg (by simp [comparableAB]), if_pos zeroB]
    rfl
  · rw [plus_eq_alignedSum comparableAB zeroA zeroB canonicalA.1,
      plus_eq_alignedSum comparableBA zeroB zeroA canonicalB.1, alignedSum_comm b a,
      max_comm b.exponent a.exponent]
    split_ifs
    · exact canonicalize_setIssue ⟨b.issue, 0, 0, false, false⟩ same
    · exact canonicalize_setIssue ⟨b.issue, _, _, false, _⟩ same

include canonicalA in
/-- The zero is neutral on the right. -/
theorem plus_zero {z : STAmount} (canonicalZ : IOUCanonical z) (currency : z.issue.currency = a.issue.currency)
    (zero : z.mantissa = 0) : plus a z = .ok a := by
  rw [plus, if_neg (by simp [areComparable_of_iouCanonical canonicalA canonicalZ currency.symm]), if_pos zero]

include canonicalA in
/-- `a + (-a)` is the canonical zero of the issue of `a`. -/
theorem plus_negate : plus a (negate a) = .ok ⟨a.issue, 0, -100, false, false⟩ := by
  by_cases zero : a.mantissa = 0
  · have kept : negate a = a := by simp [negate, zero]
    rw [kept, plus, if_neg (by simp [areComparable_of_iouCanonical canonicalA canonicalA rfl]),
      if_pos zero, ← eq_zero_of_iouCanonical canonicalA zero]
  · have flipped : negate a = { a with isNegative := !a.isNegative } := by simp [negate, zero]
    have canonicalNegated : IOUCanonical (negate a) := by
      rcases canonicalForm_negate (.inr canonicalA) with ⟨wrong, -⟩ | canonical
      · simp [negate, zero, canonicalA.1] at wrong
      · exact canonical
    have cancel : alignedSum a (negate a) = 0 := by
      rw [flipped, alignedSum]
      cases a.isNegative <;> simp
    rw [plus_eq_alignedSum (areComparable_of_iouCanonical canonicalA canonicalNegated (by rw [flipped])) zero
      (by rw [flipped]; exact zero) canonicalA.1, cancel, if_pos (by decide)]
    exact canonicalize_zero canonicalA.2.1 rfl

include canonicalA canonicalB in
/-- Each truncated mantissa is at most `cMaxValue`, so the aligned sum has at most seventeen
digits. -/
theorem natAbs_alignedSum_le : (alignedSum a b).natAbs ≤ 2 * cMaxValue := by
  have bound : ∀ {x : STAmount}, IOUCanonical x → x.mantissa ≤ cMaxValue := fun canonical => by
    rcases canonical.2.2 with ⟨zero, -⟩ | ⟨-, atMost, -⟩
    · rw [zero]
      exact Nat.zero_le _
    · exact atMost
  have term : ∀ (negative : Bool) (x : ℕ), (if negative then -(x : ℤ) else (x : ℤ)).natAbs = x := by
    intro negative x
    cases negative <;> simp
  have truncA := Nat.div_le_self a.mantissa (10 ^ (b.exponent - a.exponent).toNat)
  have truncB := Nat.div_le_self b.mantissa (10 ^ (a.exponent - b.exponent).toNat)
  have boundA := bound canonicalA
  have boundB := bound canonicalB
  unfold alignedSum
  calc _ ≤ _ := Int.natAbs_add_le _ _
    _ = a.mantissa / 10 ^ (b.exponent - a.exponent).toNat + b.mantissa / 10 ^ (a.exponent - b.exponent).toNat := by
      rw [term, term]
    _ ≤ 2 * cMaxValue := by omega

theorem toRat_of_zero {x : STAmount} (zero : x.mantissa = 0) : x.toRat = 0 := by
  simp [toRat, zero]

/-- An amount of a given sign whose magnitude truncates `n * 10 ^ E` to its last digit is
within one unit of that digit of the signed value. -/
theorem signed_truncation_error {r : STAmount} {n : ℕ} {E : ℤ} {negative : Bool}
    (sign : r.isNegative = negative) (lower : (r.mantissa : ℚ) * 10 ^ r.exponent ≤ n * 10 ^ E)
    (upper : (n : ℚ) * 10 ^ E < (r.mantissa + 1) * 10 ^ r.exponent) :
    |r.toRat - (if negative then -1 else 1) * n * 10 ^ E| < 10 ^ r.exponent := by
  rw [abs_sub_lt_iff]
  cases negative
  · rw [toRat_of_nonneg sign]
    simp only [Bool.false_eq_true, if_false, one_mul]
    constructor <;> linarith
  · rw [toRat_of_negative sign]
    simp only [if_true]
    constructor <;> linarith

/-- The value of the aligned sum at the larger offset, as a sign and a magnitude. -/
theorem alignedSum_cast (S : ℤ) (E : ℤ) :
    (S : ℚ) * 10 ^ E = (if decide (S < 0) then -1 else 1) * (S.natAbs : ℚ) * 10 ^ E := by
  by_cases negative : S < 0
  · have magnitude : (S.natAbs : ℚ) = -S := by
      rw [Nat.cast_natAbs, Int.cast_abs, abs_of_neg (by exact_mod_cast negative)]
    simp [negative, magnitude]
  · have magnitude : (S.natAbs : ℚ) = S := by
      rw [Nat.cast_natAbs, Int.cast_abs, abs_of_nonneg (by exact_mod_cast (not_lt.mp negative))]
    simp [negative, magnitude]

include canonicalA canonicalB same in
/-- The value of `a + b` for non-zero operands is the exact sum up to the truncation of the
aligned operands, the snap to zero, the digit `canonicalize` drops and its flush below
`10 ^ -81`; it never has the opposite sign. -/
theorem plus_error_sign_of_nonzero {r : STAmount} (nonzeroA : a.mantissa ≠ 0) (nonzeroB : b.mantissa ≠ 0)
    (ok : plus a b = .ok r) :
    |r.toRat - (a.toRat + b.toRat)| < 2 * 10 ^ (max a.exponent b.exponent + 1) + 10 ^ (-81 : ℤ) ∧
      0 ≤ r.toRat * (a.toRat + b.toRat) := by
  have aligned := alignedSum_error a b
  set E := max a.exponent b.exponent
  set S := alignedSum a b
  have positive : (0 : ℚ) < 10 ^ E := zpow_pos (by norm_num) E
  have flushPositive : (0 : ℚ) < 10 ^ (-81 : ℤ) := zpow_pos (by norm_num) _
  have tenfold : (10 : ℚ) ^ (E + 1) = 10 * 10 ^ E := by
    rw [zpow_add_one₀ (by norm_num)]
    ring
  rw [abs_sub_lt_iff] at aligned
  rw [plus_eq_alignedSum (areComparable_of_iouCanonical canonicalA canonicalB same) nonzeroA nonzeroB
    canonicalA.1] at ok
  split_ifs at ok with small
  · -- snapped to zero
    rw [@canonicalize_zero ⟨a.issue, 0, 0, false, false⟩ canonicalA.2.1 rfl] at ok
    cases ok
    have snapped : -10 * 10 ^ E ≤ (S : ℚ) * 10 ^ E ∧ (S : ℚ) * 10 ^ E ≤ 10 * 10 ^ E := by
      have below : (-10 : ℚ) ≤ S := by exact_mod_cast small.1
      have above : (S : ℚ) ≤ 10 := by exact_mod_cast small.2
      exact ⟨mul_le_mul_of_nonneg_right below positive.le, mul_le_mul_of_nonneg_right above positive.le⟩
    rw [toRat_of_zero rfl, zero_sub, abs_neg, zero_mul, abs_lt]
    refine ⟨⟨by linarith, by linarith⟩, le_refl 0⟩
  · have offset : cMinOffset ≤ E := by
      rcases canonicalA.2.2 with ⟨zero, -⟩ | ⟨-, -, above, -⟩
      · exact absurd zero nonzeroA
      · exact le_trans above (le_max_left _ _)
    have magnitude := alignedSum_cast S E
    have large := natAbs_alignedSum_le canonicalA canonicalB
    rcases canonicalize_iou_value ok canonicalA.2.1 (show S.natAbs ≠ 0 by omega) offset with
      ⟨zero, flushed⟩ | ⟨-, sign, lower, upper, -, oneDigit⟩
    · -- flushed to zero
      have tiny : -10 ^ (-81 : ℤ) < (S : ℚ) * 10 ^ E ∧ (S : ℚ) * 10 ^ E < 10 ^ (-81 : ℤ) := by
        simp only [cMinOffset, show (-96 : ℤ) + 15 = -81 by rfl] at flushed
        have nonneg : (0 : ℚ) ≤ (S.natAbs : ℚ) * 10 ^ E := by positivity
        rw [magnitude]
        cases decide (S < 0) <;> simp only [Bool.false_eq_true, if_false, if_true] <;>
          constructor <;> linarith
      rw [toRat_of_zero zero, zero_sub, abs_neg, zero_mul, abs_lt]
      refine ⟨⟨by linarith, by linarith⟩, le_refl 0⟩
    · -- the digit `canonicalize` may drop
      have digit := signed_truncation_error sign lower upper
      rw [← magnitude, abs_sub_lt_iff] at digit
      have unit : (10 : ℚ) ^ r.exponent ≤ 10 ^ (E + 1) :=
        zpow_le_zpow_right₀ (by norm_num)
          (oneDigit (show S.natAbs < 10 ^ 17 by simp only [cMaxValue] at large; omega))
      refine ⟨?_, ?_⟩
      · rw [abs_lt]
        constructor <;> linarith
      · by_cases negative : S < 0
        · have below : (S : ℚ) ≤ -11 := by exact_mod_cast (show S ≤ -11 by omega)
          have sumNegative : a.toRat + b.toRat < 0 := by nlinarith
          have resultNonpos : r.toRat ≤ 0 := by
            rw [toRat_of_negative (sign.trans (decide_eq_true negative))]
            have : (0 : ℚ) ≤ (r.mantissa : ℚ) * 10 ^ r.exponent := by positivity
            linarith
          exact mul_nonneg_of_nonpos_of_nonpos resultNonpos sumNegative.le
        · have above : (11 : ℚ) ≤ S := by exact_mod_cast (show 11 ≤ S by omega)
          have sumPositive : 0 < a.toRat + b.toRat := by nlinarith
          have resultNonneg : 0 ≤ r.toRat := by
            rw [toRat_of_nonneg (sign.trans (decide_eq_false negative))]
            positivity
          exact mul_nonneg resultNonneg sumPositive.le

include canonicalA canonicalB same in
/-- The error and sign of `a + b` for all operands, a zero operand adding nothing. -/
theorem plus_error_sign {r : STAmount} (ok : plus a b = .ok r) :
    |r.toRat - (a.toRat + b.toRat)| < 2 * 10 ^ (max a.exponent b.exponent + 1) + 10 ^ (-81 : ℤ) ∧
      0 ≤ r.toRat * (a.toRat + b.toRat) := by
  have comparable := areComparable_of_iouCanonical canonicalA canonicalB same
  have bound : (0 : ℚ) < 2 * 10 ^ (max a.exponent b.exponent + 1) + 10 ^ (-81 : ℤ) := by positivity
  by_cases zeroB : b.mantissa = 0
  · rw [plus, if_neg (by simp [comparable]), if_pos zeroB] at ok
    cases ok
    rw [toRat_of_zero zeroB, add_zero, sub_self, abs_zero]
    exact ⟨bound, mul_self_nonneg _⟩
  by_cases zeroA : a.mantissa = 0
  · rw [plus_of_zero_left canonicalB comparable zeroA zeroB same] at ok
    cases ok
    have same : ({ b with issue := a.issue } : STAmount).toRat = b.toRat := rfl
    rw [same, toRat_of_zero zeroA, zero_add, sub_self, abs_zero]
    exact ⟨bound, mul_self_nonneg _⟩
  exact plus_error_sign_of_nonzero canonicalA canonicalB same zeroA zeroB ok

end

/-- The laws of addition on IOU amounts in canonical form of one currency: `a + b` is `b + a`
under the issuer of `a`, the zero is neutral, `a + (-a)` is the zero, `a - b` is `a + (-b)`, and
a sum that does not throw is within `2 * 10 ^ (max (exponent a) (exponent b) + 1) + 10 ^ -81` of
the exact sum, never of the opposite sign. -/
theorem iou_addition_laws {a b : STAmount} (canonicalA : IOUCanonical a) (canonicalB : IOUCanonical b)
    (same : a.issue.currency = b.issue.currency) :
    plus a b = (plus b a).map (fun r => { r with issue := a.issue }) ∧
      (∀ z, IOUCanonical z → z.issue.currency = a.issue.currency → z.mantissa = 0 → plus a z = .ok a) ∧
      plus a (negate a) = .ok ⟨a.issue, 0, -100, false, false⟩ ∧
      minus a b = plus a (negate b) ∧
      ∀ r, plus a b = .ok r →
        |r.toRat - (a.toRat + b.toRat)| < 2 * 10 ^ (max a.exponent b.exponent + 1) + 10 ^ (-81 : ℤ) ∧
          0 ≤ r.toRat * (a.toRat + b.toRat) :=
  ⟨plus_comm_issue canonicalA canonicalB same,
    fun _ canonicalZ currency zero => plus_zero canonicalA canonicalZ currency zero,
    plus_negate canonicalA, rfl, fun _ ok => plus_error_sign canonicalA canonicalB same ok⟩

theorem iou_addition_laws_usd :
    IOUCanonical (usd 1500000000000000 (-15)) ∧ IOUCanonical (usd 2500000000000000 (-16)) ∧
      plus (usd 1500000000000000 (-15)) (usd 2500000000000000 (-16)) =
        (plus (usd 2500000000000000 (-16)) (usd 1500000000000000 (-15))).map
          (fun r => { r with issue := (usd 1500000000000000 (-15)).issue }) :=
  ⟨by decide, by decide,
    (iou_addition_laws (by decide : IOUCanonical (usd 1500000000000000 (-15)))
      (by decide : IOUCanonical (usd 2500000000000000 (-16))) rfl).1⟩

/-- Two canonical amounts at offset `-96` whose sum, `10 ^ -82`, is flushed to zero: the error
is far above `2 * 10 ^ (-96 + 1)`. -/
theorem iou_sum_flushed_beyond_bound :
    IOUCanonical (usd 1100000000000000 (-96)) ∧ IOUCanonical ⟨usdIssue, 1000000000000000, -96, false, true⟩ ∧
      plus (usd 1100000000000000 (-96)) ⟨usdIssue, 1000000000000000, -96, false, true⟩ =
        .ok ⟨usdIssue, 0, -100, false, false⟩ ∧
      2 * (10 : ℚ) ^ ((-96 : ℤ) + 1) ≤
        |(⟨usdIssue, 0, -100, false, false⟩ : STAmount).toRat -
          ((usd 1100000000000000 (-96)).toRat + (⟨usdIssue, 1000000000000000, -96, false, true⟩ : STAmount).toRat)| := by
  refine ⟨by decide, by decide, by decide, ?_⟩
  norm_num [toRat, usd]

end STAmount

end RadardFormal.Protocol
