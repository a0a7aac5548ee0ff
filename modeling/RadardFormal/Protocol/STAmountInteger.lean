import RadardFormal.Protocol.STAmountSum

/-!
# Whole amounts

`floor k` truncates an amount toward zero to a multiple of `10 ^ k` and canonicalizes it again.
For every amount in canonical form within the native range and every `k` up to `cMaxOffset` it
succeeds with the truncated value exactly (`floor_eq_truncateTo`), so `floor 0` keeps exactly
the whole amounts (`floor_zero_eq_self_iff`).  `isMathematicalInteger` compares the trailing
binary zeros of the mantissa with the negated offset instead: below the units it tests whether
`2 ^ -e` divides the mantissa (`isMathematicalInteger_iff`), where being whole is that `10 ^ -e`
does (`isInt_toRat_iff`).  Every non-zero whole amount passes, but so do some fractions.
-/

namespace RadardFormal.Protocol

namespace STAmount

open RadardFormal.Support

/-- `__builtin_ctzll` as the source's own fallback computes it: the trailing zero bits of a
64-bit word, and `64` for the zero word. -/
def ctzll (mask : Nat) : Nat := Bits.trailingZeros 64 mask

/-- `STAmount::isMathematicalInteger`. -/
def isMathematicalInteger (amount : STAmount) : Bool :=
  decide ((ctzll amount.mantissa : Int) ≥ -amount.exponent)

/-- The loop of `STAmount::floor`: while the offset is below the target, divide the mantissa by
ten and raise the offset.  The distance to the target is enough fuel. -/
def floorMantissa : Nat → Nat → Int → Int → Nat × Int
  | 0, value, offset, _ => (value, offset)
  | fuel + 1, value, offset, target =>
    if offset < target then floorMantissa fuel (value / 10) (offset + 1) target
    else (value, offset)

/-- `STAmount::floor`. -/
def floor (amount : STAmount) (offset : Int) : Except String STAmount :=
  let (value, exponent) :=
    floorMantissa (offset - amount.exponent).toNat amount.mantissa amount.exponent offset
  canonicalize { amount with mantissa := value, exponent := exponent }

theorem floorMantissa_eq (fuel value : Nat) (offset target : Int) (enough : target - offset ≤ fuel) :
    floorMantissa fuel value offset target = (value / 10 ^ (target - offset).toNat, max offset target) := by
  induction fuel generalizing value offset with
  | zero =>
    have reached : (target - offset).toNat = 0 := by omega
    simp only [floorMantissa, reached, Nat.pow_zero, Nat.div_one, Prod.mk.injEq, true_and]
    omega
  | succ fuel ih =>
    unfold floorMantissa
    split
    case isTrue below =>
      have steps : (target - offset).toNat = (target - (offset + 1)).toNat + 1 := by omega
      rw [ih (value / 10) (offset + 1) (by omega), steps, Nat.pow_succ', ← Nat.div_div_eq_div_mul]
      congr 1
      omega
    case isFalse reached =>
      have zero : (target - offset).toNat = 0 := by omega
      simp only [zero, Nat.pow_zero, Nat.div_one, Prod.mk.injEq, true_and]
      omega

/-- `floor` canonicalizes the amount with its mantissa truncated to the target offset. -/
theorem floor_eq (amount : STAmount) (offset : Int) :
    floor amount offset =
      canonicalize { amount with
        mantissa := amount.mantissa / 10 ^ (offset - amount.exponent).toNat,
        exponent := max amount.exponent offset } := by
  rw [floor, floorMantissa_eq _ _ _ _ (Int.self_le_toNat _)]

/-! ## The value `floor` leaves -/

/-- `canonicalize` keeps an amount in canonical form within the native range. -/
theorem canonicalize_of_canonicalForm {a : STAmount} (canonical : CanonicalForm a)
    (legal : isLegalNet a = true) : canonicalize a = .ok a := by
  rcases canonical with ⟨native, currency, exponent, positive⟩ | iou
  · have atMost : a.mantissa ≤ cMaxNativeN := by simpa [isLegalNet, STAmount.native, native] using legal
    rw [canonicalize_native_of_exponent_zero a currency exponent atMost]
    obtain ⟨issue, mantissa, offset, isNative, isNegative⟩ := a
    simp only at native positive ⊢
    subst native
    by_cases zero : mantissa = 0
    · simp [zero, positive zero]
    · simp [zero]
  · exact canonicalize_of_iouCanonical iou

/-- An amount of value zero is left as it is. -/
theorem floor_of_zero {a : STAmount} (canonical : CanonicalForm a) (zero : a.mantissa = 0) (k : Int) :
    floor a k = .ok a := by
  obtain ⟨positive, exponent⟩ := canonical.exponent_of_zero zero
  have native := canonical.isNative_eq
  rw [floor_eq]
  obtain ⟨issue, mantissa, offset, isNative, isNegative⟩ := a
  simp only at zero positive exponent native ⊢
  clear canonical
  subst zero positive native
  cases currency : issue.currency.isNative
  · simp [currency] at exponent
    subst exponent
    rw [@canonicalize_zero ⟨issue, 0 / 10 ^ (k - -100).toNat, max (-100) k, false, false⟩ currency (by simp)]
    simp
  · simp [currency] at exponent
    subst exponent
    rw [canonicalize_native_of_exponent_nonneg ⟨issue, 0 / 10 ^ (k - 0).toNat, max 0 k, true, false⟩ currency
      (by simp) (by simp)]
    simp

/-- An amount whose offset is at least the target is left as it is. -/
theorem floor_of_le {a : STAmount} (canonical : CanonicalForm a) (legal : isLegalNet a = true) {k : Int}
    (reached : k ≤ a.exponent) : floor a k = .ok a := by
  have same : { a with mantissa := a.mantissa / 10 ^ (k - a.exponent).toNat, exponent := max a.exponent k } =
      a := by
    rw [show (k - a.exponent).toNat = 0 by omega, max_eq_left reached, Nat.pow_zero, Nat.div_one]
  rw [floor_eq, same, canonicalize_of_canonicalForm canonical legal]

/-- Truncation commutes with the sign of an amount. -/
theorem truncateTo_toRat (a : STAmount) (k : Int) :
    Scientific.truncateTo 10 k a.toRat =
      (if a.isNegative then -1 else 1) * Scientific.truncateTo 10 k (a.mantissa * 10 ^ a.exponent) := by
  cases sign : a.isNegative
  · rw [toRat_of_nonneg sign]
    simp
  · rw [toRat_of_negative sign, Scientific.truncateTo_neg]
    simp

/-- An amount whose magnitude is the truncated magnitude of `a`, with the sign of `a` unless it
is zero, has the truncated value of `a`. -/
theorem toRat_eq_truncateTo {a r : STAmount} {k : Int}
    (magnitude : (r.mantissa : ℚ) * 10 ^ r.exponent = Scientific.truncateTo 10 k (a.mantissa * 10 ^ a.exponent))
    (sign : r.mantissa ≠ 0 → r.isNegative = a.isNegative) :
    r.toRat = Scientific.truncateTo 10 k a.toRat := by
  rw [truncateTo_toRat, ← magnitude]
  by_cases zero : r.mantissa = 0
  · simp [toRat, zero]
  · rw [toRat, sign zero, mul_assoc]

/-- A native amount truncated above the units: its drops lose their low `k` digits. -/
theorem floor_native {a : STAmount} (currency : a.issue.currency.isNative = true)
    (exponent : a.exponent = 0) (legal : a.mantissa ≤ cMaxNativeN) {k : Int} (positive : 0 < k) :
    ∃ r, floor a k = .ok r ∧ r.issue = a.issue ∧ CanonicalForm r ∧ r.toRat = Scientific.truncateTo 10 k a.toRat := by
  have kept : a.mantissa / 10 ^ k.toNat * 10 ^ k.toNat ≤ cMaxNativeN :=
    Nat.le_trans (Nat.div_mul_le_self _ _) legal
  rw [floor_eq, exponent, show k - 0 = k by omega, max_eq_right positive.le,
    canonicalize_native_of_exponent_nonneg { a with mantissa := a.mantissa / 10 ^ k.toNat, exponent := k }
      currency positive.le (by simpa using kept)]
  refine ⟨_, rfl, rfl, .inl ⟨rfl, currency, rfl, fun zero => ?_⟩, toRat_eq_truncateTo ?_ fun nonzero => ?_⟩
  · simp_all
  · have truncated := Scientific.truncateTo_natCast_mul (by norm_num : 0 < 10) a.mantissa k.toNat 0
    have power : (10 : ℚ) ^ k.toNat = 10 ^ k := by rw [← zpow_natCast, Int.toNat_of_nonneg positive.le]
    rw [show (0 : Int) + k.toNat = k by omega, zpow_zero, mul_one] at truncated
    show ((a.mantissa / 10 ^ k.toNat * 10 ^ k.toNat : ℕ) : ℚ) * 10 ^ (0 : ℤ) =
      Scientific.truncateTo 10 k (a.mantissa * 10 ^ a.exponent)
    simp only [exponent, zpow_zero, mul_one]
    rw [truncated]
    push_cast
    rw [power]
  · simp_all

/-- A non-zero IOU amount truncated above its offset: its mantissa loses its low digits and
`canonicalize` restores sixteen of them without changing the value. -/
theorem floor_iou {a : STAmount} (canonical : IOUCanonical a) (nonzero : a.mantissa ≠ 0) {k : Int}
    (above : a.exponent < k) (below : k ≤ cMaxOffset) :
    ∃ r, floor a k = .ok r ∧ r.issue = a.issue ∧ CanonicalForm r ∧ r.toRat = Scientific.truncateTo 10 k a.toRat := by
  obtain ⟨native, currency, ⟨zero, -⟩ | ⟨atLeast, atMost, lowest, -⟩⟩ := canonical
  · exact absurd zero nonzero
  rw [floor_eq, max_eq_right above.le]
  set d := (k - a.exponent).toNat with distance
  have offset : k = a.exponent + d := by omega
  have truncated := Scientific.truncateTo_natCast_mul (by norm_num : 0 < 10) a.mantissa d a.exponent
  push_cast at truncated
  rw [← offset] at truncated
  by_cases lost : a.mantissa / 10 ^ d = 0
  · rw [@canonicalize_zero { a with mantissa := a.mantissa / 10 ^ d, exponent := k } currency lost]
    refine ⟨_, rfl, rfl, .inr ⟨rfl, currency, .inl ⟨lost, rfl, rfl⟩⟩,
      toRat_eq_truncateTo ?_ fun nonzero => absurd lost nonzero⟩
    rw [truncated, lost]
    simp
  -- the kept digits are `16 - d` of them, so the magnitude is at least `10 ^ (a.exponent + 15)`
  have few : d ≤ 15 := by
    have : 10 ^ d ≤ a.mantissa := by
      by_contra small
      exact lost (Nat.div_eq_of_lt (Nat.lt_of_not_le small))
    have : 10 ^ d < 10 ^ 16 := Nat.lt_of_le_of_lt this (by simp only [cMaxValue] at atMost; omega)
    exact Nat.le_of_lt_succ ((Nat.pow_lt_pow_iff_right (by norm_num)).mp this)
  have digits : 10 ^ (15 - d) ≤ a.mantissa / 10 ^ d := by
    rw [Nat.le_div_iff_mul_le (Nat.pow_pos (by norm_num)), ← Nat.pow_add, Nat.sub_add_cancel few]
    simpa [cMinValue] using atLeast
  have large : (10 : ℚ) ^ (cMinOffset + 15) ≤ ((a.mantissa / 10 ^ d : ℕ) : ℚ) * 10 ^ k := by
    have cast : ((10 ^ (15 - d) : ℕ) : ℚ) ≤ ((a.mantissa / 10 ^ d : ℕ) : ℚ) := Nat.cast_le.mpr digits
    calc (10 : ℚ) ^ (cMinOffset + 15)
        ≤ 10 ^ (((15 - d : ℕ) : ℤ) + k) := zpow_le_zpow_right₀ (by norm_num) (by omega)
      _ = ((10 ^ (15 - d) : ℕ) : ℚ) * 10 ^ k := by
        rw [zpow_add₀ (by norm_num), zpow_natCast]
        push_cast
        rfl
      _ ≤ ((a.mantissa / 10 ^ d : ℕ) : ℚ) * 10 ^ k :=
        mul_le_mul_of_nonneg_right cast (zpow_nonneg (by norm_num) k)
  obtain ⟨r, ok, issue, canonicalR, sign, exact⟩ := @canonicalize_iou_exact
    { a with mantissa := a.mantissa / 10 ^ d, exponent := k } currency lost
    (Nat.le_trans (Nat.div_le_self _ _) atMost) (show cMinOffset ≤ k by omega) below large
  refine ⟨r, ok, issue, .inr canonicalR, toRat_eq_truncateTo ?_ fun _ => sign⟩
  rw [exact, ← truncated]

/-- For every amount in canonical form within the native range and every target offset up to
`cMaxOffset`, `floor` succeeds with an amount in canonical form of the same issue whose value is
the value truncated toward zero to a multiple of `10 ^ k`. -/
theorem floor_eq_truncateTo {a : STAmount} (canonical : CanonicalForm a) (legal : isLegalNet a = true) {k : Int}
    (below : k ≤ cMaxOffset) :
    ∃ r, floor a k = .ok r ∧ r.issue = a.issue ∧ CanonicalForm r ∧ r.toRat = Scientific.truncateTo 10 k a.toRat := by
  by_cases zero : a.mantissa = 0
  · refine ⟨a, floor_of_zero canonical zero k, rfl, canonical, toRat_eq_truncateTo ?_ fun _ => rfl⟩
    simp [zero, Scientific.truncateTo]
  by_cases reached : k ≤ a.exponent
  · refine ⟨a, floor_of_le canonical legal reached, rfl, canonical, toRat_eq_truncateTo ?_ fun _ => rfl⟩
    exact (Scientific.truncateTo_of_le (by norm_num : 0 < 10) a.mantissa reached).symm
  rcases canonical with ⟨native, currency, exponent, -⟩ | iou
  · have atMost : a.mantissa ≤ cMaxNativeN := by simpa [isLegalNet, STAmount.native, native] using legal
    exact floor_native currency exponent atMost (by omega)
  · exact floor_iou iou zero (by omega) below

/-! ## Whole amounts -/

/-- An amount below the units is whole exactly when `10 ^ -e` divides its mantissa. -/
theorem isInt_toRat_iff {a : STAmount} (fraction : a.exponent < 0) :
    (∃ n : ℤ, a.toRat = n) ↔ 10 ^ (-a.exponent).toNat ∣ a.mantissa := by
  have whole := Scientific.isInt_iff_dvd (by norm_num : 0 < 10) a.mantissa (-a.exponent).toNat
  rw [show -(((-a.exponent).toNat : ℕ) : ℤ) = a.exponent by omega] at whole
  push_cast at whole
  rw [← whole]
  cases sign : a.isNegative
  · rw [toRat_of_nonneg sign]
  · rw [toRat_of_negative sign]
    constructor
    · rintro ⟨n, negated⟩
      exact ⟨-n, by push_cast; linarith⟩
    · rintro ⟨n, magnitude⟩
      exact ⟨-n, by push_cast; linarith⟩

/-- On a non-zero IOU amount below the units, `isMathematicalInteger` tests whether `2 ^ -e`
divides the mantissa. -/
theorem isMathematicalInteger_iff {a : STAmount} (canonical : IOUCanonical a) (nonzero : a.mantissa ≠ 0)
    (fraction : a.exponent < 0) : isMathematicalInteger a = true ↔ 2 ^ (-a.exponent).toNat ∣ a.mantissa := by
  have small : a.mantissa < 2 ^ 64 := by
    obtain ⟨-, -, ⟨zero, -⟩ | ⟨-, atMost, -⟩⟩ := canonical
    · exact absurd zero nonzero
    · simp only [cMaxValue] at atMost
      omega
  unfold isMathematicalInteger ctzll
  rw [decide_eq_true_iff]
  constructor
  · intro counted
    exact Nat.dvd_trans (Nat.pow_dvd_pow 2 (by omega)) (Bits.two_pow_trailingZeros_dvd 64 a.mantissa)
  · intro dvd
    -- a power of two dividing a non-zero word is below its width
    have within : (-a.exponent).toNat < 64 := by
      have : 2 ^ (-a.exponent).toNat < 2 ^ 64 := Nat.lt_of_le_of_lt (Nat.le_of_dvd (by omega) dvd) small
      exact (Nat.pow_lt_pow_iff_right (by norm_num)).mp this
    have := Bits.le_trailingZeros_of_dvd within.le dvd
    omega

/-- Every non-zero whole amount in canonical form passes `isMathematicalInteger`. -/
theorem isMathematicalInteger_of_isInt {a : STAmount} (canonical : CanonicalForm a) (nonzero : a.mantissa ≠ 0)
    (whole : ∃ n : ℤ, a.toRat = n) : isMathematicalInteger a = true := by
  by_cases fraction : a.exponent < 0
  · rcases canonical with ⟨-, -, exponent, -⟩ | iou
    · omega
    · rw [isMathematicalInteger_iff iou nonzero fraction]
      have decimal := (isInt_toRat_iff fraction).mp whole
      exact Nat.dvd_trans (pow_dvd_pow_of_dvd (by norm_num) _) decimal
  · unfold isMathematicalInteger
    rw [decide_eq_true_iff]
    omega

/-- `floor 0` keeps an amount in canonical form within the native range exactly when it is
whole. -/
theorem floor_zero_eq_self_iff {a : STAmount} (canonical : CanonicalForm a) (legal : isLegalNet a = true) :
    floor a 0 = .ok a ↔ ∃ n : ℤ, a.toRat = n := by
  obtain ⟨r, ok, issue, canonicalR, value⟩ := floor_eq_truncateTo canonical legal (by decide : (0 : Int) ≤ cMaxOffset)
  rw [ok]
  constructor
  · intro same
    cases same
    rw [value]
    exact Scientific.truncateTo_units_isInt 10 a.toRat
  · rintro ⟨n, whole⟩
    rw [whole, Scientific.truncateTo_units_intCast, ← whole] at value
    rw [CanonicalForm.eq_of_toRat_eq canonicalR canonical issue value]

/-- The mantissa `2 ^ 50` has fifty trailing zero bits, so `isMathematicalInteger` accepts
`1125899906842624e-15`, which is not whole: `floor 0` truncates it to `1`. -/
theorem isMathematicalInteger_accepts_fraction :
    CanonicalForm (usd 1125899906842624 (-15)) ∧ isMathematicalInteger (usd 1125899906842624 (-15)) = true ∧
      (¬∃ n : ℤ, (usd 1125899906842624 (-15)).toRat = n) ∧
      floor (usd 1125899906842624 (-15)) 0 = .ok (usd 1000000000000000 (-15)) := by
  refine ⟨by decide, by decide, ?_, by decide⟩
  rw [isInt_toRat_iff (by decide)]
  decide

end STAmount

end RadardFormal.Protocol
