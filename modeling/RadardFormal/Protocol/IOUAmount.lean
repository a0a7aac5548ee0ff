import RadardFormal.Protocol.STAmountArith

/-!
# IOUAmount

`IOUAmount` holds an IOU amount as a signed 64-bit mantissa and an exponent, where
`STAmount` holds a magnitude, a sign flag and an offset; its zero is `(0, -100)`.  Its
`normalize`, `operator+=`, `operator<` and `to_string` repeat `STAmount::canonicalize`,
`operator+`, `operator<` and `getText` on that representation.  `STAmount (IOUAmount,
Issue)` and `STAmount::iou` convert between the two.

The conversion is a refinement: on normalized amounts of a non-native issue each
operation of `IOUAmount` is the `STAmount` operation on the converted amounts, and the
one throws exactly when the other does.  The two `normalize` loops are simulated step by
step by those of `canonicalize`, which differ only in the text they throw.
-/

namespace RadardFormal.Protocol

/-- `IOUAmount`: `mantissa_` and `exponent_`. -/
structure IOUAmount where
  mantissa : Int
  exponent : Int
  deriving DecidableEq, Repr

namespace IOUAmount

/-- The bounds of `normalize`. -/
def minExponent : Int := -96
def maxExponent : Int := 80
def minMantissa : Int := 1000000000000000
def maxMantissa : Int := 9999999999999999

/-- `operator= (beast::Zero)`. -/
def zero : IOUAmount := ⟨0, -100⟩

/-- The first loop of `normalize`: while the mantissa is below `minMantissa` and the
exponent above `minExponent`, multiply by ten and lower the exponent. -/
def raiseMantissa : Nat → Int → Int → Int × Int
  | 0, mantissa, exponent => (mantissa, exponent)
  | fuel + 1, mantissa, exponent =>
    if mantissa < minMantissa ∧ exponent > minExponent then
      raiseMantissa fuel (mantissa * 10) (exponent - 1)
    else (mantissa, exponent)

/-- The second loop: while the mantissa is above `maxMantissa`, throw if the exponent
has reached `maxExponent`, else divide by ten and raise the exponent. -/
def lowerMantissa : Nat → Int → Int → Except String (Int × Int)
  | 0, mantissa, exponent => .ok (mantissa, exponent)
  | fuel + 1, mantissa, exponent =>
    if mantissa > maxMantissa then
      if exponent ≥ maxExponent then .error "IOUAmount::normalize"
      else lowerMantissa fuel (mantissa.tdiv 10) (exponent + 1)
    else .ok (mantissa, exponent)

/-- `IOUAmount::normalize`, and so the constructor `IOUAmount (std::int64_t, int)`: the
loops run on the magnitude, with the fuel of `STAmount.canonicalize`. -/
def normalize (amount : IOUAmount) : Except String IOUAmount :=
  if amount.mantissa = 0 then .ok zero
  else
    let negative := decide (amount.mantissa < 0)
    let mantissa := if negative then -amount.mantissa else amount.mantissa
    let (mantissa, exponent) :=
      raiseMantissa (amount.exponent - minExponent).toNat mantissa amount.exponent
    match lowerMantissa mantissa.toNat mantissa exponent with
    | .error message => .error message
    | .ok (mantissa, exponent) =>
      if exponent < minExponent ∨ mantissa < minMantissa then .ok zero
      else if exponent > maxExponent then .error "value overflow"
      else .ok ⟨if negative then -mantissa else mantissa, exponent⟩

/-- `IOUAmount::operator+=`: `other == zero` compares the signum with zero. -/
def add (amount other : IOUAmount) : Except String IOUAmount :=
  if other.mantissa = 0 then .ok amount
  else if amount.mantissa = 0 then .ok other
  else
    let (mantissa, exponent) := alignExponent (other.exponent - amount.exponent).toNat
      amount.mantissa amount.exponent other.exponent
    let (m, _) := alignExponent (exponent - other.exponent).toNat other.mantissa other.exponent exponent
    let mantissa := mantissa + m
    if -10 ≤ mantissa ∧ mantissa ≤ 10 then .ok zero
    else normalize ⟨mantissa, exponent⟩

/-- `IOUAmount::operator<`. -/
def lt (amount other : IOUAmount) : Bool :=
  let lneg := decide (amount.mantissa < 0)
  let rneg := decide (other.mantissa < 0)
  if lneg != rneg then lneg
  else if amount.mantissa = 0 then decide (other.mantissa > 0)
  else if other.mantissa = 0 then false
  else if amount.exponent > other.exponent then lneg
  else if amount.exponent < other.exponent then !lneg
  else decide (amount.mantissa < other.mantissa)

/-- `to_string (IOUAmount const&)`. -/
def toString (amount : IOUAmount) : String :=
  if amount.mantissa = 0 then "0"
  else if amount.exponent ≠ 0 ∧ (amount.exponent < -25 ∨ amount.exponent > -5) then
    Int.repr amount.mantissa ++ "e" ++ Int.repr amount.exponent
  else plainText (decide (amount.mantissa < 0)) (Nat.repr amount.mantissa.natAbs).toList amount.exponent

/-- The amounts `normalize` leaves: the zero, or a mantissa of 16 digits and an
exponent in range. -/
def Normalized (amount : IOUAmount) : Prop :=
  amount = zero ∨
    minExponent ≤ amount.exponent ∧ amount.exponent ≤ maxExponent ∧
      (minMantissa ≤ amount.mantissa ∧ amount.mantissa ≤ maxMantissa ∨
        -maxMantissa ≤ amount.mantissa ∧ amount.mantissa ≤ -minMantissa)

instance : DecidablePred Normalized := fun _ => inferInstanceAs (Decidable (_ ∨ _))

/-! ## The loops of `normalize` against those of `canonicalize` -/

theorem raiseMantissa_natCast (fuel value : Nat) (exponent : Int) :
    raiseMantissa fuel value exponent =
      ((((STAmount.raiseMantissa fuel value exponent).1 : Nat) : Int),
        (STAmount.raiseMantissa fuel value exponent).2) := by
  induction fuel generalizing value exponent with
  | zero => rfl
  | succ fuel ih =>
    have same : ((value : Int) < minMantissa ∧ exponent > minExponent) ↔
        (value < STAmount.cMinValue ∧ STAmount.cMinOffset < exponent) := by
      simp only [minMantissa, minExponent, STAmount.cMinValue, STAmount.cMinOffset]
      omega
    unfold raiseMantissa STAmount.raiseMantissa
    by_cases step : value < STAmount.cMinValue ∧ STAmount.cMinOffset < exponent
    case pos =>
      rw [if_pos (same.mpr step), if_pos step, ← ih]
      push_cast
      rfl
    case neg => rw [if_neg (fun raise => step (same.mp raise)), if_neg step]

/-- The second loop throws where `canonicalize`'s does, with its own text. -/
theorem lowerMantissa_natCast (fuel value : Nat) (exponent : Int) :
    lowerMantissa fuel value exponent =
      ((STAmount.lowerMantissa fuel value exponent).map (fun p => ((p.1 : Int), p.2))).mapError
        (fun _ => "IOUAmount::normalize") := by
  induction fuel generalizing value exponent with
  | zero => rfl
  | succ fuel ih =>
    have above : (value : Int) > maxMantissa ↔ STAmount.cMaxValue < value := by
      simp only [maxMantissa, STAmount.cMaxValue]
      omega
    have limit : exponent ≥ maxExponent ↔ STAmount.cMaxOffset ≤ exponent := Iff.rfl
    have tenth : (value : Int).tdiv 10 = ((value / 10 : Nat) : Int) := (Int.ofNat_tdiv value 10).symm
    unfold lowerMantissa STAmount.lowerMantissa
    by_cases large : STAmount.cMaxValue < value
    case pos =>
      rw [if_pos (above.mpr large), if_pos large]
      by_cases overflow : STAmount.cMaxOffset ≤ exponent
      case pos => rw [if_pos (limit.mpr overflow), if_pos overflow]; rfl
      case neg => rw [if_neg (fun h => overflow (limit.mp h)), if_neg overflow, tenth, ih]
    case neg => rw [if_neg (fun h => large (above.mp h)), if_neg large]; rfl

end IOUAmount

namespace STAmount

/-- `STAmount (IOUAmount const&, Issue const&)`: `amount < zero` compares the signum
with zero. -/
def ofIOU (amount : IOUAmount) (issue : Issue) : Except String STAmount :=
  let isNegative := decide (amount.mantissa < 0)
  canonicalize ⟨issue, if isNegative then (-amount.mantissa).toNat else amount.mantissa.toNat,
    amount.exponent, false, isNegative⟩

/-- `STAmount::iou`: the signed mantissa and the offset, through the normalizing
constructor of `IOUAmount`. -/
def iou (amount : STAmount) : Except String IOUAmount :=
  if amount.isNative then .error "Cannot return native STAmount as IOUAmount"
  else IOUAmount.normalize
    ⟨if amount.isNegative then -(amount.mantissa : Int) else amount.mantissa, amount.exponent⟩

/-- The non-native amounts `canonicalize` leaves: the zero with offset `-100`, or a
mantissa and an offset in range. -/
def IOUCanonical (amount : STAmount) : Prop :=
  amount.isNative = false ∧ amount.issue.currency.isNative = false ∧
    (amount.mantissa = 0 ∧ amount.exponent = -100 ∧ amount.isNegative = false ∨
      cMinValue ≤ amount.mantissa ∧ amount.mantissa ≤ cMaxValue ∧
        cMinOffset ≤ amount.exponent ∧ amount.exponent ≤ cMaxOffset)

instance : DecidablePred IOUCanonical := fun _ => inferInstanceAs (Decidable (_ ∧ _))

theorem natAbs_of_sign (mantissa : Int) :
    (if decide (mantissa < 0) then (-mantissa).toNat else mantissa.toNat) = mantissa.natAbs := by
  by_cases negative : mantissa < 0
  case pos => rw [if_pos (decide_eq_true negative)]; omega
  case neg => rw [if_neg (by simpa using negative)]; omega

/-- `STAmount (IOUAmount, Issue)` canonicalizes the magnitude with the sign. -/
theorem ofIOU_eq (amount : IOUAmount) (issue : Issue) :
    ofIOU amount issue =
      canonicalize ⟨issue, amount.mantissa.natAbs, amount.exponent, false, decide (amount.mantissa < 0)⟩ := by
  show canonicalize ⟨issue, if decide (amount.mantissa < 0) then (-amount.mantissa).toNat
    else amount.mantissa.toNat, amount.exponent, false, decide (amount.mantissa < 0)⟩ = _
  rw [natAbs_of_sign]

/-- A normalized amount of a non-native issue converts without a throw, to its
magnitude and sign. -/
theorem ofIOU_of_normalized {amount : IOUAmount} (normalized : amount.Normalized) {issue : Issue}
    (currencyIOU : issue.currency.isNative = false) :
    ofIOU amount issue =
      .ok ⟨issue, amount.mantissa.natAbs, amount.exponent, false, decide (amount.mantissa < 0)⟩ := by
  rw [ofIOU_eq]
  rcases normalized with rfl | ⟨above, below, range⟩
  case inl => exact canonicalize_zero currencyIOU rfl
  case inr =>
    simp only [IOUAmount.minMantissa, IOUAmount.maxMantissa] at range
    exact canonicalize_of_inRange currencyIOU (by simp only [cMinValue]; omega)
      (by simp only [cMaxValue]; omega) above below

theorem ofIOU_zero {issue : Issue} (currencyIOU : issue.currency.isNative = false) :
    ofIOU IOUAmount.zero issue = .ok ⟨issue, 0, -100, false, false⟩ :=
  canonicalize_zero currencyIOU rfl

/-- With the mantissa as fuel, the second loop of `canonicalize` stops below
`cMaxValue`. -/
theorem lowerMantissa_le {fuel value : Nat} (enough : value ≤ fuel) {offset : Int} {result : Nat × Int}
    (lowered : lowerMantissa fuel value offset = .ok result) : result.1 ≤ cMaxValue := by
  induction fuel generalizing value offset with
  | zero =>
    cases lowered
    simp only [Nat.le_zero.mp enough, Nat.zero_le]
  | succ fuel ih =>
    unfold lowerMantissa at lowered
    split at lowered
    case isTrue large =>
      split at lowered
      case isTrue => cases lowered
      case isFalse => exact ih (by omega) lowered
    case isFalse small =>
      cases lowered
      exact Nat.le_of_not_lt small

/-- `normalize` followed by the conversion is `canonicalize` of the magnitude and sign,
up to the text of a throw. -/
theorem normalize_ofIOU {mantissa : Int} (nonzero : mantissa ≠ 0) (exponent : Int) {issue : Issue}
    (currencyIOU : issue.currency.isNative = false) :
    ((IOUAmount.normalize ⟨mantissa, exponent⟩).bind (ofIOU · issue)).toOption =
      (canonicalize ⟨issue, mantissa.natAbs, exponent, false, decide (mantissa < 0)⟩).toOption := by
  have magnitude : (if decide (mantissa < 0) then -mantissa else mantissa) = (mantissa.natAbs : Int) := by
    by_cases negative : mantissa < 0
    case pos => rw [if_pos (decide_eq_true negative)]; omega
    case neg => rw [if_neg (by simpa using negative)]; omega
  have fuel : IOUAmount.minExponent = cMinOffset := rfl
  have natAbs_ne : mantissa.natAbs ≠ 0 := by omega
  unfold IOUAmount.normalize canonicalize
  simp only [nonzero, if_false, currencyIOU, Bool.false_eq_true, natAbs_ne]
  rw [magnitude, fuel, IOUAmount.raiseMantissa_natCast, Int.toNat_natCast, IOUAmount.lowerMantissa_natCast]
  cases lowered : lowerMantissa (raiseMantissa (exponent - cMinOffset).toNat mantissa.natAbs exponent).1
    (raiseMantissa (exponent - cMinOffset).toNat mantissa.natAbs exponent).1
    (raiseMantissa (exponent - cMinOffset).toNat mantissa.natAbs exponent).2 with
  | error message => rfl
  | ok result =>
    obtain ⟨value, offset⟩ := result
    have atMost : value ≤ cMaxValue := lowerMantissa_le (Nat.le_refl _) lowered
    simp only [Except.map, Except.mapError]
    by_cases small : offset < cMinOffset ∨ value < cMinValue
    case pos =>
      have small' : offset < cMinOffset ∨ (value : Int) < IOUAmount.minMantissa := by
        simp only [IOUAmount.minMantissa, cMinValue] at small ⊢
        omega
      rw [if_pos small', if_pos small]
      show (ofIOU IOUAmount.zero issue).toOption = _
      rw [ofIOU_zero currencyIOU]
    case neg =>
      have large : ¬(offset < cMinOffset ∨ (value : Int) < IOUAmount.minMantissa) := by
        simp only [IOUAmount.minMantissa, cMinValue] at small ⊢
        omega
      rw [if_neg large, if_neg small]
      have limit : offset > IOUAmount.maxExponent ↔ cMaxOffset < offset := Iff.rfl
      by_cases overflow : cMaxOffset < offset
      case pos => rw [if_pos (limit.mpr overflow), if_pos overflow]; rfl
      case neg =>
        rw [if_neg (fun h => overflow (limit.mp h)), if_neg overflow]
        simp only [not_or, not_lt, cMinValue, cMinOffset, cMaxOffset] at small overflow
        have normalized : IOUAmount.Normalized
            ⟨if decide (mantissa < 0) then -(value : Int) else value, offset⟩ := by
          right
          simp only [IOUAmount.minExponent, IOUAmount.maxExponent, IOUAmount.minMantissa,
            IOUAmount.maxMantissa]
          simp only [cMaxValue] at atMost
          by_cases negative : mantissa < 0
          case pos => simp only [negative, decide_true, if_true]; omega
          case neg => simp only [negative, decide_false, Bool.false_eq_true, if_false]; omega
        have sameValue : (if decide (mantissa < 0) then -(value : Int) else value).natAbs = value := by
          by_cases negative : mantissa < 0
          case pos => rw [if_pos (decide_eq_true negative)]; omega
          case neg => rw [if_neg (by simpa using negative)]; omega
        have sameSign : decide ((if decide (mantissa < 0) then -(value : Int) else value) < 0) =
            decide (mantissa < 0) := by
          by_cases negative : mantissa < 0
          case pos =>
            rw [if_pos (decide_eq_true negative), decide_eq_true negative, decide_eq_true_iff]
            omega
          case neg =>
            rw [if_neg (by simpa using negative), decide_eq_false negative, decide_eq_false_iff_not]
            omega
        show (ofIOU _ issue).toOption = _
        rw [ofIOU_of_normalized normalized currencyIOU, sameValue, sameSign]

theorem signed_natAbs (mantissa : Int) :
    (if decide (mantissa < 0) then -(mantissa.natAbs : Int) else mantissa.natAbs) = mantissa := by
  by_cases negative : mantissa < 0
  case pos => rw [if_pos (decide_eq_true negative)]; omega
  case neg => rw [if_neg (by simpa using negative)]; omega

/-- The `STAmount` that `ofIOU` gives a normalized amount: its magnitude and its sign. -/
abbrev ofIOUFields (amount : IOUAmount) (issue : Issue) : STAmount :=
  ⟨issue, amount.mantissa.natAbs, amount.exponent, false, decide (amount.mantissa < 0)⟩

theorem areComparable_ofIOUFields (x y : IOUAmount) (issue : Issue) :
    areComparable (ofIOUFields x issue) (ofIOUFields y issue) = true := by
  simp [areComparable, native]

/-- `operator+=` of `IOUAmount` is `operator+` of the converted amounts. -/
theorem add_ofIOU {x y : IOUAmount} (normalizedX : x.Normalized) {issue : Issue}
    (currencyIOU : issue.currency.isNative = false) :
    ((x.add y).bind (ofIOU · issue)).toOption =
      (plus (ofIOUFields x issue) (ofIOUFields y issue)).toOption := by
  unfold IOUAmount.add plus
  rw [areComparable_ofIOUFields]
  simp only [Bool.not_true, Bool.false_eq_true, if_false]
  by_cases zeroY : y.mantissa = 0
  case pos =>
    have : (ofIOUFields y issue).mantissa = 0 := by simp [zeroY]
    rw [if_pos zeroY, if_pos this]
    show (ofIOU x issue).toOption = _
    rw [ofIOU_of_normalized normalizedX currencyIOU]
  case neg =>
    have nonzeroY : (ofIOUFields y issue).mantissa ≠ 0 := by simp [zeroY]
    rw [if_neg zeroY, if_neg nonzeroY]
    by_cases zeroX : x.mantissa = 0
    case pos =>
      have : (ofIOUFields x issue).mantissa = 0 := by simp [zeroX]
      rw [if_pos zeroX, if_pos this]
      show (ofIOU y issue).toOption = _
      rw [ofIOU_eq]
    case neg =>
      have nonzeroX : (ofIOUFields x issue).mantissa ≠ 0 := by simp [zeroX]
      rw [if_neg zeroX, if_neg nonzeroX]
      simp only [native, Bool.false_eq_true, if_false, ofIOUFields, signed_natAbs]
      generalize alignExponent (y.exponent - x.exponent).toNat x.mantissa x.exponent y.exponent = first
      generalize alignExponent (first.2 - y.exponent).toNat y.mantissa y.exponent first.2 = second
      generalize first.1 + second.1 = sum
      by_cases nearZero : -10 ≤ sum ∧ sum ≤ 10
      case pos =>
        rw [if_pos nearZero, if_pos nearZero, canonicalize_zero currencyIOU rfl]
        show (ofIOU IOUAmount.zero issue).toOption = _
        rw [ofIOU_zero currencyIOU]
      case neg =>
        rw [if_neg nearZero, if_neg nearZero, normalize_ofIOU (by omega) first.2 currencyIOU]
        by_cases nonneg : 0 ≤ sum
        case pos =>
          have magnitude : sum.natAbs = sum.toNat := by omega
          rw [if_pos nonneg, magnitude, decide_eq_false (Int.not_lt.mpr nonneg)]
        case neg =>
          have magnitude : sum.natAbs = (-sum).toNat := by omega
          rw [if_neg nonneg, magnitude, decide_eq_true (Int.lt_of_not_ge nonneg)]

/-- `operator<` of `IOUAmount` compares signed mantissas where that of `STAmount`
compares magnitudes under the common sign. -/
theorem lt_ofIOU (x y : IOUAmount) (issue : Issue) :
    x.lt y = lt (ofIOUFields x issue) (ofIOUFields y issue) := by
  unfold IOUAmount.lt lt
  by_cases signs : decide (x.mantissa < 0) = decide (y.mantissa < 0)
  case neg =>
    have differ : (decide (x.mantissa < 0) != decide (y.mantissa < 0)) = true := by simpa using signs
    simp only [differ, if_true]
  case pos =>
    have same : (decide (x.mantissa < 0) != decide (y.mantissa < 0)) = false := by simpa using signs
    simp only [same, Bool.false_eq_true, if_false]
    simp only [decide_eq_decide] at signs
    by_cases zeroX : x.mantissa = 0
    case pos =>
      by_cases positive : 0 < y.mantissa
      case pos =>
        simp [zeroX, positive, show ¬y.mantissa < 0 by omega, show y.mantissa.natAbs ≠ 0 by omega]
      case neg => simp [zeroX, show y.mantissa = 0 by omega]
    case neg =>
      by_cases zeroY : y.mantissa = 0
      case pos => simp [zeroX, zeroY]
      case neg =>
        simp only [zeroX, zeroY, Int.natAbs_eq_zero, beq_iff_eq, if_false]
        split_ifs with later earlier larger smaller
        · rfl
        · rfl
        · by_cases negative : x.mantissa < 0
          · rw [decide_eq_true negative, decide_eq_true (by omega)]
          · rw [decide_eq_false negative, decide_eq_false (by omega)]
        · by_cases negative : x.mantissa < 0
          · rw [decide_eq_true negative, decide_eq_false (by omega)]
            rfl
          · rw [decide_eq_false negative, decide_eq_true (by omega)]
            rfl
        · rw [decide_eq_false (by omega)]

/-- `std::to_string` of a signed number is the sign and the digits of its magnitude. -/
theorem repr_eq_sign_append (mantissa : Int) :
    Int.repr mantissa = (if decide (mantissa < 0) then "-" else "") ++ Nat.repr mantissa.natAbs := by
  cases mantissa with
  | ofNat value =>
    have nonneg : ¬((value : Int) < 0) := by omega
    simp [Int.repr, nonneg]
  | negSucc value => simp [Int.repr, Int.negSucc_lt_zero]

/-- `to_string (IOUAmount)` is `getText` of the converted amount. -/
theorem toString_ofIOU (x : IOUAmount) (issue : Issue) :
    x.toString = getText (ofIOUFields x issue) := by
  unfold IOUAmount.toString getText
  simp only [Int.natAbs_eq_zero, Bool.false_eq_true, false_or]
  by_cases zero : x.mantissa = 0
  case pos => simp only [zero, if_true]
  case neg =>
    simp only [zero, if_false]
    by_cases scientific : x.exponent ≠ 0 ∧ (x.exponent < -25 ∨ x.exponent > -5)
    case pos => rw [if_pos scientific, if_pos scientific, if_pos scientific, repr_eq_sign_append, String.append_assoc]
    case neg => rw [if_neg scientific, if_neg scientific]

example : IOUAmount.toString ⟨-1234500000000000, -20⟩ = "-0.000012345" := by decide

/-- A normalized amount is its own normalization. -/
theorem normalize_of_normalized {amount : IOUAmount} (normalized : amount.Normalized) :
    IOUAmount.normalize amount = .ok amount := by
  rcases normalized with rfl | ⟨above, below, range⟩
  case inl => rfl
  case inr =>
    simp only [IOUAmount.minMantissa, IOUAmount.maxMantissa] at range
    have nonzero : amount.mantissa ≠ 0 := by omega
    have atLeast : cMinValue ≤ amount.mantissa.natAbs := by simp only [cMinValue]; omega
    have atMost : amount.mantissa.natAbs ≤ cMaxValue := by simp only [cMaxValue]; omega
    have magnitude : (if decide (amount.mantissa < 0) then -amount.mantissa else amount.mantissa) =
        (amount.mantissa.natAbs : Int) := by
      by_cases negative : amount.mantissa < 0
      case pos => rw [if_pos (decide_eq_true negative)]; omega
      case neg => rw [if_neg (by simpa using negative)]; omega
    unfold IOUAmount.normalize
    simp only [nonzero, if_false]
    rw [magnitude, IOUAmount.raiseMantissa_natCast, raiseMantissa_of_le atLeast, Int.toNat_natCast,
      IOUAmount.lowerMantissa_natCast, lowerMantissa_of_le atMost]
    simp only [Except.map, Except.mapError]
    rw [if_neg (by simp only [IOUAmount.minExponent, IOUAmount.minMantissa] at above ⊢; omega),
      if_neg (Int.not_lt.mpr below), signed_natAbs]

theorem normalized_of_iouCanonical {amount : STAmount} (canonical : amount.IOUCanonical) :
    IOUAmount.Normalized
      ⟨if amount.isNegative then -(amount.mantissa : Int) else amount.mantissa, amount.exponent⟩ := by
  obtain ⟨-, -, ⟨zero, exponent, positive⟩ | ⟨atLeast, atMost, above, below⟩⟩ := canonical
  case inl =>
    left
    simp [zero, exponent, positive, IOUAmount.zero]
  case inr =>
    right
    simp only [cMinValue, cMaxValue] at atLeast atMost
    refine ⟨above, below, ?_⟩
    simp only [IOUAmount.minMantissa, IOUAmount.maxMantissa]
    cases amount.isNegative
    case false => simp only [Bool.false_eq_true, if_false]; omega
    case true => simp only [if_true]; omega

/-- `STAmount::iou` of a canonical IOU amount is normalized and converts back to the
amount. -/
theorem ofIOU_iou {amount : STAmount} (canonical : amount.IOUCanonical) :
    ∃ x, amount.iou = .ok x ∧ x.Normalized ∧ ofIOU x amount.issue = .ok amount := by
  have normalized := normalized_of_iouCanonical canonical
  refine ⟨_, ?_, normalized, ?_⟩
  · rw [iou, if_neg (by rw [canonical.1]; decide), normalize_of_normalized normalized]
  · rw [ofIOU_of_normalized normalized canonical.2.1]
    obtain ⟨issue, mantissa, exponent, isNative, isNegative⟩ := amount
    obtain ⟨native, -, shape⟩ := canonical
    simp only at native shape ⊢
    subst native
    cases isNegative
    case false =>
      have nonneg : ¬((mantissa : Int) < 0) := by omega
      simp [nonneg]
    case true =>
      have positive : 0 < mantissa := by
        rcases shape with ⟨-, -, wrong⟩ | ⟨atLeast, -⟩
        · cases wrong
        · exact Nat.lt_of_lt_of_le (by decide) atLeast
      simp [positive]

/-- `IOUAmount` refines `STAmount` on non-native amounts: a canonical IOU amount converts
to a normalized `IOUAmount` and back, and on normalized amounts of a non-native issue the
sum, the order and the text of `IOUAmount` are those of the converted amounts, the sums
throwing together. -/
theorem iou_amount_refines_stamount :
    (∀ a : STAmount, a.IOUCanonical →
      ∃ x, a.iou = .ok x ∧ x.Normalized ∧ ofIOU x a.issue = .ok a) ∧
    ∀ x y : IOUAmount, x.Normalized → y.Normalized →
      ∀ issue : Issue, issue.currency.isNative = false →
        ∃ a b, ofIOU x issue = .ok a ∧ ofIOU y issue = .ok b ∧
          ((x.add y).bind (ofIOU · issue)).toOption = (a.plus b).toOption ∧
          x.lt y = lt a b ∧ x.toString = a.getText :=
  ⟨fun _ canonical => ofIOU_iou canonical,
   fun x y normalizedX normalizedY issue currencyIOU =>
     ⟨_, _, ofIOU_of_normalized normalizedX currencyIOU, ofIOU_of_normalized normalizedY currencyIOU,
      add_ofIOU normalizedX currencyIOU, lt_ofIOU x y issue, toString_ofIOU x issue⟩⟩

/-- `1.5 + (-0.25)` of an IOU is the same in both representations. -/
theorem iou_sum_refines :
    IOUAmount.Normalized ⟨1500000000000000, -15⟩ ∧ IOUAmount.Normalized ⟨-2500000000000000, -16⟩ ∧
      (⟨Currency.ofNat 0x555344, AccountID.ofNat 7⟩ : Issue).currency.isNative = false ∧
      ∃ a b, ofIOU ⟨1500000000000000, -15⟩ ⟨Currency.ofNat 0x555344, AccountID.ofNat 7⟩ = .ok a ∧
        ofIOU ⟨-2500000000000000, -16⟩ ⟨Currency.ofNat 0x555344, AccountID.ofNat 7⟩ = .ok b ∧
        ((IOUAmount.add ⟨1500000000000000, -15⟩ ⟨-2500000000000000, -16⟩).bind
            (ofIOU · ⟨Currency.ofNat 0x555344, AccountID.ofNat 7⟩)).toOption = (a.plus b).toOption ∧
        IOUAmount.lt ⟨1500000000000000, -15⟩ ⟨-2500000000000000, -16⟩ = lt a b ∧
        IOUAmount.toString ⟨1500000000000000, -15⟩ = a.getText :=
  ⟨by decide, by decide, by decide,
    iou_amount_refines_stamount.2 _ _ (by decide) (by decide) _ (by decide)⟩

end STAmount

end RadardFormal.Protocol
