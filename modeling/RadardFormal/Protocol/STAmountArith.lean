import Mathlib.Algebra.Order.Field.Rat
import Mathlib.Tactic.NormNum
import RadardFormal.Protocol.STAmountWire

/-!
# Arithmetic and text of amounts

`operator+ (STAmount, STAmount)`, `multiply`, `divide`, their rounding variants
`mulRound` and `divRound`, the rates of `amountFromRate` and `getRate`, and
`STAmount::getText`, all of `STAmount.cpp`.  The sum of
two IOU amounts brings both signed mantissas to the larger exponent, dividing the one
with the smaller exponent by ten (truncating, as `std::int64_t` division does) once per
step, adds them, snaps a result within ten units of zero to zero and canonicalizes the
rest.  `IOUAmount` repeats both algorithms, and shares the two loops defined here.

A product or quotient of two mantissas is computed exactly (the source uses a
`CBigNum`), read back with `getuint64`, and canonicalized with the offset the scaling
gives; `mulRound` and `divRound` first add what makes the truncating division round the
other way and then round once more in `canonicalizeRound`.
-/

namespace RadardFormal.Protocol

/-- The loop `while (exponent < target) { mantissa /= 10; ++exponent; }` on a signed
mantissa.  The exponent reaches the target within `fuel` steps when `fuel` is their
distance. -/
def alignExponent : Nat → Int → Int → Int → Int × Int
  | 0, mantissa, exponent, _ => (mantissa, exponent)
  | fuel + 1, mantissa, exponent, target =>
    if exponent < target then alignExponent fuel (mantissa.tdiv 10) (exponent + 1) target
    else (mantissa, exponent)

theorem alignExponent_of_le {exponent target : Int} (reached : target ≤ exponent) (fuel : Nat)
    (mantissa : Int) : alignExponent fuel mantissa exponent target = (mantissa, exponent) := by
  cases fuel with
  | zero => rfl
  | succ fuel => simp [alignExponent, Int.not_lt.mpr reached]

/-- The exponent `alignExponent` stops at is the larger of the two. -/
theorem alignExponent_snd (fuel : Nat) (mantissa : Int) {exponent target : Int}
    (distance : target - exponent ≤ fuel) :
    (alignExponent fuel mantissa exponent target).2 = max exponent target := by
  induction fuel generalizing mantissa exponent with
  | zero => simp [alignExponent]; omega
  | succ fuel ih =>
    unfold alignExponent
    split
    case isTrue below =>
      rw [ih (mantissa.tdiv 10) (by omega)]
      omega
    case isFalse above => simp; omega

/-- The plain notation `getText` and `to_string` share: the digits padded with 27 zeros
in front and 23 behind, cut before position `offset + 43`, the zeros in front of the cut
cropped to a single `0` and those behind it cropped away with the point. -/
def plainText (negative : Bool) (rawValue : List Char) (offset : Int) : String :=
  let val := List.replicate 27 '0' ++ rawValue ++ List.replicate 23 '0'
  let point := (offset + 43).toNat
  let preFrom := if point > 27 then 27 else 0
  let preFrom := preFrom + (((val.take point).drop preFrom).takeWhile (· == '0')).length
  let postTo := if val.length - point > 23 then val.length - 23 else val.length
  let postTo := postTo - ((((val.take postTo).drop point).reverse).takeWhile (· == '0')).length
  String.ofList ((if negative then ['-'] else []) ++
    (if preFrom = point then ['0'] else (val.take point).drop preFrom) ++
    (if postTo ≠ point then '.' :: (val.take postTo).drop point else []))

namespace STAmount

/-- `operator+ (STAmount, STAmount)`. -/
def plus (v1 v2 : STAmount) : Except String STAmount :=
  if !areComparable v1 v2 then .error "Can't add amounts that are't comparable!"
  else if v2.mantissa = 0 then .ok v1
  else if v1.mantissa = 0 then canonicalize ⟨v1.issue, v2.mantissa, v2.exponent, false, v2.isNegative⟩
  else if v1.native then .ok (ofDrops v1.isVBC (v1.xrp + v2.xrp))
  else
    let vv1 : Int := if v1.isNegative then -(v1.mantissa : Int) else v1.mantissa
    let vv2 : Int := if v2.isNegative then -(v2.mantissa : Int) else v2.mantissa
    let (vv1, ov1) := alignExponent (v2.exponent - v1.exponent).toNat vv1 v1.exponent v2.exponent
    let (vv2, _) := alignExponent (ov1 - v2.exponent).toNat vv2 v2.exponent ov1
    let fv := vv1 + vv2
    if -10 ≤ fv ∧ fv ≤ 10 then canonicalize ⟨v1.issue, 0, 0, false, false⟩
    else if 0 ≤ fv then canonicalize ⟨v1.issue, fv.toNat, ov1, false, false⟩
    else canonicalize ⟨v1.issue, (-fv).toNat, ov1, false, true⟩

/-- The sum of an IOU amount and another has the first one's issue. -/
theorem plus_issue {v1 v2 r : STAmount} (iou : v1.native = false) (ok : plus v1 v2 = .ok r) :
    r.issue = v1.issue := by
  unfold plus at ok
  dsimp only at ok
  -- The native sum is excluded; every other branch returns `v1` or canonicalizes with its issue.
  repeat' split at ok
  all_goals first | rw [canonicalize_issue ok] | (cases ok <;> rfl) | simp_all [native]

/-- `STAmount::getText`: `0`, or the digits in scientific notation for a native amount or
an offset outside `[-25, -5]`, or else in plain notation. -/
def getText (amount : STAmount) : String :=
  if amount.mantissa = 0 then "0"
  else
    let rawValue := Nat.repr amount.mantissa
    let scientific := amount.exponent ≠ 0 ∧ (amount.exponent < -25 ∨ amount.exponent > -5)
    if amount.isNative ∨ scientific then
      (if amount.isNegative then "-" else "") ++ rawValue ++
        (if scientific then "e" ++ Int.repr amount.exponent else "")
    else plainText amount.isNegative rawValue.toList amount.exponent

/-- `STAmount (Issue const&)`: the zero of an issue. -/
def ofIssue (issue : Issue) : Except String STAmount := canonicalize ⟨issue, 0, 0, false, false⟩

/-- The loop of `multiply` and `divide` that brings a native mantissa up to `cMinValue`:
`while (value < cMinValue) { value *= 10; --offset; }`.  A non-zero mantissa gets there
within sixteen steps. -/
def raiseNative : Nat → Nat → Int → Nat × Int
  | 0, value, offset => (value, offset)
  | fuel + 1, value, offset =>
    if value < cMinValue then raiseNative fuel (value * 10) (offset - 1) else (value, offset)

/-- The mantissa and offset `multiply` and `divide` compute with: a native one raised to
at least `cMinValue`. -/
def scaledMantissa (amount : STAmount) : Nat × Int :=
  if amount.native then raiseNative 16 amount.mantissa amount.exponent
  else (amount.mantissa, amount.exponent)

/-- `CBigNum::getuint64` on a 64-bit platform, `BN_get_word`: all ones for a value that
does not fit. -/
def getuint64 (value : Nat) : Nat := if value < 2 ^ 64 then value else 2 ^ 64 - 1

/-- The native branch of `multiply` and `mulRound`: the product of the drops, refused
when it could pass `cMaxNative`.  The product is a `std::uint64_t`, so the unsigned
constructor takes it as it is, wrapped to 64 bits. -/
def nativeProduct (v1 v2 : STAmount) : Except String STAmount :=
  let minV := if v1.xrp < v2.xrp then toUInt64 v1.xrp else toUInt64 v2.xrp
  let maxV := if v1.xrp < v2.xrp then toUInt64 v2.xrp else toUInt64 v1.xrp
  if minV > 3000000000 then .error "Native value overflow"
  else if (maxV >>> 32) * minV > 2095475792 then .error "Native value overflow"
  else .ok (ofUnsignedDrops v1.isVBC (minV * maxV % 2 ^ 64) false)

/-- `multiply (STAmount, STAmount, Issue)`. -/
def multiply (v1 v2 : STAmount) (issue : Issue) : Except String STAmount :=
  if v1.mantissa = 0 ∨ v2.mantissa = 0 then ofIssue issue
  else if v1.native ∧ v2.native ∧ issue.currency.isNative then nativeProduct v1 v2
  else
    let (value1, offset1) := scaledMantissa v1
    let (value2, offset2) := scaledMantissa v2
    canonicalize ⟨issue, (getuint64 (value1 * value2 / 10 ^ 14) + 7) % 2 ^ 64,
      offset1 + offset2 + 14, false, v1.isNegative != v2.isNegative⟩

/-- `divide (STAmount, STAmount, Issue)`. -/
def divide (num den : STAmount) (issue : Issue) : Except String STAmount :=
  if den.mantissa = 0 then .error "division by zero"
  else if num.mantissa = 0 then ofIssue issue
  else
    let (numVal, numOffset) := scaledMantissa num
    let (denVal, denOffset) := scaledMantissa den
    canonicalize ⟨issue, (getuint64 (numVal * 10 ^ 17 / denVal) + 5) % 2 ^ 64,
      numOffset - denOffset - 17, false, num.isNegative != den.isNegative⟩

/-- The loop of `canonicalizeRound` on an IOU: `while (value > 10 * cMaxValue) { value
/= 10; ++offset; }`.  Each step lowers the value, so the value is enough fuel. -/
def lowerToTenfold : Nat → Nat → Int → Nat × Int
  | 0, value, offset => (value, offset)
  | fuel + 1, value, offset =>
    if value > 10 * cMaxValue then lowerToTenfold fuel (value / 10) (offset + 1)
    else (value, offset)

/-- `canonicalizeRound`: round a value up to what `canonicalize`, which truncates, will
keep.  A native value is brought to offset `-1` and then rounded up by its last digit;
an IOU value above `cMaxValue` is brought below `10 * cMaxValue` and rounded up. -/
def canonicalizeRound (native : Bool) (value : Nat) (offset : Int) (roundUp : Bool) :
    Nat × Int :=
  if !roundUp then (value, offset)
  else if native then
    if offset < 0 then
      let loops := (-1 - offset).toNat
      ((divideTens loops value + (if loops ≥ 2 then 9 else 10)) / 10, offset + loops + 1)
    else (value, offset)
  else if value > cMaxValue then
    let (value, offset) := lowerToTenfold value value offset
    ((value + 9) / 10, offset + 1)
  else (value, offset)

/-- The end of `mulRound` and `divRound`: with `enableUnderflowFix`, an amount rounded up
that came out zero becomes the smallest positive amount. -/
def underflowFix (issue : Issue) (roundUp resultNegative enableUnderflowFix : Bool)
    (result : STAmount) : Except String STAmount :=
  if enableUnderflowFix && roundUp && !resultNegative && result.mantissa == 0 then
    canonicalize ⟨issue, cMinValue, cMinOffset, false, resultNegative⟩
  else .ok result

/-- `mulRound`: `multiply` rounded up or down in magnitude as `roundUp` asks; the
switchover is `STAmountCalcSwitchovers::enableUnderflowFix`. -/
def mulRound (v1 v2 : STAmount) (issue : Issue) (roundUp enableUnderflowFix : Bool) :
    Except String STAmount :=
  if v1.mantissa = 0 ∨ v2.mantissa = 0 then ofIssue issue
  else if v1.native ∧ v2.native ∧ issue.currency.isNative then nativeProduct v1 v2
  else
    let (value1, offset1) := scaledMantissa v1
    let (value2, offset2) := scaledMantissa v2
    let resultNegative := v1.isNegative != v2.isNegative
    let product := value1 * value2 + (if resultNegative != roundUp then 10 ^ 14 - 1 else 0)
    let (amount, offset) := canonicalizeRound issue.currency.isNative
      (getuint64 (product / 10 ^ 14)) (offset1 + offset2 + 14) (resultNegative != roundUp)
    match canonicalize ⟨issue, amount, offset, false, resultNegative⟩ with
    | .error message => .error message
    | .ok result => underflowFix issue roundUp resultNegative enableUnderflowFix result

/-- `divRound`: `divide` rounded up or down in magnitude as `roundUp` asks. -/
def divRound (num den : STAmount) (issue : Issue) (roundUp enableUnderflowFix : Bool) :
    Except String STAmount :=
  if den.mantissa = 0 then .error "division by zero"
  else if num.mantissa = 0 then ofIssue issue
  else
    let (numVal, numOffset) := scaledMantissa num
    let (denVal, denOffset) := scaledMantissa den
    let resultNegative := num.isNegative != den.isNegative
    let quotient := numVal * 10 ^ 17 + (if resultNegative != roundUp then denVal - 1 else 0)
    let (amount, offset) := canonicalizeRound issue.currency.isNative
      (getuint64 (quotient / denVal)) (numOffset - denOffset - 17) (resultNegative != roundUp)
    match canonicalize ⟨issue, amount, offset, false, resultNegative⟩ with
    | .error message => .error message
    | .ok result => underflowFix issue roundUp resultNegative enableUnderflowFix result

/-- The number an amount stands for: its signed mantissa times ten to its exponent. -/
def toRat (amount : STAmount) : ℚ :=
  (if amount.isNegative then -1 else 1) * amount.mantissa * 10 ^ amount.exponent

/-- An issue of `USD` by account 5. -/
def usdIssue : Issue := ⟨Currency.ofNat 0x555344, AccountID.ofNat 5⟩

/-- A canonical positive amount of `usdIssue`. -/
def usd (mantissa : Nat) (exponent : Int) : STAmount := ⟨usdIssue, mantissa, exponent, false, false⟩

/-- `mulRound` asked to round up can return less than the exact product, both into drops
(the native branch of `canonicalizeRound` drops the digit 1 in its second division and then
adds only 9) and into an IOU (its IOU branch drops the digit 2 in its loop and then adds
9).  The inputs are canonical, and the switchover does not matter. -/
theorem mulRound_roundUp_below_product :
    canonicalize (usd 1000000000000001 (-15)) = .ok (usd 1000000000000001 (-15)) ∧
    canonicalize (usd 1000000000000000 (-2)) = .ok (usd 1000000000000000 (-2)) ∧
    canonicalize (usd 4511087814456242 (-15)) = .ok (usd 4511087814456242 (-15)) ∧
    canonicalize (usd 7688073668904761 (-15)) = .ok (usd 7688073668904761 (-15)) ∧
    ∀ enableUnderflowFix,
      (∃ result, mulRound (usd 1000000000000001 (-15)) (usd 1000000000000000 (-2)) xrpIssue true
          enableUnderflowFix = .ok result ∧
        result.toRat < (usd 1000000000000001 (-15)).toRat * (usd 1000000000000000 (-2)).toRat) ∧
      (∃ result, mulRound (usd 4511087814456242 (-15)) (usd 7688073668904761 (-15)) usdIssue true
          enableUnderflowFix = .ok result ∧
        result.toRat < (usd 4511087814456242 (-15)).toRat * (usd 7688073668904761 (-15)).toRat) := by
  refine ⟨by decide, by decide, by decide, by decide, fun enableUnderflowFix => ⟨?_, ?_⟩⟩
  · refine ⟨ofDrops false 10000000000000, by cases enableUnderflowFix <;> decide, ?_⟩
    norm_num [toRat, ofDrops, usd]
  · refine ⟨usd 3468157544443816 (-14), by cases enableUnderflowFix <;> decide, ?_⟩
    norm_num [toRat, usd]

/-- `amountFromRate`: a rate of `QUALITY_ONE` parts per unit, as an amount of no issue. -/
def amountFromRate (rate : Nat) : Except String STAmount :=
  canonicalize ⟨noIssue, rate, -9, false, false⟩

/-- `getRate`: the quality `offerIn / offerOut` packed as eight bits of offset biased by
100 over 56 bits of mantissa; zero for a worthless offer or one whose division throws. -/
def getRate (offerOut offerIn : STAmount) : Nat :=
  if offerOut.mantissa = 0 then 0
  else match divide offerIn offerOut noIssue with
    | .error _ => 0
    | .ok r =>
      if r.mantissa = 0 then 0
      else ((r.exponent + 100).toNat <<< (64 - 8) ||| r.mantissa) % 2 ^ 64

end STAmount

end RadardFormal.Protocol
