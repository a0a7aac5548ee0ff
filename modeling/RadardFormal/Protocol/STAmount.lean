import RadardFormal.Protocol.Basics

/-!
# Serialized amounts

`STAmount` as `STAmount.h` stores it: an issue, a 64-bit mantissa, a decimal
exponent and the native and sign flags.  A native amount (VRP or VBC) has exponent
zero and its mantissa counts drops.  This module holds the representation, the
native constructors and `xrp ()`, and the comparison operators of `STAmount.cpp`.
-/

namespace RadardFormal.Protocol

/-- `xrpAccount ()`. -/
def xrpAccount : AccountID := AccountID.ofNat 0

/-- `vbcAccount ()`: `AccountID (0xFF)`. -/
def vbcAccount : AccountID := AccountID.ofNat 0xFF

/-- `noAccount ()`. -/
def noAccount : AccountID := AccountID.ofNat 1

/-- `xrpIssue ()`. -/
def xrpIssue : Issue := ⟨Currency.xrpCurrency, xrpAccount⟩

/-- `vbcIssue ()`. -/
def vbcIssue : Issue := ⟨Currency.vbcCurrency, vbcAccount⟩

/-- `noIssue ()`. -/
def noIssue : Issue := ⟨Currency.noCurrency, noAccount⟩

/-- An amount: `mIssue`, `mValue`, `mOffset`, `mIsNative`, `mIsNegative`. -/
structure STAmount where
  issue : Issue
  mantissa : Nat
  exponent : Int
  isNative : Bool
  isNegative : Bool
  deriving DecidableEq, Repr

namespace STAmount

/-- `STAmount (SField const&, bool isVBC, std::int64_t mantissa)`: a native amount of
the given signed number of drops. -/
def ofDrops (isVBC : Bool) (drops : Int) : STAmount where
  issue := if isVBC then vbcIssue else xrpIssue
  mantissa := drops.natAbs
  exponent := 0
  isNative := true
  isNegative := decide (drops < 0)

/-- `STAmount (SField const&, bool isVBC, std::uint64_t mantissa, bool negative)`: a native
amount of the given unsigned number of drops and sign, not canonicalized. -/
def ofUnsignedDrops (isVBC : Bool) (mantissa : Nat) (negative : Bool) : STAmount where
  issue := if isVBC then vbcIssue else xrpIssue
  mantissa := mantissa
  exponent := 0
  isNative := true
  isNegative := negative

/-- `STAmount (XRPAmount const&)`: a VRP amount. -/
def ofXRPAmount (drops : Int) : STAmount := ofDrops false drops

/-- The zero amount of an issue (`STAmount (Issue const&)`), canonical: a native zero
has exponent `0`, any other zero exponent `-100`. -/
def zeroOf (issue : Issue) : STAmount where
  issue := issue
  mantissa := 0
  exponent := if issue.currency.isNative then 0 else -100
  isNative := issue.currency.isNative
  isNegative := false

/-- Unary `operator-`: a zero stays as it is. -/
def negate (amount : STAmount) : STAmount :=
  if amount.mantissa == 0 then amount else { amount with isNegative := !amount.isNegative }

/-- `setIssuer`. -/
def setIssuer (amount : STAmount) (issuer : AccountID) : STAmount :=
  { amount with issue := { amount.issue with account := issuer } }

/-- `native ()`. -/
def native (amount : STAmount) : Bool := amount.isNative

/-- `isVBC (STAmount const&)`. -/
def isVBC (amount : STAmount) : Bool := amount.issue.currency.isVBC

/-- `xrp ()` of a native amount: the signed number of drops.  (The source throws on a
non-native amount; every modelled caller has checked nativeness first.) -/
def xrp (amount : STAmount) : Int :=
  if amount.isNegative then -(amount.mantissa : Int) else amount.mantissa

/-- `STAmount::cMaxNativeN`: the largest native mantissa, 10^17. -/
def cMaxNativeN : Nat := 100000000000000000

/-- `isLegalNet`: a native amount is at most `cMaxNativeN`. -/
def isLegalNet (amount : STAmount) : Bool := !amount.native || amount.mantissa ≤ cMaxNativeN

/-- `areComparable`: two natives, or two amounts of one non-native currency. -/
def areComparable (lhs rhs : STAmount) : Bool :=
  if rhs.native then lhs.native
  else lhs.native == rhs.native && lhs.issue.currency == rhs.issue.currency

/-- `operator==`. -/
def eq (lhs rhs : STAmount) : Bool :=
  areComparable lhs rhs && lhs.isNegative == rhs.isNegative &&
    lhs.exponent == rhs.exponent && lhs.mantissa == rhs.mantissa

/-- `operator<` on comparable amounts (the source throws on others). -/
def lt (lhs rhs : STAmount) : Bool :=
  if lhs.isNegative != rhs.isNegative then lhs.isNegative
  else if lhs.mantissa == 0 then
    if rhs.isNegative then false else rhs.mantissa != 0
  else if rhs.mantissa == 0 then false
  else if lhs.exponent > rhs.exponent then lhs.isNegative
  else if lhs.exponent < rhs.exponent then !lhs.isNegative
  else if lhs.mantissa > rhs.mantissa then lhs.isNegative
  else if lhs.mantissa < rhs.mantissa then !lhs.isNegative
  else false

/-- `cMinValue` and `cMaxValue`: the range of a non-zero IOU mantissa. -/
def cMinValue : Nat := 1000000000000000
def cMaxValue : Nat := 9999999999999999

/-- `cMinOffset` and `cMaxOffset`: the range of a non-zero IOU exponent. -/
def cMinOffset : Int := -96
def cMaxOffset : Int := 80

/-- The loop of `canonicalize` that brings a negative native offset up to zero: the
mantissa is divided by ten once per step. -/
def divideTens : Nat → Nat → Nat
  | 0, value => value
  | count + 1, value => divideTens count (value / 10)

/-- The loop that brings a positive native offset down to zero: the 64-bit mantissa is
multiplied by ten once per step. -/
def multiplyTens : Nat → Nat → Nat
  | 0, value => value
  | count + 1, value => multiplyTens count (value * 10 % 2 ^ 64)

/-- The first loop of `canonicalize` on an IOU: while the mantissa is below `cMinValue`
and the offset above `cMinOffset`, multiply by ten and lower the offset.  The offset
reaches `cMinOffset` within `fuel` steps when `fuel` is its distance from it, so the fuel
never stops the loop before its own test does. -/
def raiseMantissa : Nat → Nat → Int → Nat × Int
  | 0, value, offset => (value, offset)
  | fuel + 1, value, offset =>
    if value < cMinValue ∧ cMinOffset < offset then raiseMantissa fuel (value * 10) (offset - 1)
    else (value, offset)

/-- The second loop: while the mantissa is above `cMaxValue`, throw "value overflow" if
the offset has reached `cMaxOffset`, else divide by ten and raise the offset.  Each step
lowers the mantissa, so the mantissa itself is enough fuel. -/
def lowerMantissa : Nat → Nat → Int → Except String (Nat × Int)
  | 0, value, offset => .ok (value, offset)
  | fuel + 1, value, offset =>
    if cMaxValue < value then
      if cMaxOffset ≤ offset then .error "value overflow"
      else lowerMantissa fuel (value / 10) (offset + 1)
    else .ok (value, offset)

/-- `STAmount::canonicalize`: a native amount gets offset zero and at most `cMaxNativeN`
drops; a non-native one a mantissa in `[cMinValue, cMaxValue]` and an offset in
`[cMinOffset, cMaxOffset]`, or the canonical zero with offset `-100`.  It throws on a value
too large for the range. -/
def canonicalize (amount : STAmount) : Except String STAmount :=
  if amount.issue.currency.isNative then
    if amount.mantissa = 0 then
      .ok { amount with isNative := true, exponent := 0, isNegative := false }
    else
      let value := if amount.exponent < 0 then divideTens (-amount.exponent).toNat amount.mantissa
        else multiplyTens amount.exponent.toNat amount.mantissa
      if cMaxNativeN < value then .error "Native currency amount out of range"
      else .ok { amount with isNative := true, mantissa := value, exponent := 0 }
  else if amount.mantissa = 0 then
    .ok { amount with isNative := false, exponent := -100, isNegative := false }
  else
    let (value, offset) :=
      raiseMantissa (amount.exponent - cMinOffset).toNat amount.mantissa amount.exponent
    match lowerMantissa value value offset with
    | .error message => .error message
    | .ok (value, offset) =>
      if offset < cMinOffset ∨ value < cMinValue then
        .ok { amount with isNative := false, mantissa := 0, exponent := -100, isNegative := false }
      else if cMaxOffset < offset then .error "value overflow"
      else .ok { amount with isNative := false, mantissa := value, exponent := offset }

theorem raiseMantissa_of_le {value : Nat} (atLeast : cMinValue ≤ value) (fuel : Nat) (offset : Int) :
    raiseMantissa fuel value offset = (value, offset) := by
  cases fuel with
  | zero => rfl
  | succ fuel => simp [raiseMantissa, Nat.not_lt.mpr atLeast]

theorem lowerMantissa_of_le {value : Nat} (atMost : value ≤ cMaxValue) (fuel : Nat) (offset : Int) :
    lowerMantissa fuel value offset = .ok (value, offset) := by
  cases fuel with
  | zero => rfl
  | succ fuel => simp [lowerMantissa, Nat.not_lt.mpr atMost]

/-- `canonicalize` keeps a non-native amount whose mantissa and offset are in range. -/
theorem canonicalize_of_inRange {amount : STAmount} (notNative : amount.issue.currency.isNative = false)
    (atLeast : cMinValue ≤ amount.mantissa) (atMost : amount.mantissa ≤ cMaxValue)
    (above : cMinOffset ≤ amount.exponent) (below : amount.exponent ≤ cMaxOffset) :
    canonicalize amount = .ok { amount with isNative := false } := by
  have nonzero : amount.mantissa ≠ 0 := by
    have : 0 < cMinValue := by decide
    omega
  simp only [canonicalize, notNative, Bool.false_eq_true, if_false, nonzero, raiseMantissa_of_le atLeast,
    lowerMantissa_of_le atMost, Nat.not_lt.mpr atLeast, Int.not_lt.mpr above, Int.not_lt.mpr below,
    or_false, if_false]

/-- `canonicalize` makes a non-native zero the canonical zero. -/
theorem canonicalize_zero {amount : STAmount} (notNative : amount.issue.currency.isNative = false)
    (zero : amount.mantissa = 0) :
    canonicalize amount = .ok { amount with isNative := false, exponent := -100, isNegative := false } := by
  simp [canonicalize, notNative, zero]

/-- `canonicalize` changes the mantissa, the offset and the flags, never the issue. -/
theorem canonicalize_issue {amount result : STAmount} (ok : canonicalize amount = .ok result) :
    result.issue = amount.issue := by
  unfold canonicalize at ok
  dsimp only at ok
  -- Every branch fails or returns the amount with its other fields changed.
  repeat' split at ok
  all_goals cases ok <;> rfl

@[simp] theorem negate_negate (amount : STAmount) : amount.negate.negate = amount := by
  unfold negate
  by_cases zero : amount.mantissa = 0 <;> simp [zero]

theorem xrp_ofDrops (isVBC : Bool) (drops : Int) : (ofDrops isVBC drops).xrp = drops := by
  unfold xrp ofDrops
  by_cases negative : drops < 0
  · rw [if_pos (decide_eq_true negative), Int.ofNat_natAbs_of_nonpos (le_of_lt negative), Int.neg_neg]
  · rw [if_neg (by simpa using negative)]
    exact Int.natAbs_of_nonneg (not_lt.mp negative)

theorem native_ofDrops (isVBC : Bool) (drops : Int) : (ofDrops isVBC drops).native = true := rfl

end STAmount

end RadardFormal.Protocol
