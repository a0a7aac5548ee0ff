import RadardFormal.Protocol.STAmount
import RadardFormal.Protocol.Serializer
import RadardFormal.Support.Bits

/-!
# The wire format of an amount

`STAmount::add` writes an amount as one 64-bit word, followed for a non-native amount by
its currency and issuer.  The word of a native amount holds the drops in its low 61 bits,
with `cPosNative` set for a non-negative amount and `cVBCNative`, which radard adds, for
VBC.  The word of a non-native amount holds the mantissa in its low 54 bits and, in the
ten bits above, `cNotNative`, a sign bit and the offset biased by 97; the zero amount is
`cNotNative` alone.  `STAmount (SerialIter&, SField const&)` reads the word back and
checks each layout.
-/

namespace RadardFormal.Protocol

open RadardFormal.Support

/-- `isNative (AccountID)`: the issuer of VRP or of VBC. -/
def isNativeAccount (account : AccountID) : Bool := account == xrpAccount || account == vbcAccount

namespace STAmount

/-- `cNotNative`: bit 63. -/
def cNotNative : Nat := 0x8000000000000000

/-- `cPosNative`: bit 62. -/
def cPosNative : Nat := 0x4000000000000000

/-- `cVBCNative`: bit 61. -/
def cVBCNative : Nat := 0x2000000000000000

/-- `static_cast<std::uint64_t>` of a signed value. -/
def toUInt64 (value : Int) : Nat := (value % 2 ^ 64).toNat

/-- `STAmount::add`. -/
def add (amount : STAmount) (s : Serializer) : Serializer :=
  if amount.isNative then
    Serializer.add64 s
      (if !amount.isNegative then
        if amount.isVBC then amount.mantissa ||| cVBCNative ||| cPosNative
        else amount.mantissa ||| cPosNative
      else if amount.isVBC then amount.mantissa ||| cVBCNative
      else amount.mantissa)
  else
    let word :=
      if amount.mantissa = 0 then cNotNative
      else if amount.isNegative then
        amount.mantissa ||| toUInt64 (amount.exponent + 512 + 97) <<< (64 - 10) % 2 ^ 64
      else amount.mantissa ||| toUInt64 (amount.exponent + 512 + 256 + 97) <<< (64 - 10) % 2 ^ 64
    Serializer.add160Account
      (Serializer.add160Currency (Serializer.add64 s word) amount.issue.currency)
      amount.issue.account

/-- The native branch of `STAmount (SerialIter&, SField const&)`, from the word read: the
VBC bit selects the issue (the default issue is VRP's) and is cleared, then the sign bit
decides between a positive amount and a negative one, which may not be zero. -/
def nativeOfWord (value : Nat) : Except String STAmount :=
  let (issue, value) :=
    if value &&& cVBCNative ≠ 0 then (vbcIssue, value &&& Bits.complement 64 cVBCNative)
    else (xrpIssue, value)
  if value &&& cPosNative ≠ 0 then
    .ok ⟨issue, value &&& Bits.complement 64 cPosNative, 0, true, false⟩
  else if value = 0 then .error "negative zero is not canonical"
  else .ok ⟨issue, value, 0, true, true⟩

/-- The non-native branch once the issue is read: a non-zero mantissa needs a mantissa
and an offset in range, and a zero one the ten top bits `512` exactly; either is then
canonicalized. -/
def iouOfWord (value : Nat) (issue : Issue) : Except String STAmount :=
  let offset := value >>> (64 - 10)
  let value := value &&& Bits.complement 64 (1023 <<< (64 - 10))
  if value ≠ 0 then
    let isNegative := offset &&& 256 = 0
    let offset : Int := ((offset &&& 255 : Nat) : Int) - 97
    if value < cMinValue ∨ cMaxValue < value ∨ offset < cMinOffset ∨ cMaxOffset < offset then
      .error "invalid currency value"
    else canonicalize ⟨issue, value, offset, false, isNegative⟩
  else if offset ≠ 512 then .error "invalid currency value"
  else canonicalize ⟨issue, 0, 0, false, false⟩

/-- `STAmount (SerialIter&, SField const&)`. -/
def fromSerialIter : SerialRead STAmount := do
  let value ← SerialIter.get64
  if value &&& cNotNative = 0 then StateT.lift (nativeOfWord value)
  else
    let currency ← SerialIter.get160Currency
    if currency.isNative then throw "invalid native currency"
    else
      let account ← SerialIter.get160Account
      if isNativeAccount account then throw "invalid native account"
      else StateT.lift (iouOfWord value ⟨currency, account⟩)

/-! ## Reading a word back -/

/-- The issue of a native word's two flag bits: VBC when the low one is set. -/
def flagIssue (flags : Nat) : Issue := if flags % 2 = 1 then vbcIssue else xrpIssue

section native

variable {m : Nat} (small : m < 2 ^ 61) (flags : Nat)
include small

theorem vbcBit_eq : (flags <<< 61 ||| m) &&& cVBCNative = (flags &&& 1) <<< 61 := by
  rw [show cVBCNative = 1 <<< 61 by decide, Bits.shiftLeft_or_and_shiftLeft small]

theorem vbcClear_eq :
    (flags <<< 61 ||| m) &&& Bits.complement 64 cVBCNative = (flags &&& 6) <<< 61 ||| m := by
  rw [show Bits.complement 64 cVBCNative = 6 <<< 61 ||| (2 ^ 61 - 1) by decide,
    Bits.shiftLeft_or_and_mask small]

theorem posBit_eq : (flags <<< 61 ||| m) &&& cPosNative = (flags &&& 2) <<< 61 := by
  rw [show cPosNative = 2 <<< 61 by decide, Bits.shiftLeft_or_and_shiftLeft small]

theorem posClear_eq :
    (flags <<< 61 ||| m) &&& Bits.complement 64 cPosNative = (flags &&& 5) <<< 61 ||| m := by
  rw [show Bits.complement 64 cPosNative = 5 <<< 61 ||| (2 ^ 61 - 1) by decide,
    Bits.shiftLeft_or_and_mask small]

/-- A native word is read by its two flag bits: the VBC bit gives the issue and the sign
bit the sign, and a negative zero is refused. -/
theorem nativeOfWord_shiftLeft_or (bound : flags < 4) :
    nativeOfWord (flags <<< 61 ||| m) =
      if 2 ≤ flags then .ok ⟨flagIssue flags, m, 0, true, false⟩
      else if m = 0 then .error "negative zero is not canonical"
      else .ok ⟨flagIssue flags, m, 0, true, true⟩ := by
  unfold nativeOfWord
  rw [vbcBit_eq small, vbcClear_eq small]
  by_cases vbc : flags &&& 1 = 0
  · rw [vbc]
    simp only [Nat.zero_shiftLeft, ne_eq, not_true_eq_false, if_false]
    rw [posBit_eq small, posClear_eq small]
    obtain rfl | rfl | rfl | rfl : flags = 0 ∨ flags = 1 ∨ flags = 2 ∨ flags = 3 := by omega
    · simp [flagIssue]
    · simp at vbc
    · simp [flagIssue]
    · simp at vbc
  · have set : (flags &&& 1) <<< 61 ≠ 0 := by rwa [Ne, Bits.shiftLeft_eq_zero_iff]
    simp only [set, ne_eq, not_false_eq_true, if_true]
    rw [posBit_eq small, posClear_eq small]
    obtain rfl | rfl | rfl | rfl : flags = 0 ∨ flags = 1 ∨ flags = 2 ∨ flags = 3 := by omega
    · simp at vbc
    · simp [flagIssue]
    · simp at vbc
    · simp [flagIssue]

theorem nativeWord_lt (bound : flags < 4) : flags <<< 61 ||| m < 2 ^ 64 := by
  rw [Bits.shiftLeft_or_eq_add small]
  omega

theorem nativeNotNativeBit_eq : (flags <<< 61 ||| m) &&& cNotNative = (flags &&& 2 ^ 2) <<< 61 := by
  rw [show cNotNative = 2 ^ 2 <<< 61 by decide, Bits.shiftLeft_or_and_shiftLeft small]

theorem notNativeBit_native (bound : flags < 4) : (flags <<< 61 ||| m) &&& cNotNative = 0 := by
  rw [nativeNotNativeBit_eq small, Bits.shiftLeft_eq_zero_iff, Bits.and_two_pow]
  omega

end native


/-- The two flag bits `add` sets in a native word: the sign bit for a non-negative
amount, the VBC bit for VBC. -/
def nativeFlags (amount : STAmount) : Nat :=
  (if amount.isNegative then 0 else 2) + (if amount.isVBC then 1 else 0)

theorem add_native {amount : STAmount} (native : amount.isNative = true) (s : Serializer) :
    amount.add s = Serializer.add64 s (nativeFlags amount <<< 61 ||| amount.mantissa) := by
  have pos : amount.mantissa ||| cPosNative = 2 <<< 61 ||| amount.mantissa := by
    rw [Nat.lor_comm]; rfl
  have vbc : amount.mantissa ||| cVBCNative = 1 <<< 61 ||| amount.mantissa := by
    rw [Nat.lor_comm]; rfl
  have both : amount.mantissa ||| cVBCNative ||| cPosNative = 3 <<< 61 ||| amount.mantissa := by
    rw [Nat.lor_assoc, Nat.lor_comm]; rfl
  unfold add nativeFlags
  rw [if_pos native]
  cases amount.isNegative <;> cases amount.isVBC
  case false.false => simp [pos]
  case false.true => simp [both]
  case true.false => simp
  case true.true => simp [vbc]

/-- The ten top bits `add` writes for a non-zero IOU: `cNotNative`, the sign bit for a
non-negative amount, and the offset biased by 97. -/
def iouHigh (amount : STAmount) : Nat :=
  (amount.exponent + 512 + (if amount.isNegative then 0 else 256) + 97).toNat

theorem toUInt64_shiftLeft {x : Int} (nonneg : 0 ≤ x) (small : x < 1024) :
    toUInt64 x <<< (64 - 10) % 2 ^ 64 = x.toNat <<< 54 := by
  have fits : x.toNat <<< 54 < 2 ^ 64 := by
    rw [Nat.shiftLeft_eq]
    omega
  rw [toUInt64, Int.emod_eq_of_lt nonneg (by omega), Nat.mod_eq_of_lt fits]

theorem add_iou {amount : STAmount} (notNative : amount.isNative = false) (nonzero : amount.mantissa ≠ 0)
    (above : cMinOffset ≤ amount.exponent) (below : amount.exponent ≤ cMaxOffset) (s : Serializer) :
    amount.add s = Serializer.add160Account
      (Serializer.add160Currency (Serializer.add64 s (iouHigh amount <<< 54 ||| amount.mantissa))
        amount.issue.currency) amount.issue.account := by
  have range : -96 ≤ amount.exponent ∧ amount.exponent ≤ 80 := ⟨above, below⟩
  unfold add iouHigh
  rw [if_neg (by simp [notNative])]
  simp only [nonzero, if_false]
  cases amount.isNegative
  case false =>
    rw [if_neg Bool.false_ne_true, toUInt64_shiftLeft (by omega) (by omega), Nat.lor_comm]
    simp
  case true =>
    rw [if_pos rfl, toUInt64_shiftLeft (by omega) (by omega), Nat.lor_comm]
    simp

section iou

variable {m : Nat} (small : m < 2 ^ 54) (high : Nat)
include small

theorem offsetField_eq : (high <<< 54 ||| m) >>> (64 - 10) = high :=
  Bits.shiftLeft_or_shiftRight small high

theorem valueField_eq : (high <<< 54 ||| m) &&& Bits.complement 64 (1023 <<< (64 - 10)) = m := by
  rw [show Bits.complement 64 (1023 <<< (64 - 10)) = 2 ^ 54 - 1 by decide,
    Bits.shiftLeft_or_and_low small]

theorem notNativeBit_eq : (high <<< 54 ||| m) &&& cNotNative = (high &&& 512) <<< 54 := by
  rw [show cNotNative = 512 <<< 54 by decide, Bits.shiftLeft_or_and_shiftLeft small]

end iou

/-- The sign bit and the biased offset of the ten top bits, as `iouOfWord` reads them. -/
theorem signBit_eq (high : Nat) : high &&& 256 = 256 * (high / 256 % 2) :=
  Bits.and_two_pow high 8

theorem offsetBits_eq (high : Nat) : high &&& 255 = high % 256 :=
  Nat.and_two_pow_sub_one_eq_mod high 8

theorem notNativeBits_eq (high : Nat) : high &&& 512 = 512 * (high / 512 % 2) :=
  Bits.and_two_pow high 9

theorem get64_word {word : Nat} (small : word < 2 ^ 64) (rest : SerialIter) :
    SerialIter.get64 (Bytes.bigEndian 8 word ++ rest) = .ok (word, rest) := by
  rw [SerialIter.get64_bigEndian, Nat.mod_eq_of_lt (by simpa using small)]

/-- A word without `cNotNative` is read as a native amount, with nothing after it. -/
theorem fromSerialIter_native {word : Nat} (small : word < 2 ^ 64) (native : word &&& cNotNative = 0)
    (rest : SerialIter) :
    fromSerialIter (Bytes.bigEndian 8 word ++ rest) =
      (StateT.lift (nativeOfWord word) : SerialRead STAmount) rest := by
  rw [fromSerialIter, SerialIter.bind_apply_of_ok (get64_word small rest), if_pos native]

/-- A word with `cNotNative` is read with the currency and the issuer after it, which may
not be native. -/
theorem fromSerialIter_iou {word : Nat} (small : word < 2 ^ 64) (notNative : word &&& cNotNative ≠ 0)
    {currency : Currency} (currencyIOU : currency.isNative = false)
    {account : AccountID} (accountIOU : isNativeAccount account = false) (rest : SerialIter) :
    fromSerialIter (Bytes.bigEndian 8 word ++ (Serializer.add160Currency [] currency ++
        (Serializer.add160Account [] account ++ rest))) =
      (StateT.lift (iouOfWord word ⟨currency, account⟩) : SerialRead STAmount) rest := by
  rw [fromSerialIter, SerialIter.bind_apply_of_ok (get64_word small _), if_neg notNative,
    SerialIter.bind_apply_of_ok (SerialIter.get160Currency_add160 currency _),
    if_neg (by simp [currencyIOU]),
    SerialIter.bind_apply_of_ok (SerialIter.get160Account_add160 account rest)]
  simp [accountIOU]

/-- The amounts `canonicalize` leaves: a native amount of VRP or VBC with offset zero, at
most 61 bits of drops and no negative zero; or an IOU of a non-native currency and issuer,
either the zero with offset `-100` or with mantissa and offset in range. -/
def Canonical (amount : STAmount) : Prop :=
  amount.isNative = true ∧ (amount.issue = xrpIssue ∨ amount.issue = vbcIssue) ∧
      amount.exponent = 0 ∧ amount.mantissa < 2 ^ 61 ∧
      (amount.mantissa = 0 → amount.isNegative = false) ∨
    amount.isNative = false ∧ amount.issue.currency.isNative = false ∧
      isNativeAccount amount.issue.account = false ∧
      (amount.mantissa = 0 ∧ amount.exponent = -100 ∧ amount.isNegative = false ∨
        cMinValue ≤ amount.mantissa ∧ amount.mantissa ≤ cMaxValue ∧
        cMinOffset ≤ amount.exponent ∧ amount.exponent ≤ cMaxOffset)

instance : DecidablePred Canonical := fun _ =>
  inferInstanceAs (Decidable (_ ∨ _))

theorem nativeFlags_lt (amount : STAmount) : nativeFlags amount < 4 := by
  unfold nativeFlags
  cases amount.isNegative <;> cases amount.isVBC <;> decide

theorem two_le_nativeFlags (amount : STAmount) : 2 ≤ nativeFlags amount ↔ amount.isNegative = false := by
  unfold nativeFlags
  cases amount.isNegative <;> cases amount.isVBC <;> decide

theorem flagIssue_nativeFlags {amount : STAmount} (issue : amount.issue = xrpIssue ∨ amount.issue = vbcIssue) :
    flagIssue (nativeFlags amount) = amount.issue := by
  have xrp : xrpIssue.currency.isVBC = false := by decide
  have vbc : vbcIssue.currency.isVBC = true := by decide
  unfold flagIssue nativeFlags isVBC
  rcases issue with same | same <;> rw [same] <;> cases amount.isNegative <;> simp [xrp, vbc]

/-- The word of a canonical native amount is read back as that amount. -/
theorem nativeOfWord_nativeFlags {amount : STAmount} (native : amount.isNative = true)
    (issue : amount.issue = xrpIssue ∨ amount.issue = vbcIssue) (exponent : amount.exponent = 0)
    (small : amount.mantissa < 2 ^ 61) (notNegativeZero : amount.mantissa = 0 → amount.isNegative = false) :
    nativeOfWord (nativeFlags amount <<< 61 ||| amount.mantissa) = .ok amount := by
  rw [nativeOfWord_shiftLeft_or small _ (nativeFlags_lt amount), flagIssue_nativeFlags issue]
  obtain ⟨issue', mantissa, exponent', isNative, isNegative⟩ := amount
  simp only at native exponent notNegativeZero ⊢
  subst native exponent
  cases isNegative
  case false => rw [if_pos ((two_le_nativeFlags _).mpr rfl)]
  case true =>
    have nonzero : mantissa ≠ 0 := fun zero => Bool.noConfusion (notNegativeZero zero)
    rw [if_neg (fun le => Bool.noConfusion ((two_le_nativeFlags _).mp le)), if_neg nonzero]

theorem cMaxValue_lt : cMaxValue < 2 ^ 54 := by decide

/-- The word of a non-zero IOU in range is read back as that amount. -/
theorem iouOfWord_iouHigh {amount : STAmount} (notNative : amount.isNative = false)
    (currencyIOU : amount.issue.currency.isNative = false)
    (atLeast : cMinValue ≤ amount.mantissa) (atMost : amount.mantissa ≤ cMaxValue)
    (above : cMinOffset ≤ amount.exponent) (below : amount.exponent ≤ cMaxOffset) :
    iouOfWord (iouHigh amount <<< 54 ||| amount.mantissa) amount.issue = .ok amount := by
  have small : amount.mantissa < 2 ^ 54 := Nat.lt_of_le_of_lt atMost cMaxValue_lt
  have nonzero : amount.mantissa ≠ 0 := Nat.ne_of_gt (Nat.lt_of_lt_of_le (by decide) atLeast)
  have range : -96 ≤ amount.exponent ∧ amount.exponent ≤ 80 := ⟨above, below⟩
  -- the sign bit of the ten top bits and the offset below it
  have sign : decide (iouHigh amount &&& 256 = 0) = amount.isNegative := by
    rw [signBit_eq]
    unfold iouHigh
    cases amount.isNegative <;> simp <;> omega
  have offset : ((iouHigh amount &&& 255 : Nat) : Int) - 97 = amount.exponent := by
    rw [offsetBits_eq]
    unfold iouHigh
    cases amount.isNegative <;> simp <;> omega
  unfold iouOfWord
  simp only [offsetField_eq small, valueField_eq small, sign, offset, ne_eq, nonzero,
    not_false_eq_true, if_true]
  rw [if_neg (by omega)]
  obtain ⟨issue, mantissa, exponent, isNative, isNegative⟩ := amount
  simp only at notNative
  subst notNative
  exact canonicalize_of_inRange currencyIOU atLeast atMost above below

theorem add_iou_zero {amount : STAmount} (notNative : amount.isNative = false)
    (zero : amount.mantissa = 0) (s : Serializer) :
    amount.add s = Serializer.add160Account
      (Serializer.add160Currency (Serializer.add64 s cNotNative) amount.issue.currency)
      amount.issue.account := by
  simp [add, notNative, zero]

/-- The word of the IOU zero is read back as the zero of its issue. -/
theorem iouOfWord_cNotNative {issue : Issue} (currencyIOU : issue.currency.isNative = false) :
    iouOfWord cNotNative issue = .ok ⟨issue, 0, -100, false, false⟩ := by
  have offset : cNotNative >>> (64 - 10) = 512 := by decide
  have value : cNotNative &&& Bits.complement 64 (1023 <<< (64 - 10)) = 0 := by decide
  simp only [iouOfWord, offset, value, ne_eq, not_true_eq_false, if_false]
  exact canonicalize_zero currencyIOU rfl

/-- The bytes of a non-native amount: the word, then the currency, then the issuer. -/
theorem iouBytes_append (word : Nat) (currency : Currency) (account : AccountID) (rest : SerialIter) :
    Serializer.add160Account (Serializer.add160Currency (Serializer.add64 [] word) currency) account ++ rest =
      Bytes.bigEndian 8 word ++ (Serializer.add160Currency [] currency ++
        (Serializer.add160Account [] account ++ rest)) := by
  simp [Serializer.add160Account, Serializer.add160Currency, Serializer.addBitString, Serializer.add64]

/-- Every canonical amount is read back from what `add` writes, with the bytes after it
left unread. -/
theorem fromSerialIter_add {amount : STAmount} (canonical : Canonical amount) (rest : SerialIter) :
    fromSerialIter (amount.add [] ++ rest) = .ok (amount, rest) := by
  rcases canonical with ⟨native, issue, exponent, small, notNegativeZero⟩ |
    ⟨notNative, currencyIOU, accountIOU, ⟨zero, exponent, positive⟩ | ⟨atLeast, atMost, above, below⟩⟩
  case inl =>
    have bound := nativeFlags_lt amount
    rw [add_native native, Serializer.add64, List.nil_append,
      fromSerialIter_native (nativeWord_lt small _ bound) (notNativeBit_native small _ bound),
      nativeOfWord_nativeFlags native issue exponent small notNegativeZero, SerialIter.lift_ok_apply]
  case inr.inl =>
    have word : cNotNative < 2 ^ 64 := by decide
    have notNativeBit : cNotNative &&& cNotNative ≠ 0 := by decide
    rw [add_iou_zero notNative zero, iouBytes_append,
      fromSerialIter_iou word notNativeBit currencyIOU accountIOU,
      iouOfWord_cNotNative currencyIOU, SerialIter.lift_ok_apply]
    obtain ⟨issue, mantissa, exponent', isNative, isNegative⟩ := amount
    simp only at notNative zero exponent positive ⊢
    subst notNative zero exponent positive
    rfl
  case inr.inr =>
    have nonzero : amount.mantissa ≠ 0 := Nat.ne_of_gt (Nat.lt_of_lt_of_le (by decide) atLeast)
    have small : amount.mantissa < 2 ^ 54 := Nat.lt_of_le_of_lt atMost cMaxValue_lt
    have range : -96 ≤ amount.exponent ∧ amount.exponent ≤ 80 := ⟨above, below⟩
    have high : 512 < iouHigh amount ∧ iouHigh amount < 1024 := by
      unfold iouHigh
      cases amount.isNegative <;> simp <;> omega
    have word : iouHigh amount <<< 54 ||| amount.mantissa < 2 ^ 64 := by
      rw [Bits.shiftLeft_or_eq_add small]
      omega
    have notNativeBit : (iouHigh amount <<< 54 ||| amount.mantissa) &&& cNotNative ≠ 0 := by
      rw [notNativeBit_eq small, Ne, Bits.shiftLeft_eq_zero_iff, notNativeBits_eq]
      omega
    rw [add_iou notNative nonzero above below, iouBytes_append,
      fromSerialIter_iou word notNativeBit currencyIOU accountIOU,
      iouOfWord_iouHigh notNative currencyIOU atLeast atMost above below, SerialIter.lift_ok_apply]

/-! ## Writing a word read back -/

/-- The flags of an amount read from a native word are the word's flag bits. -/
theorem nativeFlags_flagIssue {flags : Nat} (bound : flags < 4) {isNegative : Bool}
    (sign : isNegative = false ↔ 2 ≤ flags) (mantissa : Nat) (exponent : Int) (isNative : Bool) :
    nativeFlags ⟨flagIssue flags, mantissa, exponent, isNative, isNegative⟩ = flags := by
  have xrp : xrpIssue.currency.isVBC = false := by decide
  have vbc : vbcIssue.currency.isVBC = true := by decide
  obtain rfl | rfl | rfl | rfl : flags = 0 ∨ flags = 1 ∨ flags = 2 ∨ flags = 3 := by omega
  all_goals cases isNegative <;> simp_all [nativeFlags, flagIssue, isVBC]

/-- An amount read from a native word is written back as that word. -/
theorem add_of_nativeOfWord {word : Nat} {amount : STAmount} (small : word < 2 ^ 64)
    (native : word &&& cNotNative = 0) (read : nativeOfWord word = .ok amount) :
    amount.add [] = Serializer.add64 [] word := by
  -- the word splits at bit 61 into the flag bits and the drops
  have split := Bits.eq_shiftLeft_or word 61
  have low : word % 2 ^ 61 < 2 ^ 61 := Nat.mod_lt _ (Nat.pow_pos (by decide))
  have flagsBelow : word >>> 61 < 8 := by
    rw [Nat.shiftRight_eq_div_pow]
    omega
  have bound : word >>> 61 < 4 := by
    rw [split, nativeNotNativeBit_eq low, Bits.shiftLeft_eq_zero_iff, Bits.and_two_pow] at native
    omega
  rw [split, nativeOfWord_shiftLeft_or low _ bound] at read
  split at read
  case isTrue above =>
    cases read
    rw [add_native rfl, nativeFlags_flagIssue bound (iff_of_true rfl above), ← split]
  case isFalse below =>
    split at read
    case isTrue => cases read
    case isFalse =>
      cases read
      rw [add_native rfl, nativeFlags_flagIssue bound (iff_of_false (by decide) below), ← split]

/-- The ten top bits written back from an IOU read from a word are the word's. -/
theorem iouHigh_of_high {high : Nat} (above : 512 ≤ high) (below : high < 1024) (issue : Issue)
    (mantissa : Nat) :
    iouHigh ⟨issue, mantissa, ((high &&& 255 : Nat) : Int) - 97, false, decide (high &&& 256 = 0)⟩ = high := by
  unfold iouHigh
  rw [signBit_eq, offsetBits_eq]
  by_cases sign : 256 * (high / 256 % 2) = 0
  · simp only [sign, decide_true, if_true]
    omega
  · simp only [sign, decide_false, Bool.false_eq_true, if_false]
    omega

/-- An amount read from a word with `cNotNative` is written back as that word, with the
issue read after it. -/
theorem add_of_iouOfWord {word : Nat} {issue : Issue} {amount : STAmount} (small : word < 2 ^ 64)
    (notNative : word &&& cNotNative ≠ 0) (currencyIOU : issue.currency.isNative = false)
    (read : iouOfWord word issue = .ok amount) :
    amount.add [] = Serializer.add160Account
      (Serializer.add160Currency (Serializer.add64 [] word) issue.currency) issue.account := by
  -- the word splits at bit 54 into the ten top bits and the mantissa
  have split := Bits.eq_shiftLeft_or word 54
  have low : word % 2 ^ 54 < 2 ^ 54 := Nat.mod_lt _ (Nat.pow_pos (by decide))
  have highBelow : word >>> 54 < 1024 := by
    rw [Nat.shiftRight_eq_div_pow]
    omega
  have highAbove : 512 ≤ word >>> 54 := by
    rw [split, notNativeBit_eq low, Ne, Bits.shiftLeft_eq_zero_iff, notNativeBits_eq] at notNative
    omega
  rw [split] at read ⊢
  unfold iouOfWord at read
  simp only [offsetField_eq low, valueField_eq low] at read
  by_cases zero : word % 2 ^ 54 = 0
  case pos =>
    rw [zero] at read ⊢
    simp only [ne_eq, not_true_eq_false, if_false] at read
    split at read
    case isTrue => cases read
    case isFalse notOffset =>
      rw [canonicalize_zero currencyIOU rfl] at read
      cases read
      have offset : word >>> 54 = 512 := Decidable.byContradiction notOffset
      rw [add_iou_zero rfl rfl, offset]
      rfl
  case neg =>
    simp only [ne_eq, zero, not_false_eq_true, if_true] at read
    split at read
    case isTrue => cases read
    case isFalse inRange =>
      simp only [not_or, not_lt] at inRange
      obtain ⟨atLeast, atMost, above, below⟩ := inRange
      rw [canonicalize_of_inRange currencyIOU atLeast atMost above below] at read
      cases read
      rw [add_iou rfl zero above below, iouHigh_of_high highAbove highBelow]

/-- Every byte string `fromSerialIter` accepts starts with what `add` writes for the
amount it reads. -/
theorem add_fromSerialIter {input rest : SerialIter} {amount : STAmount}
    (read : fromSerialIter input = .ok (amount, rest)) : amount.add [] ++ rest = input := by
  obtain ⟨word, middle, getWord, next⟩ := SerialIter.bind_eq_ok read
  obtain ⟨small, rfl⟩ := SerialIter.get64_eq_ok getWord
  have small : word < 2 ^ 64 := by simpa using small
  by_cases native : word &&& cNotNative = 0
  case pos =>
    rw [if_pos native] at next
    obtain ⟨decoded, rfl⟩ := SerialIter.lift_eq_ok next
    rw [add_of_nativeOfWord small native decoded, Serializer.add64, List.nil_append]
  case neg =>
    rw [if_neg native] at next
    obtain ⟨currency, middle', getCurrency, next⟩ := SerialIter.bind_eq_ok next
    -- a native currency or issuer is thrown on
    have currencyIOU : currency.isNative = false := by
      cases isNative : currency.isNative
      case false => rfl
      case true => rw [if_pos isNative, SerialIter.throw_apply] at next; cases next
    rw [if_neg (by simp [currencyIOU])] at next
    obtain ⟨account, middle'', getAccount, next⟩ := SerialIter.bind_eq_ok next
    have accountIOU : isNativeAccount account = false := by
      cases isNative : isNativeAccount account
      case false => rfl
      case true => rw [if_pos isNative, SerialIter.throw_apply] at next; cases next
    rw [if_neg (by simp [accountIOU])] at next
    obtain ⟨decoded, rfl⟩ := SerialIter.lift_eq_ok next
    rw [add_of_iouOfWord small native currencyIOU decoded, iouBytes_append,
      SerialIter.get160Currency_eq_ok getCurrency, SerialIter.get160Account_eq_ok getAccount]

/-- The wire format round trip: every canonical amount, VRP, VBC or IOU, is read back from
what `add` writes; and whatever `fromSerialIter` accepts, writing the amount it reads gives
back exactly the bytes it consumed. -/
theorem stamount_round_trip :
    (∀ amount : STAmount, Canonical amount →
      ∀ rest, fromSerialIter (amount.add [] ++ rest) = .ok (amount, rest)) ∧
    (∀ (input rest : SerialIter) (amount : STAmount),
      fromSerialIter input = .ok (amount, rest) → amount.add [] ++ rest = input) :=
  ⟨fun _ canonical rest => fromSerialIter_add canonical rest, fun _ _ _ read => add_fromSerialIter read⟩

/-- A negative VBC amount of five drops comes back as VBC, not as VRP. -/
theorem negative_vbc_round_trip :
    Canonical ⟨vbcIssue, 5, 0, true, true⟩ ∧
      fromSerialIter (STAmount.add ⟨vbcIssue, 5, 0, true, true⟩ [] ++ []) =
        .ok (⟨vbcIssue, 5, 0, true, true⟩, []) :=
  ⟨by decide, stamount_round_trip.1 _ (by decide) []⟩

end STAmount

end RadardFormal.Protocol
