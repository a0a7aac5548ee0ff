import RadardFormal.Ledger.View
import RadardFormal.Protocol.STAmountArith

/-!
# Sending IOUs: `rippleCredit`, `rippleSend` and `accountSend`

`rippleCredit` moves an IOU amount along the trust line of two accounts, creating the line
through `trustCreate` when there is none, and deleting it once it is back to its default
state.  `rippleSend` sends an amount directly when one side is the issuer, and otherwise
through the issuer, charging the issuer's transfer fee to the sender and sharing a quarter
of it with the sender's referral ancestors.  `accountSend` is `rippleSend` for an IOU and a
plain balance adjustment for VRP and VBC.

Two subsystems these functions call are left abstract as `Hooks`: the ASSET branch of
`issueAsset`, with its asset states and release schedules, and `shareFeeWithReferee`,
with its dividend object.  `creditHook` is the no-op of `ApplyView`; the deferred credits
of a `PaymentSandbox` are modelled apart.  An exception thrown by the amount arithmetic is
`failure`, like a null entry pointer.
-/

namespace RadardFormal.Ledger

open RadardFormal.Protocol RadardFormal.Support TER

/-- The parts of `View.cpp` that the IOU transfer functions call and that this model leaves
abstract: `issueAsset` on the ASSET currency, and `shareFeeWithReferee`. -/
structure Hooks where
  issueAsset : Bool → AccountID → AccountID → Currency → STAmount → Key → Option RippleState →
    ViewM (Bool × TER)
  shareFeeWithReferee : AccountID → AccountID → STAmount → ViewM TER

namespace ViewM

/-- An amount computation of `STAmount.cpp`, whose throw aborts the transactor. -/
def ofExcept (result : Except String α) : ViewM α :=
  match result with
  | .ok value => pure value
  | .error _ => failure

/-- `getRippleStateIndex`: the trust line of two accounts, low account first. -/
def rippleStateIndex (a b : AccountID) (currency : Currency) : Key :=
  .line (min a b) (max a b) currency

/-- `issueAsset`: nothing to do for a currency other than ASSET. -/
def issueAsset (hooks : Hooks) (senderHigh : Bool) (senderID receiverID : AccountID)
    (currency : Currency) (amount : STAmount) (index : Key) (line : Option RippleState) :
    ViewM (Bool × TER) :=
  if currency != Currency.assetCurrency then pure (false, tesSUCCESS)
  else hooks.issueAsset senderHigh senderID receiverID currency amount index line

/-- `trustDelete`: take the line out of both owner directories and erase it.  The line's
directory hints are always present here (no legacy lines). -/
def trustDelete (index : Key) (line : RippleState) (lowAccountID highAccountID : AccountID) :
    ViewM TER := do
  let terResult ← dirDelete false line.lowNode (.owner lowAccountID) index false false
  let terResult ← if terResult == tesSUCCESS then
      dirDelete false line.highNode (.owner highAccountID) index false false
    else pure terResult
  erase index
  return terResult

/-- Whether `rippleCredit` gives back the sender's reserve: the sender's balance went from
positive to at most zero, its reserve flag is set, and it has no freeze, no limit and no
qualities left on the line. -/
def releasesReserve (line : RippleState) (senderHigh : Bool) (before after : STAmount) : Bool :=
  let uFlags := line.flags
  (before.mantissa != 0 && !before.isNegative) && (after.mantissa == 0 || after.isNegative) &&
    hasFlag uFlags (if !senderHigh then lsfLowReserve else lsfHighReserve) &&
    !hasFlag uFlags (if !senderHigh then lsfLowFreeze else lsfHighFreeze) &&
    (if !senderHigh then line.lowLimit else line.highLimit).mantissa == 0 &&
    (if !senderHigh then line.lowQualityIn else line.highQualityIn) == 0 &&
    (if !senderHigh then line.lowQualityOut else line.highQualityOut) == 0

/-- `rippleCredit`: move `amount` from `senderID` to `receiverID` on their trust line. -/
def rippleCredit (hooks : Hooks) (senderID receiverID : AccountID) (amount : STAmount) :
    ViewM TER := do
  let currency := amount.issue.currency
  let senderHigh := decide (senderID > receiverID)
  let index := rippleStateIndex senderID receiverID currency
  let sleRippleState ← peekAs SLE.rippleState? index
  let (isAsset, terResult) ←
    issueAsset hooks senderHigh senderID receiverID currency amount index sleRippleState
  if isAsset then return terResult
  match sleRippleState with
  | none =>
    let receiverLimit := STAmount.zeroOf ⟨currency, receiverID⟩
    let balance := amount.setIssuer noAccount
    let some sleAccount ← peekAccount receiverID | failure
    let noRipple := sleAccount.flags &&& lsfDefaultRipple == 0
    trustCreate senderHigh senderID receiverID index receiverID false noRipple false balance
      receiverLimit 0 0
  | some line =>
    let before := if senderHigh then line.balance.negate else line.balance
    let after ← ofExcept (before.plus amount.negate)
    let release := releasesReserve line senderHigh before after
    if release then
      let some sender ← peekAccount senderID | failure
      adjustOwnerCount senderID sender (-1)
    let uFlags := line.flags
    let flags := if release then
        clearFlag uFlags (if !senderHigh then lsfLowReserve else lsfHighReserve)
      else uFlags
    -- The balance is zero and the receiver's reserve is clear: the line is at its default.
    let bDelete := release && after.mantissa == 0 &&
      !hasFlag uFlags (if senderHigh then lsfLowReserve else lsfHighReserve)
    let line := { line with
      flags := flags
      balance := if senderHigh then after.negate else after }
    if bDelete then
      trustDelete index line (if senderHigh then receiverID else senderID)
        (if !senderHigh then receiverID else senderID)
    else
      update index (.rippleState line)
      return tesSUCCESS

/-- `rippleTransferRate (view, issuer)`: the issuer's `sfTransferRate`, or `QUALITY_ONE`. -/
def rippleTransferRate (issuer : AccountID) : ViewM Nat := do
  match ← readAs SLE.accountRoot? (.account issuer) with
  | some sle => return sle.transferRate.getD qualityOne
  | none => return qualityOne

/-- `rippleTransferFee`: what the issuer's transfer rate adds to an amount sent between two
other accounts; zero for ASSET. -/
def rippleTransferFee (fromID toID issuer : AccountID) (amount : STAmount) : ViewM STAmount := do
  if amount.issue.currency != Currency.assetCurrency && fromID != issuer && toID != issuer then
    let uTransitRate ← rippleTransferRate issuer
    if qualityOne != uTransitRate then
      let rate ← ofExcept (STAmount.amountFromRate uTransitRate)
      let total ← ofExcept (STAmount.multiply amount rate amount.issue)
      return ← ofExcept (total.plus amount.negate)
  ofExcept (STAmount.ofIssue amount.issue)

/-- `rippleSend`: deliver `amount` to the receiver and return what it cost the sender.  On
the direct path the result of `rippleCredit` is overwritten by `tesSUCCESS`, as in the
source. -/
def rippleSend (hooks : Hooks) (senderID receiverID : AccountID) (amount : STAmount) :
    ViewM (TER × STAmount) := do
  let issuer := amount.issue.account
  if senderID == issuer || receiverID == issuer || issuer == noAccount then
    let _ ← rippleCredit hooks senderID receiverID amount
    return (tesSUCCESS, amount)
  else
    let transitFee ← rippleTransferFee senderID receiverID issuer amount
    let terResult ← if transitFee.mantissa != 0 then do
        let quarter ← ofExcept (STAmount.canonicalize ⟨transitFee.issue, 25, -2, false, false⟩)
        let share ← ofExcept (STAmount.multiply transitFee quarter transitFee.issue)
        hooks.shareFeeWithReferee senderID issuer share
      else pure tesSUCCESS
    let actual ← if transitFee.mantissa == 0 then pure amount
      else ofExcept (amount.plus transitFee)
    let actual := actual.setIssuer issuer
    let terResult ← if terResult == tesSUCCESS then rippleCredit hooks issuer receiverID amount
      else pure terResult
    let terResult ← if terResult == tesSUCCESS then rippleCredit hooks senderID issuer actual
      else pure terResult
    return (terResult, actual)

/-- `accountSend`: an IOU goes through `rippleSend`; VRP or VBC is taken from the sender's
balance and added to the receiver's, where either may be the zero account and then has no
root. -/
def accountSend (hooks : Hooks) (senderID receiverID : AccountID) (amount : STAmount) :
    ViewM TER := do
  if amount.mantissa == 0 || senderID == receiverID then return tesSUCCESS
  if !amount.native then return (← rippleSend hooks senderID receiverID amount).1
  let sender ← if senderID != AccountID.zero then peekAccount senderID else pure none
  let receiver ← if receiverID != AccountID.zero then peekAccount receiverID else pure none
  let isVBC := amount.isVBC
  let mut terResult := tesSUCCESS
  if let some sender := sender then
    if STAmount.lt (STAmount.ofDrops isVBC (sender.nativeBalance isVBC)) amount then
      terResult := if ← isOpen then telFAILED_PROCESSING else tecFAILED_PROCESSING
    else
      updateAccount senderID (sender.setNativeBalance isVBC (sender.nativeBalance isVBC - amount.xrp))
  if terResult == tesSUCCESS then
    if let some receiver := receiver then
      updateAccount receiverID
        (receiver.setNativeBalance isVBC (receiver.nativeBalance isVBC + amount.xrp))
  return terResult

/-! ## The direct path

`rippleSend` sends an amount directly when the issuer is one of the two sides.  It then
runs `rippleCredit` and answers `tesSUCCESS`, so a failure of the credit, such as a full
owner directory when the line has to be created, reaches the caller as a success. -/

theorem issueAsset_of_ne (hooks : Hooks) {currency : Currency}
    (notAsset : currency ≠ Currency.assetCurrency) (senderHigh : Bool)
    (senderID receiverID : AccountID) (amount : STAmount) (index : Key)
    (line : Option RippleState) :
    issueAsset hooks senderHigh senderID receiverID currency amount index line =
      pure (false, tesSUCCESS) := by
  simp [issueAsset, notAsset]

/-- A credit in a currency other than ASSET never reaches the hooks. -/
theorem rippleCredit_hooks (hooks hooks' : Hooks) (senderID receiverID : AccountID)
    {amount : STAmount} (notAsset : amount.issue.currency ≠ Currency.assetCurrency) :
    rippleCredit hooks senderID receiverID amount =
      rippleCredit hooks' senderID receiverID amount := by
  simp only [rippleCredit, issueAsset_of_ne _ notAsset]

theorem rippleSend_direct (hooks : Hooks) {senderID receiverID : AccountID}
    {amount : STAmount}
    (direct : (senderID == amount.issue.account || receiverID == amount.issue.account ||
      amount.issue.account == noAccount) = true) :
    rippleSend hooks senderID receiverID amount =
      (fun _ => (tesSUCCESS, amount)) <$> rippleCredit hooks senderID receiverID amount := by
  simp only [rippleSend, direct, if_true]
  exact bind_pure_comp _ _

theorem accountSend_iou (hooks : Hooks) {senderID receiverID : AccountID}
    {amount : STAmount} (nonzero : amount.mantissa ≠ 0) (distinct : senderID ≠ receiverID)
    (iou : amount.native = false) :
    accountSend hooks senderID receiverID amount =
      Prod.fst <$> rippleSend hooks senderID receiverID amount := by
  simp [accountSend, nonzero, distinct, iou, bind_pure_comp]

/-- On the direct path `accountSend` ends where the credit ends, with `tesSUCCESS` in place
of whatever code the credit returned. -/
theorem accountSend_direct_exec (hooks : Hooks) {senderID receiverID : AccountID}
    {amount : STAmount} (nonzero : amount.mantissa ≠ 0) (distinct : senderID ≠ receiverID)
    (iou : amount.native = false)
    (direct : (senderID == amount.issue.account || receiverID == amount.issue.account ||
      amount.issue.account == noAccount) = true) (base : OpenView) (view : ApplyViewImpl) :
    (accountSend hooks senderID receiverID amount).exec base view =
      ((rippleCredit hooks senderID receiverID amount).exec base view).map
        fun result => (tesSUCCESS, result.2) := by
  rw [accountSend_iou hooks nonzero distinct iou, rippleSend_direct hooks direct, exec_map,
    exec_map, Option.map_map]
  rfl

end ViewM

open ViewM

/-- Hooks that do nothing, for the runs that never reach them. -/
def Hooks.inert : Hooks :=
  ⟨fun _ _ _ _ _ _ _ => pure (false, tesSUCCESS), fun _ _ _ => pure tesSUCCESS⟩

/-- The currency code `USD`. -/
def usd : Currency := Currency.ofNat 0x5553440000000000

/-- 100 USD issued by account 7. -/
def hundredUSD : STAmount := ⟨⟨usd, AccountID.ofNat 7⟩, 1000000000000000, -13, false, false⟩

/-- Account 5, which owns 32 objects. -/
def holderRoot : AccountRoot :=
  ⟨AccountID.ofNat 5, 1000000, 0, 1, 32, 0, none, none, none, none⟩

/-- An open ledger where the owner directory of account 5 is its root page and page
2^64 - 1, the last page, which is full. -/
def fullDirLedger : OpenView :=
  ⟨((AList.singleton (.account (AccountID.ofNat 5)) (.accountRoot holderRoot)).insert
      (.page (.owner (AccountID.ofNat 5)) 0)
      (.directoryNode ⟨.owner (AccountID.ofNat 5), [], 2 ^ 64 - 1, 2 ^ 64 - 1,
        some (AccountID.ofNat 5)⟩)).insert
      (.page (.owner (AccountID.ofNat 5)) (2 ^ 64 - 1))
      (.directoryNode ⟨.owner (AccountID.ofNat 5),
        (List.range dirNodeMax).map (Key.offer (AccountID.ofNat 5)), 0, 0,
        some (AccountID.ofNat 5)⟩),
    100000000, 0, [], 10, 0, true, ⟨10, 10, 200, 50⟩, ⟨true⟩⟩

theorem direct_send_hides_dir_full (hooks : Hooks) :
    ((rippleCredit hooks (AccountID.ofNat 7) (AccountID.ofNat 5) hundredUSD).exec fullDirLedger
        (.fresh .tapNONE)).map Prod.fst = some tecDIR_FULL ∧
      ((accountSend hooks (AccountID.ofNat 7) (AccountID.ofNat 5) hundredUSD).exec fullDirLedger
        (.fresh .tapNONE)).map (fun result =>
          (result.1, (result.2.apply fullDirLedger Uint256.zero).read
            (rippleStateIndex (AccountID.ofNat 7) (AccountID.ofNat 5) usd))) =
        some (tesSUCCESS, some (.rippleState (RippleState.blank usd))) := by
  have notAsset : hundredUSD.issue.currency ≠ Currency.assetCurrency := by decide
  rw [accountSend_direct_exec hooks (by decide) (by decide) (by decide) (by decide),
    rippleCredit_hooks hooks Hooks.inert _ _ notAsset, Option.map_map]
  constructor
  · decide +kernel
  · decide +kernel

end RadardFormal.Ledger
