import RadardFormal.Tx.Transactor

/-!
# `ActiveAccount`: open an account with a referee

An `ActiveAccount` transaction creates the account `sfReference`, funds it with
`sfAmount` and with each native amount of `sfAmounts`, opens the trust lines of
`sfLimits` for it, and records `sfReferee` as its referee.

The funding goes through the `transfer` lambda of `doApply`, which debits the sender by
writing `mSourceBalance - amount`: the balance after the fee, which no transfer updates.
With more than one VRP transfer each write replaces the one before, while the new
account is credited every time.
-/

namespace RadardFormal.Tx

open RadardFormal.Protocol RadardFormal.Support RadardFormal.Ledger TER ViewM

namespace ActiveAccount

/-- `ActiveAccount::preflight`, without the signature check of `preflight2`. -/
def preflight (tx : STTx) : TER :=
  let ret := Transactor.preflight1 tx
  if ret != tesSUCCESS then ret
  else if tx.hasPaths then temBAD_SEND_XRP_PATHS
  else if tx.sendMax.isSome then temBAD_SEND_XRP_MAX
  else
    let saDstAmount := tx.amount
    let maxSourceAmount := if saDstAmount.native then saDstAmount
      else { saDstAmount with issue := ⟨saDstAmount.issue.currency, tx.account⟩ }
    let uSrcCurrency := maxSourceAmount.issue.currency
    let uDstCurrency := saDstAmount.issue.currency
    if !saDstAmount.isLegalNet || !maxSourceAmount.isLegalNet then temBAD_AMOUNT
    else if tx.reference == AccountID.zero then temDST_NEEDED
    else if tx.referee == AccountID.zero then temDST_NEEDED
    else if tx.reference == tx.referee then temDST_IS_SRC
    else if Transactor.isNegativeAmount maxSourceAmount then temBAD_AMOUNT
    else if Transactor.isNegativeAmount saDstAmount then temBAD_AMOUNT
    else if uSrcCurrency == Currency.badCurrency || uDstCurrency == Currency.badCurrency then
      temBAD_CURRENCY
    else if tx.account == tx.reference && uSrcCurrency == uDstCurrency then temREDUNDANT
    else if uDstCurrency == Currency.assetCurrency || uSrcCurrency == Currency.assetCurrency then
      temBAD_CURRENCY
    else tesSUCCESS

/-- `ActiveAccount::preclaim`: the new account must not exist, and a native amount must
cover the reserve of an account with no objects. -/
def preclaim (view : OpenView) (tx : STTx) : TER :=
  if (view.read (.account tx.reference)).isSome then tefCREATED
  else if !tx.amount.native then tecNO_DST
  else if STAmount.lt tx.amount (.ofXRPAmount (view.fees.accountReserve 0)) then
    tecNO_DST_INSUF_XRP
  else tesSUCCESS

/-- The account root `doApply` creates: only `sfAccount` and `sfSequence` set. -/
def newAccount (id : AccountID) : AccountRoot := ⟨id, 0, 0, 1, 0, 0, none, none, none, none⟩

/-- The `transfer` lambda: check the sender's funds against `mPriorBalance` and the
reserve `mmm`, then write the sender's balance and credit the new account through their
entry pointers. -/
def transfer (self : Transactor) (dstAccountID : AccountID) (mmm : Int) (saDstAmount : STAmount) :
    ViewM TER := do
  let isVBCTransaction := saDstAmount.isVBC
  -- `sle` is the sender's entry as the table holds it now.
  let some sle ← readAs SLE.accountRoot? (.account self.account) | failure
  if self.priorBalance < (if isVBCTransaction then 0 else saDstAmount.xrp) + mmm ||
      (isVBCTransaction && STAmount.lt (.ofDrops true sle.balanceVBC) saDstAmount) then
    return tecUNFUNDED_PAYMENT
  let some sender ← peekAccount self.account | failure
  if !isVBCTransaction then
    pokeAccount self.account { sender with balance := self.sourceBalance - saDstAmount.xrp }
    let some sleDst ← peekAccount dstAccountID | failure
    pokeAccount dstAccountID { sleDst with balance := sleDst.balance + saDstAmount.xrp }
  else
    pokeAccount self.account { sender with balanceVBC := sle.balanceVBC - saDstAmount.xrp }
    let some sleDst ← peekAccount dstAccountID | failure
    pokeAccount dstAccountID { sleDst with balanceVBC := sleDst.balanceVBC + saDstAmount.xrp }
  -- Re-arm the password change fee.
  let some sleDst ← peekAccount dstAccountID | failure
  if hasFlag sleDst.flags lsfPasswordSpent then
    pokeAccount dstAccountID { sleDst with flags := clearFlag sleDst.flags lsfPasswordSpent }
  return tesSUCCESS

/-- The loop over `sfAmounts`: each native amount is transferred, and the result is the
last transfer's; a non-native amount stops the loop. -/
def transferAmounts (self : Transactor) (dstAccountID : AccountID) (mmm : Int) :
    TER → List STAmount → ViewM TER
  | terResult, [] => pure terResult
  | _, saAmount :: rest => do
    if !saAmount.native then return temBAD_CURRENCY
    let terResult ← transfer self dstAccountID mmm saAmount
    transferAmounts self dstAccountID mmm terResult rest

/-- The loop over `sfLimits`: open each trust line for the new account. -/
def createLimits (dstAccountID : AccountID) : List TrustLimit → ViewM TER
  | [] => pure tesSUCCESS
  | entry :: rest => do
    let currency := entry.limitAmount.issue.currency
    let uDstAccountID := entry.limitAmount.issue.account
    let index := Key.line (min dstAccountID uDstAccountID) (max dstAccountID uDstAccountID) currency
    if (← read index).isSome then return tefEXCEPTION
    let bHigh := dstAccountID > uDstAccountID
    let uQualityIn := entry.qualityIn.getD 0
    let uQualityOut := match entry.qualityOut with
      | some quality => if quality == qualityOne then 0 else quality
      | none => 0
    let bSetAuth := hasFlag entry.flags tfSetfAuth
    let bClearNoRipple := hasFlag entry.flags tfClearNoRipple
    let bSetNoRipple := hasFlag entry.flags tfSetNoRipple
    let bSetFreeze := hasFlag entry.flags tfSetFreeze
    let bClearFreeze := hasFlag entry.flags tfClearFreeze
    -- The source's `temDISABLED` for clearing no-ripple on an asset line is overwritten
    -- by the result of `trustCreate` before it is read.
    let terResult ← trustCreate bHigh dstAccountID uDstAccountID index dstAccountID bSetAuth
      (bSetNoRipple && !bClearNoRipple) (bSetFreeze && !bClearFreeze)
      (.zeroOf ⟨currency, noAccount⟩) (entry.limitAmount.setIssuer dstAccountID)
      uQualityIn uQualityOut
    if terResult != tesSUCCESS then return terResult
    createLimits dstAccountID rest

/-- `ActiveAccount::doApply`. -/
def doApply (ctx : ApplyContext) (self : Transactor) : ViewM TER := do
  let tx := ctx.tx
  let srcAccountID := tx.referee
  let dstAccountID := tx.reference
  let saDstAmount := tx.amount
  if (← peekAccount dstAccountID).isNone then
    insert (.account dstAccountID) (.accountRoot (newAccount dstAccountID))
  let some sle ← readAs SLE.accountRoot? (.account self.account) | failure
  let reserve := (← fees).accountReserve sle.ownerCount
  let mmm := max reserve tx.fee.xrp
  let terResult ← transfer self dstAccountID mmm saDstAmount
  let terResult ← if terResult == tesSUCCESS then
      match tx.amounts with
      | some amounts => transferAmounts self dstAccountID mmm terResult amounts
      | none => pure terResult
    else pure terResult
  let terResult ← if terResult == tesSUCCESS then
      match tx.limits with
      | some limits => createLimits dstAccountID limits
      | none => pure terResult
    else pure terResult
  if terResult == tesSUCCESS then addRefer srcAccountID dstAccountID else return terResult

/-! ## Two VRP transfers -/

/-- The sender, with 5000 drops at sequence 5. -/
def fundedSender : AccountRoot := ⟨AccountID.ofNat 7, 5000, 0, 5, 0, 0, none, none, none, none⟩

/-- The referee, with 1000 drops. -/
def refereeRoot : AccountRoot := ⟨AccountID.ofNat 8, 1000, 0, 1, 0, 0, none, none, none, none⟩

/-- A closed ledger of the two, with an account reserve of 200 drops. -/
def twoAccounts : OpenView :=
  ⟨(AList.singleton (.account (AccountID.ofNat 7)) (.accountRoot fundedSender)).insert
      (.account (AccountID.ofNat 8)) (.accountRoot refereeRoot),
    100000, 0, [], 10, 0, false, ⟨10, 10, 200, 50⟩, ⟨true⟩⟩

/-- Open account 9 under referee 8 with 300 drops, and send it 100 more in `sfAmounts`. -/
def openWithTwoTransfers : STTx :=
  { STTx.make .ttACTIVEACCOUNT (AccountID.ofNat 7) 5 10 with
    amount := .ofXRPAmount 300
    amounts := some [.ofXRPAmount 100]
    reference := AccountID.ofNat 9
    referee := AccountID.ofNat 8 }

/-- That transaction past its checks. -/
def openContext : ApplyContext := ⟨openWithTwoTransfers, tesSUCCESS, 10, .tapNONE, ⟨none⟩⟩

/-- An `ActiveAccount` with one extra VRP transfer passes its checks, succeeds in a closed
ledger, destroys its 10 drop fee, and leaves 290 drops more VRP in the account roots than
there were: the sender is charged only the last transfer, the new account is credited
both. -/
theorem active_account_mints_vrp :
    preflight openWithTwoTransfers = tesSUCCESS ∧
    Transactor.checkSeq twoAccounts openWithTwoTransfers .tapNONE = tesSUCCESS ∧
    Transactor.checkFee twoAccounts openWithTwoTransfers 10 = some tesSUCCESS ∧
    Transactor.checkSingleSign twoAccounts openWithTwoTransfers = some tesSUCCESS ∧
    preclaim twoAccounts openWithTwoTransfers = tesSUCCESS ∧
    (operator openContext (doApply openContext) twoAccounts).map
        (fun result => (result.1, result.2.1, result.2.2.drops, result.2.2.totalVRP)) =
      some (tesSUCCESS, true, twoAccounts.drops - 10, twoAccounts.totalVRP - 10 + 300) := by
  decide +kernel

end ActiveAccount

end RadardFormal.Tx
