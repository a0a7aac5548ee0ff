import RadardFormal.Tx.Transactor

/-!
# `SetAccount`: the flags of an account root

An `AccountSet` sets and clears the bits of the sender's `sfFlags`, some through the
legacy transaction flags and all through `sfSetFlag` and `sfClearFlag`, and sets or
clears `sfAccountTxnID`.  Three bits come with guards: the master key may be disabled
only by a transaction it signed and only while a regular key or a signer list remains,
`NoFreeze` needs the master key too, and `GlobalFreeze` cannot be cleared once
`NoFreeze` is set.

The fields `AccountSet` also writes and no modelled code reads (`sfEmailHash`,
`sfWalletLocator`, `sfMessageKey`, `sfDomain`) are not kept in the account root;
`preflight` still checks their lengths.  `sfTransferRate`, which `rippleTransferRate`
reads, is set above `QUALITY_ONE` and made absent at `0` or `QUALITY_ONE`.
-/

namespace RadardFormal.Tx

open RadardFormal.Protocol RadardFormal.Support RadardFormal.Ledger TER ViewM

namespace SetAccount

/-- `DOMAIN_BYTES_MAX`. -/
def domainBytesMax : Nat := 256

/-- `PUBLIC_BYTES_MAX`. -/
def publicBytesMax : Nat := 33

/-- How the source reads one request of an `AccountSet`, such as `bSetRequireAuth`: a
legacy transaction flag, or the `asf` value in `sfSetFlag` or `sfClearFlag`. -/
def requested (uTxFlags txFlag uFlag asf : Nat) : Bool := hasFlag uTxFlags txFlag || uFlag == asf

/-- `SetAccount::preflight`, without the signature check of `preflight2`. -/
def preflight (tx : STTx) : TER :=
  let ret := Transactor.preflight1 tx
  if ret != tesSUCCESS then ret
  else
    let uTxFlags := tx.flags
    let uSetFlag := tx.setFlag
    let uClearFlag := tx.clearFlag
    -- Each legacy pair may not ask for both directions at once.
    let contradictory (setFlag clearFlag asf : Nat) : Bool :=
      requested uTxFlags setFlag uSetFlag asf && requested uTxFlags clearFlag uClearFlag asf
    if hasFlag uTxFlags tfAccountSetMask then temINVALID_FLAG
    else if uSetFlag != 0 && uSetFlag == uClearFlag then temINVALID_FLAG
    else if contradictory tfRequireAuth tfOptionalAuth asfRequireAuth then temINVALID_FLAG
    else if contradictory tfRequireDestTag tfOptionalDestTag asfRequireDest then temINVALID_FLAG
    else if contradictory tfDisallowXRP tfAllowXRP asfDisallowXRP then temINVALID_FLAG
    else if tx.transferRate.any (fun uRate => uRate != 0 && uRate < qualityOne) then
      temBAD_TRANSFER_RATE
    else if tx.messageKey.any (·.length > publicBytesMax) then telBAD_PUBLIC_KEY
    else if tx.domain.any (·.length > domainBytesMax) then telBAD_DOMAIN
    else tesSUCCESS

/-- `SetAccount::preclaim`: requiring authorization needs an empty owner directory.
`none` is the dereference of a missing sender. -/
def preclaim (view : OpenView) (tx : STTx) (flags : ApplyFlags) : Option TER := do
  let sle ← view.account? tx.account
  let uFlagsIn := sle.flags
  let bSetRequireAuth := requested tx.flags tfRequireAuth tx.setFlag asfRequireAuth
  if bSetRequireAuth && !hasFlag uFlagsIn lsfRequireAuth &&
      !dirIsEmpty view (.owner tx.account) then
    return if flags.has .tapRETRY then terOWNERS else tecOWNERS
  return tesSUCCESS

/-- One legacy pair of `doApply`: set the bit when asked and not set on entry, clear it
when asked and set on entry. -/
def applyRequest (bSet bClear : Bool) (bit uFlagsIn uFlagsOut : Nat) : Nat :=
  let uFlagsOut := if bSet && !hasFlag uFlagsIn bit then uFlagsOut ||| bit else uFlagsOut
  if bClear && hasFlag uFlagsIn bit then clearFlag uFlagsOut bit else uFlagsOut

/-- The flags an `AccountSet` leaves, in the source's order of requests: the legacy
pairs, `DisableMaster`, `DefaultRipple`, `NoFreeze` and `GlobalFreeze`. -/
def flagsOut (tx : STTx) (uFlagsIn : Nat) : Nat :=
  let uTxFlags := tx.flags
  let uSetFlag := tx.setFlag
  let uClearFlag := tx.clearFlag
  let bSetRequireDest := requested uTxFlags tfRequireDestTag uSetFlag asfRequireDest
  let bClearRequireDest := requested uTxFlags tfOptionalDestTag uClearFlag asfRequireDest
  let bSetRequireAuth := requested uTxFlags tfRequireAuth uSetFlag asfRequireAuth
  let bClearRequireAuth := requested uTxFlags tfOptionalAuth uClearFlag asfRequireAuth
  let bSetDisallowXRP := requested uTxFlags tfDisallowXRP uSetFlag asfDisallowXRP
  let bClearDisallowXRP := requested uTxFlags tfAllowXRP uClearFlag asfDisallowXRP
  let uFlagsOut :=
    applyRequest bSetRequireAuth bClearRequireAuth lsfRequireAuth uFlagsIn uFlagsIn
  let uFlagsOut := applyRequest bSetRequireDest bClearRequireDest lsfRequireDestTag uFlagsIn uFlagsOut
  let uFlagsOut := applyRequest bSetDisallowXRP bClearDisallowXRP lsfDisallowXRP uFlagsIn uFlagsOut
  let uFlagsOut := if uSetFlag == asfDisableMaster && !hasFlag uFlagsIn lsfDisableMaster then
      uFlagsOut ||| lsfDisableMaster
    else uFlagsOut
  let uFlagsOut := if uClearFlag == asfDisableMaster && hasFlag uFlagsIn lsfDisableMaster then
      clearFlag uFlagsOut lsfDisableMaster
    else uFlagsOut
  let uFlagsOut := if uSetFlag == asfDefaultRipple then uFlagsOut ||| lsfDefaultRipple
    else if uClearFlag == asfDefaultRipple then clearFlag uFlagsOut lsfDefaultRipple
    else uFlagsOut
  let uFlagsOut := if uSetFlag == asfNoFreeze then uFlagsOut ||| lsfNoFreeze else uFlagsOut
  let uFlagsOut := if uSetFlag == asfGlobalFreeze then uFlagsOut ||| lsfGlobalFreeze else uFlagsOut
  -- Once `NoFreeze` is set, `GlobalFreeze` cannot be cleared.
  if uSetFlag != asfGlobalFreeze && uClearFlag == asfGlobalFreeze &&
      !hasFlag uFlagsOut lsfNoFreeze then
    clearFlag uFlagsOut lsfGlobalFreeze
  else uFlagsOut

/-- The account root `doApply` writes back: `sfAccountTxnID` made present or absent
(`makeFieldPresent` gives the hash its default, zero), the transfer rate, then the flags
if they changed. -/
def entryOut (tx : STTx) (sle : AccountRoot) : AccountRoot :=
  let uFlagsIn := sle.flags
  let uFlagsOut := flagsOut tx uFlagsIn
  let sle := if tx.setFlag == asfAccountTxnID && sle.accountTxnID.isNone then
      { sle with accountTxnID := some Uint256.zero }
    else sle
  let sle := if tx.clearFlag == asfAccountTxnID && sle.accountTxnID.isSome then
      { sle with accountTxnID := none }
    else sle
  let sle := match tx.transferRate with
    | some uRate =>
      if uRate == 0 || uRate == qualityOne then { sle with transferRate := none }
      else if uRate > qualityOne then { sle with transferRate := some uRate }
      else sle
    | none => sle
  if uFlagsIn != uFlagsOut then { sle with flags := uFlagsOut } else sle

/-- `SetAccount::doApply`.  The checks that can refuse come first, in the source's order;
the flags and the transaction-ID field the source changes between them are computed by
`flagsOut` and `entryOut`, which no check reads.  The source changes the entry through its
pointer only after the last check, so the model writes it once, at the end. -/
def doApply (ctx : ApplyContext) (self : Transactor) : ViewM TER := do
  let some sle ← peekAccount self.account | failure
  let uFlagsIn := sle.flags
  -- A non-empty signing key whose account is the sender's is the master key.
  let sigWithMaster := !ctx.tx.signingPubKeyEmpty && ctx.tx.signingPubKeyAccount == self.account
  if ctx.tx.setFlag == asfDisableMaster && !hasFlag uFlagsIn lsfDisableMaster then
    if !sigWithMaster then return tecNEED_MASTER_KEY
    if sle.regularKey.isNone && (← peekAs SLE.signerList? (.signers self.account)).isNone then
      if (← flags).has .tapENABLE_TESTING || (← rules).multiSign then
        return tecNO_ALTERNATIVE_KEY
      return tecNO_REGULAR_KEY
  -- A regular key may set `NoFreeze` only once the master key is disabled.
  if ctx.tx.setFlag == asfNoFreeze && !sigWithMaster && !hasFlag uFlagsIn lsfDisableMaster then
    return tecNEED_MASTER_KEY
  pokeAccount self.account (entryOut ctx.tx sle)
  return tesSUCCESS

end SetAccount

end RadardFormal.Tx
