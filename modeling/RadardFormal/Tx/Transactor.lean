import RadardFormal.Protocol.STTx
import RadardFormal.Ledger.View

/-!
# The transactor frame

`Transactor::operator()` runs one transaction against an open ledger.  When the
checks before it succeeded it calls `apply`: bump the sender's sequence, take the fee,
and run the transactor's own `doApply`, every change going into a fresh
`ApplyViewImpl`.  Then it decides by the result: a success is applied as is; a claimed
failure (a `tec` code without `tapRETRY`, or a table grown past 5200 entries) throws
the table away and applies only the fee and the sequence bump, and for an oversized
table also the removal of the offers it found unfunded; anything else applies nothing.

The transactor is a parameter here: `doApply` is any code over the view, reading the
fields `Transactor` keeps for it.
-/

namespace RadardFormal.Tx

open RadardFormal.Protocol RadardFormal.Support RadardFormal.Ledger TER ViewM

/-- The settings of the `[secret_tx]` section that the ring transactors read. -/
structure SecretTxConfig where
  /-- `public_key` parsed as an account: the mixer's mid account. -/
  publicKey : Option AccountID
  participantsNumber : Nat
  fastInterval : Int
  maxParticipants : Int
  /-- `legal_values`, the ring denominations. -/
  legalValues : List Nat
  deriving DecidableEq, Repr

/-- The configuration a transaction is applied under. -/
structure Config where
  secretTx : Option SecretTxConfig
  deriving DecidableEq, Repr

/-- The mid account of `[secret_tx] public_key`; absent with the section. -/
def Config.midAccount (config : Config) : Option AccountID :=
  config.secretTx.bind SecretTxConfig.publicKey

/-- `ApplyContext`: the transaction, what the checks before it returned, its base fee
and flags, and the configuration. -/
structure ApplyContext where
  tx : STTx
  preclaimResult : TER
  baseFee : Nat
  flags : ApplyFlags
  config : Config

/-- The members of a `Transactor` that `doApply` reads. -/
structure Transactor where
  /-- `account_`. -/
  account : AccountID
  /-- `mFeeDue`: `calculateFee`, which `scaleFeeLoad` leaves at the base fee. -/
  feeDue : Int
  /-- `mPriorBalance`: the sender's balance before the fee. -/
  priorBalance : Int
  /-- `mSourceBalance`: the sender's balance after the fee. -/
  sourceBalance : Int
  deriving DecidableEq, Repr

namespace Transactor

/-! ## Checks before the transaction is applied -/

/-- `isLegalAmount` of a number of drops: at most `SYSTEM_CURRENCY_START`. -/
def isLegalAmount (drops : Int) : Bool := drops ≤ 2 * 1000000 * 1000000

/-- `STAmount::signum () < 0`. -/
def isNegativeAmount (amount : STAmount) : Bool := amount.isNegative && amount.mantissa != 0

/-- `preflight1`: a source account and a well-formed fee. -/
def preflight1 (tx : STTx) : TER :=
  if tx.account == AccountID.zero then temBAD_SRC_ACCOUNT
  else if !tx.fee.native || isNegativeAmount tx.fee || !isLegalAmount tx.fee.xrp then temBAD_FEE
  else tesSUCCESS

/-- `Transactor::calculateBaseFee`, in fee units: one base fee, and one more for each
multi-signer. -/
def calculateBaseFee (view : OpenView) (tx : STTx) : Nat :=
  let baseFee := view.fees.units
  let signerCount := (tx.signers.map List.length).getD 0
  baseFee + signerCount * baseFee

/-- `Transactor::checkSeq`: the sender exists and the transaction carries its next
sequence number (a later one passes with `tapPOST_SEQ`), the prior transaction it names,
and a last ledger not yet passed. -/
def checkSeq (view : OpenView) (tx : STTx) (flags : ApplyFlags) : TER :=
  match view.account? tx.account with
  | none => terNO_ACCOUNT
  | some sle =>
    let tSeq := tx.sequence
    let aSeq := sle.sequence
    if tSeq != aSeq then
      if aSeq < tSeq then
        if flags.has .tapPOST_SEQ then tesSUCCESS else terPRE_SEQ
      else if view.txExists tx.transactionID then tefALREADY
      else tefPAST_SEQ
    else if tx.accountTxnID.isSome &&
        sle.accountTxnID.getD Uint256.zero != tx.accountTxnID.getD Uint256.zero then
      tefWRONG_PRIOR
    else if tx.lastLedgerSequence.any (view.seq > ·) then tefMAX_LEDGER
    else tesSUCCESS

/-- `Transactor::checkFee`, given the fee due.  The fee due of a ring deposit is computed
from its amount by `STAmount` multiplication, which is not modelled; a closed ledger never
consults it.  `none` is the dereference of a missing sender. -/
def checkFee (view : OpenView) (tx : STTx) (feeDue : Int) : Option TER :=
  let feePaid := tx.fee.xrp
  if !isLegalAmount feePaid || feePaid < 0 then some temBAD_FEE
  else if view.isOpen && feePaid < feeDue then some telINSUF_FEE_P
  else if feePaid == 0 then some tesSUCCESS
  else do
    let sle ← view.account? tx.account
    let balance := sle.balance
    if balance < feePaid then
      return if balance > 0 && !view.isOpen then tecINSUFF_FEE else terINSUF_FEE_B
    return tesSUCCESS

/-- `Transactor::checkSingleSign`: the signing key is the master key, not disabled, or
the regular key.  `none` is the dereference of a missing sender. -/
def checkSingleSign (view : OpenView) (tx : STTx) : Option TER := do
  let sle ← view.account? tx.account
  let pkAccount := tx.signingPubKeyAccount
  if pkAccount == tx.account then
    return if hasFlag sle.flags lsfDisableMaster then tefMASTER_DISABLED else tesSUCCESS
  match sle.regularKey with
  | some regularKey => return if pkAccount == regularKey then tesSUCCESS else tefBAD_AUTH
  | none => return tefBAD_AUTH_MASTER

/-! ## Applying -/

/-- `Transactor::setSeq`, written through the sender's entry pointer. -/
def setSeq (ctx : ApplyContext) (account : AccountID) : ViewM Unit := do
  let some sle ← peekAccount account | failure
  let sle := { sle with sequence := (ctx.tx.sequence + 1) % 2 ^ 32 }
  let sle := if sle.accountTxnID.isSome then { sle with accountTxnID := some ctx.tx.transactionID }
    else sle
  pokeAccount account sle

/-- `Transactor::payFee`.  A ring deposit pays its fee to the mid account; any other
transaction takes it off `mSourceBalance` and writes that through the entry pointer. -/
def payFee (ctx : ApplyContext) (self : Transactor) : ViewM (TER × Transactor) := do
  let feePaid := ctx.tx.fee.xrp
  if ctx.tx.txnType == .ttRING_DEPOSIT then
    let some midAccount := ctx.config.midAccount | return (tefINTERNAL, self)
    return (← transferXRP self.account midAccount (.ofXRPAmount feePaid), self)
  let some sle ← peekAccount self.account | failure
  let sourceBalance := self.sourceBalance - feePaid
  pokeAccount self.account { sle with balance := sourceBalance }
  return (tesSUCCESS, { self with sourceBalance })

/-- `Transactor::apply`: sequence, fee, then the transactor's `doApply`. -/
def apply (ctx : ApplyContext) (doApply : Transactor → ViewM TER) : ViewM TER := do
  let account := ctx.tx.account
  let self : Transactor := ⟨account, ctx.baseFee, 0, 0⟩
  match ← peekAccount account with
  | none => doApply self
  | some sle =>
    let self := { self with priorBalance := sle.balance, sourceBalance := sle.balance }
    setSeq ctx account
    let (terResult, self) ← payFee ctx self
    if terResult != tesSUCCESS then return terResult
    -- `view().update (sle)` stores what was written through the pointer.
    let some sle ← peekAccount account | failure
    updateAccount account sle
    doApply self

end Transactor

/-- The offers that the visit of an oversized table collects: erased offers whose
`sfTakerPays` the transaction left as it was. -/
def removedOffers (view : ApplyViewImpl) (base : OpenView) : List Key :=
  (view.visit base).filterMap fun change =>
    if change.isDelete then
      match change.before.bind SLE.offer?, change.after.offer? with
      | some before, some after =>
        if before.takerPays.eq after.takerPays then some change.key else none
      | _, _ => none
    else none

/-- `removeUnfundedOffers`: delete the listed offers that still exist, at most 1000. -/
def removeUnfundedOffers : Nat → List Key → ViewM Unit
  | _, [] => pure ()
  | removed, index :: rest => do
    match ← peekAs SLE.offer? index with
    | none => removeUnfundedOffers removed rest
    | some offer =>
      let _ ← offerDelete index offer
      if removed + 1 == 1000 then return
      removeUnfundedOffers (removed + 1) rest

/-- The fee-claim path of `operator()` on the discarded view: charge the fee, at most the
balance, and bump the sequence; returns the fee charged. -/
def claimFee (ctx : ApplyContext) (fee : Int) (oversize : Bool) (offers : List Key) :
    ViewM Int := do
  let account := ctx.tx.account
  let some txnAcct ← peekAccount account | failure
  let balance := txnAcct.balance
  let fee := if fee > balance then balance else fee
  pokeAccount account
    { txnAcct with balance := balance - fee, sequence := (ctx.tx.sequence + 1) % 2 ^ 32 }
  if oversize then removeUnfundedOffers 0 offers
  let some txnAcct ← peekAccount account | failure
  updateAccount account txnAcct
  return fee

/-- The fee `operator()` charges: none for a ring deposit, which paid its fee to the mid
account, else `sfFee`. -/
def chargedFee (tx : STTx) : Int :=
  if tx.txnType == .ttRING_DEPOSIT then 0 else tx.fee.xrp

/-- The tail of `operator()` for an applied transaction: destroy the fee in a closed
ledger and apply the table (a negative fee throws). -/
def applyView (ctx : ApplyContext) (terResult : TER) (fee : Int) (view : ApplyViewImpl)
    (base : OpenView) : Option (TER × Bool × OpenView) :=
  if !base.isOpen then
    if fee < 0 then none
    else
      let view := if fee != 0 then { view with dropsDestroyed := view.dropsDestroyed + fee }
        else view
      some (terResult, true, view.apply base ctx.tx.transactionID)
  else some (terResult, true, view.apply base ctx.tx.transactionID)

/-- The first half of `operator()`: `apply` when the checks succeeded, on a fresh table. -/
def applyStage (ctx : ApplyContext) (doApply : Transactor → ViewM TER) (base : OpenView) :
    Option (TER × ApplyViewImpl) :=
  if ctx.preclaimResult == tesSUCCESS then
    (Transactor.apply ctx doApply).exec base (ApplyViewImpl.fresh ctx.flags)
  else some (ctx.preclaimResult, ApplyViewImpl.fresh ctx.flags)

/-- The result once the size of the table is checked. -/
def finalResult (terResult : TER) (view : ApplyViewImpl) : TER :=
  if view.items.size > 5200 then tecOVERSIZE else terResult

/-- Whether `operator()` takes the fee-claim path for a result. -/
def claimsFee (terResult : TER) (flags : ApplyFlags) : Bool :=
  terResult == tecOVERSIZE || (terResult.isTecClaim && !flags.has .tapRETRY)

/-- `Transactor::operator()`: the result, whether the transaction applied, and the ledger
after it.  `none` is an exception or a crash of the source, which leaves the ledger
unchanged. -/
def operator (ctx : ApplyContext) (doApply : Transactor → ViewM TER) (base : OpenView) :
    Option (TER × Bool × OpenView) := do
  let (terResult, view) ← applyStage ctx doApply base
  let didApply := terResult.isTesSuccess
  let fee := chargedFee ctx.tx
  let terResult := finalResult terResult view
  -- `view ().flags ()` are the flags the context made the view with.
  if claimsFee terResult ctx.flags then
    let oversize := terResult == tecOVERSIZE
    let offers := if oversize then removedOffers view base else []
    -- `ctx_.discard ()`: the claim runs on a fresh table.
    let (fee, view) ← (claimFee ctx fee oversize offers).exec base (ApplyViewImpl.fresh ctx.flags)
    applyView ctx terResult fee view base
  else if didApply then applyView ctx terResult fee view base
  else some (terResult, false, base)

/-! ## What a failed transaction leaves -/

/-- The tail of `operator()` applies the table with the fee destroyed in a closed ledger. -/
theorem applyView_eq_some {ctx : ApplyContext} {terResult ter : TER} {fee : Int}
    {view : ApplyViewImpl} {base after : OpenView} {applied : Bool}
    (run : applyView ctx terResult fee view base = some (ter, applied, after)) :
    ter = terResult ∧ applied = true ∧ (base.isOpen = false → 0 ≤ fee) ∧
      after = ApplyViewImpl.apply
        { view with dropsDestroyed := view.dropsDestroyed + if base.isOpen then 0 else fee }
        base ctx.tx.transactionID := by
  unfold applyView at run
  cases openLedger : base.isOpen with
  | true =>
    simp only [openLedger, Bool.not_true, Bool.false_eq_true, ↓reduceIte, Option.some.injEq,
      Prod.mk.injEq] at run
    obtain ⟨rfl, rfl, rfl⟩ := run
    simp
  | false =>
    simp only [openLedger, Bool.not_false, ↓reduceIte] at run
    by_cases negative : fee < 0
    · simp [negative] at run
    · simp only [negative, ↓reduceIte, Option.some.injEq, Prod.mk.injEq] at run
      obtain ⟨rfl, rfl, rfl⟩ := run
      refine ⟨rfl, rfl, fun _ => by omega, ?_⟩
      by_cases zero : fee = 0
      · subst zero
        simp
      · simp [zero]


/-- What a run of `operator()` can have done, branch by branch. -/
theorem operator_eq_some {ctx : ApplyContext} {doApply : Transactor → ViewM TER}
    {base after : OpenView} {ter : TER} {applied : Bool}
    (run : operator ctx doApply base = some (ter, applied, after)) :
    ∃ terResult view, applyStage ctx doApply base = some (terResult, view) ∧
      ter = finalResult terResult view ∧
      ((claimsFee ter ctx.flags = true ∧
          ∃ fee view', (claimFee ctx (chargedFee ctx.tx) (ter == tecOVERSIZE)
              (if ter == tecOVERSIZE then removedOffers view base else [])).exec base
              (ApplyViewImpl.fresh ctx.flags) = some (fee, view') ∧
            applyView ctx ter fee view' base = some (ter, applied, after)) ∨
        (claimsFee ter ctx.flags = false ∧ terResult.isTesSuccess = true ∧
          applyView ctx ter (chargedFee ctx.tx) view base = some (ter, applied, after)) ∨
        (claimsFee ter ctx.flags = false ∧ terResult.isTesSuccess = false ∧
          applied = false ∧ after = base)) := by
  unfold operator at run
  cases stage : applyStage ctx doApply base with
  | none => simp [stage] at run
  | some result =>
    obtain ⟨terResult, view⟩ := result
    simp only [stage, Option.bind_eq_bind, Option.bind_some] at run
    refine ⟨terResult, view, rfl, ?_⟩
    by_cases claim : claimsFee (finalResult terResult view) ctx.flags = true
    · simp only [claim, ↓reduceIte] at run
      obtain ⟨⟨fee, view'⟩, claimed, run⟩ := Option.bind_eq_some_iff.mp run
      have same := (applyView_eq_some run).1
      subst same
      exact ⟨rfl, .inl ⟨claim, fee, view', claimed, run⟩⟩
    · have unclaimed : claimsFee (finalResult terResult view) ctx.flags = false := by simpa using claim
      simp only [unclaimed, Bool.false_eq_true, ↓reduceIte] at run
      cases success : terResult.isTesSuccess with
      | true =>
        simp only [success, ↓reduceIte] at run
        have same := (applyView_eq_some run).1
        subst same
        exact ⟨rfl, .inr (.inl ⟨unclaimed, rfl, run⟩)⟩
      | false =>
        simp only [success, Bool.false_eq_true, ↓reduceIte, Option.some.injEq, Prod.mk.injEq] at run
        obtain ⟨rfl, rfl, rfl⟩ := run
        exact ⟨rfl, .inr (.inr ⟨unclaimed, rfl, rfl, rfl⟩)⟩


end RadardFormal.Tx
