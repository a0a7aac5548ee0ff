import RadardFormal.Protocol.STAmount

/-!
# Dividend pseudo-transactions

A dividend is paid in two kinds of `ttDIVIDEND` transaction.  `DivType_Start` (`startCalc`)
writes the dividend object under `keylet::dividend ()`: the ledger the dividend is computed
on, the totals, and the hash of the result.  `DivType_Apply` (`applyTx`) credits one
destination account with its VRP and VBC dividend, creating the coins in the ledger header,
records the dividend ledger and the ranks on the account, and stamps the dividend object with
the transaction's unsigned hash (`updateDividendMap`).

`Dividend::preflight` requires the sender to be the zero account.  `invoke_preclaim` runs
the sequence, fee and signature checks and the transactor's own `preclaim` only for a sender
other than the zero account, so `Dividend::preclaim`, which is where the ledger of a `Start`
is compared with the stored one and that of an `Apply` with the object's and the account's,
is never run.  `preclaim` is modelled all the same, translated from the source; its `Start`
test reads `getFieldIndex (sfDividendLedger)`, the field's position in the `ltDIVIDEND`
template, where the stored ledger was meant.

The model keeps of a ledger what the transactor reads and writes: the dividend object, the
dividend fields and balances of each account root, the header totals `drops` and `dropsVBC`,
and the transactions already in the ledger.  The balances are unbounded integers: the
overflow of `STAmount` addition of drops is not modelled.  A `none` result is a crash of the
server: `updateDividendMap` dereferences the object it peeks without a test.
-/

namespace RadardFormal.Protocol

/-- `temBAD_SEQUENCE`. -/
def temBAD_SEQUENCE : TER := ⟨-284⟩

/-- `temBAD_DIV_TYPE`. -/
def temBAD_DIV_TYPE : TER := ⟨-273⟩

end RadardFormal.Protocol

namespace RadardFormal.Tx

open RadardFormal.Protocol TER

namespace DividendMaster

/-- `DivType_Start`. -/
def divTypeStart : Nat := 1

/-- `DivType_Apply`. -/
def divTypeApply : Nat := 2

/-- `DivState_Start`. -/
def divStateStart : Nat := 1

@[simp] theorem divTypeStart_ne_divTypeApply : divTypeStart ≠ divTypeApply := by decide

@[simp] theorem divTypeApply_ne_divTypeStart : divTypeApply ≠ divTypeStart := by decide

end DividendMaster

open DividendMaster

/-- The fields of the `ltDIVIDEND` format, in the order of its template: the common fields
`LedgerFormats::addCommonFields` puts first, then those of `add ("Dividend", ltDIVIDEND)`. -/
inductive DividendField where
  | ledgerIndex | ledgerEntryType | flags | dividendState | dividendLedger | dividendCoins
  | dividendCoinsVBC | previousTxnID | previousTxnLgrSeq | dividendVRank | dividendVSprd
  | dividendHash | dividendMarker
  deriving DecidableEq, Repr

namespace DividendField

/-- The `ltDIVIDEND` template. -/
def format : List DividendField :=
  [ledgerIndex, ledgerEntryType, flags, dividendState, dividendLedger, dividendCoins,
    dividendCoinsVBC, previousTxnID, previousTxnLgrSeq, dividendVRank, dividendVSprd, dividendHash,
    dividendMarker]

/-- `STObject::getFieldIndex` of an entry built on the template: `SOTemplate::getIndex`, the
position of the field in the template, whatever the entry holds. -/
def getFieldIndex (field : DividendField) : Nat := format.idxOf field

end DividendField

/-- The dividend object.  `sfDividendState` to `sfDividendCoinsVBC` are required by the
format, so present, zero in an object just made. -/
structure DividendSle where
  dividendState : Nat
  dividendLedger : Nat
  dividendCoins : Nat
  dividendCoinsVBC : Nat
  dividendVRank : Option Nat
  dividendVSprd : Option Nat
  dividendHash : Option Uint256
  dividendMarker : Option Uint256
  deriving DecidableEq, Repr

/-- `std::make_shared<SLE> (keylet::dividend ())`: the required fields at zero. -/
def DividendSle.blank : DividendSle := ⟨0, 0, 0, 0, none, none, none, none⟩

/-- What the dividend transactions read and write of an `ltACCOUNT_ROOT`: the balances in
drops, and the optional dividend fields. -/
structure DividendRoot where
  balance : Int
  balanceVBC : Int
  dividendLedger : Option Nat
  dividendVRank : Option Nat
  dividendVSprd : Option Nat
  dividendTSprd : Option Nat
  deriving DecidableEq, Repr

/-- A ledger as the dividend transactions see it. -/
structure DividendView where
  dividend : Option DividendSle
  accountRoot : AccountID → Option DividendRoot
  drops : Int
  dropsVBC : Int
  txs : List Uint256

/-- The `[dividend_account]` section as `preflight` reads it: whether `public_key` is empty,
and the account `parseBase58<AccountID>` reads from it. -/
structure DividendConfig where
  publicKeyEmpty : Bool
  accountPublic : Option AccountID
  deriving DecidableEq, Repr

/-- A `ttDIVIDEND` transaction.  `sfDividendType`, `sfDividendLedger`, `sfDividendCoins` and
`sfDividendCoinsVBC` are required by the format; `signingPubKeyAccount` is `calcAccountID` of
the signing key, and `unsignedHash` the transaction ID of the transaction with
`sfTxnSignature` removed, which `updateDividendMap` computes. -/
structure DividendTx where
  transactionID : Uint256
  account : AccountID
  fee : STAmount
  sequence : Nat
  previousTxnID : Option Uint256
  signingPubKeyAccount : AccountID
  dividendType : Nat
  dividendLedger : Nat
  destination : Option AccountID
  dividendCoins : Nat
  dividendCoinsVBC : Nat
  dividendCoinsVBCRank : Option Nat
  dividendCoinsVBCSprd : Option Nat
  dividendVRank : Option Nat
  dividendVSprd : Option Nat
  dividendTSprd : Option Nat
  dividendHash : Option Uint256
  unsignedHash : Uint256
  deriving DecidableEq, Repr

namespace DividendView

/-- Write the dividend object. -/
def setDividend (view : DividendView) (sle : DividendSle) : DividendView :=
  { view with dividend := some sle }

/-- Write an account root. -/
def setAccountRoot (view : DividendView) (account : AccountID) (root : DividendRoot) : DividendView :=
  { view with accountRoot := Function.update view.accountRoot account (some root) }

/-- `createXRP`, performed on the header when the transaction is applied. -/
def createXRP (view : DividendView) (drops : Nat) : DividendView :=
  { view with drops := view.drops + drops }

/-- `createVBC`. -/
def createVBC (view : DividendView) (drops : Nat) : DividendView :=
  { view with dropsVBC := view.dropsVBC + drops }

/-- Record an applied transaction in the ledger. -/
def insertTx (view : DividendView) (txID : Uint256) : DividendView :=
  { view with txs := view.txs ++ [txID] }

/-- `txExists`. -/
def txExists (view : DividendView) (txID : Uint256) : Bool := view.txs.contains txID

/-- The ledger stored in the dividend object, if there is one. -/
def storedLedger (view : DividendView) : Option Nat := view.dividend.map (·.dividendLedger)

/-- An account's VRP balance, zero without a root. -/
def balanceOf (view : DividendView) (account : AccountID) : Int :=
  ((view.accountRoot account).map (·.balance)).getD 0

/-- An account's VBC balance, zero without a root. -/
def balanceVBCOf (view : DividendView) (account : AccountID) : Int :=
  ((view.accountRoot account).map (·.balanceVBC)).getD 0

section Writes

variable (view : DividendView)

@[simp] theorem accountRoot_setDividend (sle : DividendSle) :
    (view.setDividend sle).accountRoot = view.accountRoot := rfl

@[simp] theorem drops_setDividend (sle : DividendSle) : (view.setDividend sle).drops = view.drops := rfl

@[simp] theorem dropsVBC_setDividend (sle : DividendSle) :
    (view.setDividend sle).dropsVBC = view.dropsVBC := rfl

@[simp] theorem dividend_setAccountRoot (account : AccountID) (root : DividendRoot) :
    (view.setAccountRoot account root).dividend = view.dividend := rfl

@[simp] theorem drops_setAccountRoot (account : AccountID) (root : DividendRoot) :
    (view.setAccountRoot account root).drops = view.drops := rfl

@[simp] theorem dropsVBC_setAccountRoot (account : AccountID) (root : DividendRoot) :
    (view.setAccountRoot account root).dropsVBC = view.dropsVBC := rfl

@[simp] theorem accountRoot_createXRP (drops : Nat) : (view.createXRP drops).accountRoot = view.accountRoot := rfl

@[simp] theorem dividend_createXRP (drops : Nat) : (view.createXRP drops).dividend = view.dividend := rfl

@[simp] theorem drops_createXRP (drops : Nat) : (view.createXRP drops).drops = view.drops + drops := rfl

@[simp] theorem dropsVBC_createXRP (drops : Nat) : (view.createXRP drops).dropsVBC = view.dropsVBC := rfl

@[simp] theorem accountRoot_createVBC (drops : Nat) : (view.createVBC drops).accountRoot = view.accountRoot := rfl

@[simp] theorem dividend_createVBC (drops : Nat) : (view.createVBC drops).dividend = view.dividend := rfl

@[simp] theorem drops_createVBC (drops : Nat) : (view.createVBC drops).drops = view.drops := rfl

@[simp] theorem dropsVBC_createVBC (drops : Nat) : (view.createVBC drops).dropsVBC = view.dropsVBC + drops := rfl

@[simp] theorem accountRoot_insertTx (txID : Uint256) : (view.insertTx txID).accountRoot = view.accountRoot := rfl

@[simp] theorem dividend_insertTx (txID : Uint256) : (view.insertTx txID).dividend = view.dividend := rfl

@[simp] theorem drops_insertTx (txID : Uint256) : (view.insertTx txID).drops = view.drops := rfl

@[simp] theorem dropsVBC_insertTx (txID : Uint256) : (view.insertTx txID).dropsVBC = view.dropsVBC := rfl

end Writes

end DividendView

namespace Dividend

/-- `Dividend::preflight`: `preflight0`, then the zero sender, a zero native fee, the fields
the transactor reads, a signing key of the configured account, and no sequence. -/
def preflight (config : DividendConfig) (tx : DividendTx) : TER :=
  if tx.transactionID = Uint256.zero then temINVALID
  else if tx.account ≠ AccountID.zero then temBAD_SRC_ACCOUNT
  else if !tx.fee.native || tx.fee.mantissa ≠ 0 then temBAD_FEE
  -- `sfDividendType` to `sfDividendCoinsVBC` are required by the format, so present
  else if tx.dividendVRank.isNone then temINVALID
  else if tx.dividendVSprd.isNone then temINVALID
  else if config.publicKeyEmpty then tefBAD_AUTH
  else if config.accountPublic ≠ some tx.signingPubKeyAccount then temBAD_SIGNATURE
  else if tx.sequence ≠ 0 || tx.previousTxnID.isSome then temBAD_SEQUENCE
  else tesSUCCESS

/-- `Dividend::preclaim`.  For an `Apply`, the transaction's ledger must be the stored one and
not the one the destination last recorded; for a `Start`, the test that was to keep the
dividend ledgers increasing compares the transaction's ledger with the position of
`sfDividendLedger` in the template.  The stored object always holds its required
`sfDividendLedger`, and an absent `sfDividendLedger` of an account reads as zero. -/
def preclaim (view : DividendView) (tx : DividendTx) : TER :=
  if view.txExists tx.transactionID then tefALREADY
  else if tx.dividendType = divTypeApply then
    if tx.destination.isNone then temDST_NEEDED
    else if tx.dividendCoinsVBCRank.isNone then temINVALID
    else if tx.dividendCoinsVBCSprd.isNone then temINVALID
    else match view.dividend with
      | none => tefBAD_LEDGER
      | some sle =>
        if tx.dividendLedger ≠ sle.dividendLedger then tefBAD_LEDGER
        else match view.accountRoot (tx.destination.getD AccountID.zero) with
          | none => tefEXCEPTION
          | some root => if tx.dividendLedger = root.dividendLedger.getD 0 then tefBAD_LEDGER else tesSUCCESS
  else if tx.dividendType = divTypeStart then
    if tx.dividendHash.isNone then temINVALID
    else match view.dividend with
      | some _ =>
        if DividendField.getFieldIndex .dividendLedger ≥ tx.dividendLedger then tefBAD_LEDGER else tesSUCCESS
      | none => tesSUCCESS
  else temBAD_DIV_TYPE

/-- `invoke_preclaim<Dividend>`: the checks, the transactor's `preclaim` last, run only for a
sender other than the zero account.  The sequence, fee and signature checks before it are
left out. -/
def invokePreclaim (view : DividendView) (tx : DividendTx) : TER :=
  if tx.account ≠ AccountID.zero then preclaim view tx else tesSUCCESS

/-- `startCalc`: write the dividend object, made on first use.  Absent optional fields of the
transaction read as zero. -/
def startCalc (view : DividendView) (tx : DividendTx) : DividendView :=
  let dividendObject := view.dividend.getD DividendSle.blank
  view.setDividend
    { dividendObject with
      dividendState := divStateStart
      dividendLedger := tx.dividendLedger
      dividendCoins := tx.dividendCoins
      dividendCoinsVBC := tx.dividendCoinsVBC
      dividendVRank := some (tx.dividendVRank.getD 0)
      dividendVSprd := some (tx.dividendVSprd.getD 0)
      dividendMarker := some Uint256.zero
      dividendHash := some (tx.dividendHash.getD Uint256.zero) }

/-- The account root `applyTx` writes: each positive dividend added to its balance, the
dividend ledger recorded (`sfDividendLedger` is required, so present), and each rank the
transaction carries. -/
def creditRoot (root : DividendRoot) (tx : DividendTx) : DividendRoot :=
  let root := if 0 < tx.dividendCoinsVBC then { root with balanceVBC := root.balanceVBC + tx.dividendCoinsVBC } else root
  let root := if 0 < tx.dividendCoins then { root with balance := root.balance + tx.dividendCoins } else root
  { root with
    dividendLedger := some tx.dividendLedger
    dividendVRank := tx.dividendVRank.or root.dividendVRank
    dividendVSprd := tx.dividendVSprd.or root.dividendVSprd
    dividendTSprd := tx.dividendTSprd.or root.dividendTSprd }

/-- `updateDividendMap`: stamp the dividend object with the unsigned hash.  A missing object
is a null pointer, dereferenced. -/
def updateDividendMap (view : DividendView) (tx : DividendTx) : Option DividendView :=
  view.dividend.map fun sle => view.setDividend { sle with dividendMarker := some tx.unsignedHash }

/-- `applyTx`: credit the destination (an absent `sfDestination` reads as the zero account)
and create the coins, then `updateDividendMap`. -/
def applyTx (view : DividendView) (tx : DividendTx) : Option (TER × DividendView) :=
  let account := tx.destination.getD AccountID.zero
  match view.accountRoot account with
  | none => some (tefBAD_LEDGER, view)
  | some root =>
    let view := view.createVBC (if 0 < tx.dividendCoinsVBC then tx.dividendCoinsVBC else 0)
    let view := view.createXRP (if 0 < tx.dividendCoins then tx.dividendCoins else 0)
    let view := view.setAccountRoot account (creditRoot root tx)
    (updateDividendMap view tx).map fun view => (tesSUCCESS, view)

/-- `Dividend::doApply`, on the dividend type (required by the format, so present). -/
def doApply (view : DividendView) (tx : DividendTx) : Option (TER × DividendView) :=
  if tx.dividendType = divTypeStart then some (tesSUCCESS, startCalc view tx)
  else if tx.dividendType = divTypeApply then applyTx view tx
  else some (temUNKNOWN, view)

end Dividend

/-- `ripple::apply` of a dividend transaction: `preflight`, `invoke_preclaim`, the duplicate
test of `doApply`, and `Transactor::operator()`.  The sender is the zero account, which has
no root, so `Transactor::apply` goes straight to `doApply`; only a success applies, since the
other codes are `tef` and `tem` codes, which claim no fee, and the fee is zero. -/
def applyDividend (config : DividendConfig) (view : DividendView) (tx : DividendTx) :
    Option (TER × DividendView) :=
  let ter := Dividend.preflight config tx
  if ter ≠ tesSUCCESS then some (ter, view)
  else
    let ter := Dividend.invokePreclaim view tx
    if ter ≠ tesSUCCESS then some (ter, view)
    else if view.txExists tx.transactionID then some (tefALREADY, view)
    else match Dividend.doApply view tx with
      | none => none
      | some (ter, after) => if ter = tesSUCCESS then some (ter, after.insertTx tx.transactionID) else some (ter, view)

/-- Dividend transactions applied one after the other to a ledger: each result, and the
ledger after the last. -/
def runDividend (config : DividendConfig) : DividendView → List DividendTx → Option (List TER × DividendView)
  | view, [] => some ([], view)
  | view, tx :: rest => do
    let (ter, next) ← applyDividend config view tx
    let (ters, last) ← runDividend config next rest
    return (ter :: ters, last)

/-! ## What one transaction does -/

namespace Dividend

variable {config : DividendConfig} {view after : DividendView} {tx : DividendTx} {ter : TER}

/-- `preflight` lets through only a transaction from the zero account. -/
theorem account_eq_zero_of_preflight (passed : preflight config tx = tesSUCCESS) :
    tx.account = AccountID.zero := by
  unfold preflight at passed
  split_ifs at passed with zeroID sender
  · cases passed
  · cases passed
  all_goals exact not_not.mp sender

/-- `Dividend::preclaim` is never run: a transaction `preflight` lets through comes from the
zero account, for which `invoke_preclaim` passes. -/
theorem invokePreclaim_of_preflight (passed : preflight config tx = tesSUCCESS) :
    invokePreclaim view tx = tesSUCCESS := by
  simp [invokePreclaim, account_eq_zero_of_preflight passed]

/-- A `Start` always succeeds, writing the dividend object. -/
theorem doApply_start (start : tx.dividendType = divTypeStart) :
    doApply view tx = some (tesSUCCESS, startCalc view tx) := by
  simp [doApply, start]

@[simp] theorem accountRoot_startCalc : (startCalc view tx).accountRoot = view.accountRoot := rfl

@[simp] theorem drops_startCalc : (startCalc view tx).drops = view.drops := rfl

@[simp] theorem dropsVBC_startCalc : (startCalc view tx).dropsVBC = view.dropsVBC := rfl

@[simp] theorem storedLedger_startCalc : (startCalc view tx).storedLedger = some tx.dividendLedger := rfl

@[simp] theorem balance_creditRoot (root : DividendRoot) :
    (creditRoot root tx).balance = root.balance + tx.dividendCoins := by
  unfold creditRoot
  split_ifs <;> simp_all [Nat.eq_zero_of_not_pos]

@[simp] theorem balanceVBC_creditRoot (root : DividendRoot) :
    (creditRoot root tx).balanceVBC = root.balanceVBC + tx.dividendCoinsVBC := by
  unfold creditRoot
  split_ifs <;> simp_all [Nat.eq_zero_of_not_pos]

@[simp] theorem dividendLedger_creditRoot (root : DividendRoot) :
    (creditRoot root tx).dividendLedger = some tx.dividendLedger := by
  unfold creditRoot
  split_ifs <;> rfl

/-- The coins created under a positivity test are the dividend itself. -/
@[simp] theorem ite_pos_self (coins : Nat) : (if 0 < coins then coins else 0) = coins := by
  split_ifs with positive
  · rfl
  · exact (Nat.eq_zero_of_not_pos positive).symm

/-- What an `Apply` does: refused when the destination has no root; otherwise the destination
is credited, the coins are created, and the dividend object, which must be there, is
stamped. -/
theorem applyTx_eq_some (done : applyTx view tx = some (ter, after)) :
    (ter = tefBAD_LEDGER ∧ after = view) ∨
    (ter = tesSUCCESS ∧ ∃ root sle, view.accountRoot (tx.destination.getD AccountID.zero) = some root ∧
      view.dividend = some sle ∧
      after.accountRoot = Function.update view.accountRoot (tx.destination.getD AccountID.zero)
        (some (creditRoot root tx)) ∧
      after.drops = view.drops + tx.dividendCoins ∧ after.dropsVBC = view.dropsVBC + tx.dividendCoinsVBC ∧
      after.dividend = some { sle with dividendMarker := some tx.unsignedHash }) := by
  unfold applyTx at done
  dsimp only at done
  split at done
  · rename_i missing
    obtain ⟨rfl, rfl⟩ := Prod.mk.inj (Option.some.inj done)
    exact .inl ⟨rfl, rfl⟩
  · rename_i root found
    obtain ⟨stamped, stampedIs, same⟩ := Option.map_eq_some_iff.mp done
    obtain ⟨rfl, rfl⟩ := Prod.mk.inj same
    obtain ⟨sle, present, rfl⟩ := Option.map_eq_some_iff.mp stampedIs
    refine .inr ⟨rfl, root, sle, found, by simpa using present, rfl, by simp, by simp, rfl⟩

/-- A transaction `doApply` applies is a `Start` or an `Apply` that succeeded. -/
theorem doApply_eq_some (done : doApply view tx = some (tesSUCCESS, after)) :
    (tx.dividendType = divTypeStart ∧ after = startCalc view tx) ∨
    (tx.dividendType = divTypeApply ∧ applyTx view tx = some (tesSUCCESS, after)) := by
  unfold doApply at done
  split_ifs at done with start apply
  · exact .inl ⟨start, (Prod.mk.inj (Option.some.inj done)).2.symm⟩
  · exact .inr ⟨apply, done⟩
  · cases (Prod.mk.inj (Option.some.inj done)).1

end Dividend

open Dividend

variable {config : DividendConfig} {view after : DividendView} {tx : DividendTx} {ter : TER}

/-- Past `preflight` and the duplicate test, a dividend transaction is whatever `doApply`
makes of it: nothing of the dividend object or of the destination's root is checked. -/
theorem applyDividend_of_preflight (passed : preflight config tx = tesSUCCESS)
    (fresh : view.txExists tx.transactionID = false) :
    applyDividend config view tx =
      (doApply view tx).map fun result =>
        if result.1 = tesSUCCESS then (result.1, result.2.insertTx tx.transactionID) else (result.1, view) := by
  unfold applyDividend
  simp only [passed, invokePreclaim_of_preflight passed, fresh, ne_eq, not_true_eq_false, if_false,
    Bool.false_eq_true]
  rcases doApply view tx with _ | ⟨ter, after⟩
  · rfl
  · by_cases success : ter = tesSUCCESS <;> simp [success]

/-- A dividend transaction either changes nothing, or passed `preflight` and the duplicate
test and was applied by `doApply`. -/
theorem applyDividend_eq_some (applied : applyDividend config view tx = some (ter, after)) :
    (ter ≠ tesSUCCESS ∧ after = view) ∨
    (ter = tesSUCCESS ∧ preflight config tx = tesSUCCESS ∧ view.txExists tx.transactionID = false ∧
      ∃ next, doApply view tx = some (tesSUCCESS, next) ∧ after = next.insertTx tx.transactionID) := by
  unfold applyDividend at applied
  dsimp only at applied
  split_ifs at applied with refused refusedLater already
  · obtain ⟨rfl, rfl⟩ := Prod.mk.inj (Option.some.inj applied)
    exact .inl ⟨refused, rfl⟩
  · obtain ⟨rfl, rfl⟩ := Prod.mk.inj (Option.some.inj applied)
    exact .inl ⟨refusedLater, rfl⟩
  · obtain ⟨rfl, rfl⟩ := Prod.mk.inj (Option.some.inj applied)
    exact .inl ⟨by decide, rfl⟩
  · rcases done : doApply view tx with _ | ⟨result, next⟩ <;> rw [done] at applied
    · cases applied
    · dsimp only at applied
      split_ifs at applied with success
      · obtain ⟨rfl, rfl⟩ := Prod.mk.inj (Option.some.inj applied)
        exact .inr ⟨success, not_not.mp refused, by simpa using already, next, by rw [success], rfl⟩
      · obtain ⟨rfl, rfl⟩ := Prod.mk.inj (Option.some.inj applied)
        exact .inl ⟨success, rfl⟩

/-! ## The coins created and credited -/

namespace Dividend

/-- The dividend a transaction's outcome credits, in VRP (`dividendCoins`) or VBC
(`dividendCoinsVBC`): that of an `Apply` that succeeded. -/
def credited (coins : DividendTx → Nat) (ter : TER) (tx : DividendTx) : Nat :=
  if ter = tesSUCCESS ∧ tx.dividendType = divTypeApply then coins tx else 0

/-- What the outcome credits to one account: the destination of the transaction. -/
def creditedTo (coins : DividendTx → Nat) (account : AccountID) (ter : TER) (tx : DividendTx) : Nat :=
  if tx.destination.getD AccountID.zero = account then credited coins ter tx else 0

/-- What a run credits, over its results and transactions. -/
def creditedIn (coins : DividendTx → Nat) (ters : List TER) (txs : List DividendTx) : Nat :=
  ((ters.zip txs).map fun (ter, tx) => credited coins ter tx).sum

/-- What a run credits to one account. -/
def creditedToIn (coins : DividendTx → Nat) (account : AccountID) (ters : List TER) (txs : List DividendTx) : Nat :=
  ((ters.zip txs).map fun (ter, tx) => creditedTo coins account ter tx).sum

@[simp] theorem credited_of_ne {coins : DividendTx → Nat} {ter : TER} {tx : DividendTx} (refused : ter ≠ tesSUCCESS) :
    credited coins ter tx = 0 := by
  simp [credited, refused]

@[simp] theorem credited_of_start {coins : DividendTx → Nat} {ter : TER} {tx : DividendTx}
    (start : tx.dividendType = divTypeStart) : credited coins ter tx = 0 := by
  simp [credited, start, divTypeStart, divTypeApply]

@[simp] theorem credited_of_apply {coins : DividendTx → Nat} {tx : DividendTx} (apply : tx.dividendType = divTypeApply) :
    credited coins tesSUCCESS tx = coins tx := by
  simp [credited, apply]

end Dividend

/-- One transaction: the header gains exactly the dividend it credits, in VRP and in VBC, and
that dividend goes to the destination's balance and to no other. -/
theorem applyDividend_accounting (applied : applyDividend config view tx = some (ter, after)) :
    after.drops = view.drops + credited DividendTx.dividendCoins ter tx ∧
    after.dropsVBC = view.dropsVBC + credited DividendTx.dividendCoinsVBC ter tx ∧
    ∀ account, after.balanceOf account = view.balanceOf account + creditedTo DividendTx.dividendCoins account ter tx ∧
      after.balanceVBCOf account = view.balanceVBCOf account + creditedTo DividendTx.dividendCoinsVBC account ter tx := by
  rcases applyDividend_eq_some applied with ⟨refused, rfl⟩ | ⟨rfl, -, -, next, done, rfl⟩
  · simp [creditedTo, refused]
  rcases doApply_eq_some done with ⟨start, rfl⟩ | ⟨apply, applyDone⟩
  · simp [creditedTo, start, DividendView.balanceOf, DividendView.balanceVBCOf]
  rcases applyTx_eq_some applyDone with ⟨bad, -⟩ | ⟨-, root, sle, found, -, roots, drops, dropsVBC, -⟩
  · cases bad
  refine ⟨by simp [drops, apply], by simp [dropsVBC, apply], fun account => ?_⟩
  -- only the destination's root changes
  by_cases destination : tx.destination.getD AccountID.zero = account
  · subst destination
    simp [creditedTo, apply, DividendView.balanceOf, DividendView.balanceVBCOf, roots, found]
  · have other : next.accountRoot account = view.accountRoot account := by
      rw [roots, Function.update_of_ne (Ne.symm destination)]
    simp [creditedTo, destination, DividendView.balanceOf, DividendView.balanceVBCOf, other]

/-- A run is its first transaction and the run of the rest. -/
theorem runDividend_cons_eq_some {rest : List DividendTx} {ters : List TER}
    (ran : runDividend config view (tx :: rest) = some (ters, after)) :
    ∃ ter next later, applyDividend config view tx = some (ter, next) ∧
      runDividend config next rest = some (later, after) ∧ ters = ter :: later := by
  simp only [runDividend, Option.bind_eq_bind, Option.bind_eq_some_iff, Option.pure_def] at ran
  obtain ⟨⟨ter, next⟩, stepped, ⟨later, last⟩, ranRest, same⟩ := ran
  obtain ⟨rfl, rfl⟩ := Prod.mk.inj (Option.some.inj same)
  exact ⟨ter, next, later, stepped, ranRest, rfl⟩

/-- Along every run of dividend transactions, the header gains exactly the dividends the run
credits, in VRP and in VBC, and each account's balances gain exactly what the run credits to
it. -/
theorem runDividend_accounting {txs : List DividendTx} {ters : List TER}
    (ran : runDividend config view txs = some (ters, after)) :
    after.drops = view.drops + creditedIn DividendTx.dividendCoins ters txs ∧
    after.dropsVBC = view.dropsVBC + creditedIn DividendTx.dividendCoinsVBC ters txs ∧
    ∀ account, after.balanceOf account = view.balanceOf account + creditedToIn DividendTx.dividendCoins account ters txs ∧
      after.balanceVBCOf account = view.balanceVBCOf account + creditedToIn DividendTx.dividendCoinsVBC account ters txs := by
  -- induction on the transactions, the first step's accounting added to that of the rest
  induction txs generalizing view ters with
  | nil =>
    obtain ⟨rfl, rfl⟩ := Prod.mk.inj (Option.some.inj ran)
    simp [creditedIn, creditedToIn]
  | cons tx rest ih =>
    obtain ⟨ter, next, later, stepped, ranRest, rfl⟩ := runDividend_cons_eq_some ran
    obtain ⟨drops, dropsVBC, balances⟩ := applyDividend_accounting stepped
    obtain ⟨dropsRest, dropsVBCRest, balancesRest⟩ := ih ranRest
    simp only [creditedIn, creditedToIn, List.zip_cons_cons, List.map_cons, List.sum_cons, Nat.cast_add] at *
    refine ⟨by omega, by omega, fun account => ?_⟩
    obtain ⟨balance, balanceVBC⟩ := balances account
    obtain ⟨balanceRest, balanceVBCRest⟩ := balancesRest account
    exact ⟨by omega, by omega⟩

/-! ## The checks that never run -/

namespace Dividend

variable {view : DividendView} {tx : DividendTx}

/-- Even where it would run, `preclaim` lets through a `Start` whose ledger is above the
position of `sfDividendLedger` in the template, whatever ledger is stored. -/
theorem preclaim_start (fresh : view.txExists tx.transactionID = false) (start : tx.dividendType = divTypeStart)
    (hashed : tx.dividendHash.isSome) (above : DividendField.getFieldIndex .dividendLedger < tx.dividendLedger) :
    preclaim view tx = tesSUCCESS := by
  have notNone : tx.dividendHash.isNone = false := by simpa using hashed
  unfold preclaim
  simp only [fresh, start, notNone, divTypeStart_ne_divTypeApply, Bool.false_eq_true, if_false, if_true]
  split
  · exact if_neg (Nat.not_le.mpr above)
  · rfl

/-- The position `preclaim` compares is four: the three common fields and `sfDividendState`
come first. -/
example : DividendField.getFieldIndex .dividendLedger = 4 := by decide

end Dividend

/-- A `Start` that passes `preflight` is applied whatever dividend ledger is stored, and
replaces it, with a lower ledger as well as a higher one. -/
theorem applyDividend_start (passed : preflight config tx = tesSUCCESS)
    (fresh : view.txExists tx.transactionID = false) (start : tx.dividendType = divTypeStart) :
    applyDividend config view tx = some (tesSUCCESS, (startCalc view tx).insertTx tx.transactionID) := by
  rw [applyDividend_of_preflight passed fresh, doApply_start start]
  simp

/-- An `Apply` that passes `preflight`, to an account with a root while there is a dividend
object, is applied whatever ledger the object stores and whatever ledger the account last
recorded: the account is credited, and the stored ledger stays. -/
theorem applyDividend_apply (passed : preflight config tx = tesSUCCESS)
    (fresh : view.txExists tx.transactionID = false) (apply : tx.dividendType = divTypeApply)
    {root : DividendRoot} {sle : DividendSle}
    (found : view.accountRoot (tx.destination.getD AccountID.zero) = some root) (present : view.dividend = some sle) :
    ∃ after, applyDividend config view tx = some (tesSUCCESS, after) ∧ after.storedLedger = view.storedLedger ∧
      after.accountRoot (tx.destination.getD AccountID.zero) = some (creditRoot root tx) := by
  rw [applyDividend_of_preflight passed fresh]
  simp only [doApply, apply, divTypeApply_ne_divTypeStart, applyTx, found, updateDividendMap, if_false, if_true,
    ite_pos_self, DividendView.dividend_setAccountRoot, DividendView.dividend_createXRP, DividendView.dividend_createVBC,
    present, Option.map_some]
  refine ⟨_, rfl, ?_, ?_⟩
  · simp [DividendView.storedLedger, DividendView.setDividend, present]
  · simp [DividendView.setDividend, DividendView.setAccountRoot]

/-! ## A dividend ledger rewound, and an account paid twice -/

/-- The dividend key is that of account 7. -/
def rewoundConfig : DividendConfig := ⟨false, some (AccountID.ofNat 7)⟩

/-- No dividend object yet, and account 1 with nothing. -/
def rewoundLedger : DividendView :=
  ⟨none, fun account => if account = AccountID.ofNat 1 then some ⟨0, 0, none, none, none, none⟩ else none, 0, 0, []⟩

/-- A `Start` for a ledger as `launchDividend` builds it: from the zero account to the zero
destination, with a zero fee, no sequence and the dividend key; `id` stands for its ID and
unsigned hash. -/
def rewoundStart (id ledgerIndex : Nat) : DividendTx where
  transactionID := Uint256.ofNat id
  account := AccountID.zero
  fee := STAmount.ofXRPAmount 0
  sequence := 0
  previousTxnID := none
  signingPubKeyAccount := AccountID.ofNat 7
  dividendType := divTypeStart
  dividendLedger := ledgerIndex
  destination := some AccountID.zero
  dividendCoins := 30
  dividendCoinsVBC := 30
  dividendCoinsVBCRank := none
  dividendCoinsVBCSprd := none
  dividendVRank := some 1
  dividendVSprd := some 1
  dividendTSprd := none
  dividendHash := some (Uint256.ofNat 9)
  unsignedHash := Uint256.ofNat id

/-- An `Apply` for a ledger as `dumpTransactionMap` builds it, paying `coins` of each coin to
account 1. -/
def rewoundPayout (id ledgerIndex coins : Nat) : DividendTx where
  transactionID := Uint256.ofNat id
  account := AccountID.zero
  fee := STAmount.ofXRPAmount 0
  sequence := 0
  previousTxnID := none
  signingPubKeyAccount := AccountID.ofNat 7
  dividendType := divTypeApply
  dividendLedger := ledgerIndex
  destination := some (AccountID.ofNat 1)
  dividendCoins := coins
  dividendCoinsVBC := coins
  dividendCoinsVBCRank := some coins
  dividendCoinsVBCSprd := some 0
  dividendVRank := some 1
  dividendVSprd := some 1
  dividendTSprd := some 1
  dividendHash := none
  unsignedHash := Uint256.ofNat id

/-- Four dividend transactions, all applied: a `Start` for ledger 100, an `Apply` of it to
account 1, a `Start` for ledger 50 while 100 is stored, and a second `Apply` of ledger 100 to
account 1 while 50 is stored.  Account 1 is paid twice for ledger 100. -/
theorem dividend_paid_twice_for_one_ledger :
    ∃ first second third fourth : DividendView,
      applyDividend rewoundConfig rewoundLedger (rewoundStart 1 100) = some (tesSUCCESS, first) ∧
      applyDividend rewoundConfig first (rewoundPayout 2 100 10) = some (tesSUCCESS, second) ∧
      second.storedLedger = some 100 ∧
      applyDividend rewoundConfig second (rewoundStart 3 50) = some (tesSUCCESS, third) ∧
      third.storedLedger = some 50 ∧
      applyDividend rewoundConfig third (rewoundPayout 4 100 20) = some (tesSUCCESS, fourth) ∧
      fourth.balanceOf (AccountID.ofNat 1) = 30 := by
  refine ⟨_, _, _, _, rfl, rfl, rfl, rfl, rfl, rfl, by decide⟩

end RadardFormal.Tx
