import RadardFormal.Tx.SignerList

/-!
# `SetRegularKey` and the keys an account signs with

An account signs with its master key, with the regular key it names in `sfRegularKey`,
or through its signer list.  `SetRegularKey` sets or clears the regular key; clearing
it is refused while the master key is disabled and there is no signer list.

`checkSingleSign` takes a signing key for the master key whenever its account is the
sender's, before it looks at `sfRegularKey`.  A regular key equal to the sender's own
account therefore never signs: with the master key disabled and no signer list such an
account can sign nothing at all.  `SetRegularKey` does not refuse that value, and a
transaction signed by the old regular key can set it.
-/

namespace RadardFormal.Tx

open RadardFormal.Protocol RadardFormal.Support RadardFormal.Ledger TER ViewM

namespace SetRegularKey

/-- `SetRegularKey::calculateBaseFee`: the first key change signed with the master key,
while `lsfPasswordSpent` is clear, is free. -/
def calculateBaseFee (view : OpenView) (tx : STTx) : Nat :=
  match view.account? tx.account with
  | some sle =>
    if !hasFlag sle.flags lsfPasswordSpent && tx.signingPubKeyAccount == tx.account then 0
    else Transactor.calculateBaseFee view tx
  | none => Transactor.calculateBaseFee view tx

/-- `SetRegularKey::preflight`, without the signature check of `preflight2`. -/
def preflight (tx : STTx) : TER :=
  let ret := Transactor.preflight1 tx
  if ret != tesSUCCESS then ret
  else if hasFlag tx.flags tfUniversalMask then temINVALID_FLAG
  else tesSUCCESS

/-- `SetRegularKey::doApply`. -/
def doApply (ctx : ApplyContext) (self : Transactor) : ViewM TER := do
  let some sle ← peekAccount self.account | failure
  if self.feeDue == 0 then
    pokeAccount self.account { sle with flags := sle.flags ||| lsfPasswordSpent }
  -- Both writes go through one pointer: read the entry again.
  let some sle ← peekAccount self.account | failure
  match ctx.tx.regularKey with
  | some regularKey =>
    pokeAccount self.account { sle with regularKey := some regularKey }
    return tesSUCCESS
  | none =>
    if hasFlag sle.flags lsfDisableMaster &&
        (← peekAs SLE.signerList? (.signers self.account)).isNone then
      return tecNO_ALTERNATIVE_KEY
    pokeAccount self.account { sle with regularKey := none }
    return tesSUCCESS

end SetRegularKey

/-! ## Accounts that can no longer sign -/

/-- An account has a way to sign other than its master key: a signer list, or a regular
key that `checkSingleSign` takes for one, which is any key but the account's own. -/
def hasSigningMethod (view : OpenView) (account : AccountID) : Bool :=
  (view.signerList? account).isSome ||
    ((view.account? account).bind AccountRoot.regularKey).any (· != account)

/-- Without a signing method, the regular key is absent or the account's own. -/
theorem regularKey_of_not_hasSigningMethod {view : OpenView} {account : AccountID}
    {root : AccountRoot} (found : view.account? account = some root)
    (locked : hasSigningMethod view account = false) :
    view.signerList? account = none ∧ ∀ key, root.regularKey = some key → key = account := by
  unfold hasSigningMethod at locked
  rw [found, Option.bind_some, Bool.or_eq_false_iff] at locked
  obtain ⟨noList, noKey⟩ := locked
  refine ⟨by simpa using noList, fun key named => ?_⟩
  simpa [named] using noKey

/-- `checkSingleSign` accepts only the master key, if not disabled, or a regular key
other than the account's own. -/
theorem checkSingleSign_accepts {view : OpenView} {tx : STTx} {root : AccountRoot}
    (found : view.account? tx.account = some root)
    (accepted : Transactor.checkSingleSign view tx = some tesSUCCESS) :
    (tx.signingPubKeyAccount = tx.account ∧ hasFlag root.flags lsfDisableMaster = false) ∨
    (tx.signingPubKeyAccount ≠ tx.account ∧ root.regularKey = some tx.signingPubKeyAccount) := by
  unfold Transactor.checkSingleSign at accepted
  rw [found, Option.bind_eq_bind, Option.bind_some] at accepted
  by_cases master : tx.signingPubKeyAccount = tx.account
  · refine .inl ⟨master, ?_⟩
    simp only [master, beq_self_eq_true, ↓reduceIte, Option.pure_def, Option.some.injEq] at accepted
    by_contra disabled
    simp only [Bool.not_eq_false] at disabled
    simp only [disabled, ↓reduceIte] at accepted
    exact absurd accepted (by decide)
  · refine .inr ⟨master, ?_⟩
    simp only [beq_iff_eq, master, ↓reduceIte] at accepted
    cases key : root.regularKey with
    | none =>
      simp only [key, Option.pure_def, Option.some.injEq] at accepted
      exact absurd accepted (by decide)
    | some regularKey =>
      simp only [key, Option.pure_def, Option.some.injEq] at accepted
      by_cases same : tx.signingPubKeyAccount = regularKey
      · rw [same]
      · simp only [same, ↓reduceIte] at accepted
        exact absurd accepted (by decide)

/-- A master-disabled account with no signing method signs nothing: `checkSign`
refuses every transaction from it, single-signed or multi-signed. -/
theorem checkSign_refuses_locked {view : OpenView} {tx : STTx} {root : AccountRoot}
    (flags : ApplyFlags) (found : view.account? tx.account = some root)
    (disabled : hasFlag root.flags lsfDisableMaster = true)
    (locked : hasSigningMethod view tx.account = false) :
    Transactor.checkSign view tx flags ≠ some tesSUCCESS := by
  obtain ⟨noList, ownKey⟩ := regularKey_of_not_hasSigningMethod found locked
  intro accepted
  unfold Transactor.checkSign at accepted
  split at accepted
  · -- Multi-signing needs the list the account does not have.
    simp only [Transactor.checkMultiSign, noList, Option.pure_def, Option.some.injEq] at accepted
    exact absurd accepted (by decide)
  · rcases checkSingleSign_accepts found accepted with ⟨-, enabled⟩ | ⟨other, named⟩
    · rw [disabled] at enabled
      cases enabled
    · exact other (ownKey _ named)

/-- Account 7, its master key disabled, with regular key 8 and no signer list: 1000
drops at sequence 5, in a closed ledger. -/
def keyedRoot : AccountRoot :=
  ⟨AccountID.ofNat 7, 1000, 0, 5, 0, lsfDisableMaster, some (AccountID.ofNat 8), none, none, none⟩

def keyedLedger : OpenView :=
  ⟨AList.singleton (.account (AccountID.ofNat 7)) (.accountRoot keyedRoot), 100000, 0, [], 10, 0,
    false, ⟨10, 10, 200, 50⟩, ⟨true⟩⟩

/-- A `SetRegularKey` from account 7, signed with its regular key 8, that names the
account itself as the new regular key. -/
def selfKeyTx : STTx :=
  { STTx.make .ttREGULAR_KEY_SET (AccountID.ofNat 7) 5 10 with
    signingPubKeyAccount := AccountID.ofNat 8
    regularKey := some (AccountID.ofNat 7) }

def selfKeyContext : ApplyContext :=
  ⟨selfKeyTx, tesSUCCESS, SetRegularKey.calculateBaseFee keyedLedger selfKeyTx, .tapNONE, ⟨none⟩⟩

/-- The ledger after that transaction: the regular key is the account's own, the sequence
and the fee are taken, and the fee is destroyed. -/
def lockedLedger : OpenView :=
  { keyedLedger with
    stateMap := keyedLedger.stateMap.insert (.account (AccountID.ofNat 7))
      (.accountRoot { keyedRoot with
        balance := 990, sequence := 6, regularKey := some (AccountID.ofNat 7) })
    drops := keyedLedger.drops - 10
    txs := [Uint256.zero] }

/-- An account that could sign with its regular key sets that key to its own account: the
transaction passes every check and succeeds, and afterwards no transaction from the
account passes `checkSign`. -/
theorem regular_key_set_to_self_locks_account :
    hasSigningMethod keyedLedger (AccountID.ofNat 7) = true ∧
    SetRegularKey.preflight selfKeyTx = tesSUCCESS ∧
    Transactor.checkSeq keyedLedger selfKeyTx .tapNONE = tesSUCCESS ∧
    Transactor.checkFee keyedLedger selfKeyTx (SetRegularKey.calculateBaseFee keyedLedger selfKeyTx) =
      some tesSUCCESS ∧
    Transactor.checkSign keyedLedger selfKeyTx .tapNONE = some tesSUCCESS ∧
    operator selfKeyContext (SetRegularKey.doApply selfKeyContext) keyedLedger =
      some (tesSUCCESS, true, lockedLedger) ∧
    hasSigningMethod lockedLedger (AccountID.ofNat 7) = false ∧
    ∀ (tx : STTx) (flags : ApplyFlags), tx.account = AccountID.ofNat 7 →
      Transactor.checkSign lockedLedger tx flags ≠ some tesSUCCESS := by
  have locked : hasSigningMethod lockedLedger (AccountID.ofNat 7) = false := by decide +kernel
  refine ⟨by decide +kernel, by decide +kernel, by decide +kernel, by decide +kernel,
    by decide +kernel, by rfl, locked, fun tx flags sender => ?_⟩
  have found : lockedLedger.account? tx.account =
      some { keyedRoot with balance := 990, sequence := 6, regularKey := some (AccountID.ofNat 7) } := by
    rw [sender]
    decide +kernel
  exact checkSign_refuses_locked flags found (by decide) (sender ▸ locked)

end RadardFormal.Tx
