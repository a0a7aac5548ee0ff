import RadardFormal.Protocol.STAmount

/-!
# Signed transactions

`STTx` keeps the common fields of a transaction and the type-specific fields that the
modelled transactors read.  A field the transaction format marks optional is an
`Option`; a required or defaulted one is read as `STObject::getFieldByValue` gives it.

Public keys enter the model only through the account each one hashes to
(`calcAccountID`), and a signature only through whether it verifies: the curve
arithmetic and the hashes are not modelled.  `checkMultiSign` is the transaction's
own half of multi-signing (`STTx::checkMultiSign`): the shape of `sfSigners`.
-/

namespace RadardFormal.Protocol

/-- `enum TxType`, for the types `applySteps` dispatches. -/
inductive TxType where
  | ttPAYMENT
  | ttSUSPAY_CREATE
  | ttSUSPAY_FINISH
  | ttACCOUNT_SET
  | ttSUSPAY_CANCEL
  | ttREGULAR_KEY_SET
  | ttOFFER_CREATE
  | ttOFFER_CANCEL
  | ttTICKET_CREATE
  | ttTICKET_CANCEL
  | ttSIGNER_LIST_SET
  | ttTRUST_SET
  | ttAMENDMENT
  | ttFEE
  | ttDIVIDEND
  | ttADDREFEREE
  | ttACTIVEACCOUNT
  | ttISSUE
  | ttRING_DEPOSIT
  | ttRING_WITHDRAW
  | ttRING_CANCEL
  | ttPROPOSAL_CREATE
  | ttPROPOSAL_CLOSE
  | ttPROPOSAL_VOTE
  | ttASSET_RELEASE
  deriving DecidableEq, Repr

/-- One `sfSigner` of a multi-signed transaction. -/
structure TxSigner where
  account : AccountID
  /-- `calcAccountID` of the signer's `sfSigningPubKey`. -/
  signingPubKeyAccount : AccountID
  /-- Whether its `sfTxnSignature` verifies over the multi-signing data. -/
  signatureVerifies : Bool
  deriving DecidableEq, Repr

/-- One `sfLimit` entry of an `ActiveAccount`: a trust line to open for the new account. -/
structure TrustLimit where
  limitAmount : STAmount
  qualityIn : Option Nat
  qualityOut : Option Nat
  flags : Nat
  deriving DecidableEq, Repr

/-- A transaction. -/
structure STTx where
  txnType : TxType
  account : AccountID
  fee : STAmount
  sequence : Nat
  transactionID : Uint256
  flags : Nat
  accountTxnID : Option Uint256
  lastLedgerSequence : Option Nat
  /-- `sfSigningPubKey` is empty: the transaction claims to be multi-signed. -/
  signingPubKeyEmpty : Bool
  /-- `calcAccountID` of `sfSigningPubKey`. -/
  signingPubKeyAccount : AccountID
  hasTxnSignature : Bool
  signers : Option (List TxSigner)
  regularKey : Option AccountID
  setFlag : Nat
  clearFlag : Nat
  transferRate : Option Nat
  messageKey : Option (List UInt8)
  domain : Option (List UInt8)
  signerQuorum : Nat
  signerEntries : Option (List (AccountID × Nat))
  amount : STAmount
  amounts : Option (List STAmount)
  limits : Option (List TrustLimit)
  hasPaths : Bool
  sendMax : Option STAmount
  reference : AccountID
  referee : AccountID
  ringIndex : Nat
  publicKeyPair : List Uint256
  keyImage : List Uint256
  signatures : List Uint256
  digest : Uint256
  deriving DecidableEq, Repr

namespace STTx

/-- A single-signed transaction of a type, from an account, with a sequence number and a
fee in drops, every type-specific field absent or zero. -/
def make (txnType : TxType) (account : AccountID) (sequence : Nat) (fee : Int) : STTx where
  txnType := txnType
  account := account
  fee := .ofXRPAmount fee
  sequence := sequence
  transactionID := Uint256.zero
  flags := 0
  accountTxnID := none
  lastLedgerSequence := none
  signingPubKeyEmpty := false
  signingPubKeyAccount := account
  hasTxnSignature := true
  signers := none
  regularKey := none
  setFlag := 0
  clearFlag := 0
  transferRate := none
  messageKey := none
  domain := none
  signerQuorum := 0
  signerEntries := none
  amount := .ofXRPAmount 0
  amounts := none
  limits := none
  hasPaths := false
  sendMax := none
  reference := AccountID.zero
  referee := AccountID.zero
  ringIndex := 0
  publicKeyPair := []
  keyImage := []
  signatures := []
  digest := Uint256.zero

/-- `STTx::minMultiSigners`. -/
def minMultiSigners : Nat := 1

/-- `STTx::maxMultiSigners`. -/
def maxMultiSigners : Nat := 8

/-- The loop of `STTx::checkMultiSign`: each signer differs from the transaction's
account, comes strictly after the one before it, and its signature verifies. -/
def checkSigners (txnAccountID : AccountID) : AccountID → List TxSigner → Bool
  | _, [] => true
  | lastAccountID, signer :: rest =>
      if signer.account == txnAccountID then false
      else if lastAccountID ≥ signer.account then false
      else if !signer.signatureVerifies then false
      else checkSigners txnAccountID signer.account rest

/-- `STTx::checkMultiSign`. -/
def checkMultiSign (tx : STTx) : Bool :=
  match tx.signers with
  | none => false
  | some signers =>
      if tx.hasTxnSignature then false
      else if signers.length < minMultiSigners || signers.length > maxMultiSigners then false
      else checkSigners tx.account AccountID.zero signers


/-- The signers `checkSigners` accepts increase strictly, starting above `lastAccountID`. -/
theorem checkSigners_increasing (txnAccountID : AccountID) :
    ∀ (lastAccountID : AccountID) (signers : List TxSigner),
      checkSigners txnAccountID lastAccountID signers = true →
        (signers.map TxSigner.account).Pairwise (· < ·) ∧
          ∀ signer ∈ signers, lastAccountID < signer.account
  | _, [], _ => by simp
  | lastAccountID, signer :: rest, accepted => by
    unfold checkSigners at accepted
    have notSelf : ¬ (signer.account == txnAccountID) = true := by
      intro self; simp [self] at accepted
    have above : lastAccountID < signer.account := by
      by_contra notAbove
      simp [notSelf, not_lt.mp notAbove] at accepted
    have verifies : signer.signatureVerifies = true := by
      by_contra fails
      simp [notSelf, not_le.mpr above, fails] at accepted
    simp only [notSelf, Bool.false_eq_true, ↓reduceIte, ge_iff_le, not_le.mpr above, verifies,
      Bool.not_true] at accepted
    obtain ⟨increasing, restAbove⟩ := checkSigners_increasing txnAccountID signer.account rest accepted
    refine ⟨List.pairwise_cons.mpr ⟨?_, increasing⟩, ?_⟩
    · intro account member
      obtain ⟨later, laterMem, rfl⟩ := List.mem_map.mp member
      exact restAbove later laterMem
    · intro each member
      rcases List.mem_cons.mp member with rfl | later
      · exact above
      · exact lt_trans above (restAbove each later)

/-- A well-formed multi-signed transaction lists its signers in strictly increasing order. -/
theorem checkMultiSign_increasing {tx : STTx} (wellFormed : tx.checkMultiSign = true) :
    ((tx.signers.getD []).map TxSigner.account).Pairwise (· < ·) := by
  unfold checkMultiSign at wellFormed
  cases present : tx.signers with
  | none => simp [present] at wellFormed
  | some signers =>
    simp only [present] at wellFormed
    split at wellFormed
    · cases wellFormed
    · split at wellFormed
      · cases wellFormed
      · exact (checkSigners_increasing tx.account AccountID.zero signers wellFormed).1

end STTx

end RadardFormal.Protocol
