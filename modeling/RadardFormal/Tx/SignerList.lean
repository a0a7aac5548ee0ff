import RadardFormal.Tx.Transactor
import RadardFormal.Support.MergeWalk

/-!
# Signer lists and multi-signing

`SetSignerList` writes an account's `ltSIGNER_LIST`: a quorum and up to eight weighted
signers, validated and sorted by account.  `Transactor::checkMultiSign` checks a
multi-signed transaction against that list with a merge walk over the transaction's
signers, which `STTx::checkMultiSign` has already found strictly increasing, and the
list's entries: each signer must be an entry, sign with its master key or its regular
key, and the weights of the matched entries must reach the quorum.
-/

namespace RadardFormal.Tx

open RadardFormal.Protocol RadardFormal.Support RadardFormal.Ledger TER ViewM

namespace Transactor

/-- The key check of one multi-signer: a key of the signer's own account is its master
key, refused if the signer's root disables it (a signer with no root is a phantom and
passes); any other key must be the regular key of a signer in the ledger.  `none` is
acceptance. -/
def checkSignerKey (view : OpenView) (signer : TxSigner) : Option TER :=
  let signingAcctIDFromPubKey := signer.signingPubKeyAccount
  let sleTxSignerRoot := view.account? signer.account
  if signingAcctIDFromPubKey == signer.account then
    match sleTxSignerRoot with
    | some root => if hasFlag root.flags lsfDisableMaster then some tefMASTER_DISABLED else none
    | none => none
  else
    match sleTxSignerRoot with
    | none => some tefBAD_SIGNATURE
    | some root =>
      match root.regularKey with
      | none => some tefBAD_SIGNATURE
      | some regularKey =>
        if signingAcctIDFromPubKey != regularKey then some tefBAD_SIGNATURE else none

/-- The walk of `checkMultiSign` from the iterator `cursor` into the account's signer
entries, summing the 32-bit `weightSum`.  `none` is a read of the entries' end. -/
def matchSigners (view : OpenView) :
    List SignerEntry → List TxSigner → Nat → Option (Except TER Nat)
  | _, [], weightSum => some (.ok weightSum)
  | cursor, txSigner :: rest, weightSum =>
    match seek SignerEntry.account txSigner.account cursor with
    | none => none
    | some none => some (.error tefBAD_SIGNATURE)
    | some (some (entry, tail)) =>
      if entry.account != txSigner.account then some (.error tefBAD_SIGNATURE)
      else
        match checkSignerKey view txSigner with
        | some refusal => some (.error refusal)
        -- The iterator stays on the matched entry.
        | none => matchSigners view (entry :: tail) rest ((weightSum + entry.weight) % 2 ^ 32)

/-- `Transactor::checkMultiSign`. -/
def checkMultiSign (view : OpenView) (tx : STTx) : Option TER := do
  let some sleAccountSigners := view.signerList? tx.account | return tefNOT_MULTI_SIGNING
  match ← matchSigners view sleAccountSigners.signerEntries (tx.signers.getD []) 0 with
  | .error refusal => return refusal
  | .ok weightSum =>
    return if weightSum < sleAccountSigners.signerQuorum then tefBAD_QUORUM else tesSUCCESS

/-- `Transactor::checkSign`: an empty signing key asks for multi-signing once it is
enabled. -/
def checkSign (view : OpenView) (tx : STTx) (flags : ApplyFlags) : Option TER :=
  if (flags.has .tapENABLE_TESTING || view.rules.multiSign) && tx.signingPubKeyEmpty then
    checkMultiSign view tx
  else checkSingleSign view tx

/-! ## What an accepted multi-signature means -/

/-- A multi-signer's key that `checkMultiSign` accepts: the signer's own master key,
not disabled in the ledger, or the regular key of a signer that is in the ledger. -/
def SignerKeyAuthorized (view : OpenView) (signer : TxSigner) : Prop :=
  (signer.signingPubKeyAccount = signer.account ∧
    ∀ root, view.account? signer.account = some root → hasFlag root.flags lsfDisableMaster = false) ∨
  (signer.signingPubKeyAccount ≠ signer.account ∧
    ∃ root, view.account? signer.account = some root ∧
      root.regularKey = some signer.signingPubKeyAccount)

theorem checkSignerKey_authorized {view : OpenView} {signer : TxSigner}
    (accepted : checkSignerKey view signer = none) : SignerKeyAuthorized view signer := by
  unfold checkSignerKey at accepted
  by_cases master : signer.signingPubKeyAccount = signer.account
  · refine .inl ⟨master, fun root found => ?_⟩
    simp only [master, beq_self_eq_true, ↓reduceIte, found] at accepted
    simpa using accepted
  · refine .inr ⟨master, ?_⟩
    simp only [beq_iff_eq, master, ↓reduceIte] at accepted
    cases found : view.account? signer.account with
    | none => simp [found] at accepted
    | some root =>
      cases key : root.regularKey with
      | none => simp [found, key] at accepted
      | some regularKey =>
        simp only [found, key, bne_iff_ne, ne_eq, ite_eq_right_iff, reduceCtorEq, imp_false,
          not_not] at accepted
        exact ⟨root, rfl, by rw [accepted, key]⟩

/-- The key check refuses with a failure code. -/
theorem checkSignerKey_refusal_ne {view : OpenView} {signer : TxSigner} {refusal : TER}
    (refused : checkSignerKey view signer = some refusal) : refusal ≠ tesSUCCESS := by
  unfold checkSignerKey at refused
  dsimp only at refused
  split at refused
  · split at refused
    · split at refused
      · cases refused; decide
      · cases refused
    · cases refused
  · split at refused
    · cases refused; decide
    · split at refused
      · cases refused; decide
      · split at refused
        · cases refused; decide
        · cases refused

/-- The walk refuses with a failure code. -/
theorem matchSigners_refusal_ne (view : OpenView) {cursor : List SignerEntry}
    {signers : List TxSigner} {weightSum : Nat} {refusal : TER}
    (refused : matchSigners view cursor signers weightSum = some (.error refusal)) :
    refusal ≠ tesSUCCESS := by
  induction signers generalizing cursor weightSum with
  | nil => simp [matchSigners] at refused
  | cons txSigner rest ih =>
    unfold matchSigners at refused
    split at refused
    · cases refused
    · cases refused; decide
    · split at refused
      · cases refused; decide
      · split at refused
        · cases refused
          exact checkSignerKey_refusal_ne ‹_›
        · exact ih refused

/-- What an accepted walk matched: a sublist of the entries from the cursor on, one
entry per signer with the signer's account, every signer's key authorized, and a 32-bit
weight sum no larger than the weights added. -/
theorem matchSigners_sound (view : OpenView) :
    ∀ (signers : List TxSigner) (cursor : List SignerEntry) (weightSum total : Nat),
      (signers.map TxSigner.account).Pairwise (· < ·) →
      matchSigners view cursor signers weightSum = some (.ok total) →
        ∃ matched, List.Sublist matched cursor ∧
          matched.map SignerEntry.account = signers.map TxSigner.account ∧
          (∀ signer ∈ signers, SignerKeyAuthorized view signer) ∧
          total ≤ weightSum + (matched.map SignerEntry.weight).sum
  | [], cursor, weightSum, total, _, accepted => by
    simp only [matchSigners, Option.some.injEq, Except.ok.injEq] at accepted
    exact ⟨[], List.nil_sublist cursor, rfl, by simp, by simp [accepted]⟩
  | txSigner :: rest, cursor, weightSum, total, increasing, accepted => by
    unfold matchSigners at accepted
    obtain ⟨firstBelow, restIncreasing⟩ := List.pairwise_cons.mp increasing
    rcases stop : seek SignerEntry.account txSigner.account cursor with _ | _ | ⟨entry, tail⟩
    · simp [stop] at accepted
    · simp [stop] at accepted
    · simp only [stop] at accepted
      by_cases sameAccount : entry.account = txSigner.account
      · simp only [sameAccount, bne_self_eq_false, Bool.false_eq_true, ↓reduceIte] at accepted
        cases keyCheck : checkSignerKey view txSigner with
        | some refusal => simp [keyCheck] at accepted
        | none =>
          simp only [keyCheck] at accepted
          obtain ⟨matched, sub, accounts, authorized, bounded⟩ :=
            matchSigners_sound view rest (entry :: tail) _ total restIncreasing accepted
          -- The later signers are above this one, so the walk moved past its entry.
          have pastEntry : List.Sublist matched tail := by
            refine sublist_of_key_lt_head SignerEntry.account sub fun later member => ?_
            have listed : later.account ∈ rest.map TxSigner.account := by
              rw [← accounts]; exact List.mem_map_of_mem member
            rw [sameAccount]
            exact firstBelow _ listed
          obtain ⟨skipped, layout, -, -⟩ := seek_eq_some_some SignerEntry.account _ stop
          refine ⟨entry :: matched, ?_, by simp [sameAccount, accounts], ?_, ?_⟩
          · rw [layout]
            exact (pastEntry.cons_cons entry).trans (List.sublist_append_right skipped _)
          · intro signer member
            rcases List.mem_cons.mp member with rfl | later
            · exact checkSignerKey_authorized keyCheck
            · exact authorized signer later
          · have wrapped := Nat.mod_le (weightSum + entry.weight) (2 ^ 32)
            simp only [List.map_cons, List.sum_cons]
            omega
      · simp [sameAccount] at accepted

/-- On a non-empty list of entries the walk never reads past the end. -/
theorem matchSigners_ne_none (view : OpenView) :
    ∀ (signers : List TxSigner) (cursor : List SignerEntry) (weightSum : Nat),
      cursor ≠ [] → matchSigners view cursor signers weightSum ≠ none
  | [], _, _, _ => by simp [matchSigners]
  | txSigner :: rest, cursor, weightSum, nonempty => by
    unfold matchSigners
    rcases stop : seek SignerEntry.account txSigner.account cursor with _ | _ | ⟨entry, tail⟩
    · exact absurd stop (seek_ne_none SignerEntry.account _ cursor nonempty)
    · simp
    · simp only
      split
      · simp
      · split
        · simp
        · exact matchSigners_ne_none view rest (entry :: tail) _ (List.cons_ne_nil entry tail)

end Transactor

namespace SetSignerList

/-- What a `SetSignerList` asks for. -/
inductive Operation where
  | unknown
  | set
  | destroy
  deriving DecidableEq, Repr

/-- The transaction's signer entries sorted by account, as `std::sort` orders them. -/
def sortedEntries (entries : List (AccountID × Nat)) : List SignerEntry :=
  (entries.map fun entry => ⟨entry.1, entry.2⟩).mergeSort fun a b => a.account ≤ b.account

/-- `SetSignerList::determineOperation`: a quorum with entries sets the list, neither a
quorum nor entries destroys it. -/
def determineOperation (tx : STTx) : TER × Nat × List SignerEntry × Operation :=
  let quorum := tx.signerQuorum
  match tx.signerEntries with
  | some entries =>
    if quorum != 0 then (tesSUCCESS, quorum, sortedEntries entries, .set)
    else (tesSUCCESS, quorum, [], .unknown)
  | none => if quorum == 0 then (tesSUCCESS, quorum, [], .destroy) else (tesSUCCESS, quorum, [], .unknown)

/-- `std::adjacent_find` with entries equal when their accounts are. -/
def hasAdjacentDuplicate : List SignerEntry → Bool
  | a :: b :: rest => a.account == b.account || hasAdjacentDuplicate (b :: rest)
  | _ => false

/-- The loop of `validateQuorumAndSignerEntries`: positive weights and no entry for the
account itself; returns the total weight. -/
def checkSignerEntries (account : AccountID) : List SignerEntry → Nat → Except TER Nat
  | [], allSignersWeight => .ok allSignersWeight
  | signer :: rest, allSignersWeight =>
    if signer.weight ≤ 0 then .error temBAD_WEIGHT
    else if signer.account == account then .error temBAD_SIGNER
    else checkSignerEntries account rest (allSignersWeight + signer.weight)

/-- `SetSignerList::validateQuorumAndSignerEntries`. -/
def validateQuorumAndSignerEntries (quorum : Nat) (signers : List SignerEntry)
    (account : AccountID) : TER :=
  if signers.length < STTx.minMultiSigners || signers.length > STTx.maxMultiSigners then
    temMALFORMED
  else if hasAdjacentDuplicate signers then temBAD_SIGNER
  else
    match checkSignerEntries account signers 0 with
    | .error refusal => refusal
    | .ok allSignersWeight =>
      if quorum ≤ 0 || allSignersWeight < quorum then temBAD_QUORUM else tesSUCCESS

/-- `SetSignerList::preflight`, without the signature check of `preflight2`. -/
def preflight (tx : STTx) (rules : Rules) (flags : ApplyFlags) : TER :=
  if !flags.has .tapENABLE_TESTING && !rules.multiSign then temDISABLED
  else
    let ret := Transactor.preflight1 tx
    if ret != tesSUCCESS then ret
    else
      let (ter, quorum, signers, operation) := determineOperation tx
      if ter != tesSUCCESS then ter
      else
        match operation with
        | .unknown => temMALFORMED
        | .set => validateQuorumAndSignerEntries quorum signers tx.account
        | .destroy => tesSUCCESS

/-- `SetSignerList::ownerCountDelta`: two for the list and one per entry. -/
def ownerCountDelta (entryCount : Nat) : Nat := 2 + entryCount

/-- The list `writeSignersToSLE` writes, with its owner directory page. -/
def writeSignersToSLE (quorum : Nat) (signers : List SignerEntry) (ownerNode : Nat) :
    SignerList :=
  ⟨quorum, 0, signers, ownerNode⟩

/-- `SetSignerList::removeSignersFromLedger`. -/
def removeSignersFromLedger (account : AccountID) : ViewM TER := do
  let some signers ← peekAs SLE.signerList? (.signers account) | return tesSUCCESS
  let removeFromOwnerCount : Int := -(ownerCountDelta signers.signerEntries.length : Int)
  let hint := signers.ownerNode
  let result ← dirDelete false hint (.owner account) (.signers account) false (hint == 0)
  if result == tesSUCCESS then
    let some sle ← peekAccount account | failure
    adjustOwnerCount account sle removeFromOwnerCount
  erase (.signers account)
  return result

/-- `SetSignerList::replaceSignerList`. -/
def replaceSignerList (self : Transactor) (quorum : Nat) (signers : List SignerEntry) :
    ViewM TER := do
  let account := self.account
  let ter ← removeSignersFromLedger account
  if ter != tesSUCCESS then return ter
  let some sle ← peekAccount account | failure
  let addedOwnerCount := ownerCountDelta signers.length
  let newReserve := (← fees).accountReserve ((sle.ownerCount + addedOwnerCount) % 2 ^ 32)
  if self.priorBalance < newReserve then return tecINSUFFICIENT_RESERVE
  insert (.signers account) (.signerList (writeSignersToSLE quorum signers 0))
  let (result, hint) ← dirAdd (.owner account) (.signers account) (describeOwnerDir account)
  if result != tesSUCCESS then return result
  -- `sfOwnerNode` is written through the pointer of the inserted list.
  poke (.signers account) (.signerList (writeSignersToSLE quorum signers hint))
  let some sle ← peekAccount account | failure
  adjustOwnerCount account sle addedOwnerCount
  return result

/-- `SetSignerList::destroySignerList`: allowed only while the master key or a regular key
can still sign. -/
def destroySignerList (account : AccountID) : ViewM TER := do
  let some ledgerEntry ← peekAccount account | failure
  if hasFlag ledgerEntry.flags lsfDisableMaster && ledgerEntry.regularKey.isNone then
    return tecNO_ALTERNATIVE_KEY
  removeSignersFromLedger account

/-- `SetSignerList::doApply`, with the operation `preCompute` determines. -/
def doApply (ctx : ApplyContext) (self : Transactor) : ViewM TER :=
  let (_, quorum, signers, operation) := determineOperation ctx.tx
  match operation with
  | .set => replaceSignerList self quorum signers
  | .destroy => destroySignerList self.account
  | .unknown => pure temMALFORMED

/-- A list that passes validation is not empty. -/
theorem validateQuorumAndSignerEntries_ne_nil {quorum : Nat} {signers : List SignerEntry}
    {account : AccountID} (valid : validateQuorumAndSignerEntries quorum signers account = tesSUCCESS) :
    signers ≠ [] := by
  rintro rfl
  simp [validateQuorumAndSignerEntries, STTx.minMultiSigners] at valid
  exact absurd valid (by decide)

end SetSignerList

/-- Multi-signing is sound.  A well-formed multi-signed transaction that
`checkMultiSign` accepts names only signers of the account's list, each signing with its
master key (not disabled, or a phantom) or its regular key, matched to distinct entries in
list order whose weights reach the quorum; and on a list `SetSignerList` validated and
wrote, the walk never reads past the end of the list. -/
theorem checkMultiSign_quorum_sound (view : OpenView) (tx : STTx) :
    (tx.checkMultiSign = true → Transactor.checkMultiSign view tx = some tesSUCCESS →
      ∃ signerList matched, view.signerList? tx.account = some signerList ∧
        List.Sublist matched signerList.signerEntries ∧
        matched.map SignerEntry.account = (tx.signers.getD []).map TxSigner.account ∧
        (∀ signer ∈ tx.signers.getD [], Transactor.SignerKeyAuthorized view signer) ∧
        signerList.signerQuorum ≤ (matched.map SignerEntry.weight).sum) ∧
    (∀ quorum signers ownerNode,
      SetSignerList.validateQuorumAndSignerEntries quorum signers tx.account = tesSUCCESS →
      view.signerList? tx.account = some (SetSignerList.writeSignersToSLE quorum signers ownerNode) →
      Transactor.checkMultiSign view tx ≠ none) := by
  refine ⟨fun wellFormed accepted => ?_, fun quorum signers ownerNode valid written => ?_⟩
  · unfold Transactor.checkMultiSign at accepted
    cases listed : view.signerList? tx.account with
    | none =>
      simp only [listed, Option.pure_def, Option.some.injEq] at accepted
      exact absurd accepted (by decide)
    | some signerList =>
      cases walk : Transactor.matchSigners view signerList.signerEntries (tx.signers.getD []) 0 with
      | none => simp [listed, walk] at accepted
      | some outcome =>
        cases outcome with
        | error refusal =>
          simp only [listed, walk, Option.bind_eq_bind, Option.bind_some, Option.pure_def,
            Option.some.injEq] at accepted
          exact absurd accepted (Transactor.matchSigners_refusal_ne view walk)
        | ok weightSum =>
          simp only [listed, walk, Option.bind_eq_bind, Option.bind_some, Option.pure_def,
            Option.some.injEq] at accepted
          have reached : signerList.signerQuorum ≤ weightSum := by
            by_contra short
            simp [not_le.mp short] at accepted
            exact absurd accepted (by decide)
          obtain ⟨matched, sub, accounts, authorized, bounded⟩ :=
            Transactor.matchSigners_sound view _ _ 0 weightSum
              (STTx.checkMultiSign_increasing wellFormed) walk
          exact ⟨signerList, matched, rfl, sub, accounts, authorized, by omega⟩
  · unfold Transactor.checkMultiSign
    rw [written]
    have walks := Transactor.matchSigners_ne_none view (tx.signers.getD [])
      (SetSignerList.writeSignersToSLE quorum signers ownerNode).signerEntries 0
      (SetSignerList.validateQuorumAndSignerEntries_ne_nil valid)
    intro crashed
    cases walk : Transactor.matchSigners view _ (tx.signers.getD []) 0 with
    | none => exact walks walk
    | some outcome => cases outcome <;> simp [walk] at crashed

/-- Account 7 with a signer list of accounts 8 and 9, weight 1 each, quorum 2; the
signers have no account roots. -/
def phantomSigned : OpenView :=
  ⟨AList.singleton (.signers (AccountID.ofNat 7))
      (.signerList ⟨2, 0, [⟨AccountID.ofNat 8, 1⟩, ⟨AccountID.ofNat 9, 1⟩], 0⟩),
    0, 0, [], 1, 0, true, ⟨10, 10, 200, 50⟩, ⟨true⟩⟩

/-- A payment from account 7 signed by 8 and 9 with their own keys. -/
def multiSigned : STTx :=
  { STTx.make .ttPAYMENT (AccountID.ofNat 7) 1 30 with
    signingPubKeyEmpty := true
    hasTxnSignature := false
    signers := some [⟨AccountID.ofNat 8, AccountID.ofNat 8, true⟩,
      ⟨AccountID.ofNat 9, AccountID.ofNat 9, true⟩] }

theorem two_phantom_signers_meet_quorum :
    ∃ (signerList : SignerList) (matched : List SignerEntry),
      phantomSigned.signerList? (AccountID.ofNat 7) = some signerList ∧
      signerList.signerQuorum ≤ (matched.map SignerEntry.weight).sum := by
  obtain ⟨signerList, matched, listed, -, -, -, quorum⟩ :=
    (checkMultiSign_quorum_sound phantomSigned multiSigned).1 (by decide +kernel)
      (by decide +kernel)
  exact ⟨signerList, matched, listed, quorum⟩

end RadardFormal.Tx
