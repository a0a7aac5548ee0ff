import RadardFormal.Tx.Dividend
import RadardFormal.Protocol.STTx
import RadardFormal.Ledger.Entries
import RadardFormal.Support.SortedMap
import RadardFormal.Support.Fold

/-!
# Amendment and fee pseudo-transactions

`Change` applies the two pseudo-transactions the validators inject on a flag ledger.  An
`Amendment` records in the `Amendments` entry that an amendment got a majority (with the
parent close time), lost it, or is enabled; a `Fee` sets the four fee settings.  Both come
from the zero account, with no fee, signature or sequence, and only to a closed ledger.

The `Amendments` entry stays well formed under every run of pseudo-transactions: its
enabled amendments are distinct, its majorities name distinct amendments, and no enabled
amendment has a majority; the enabled list only grows (`runChange_keeps_wf`).

The `sfMajorities` array is absent exactly when it would be empty, so an absent array is
the empty list here.  Enabling an amendment also tells the server's amendment table, and
an unsupported one blocks the server; neither is ledger state, and both are left out.
-/

namespace RadardFormal.Tx

open RadardFormal.Protocol RadardFormal.Ledger RadardFormal.Support TER

/-- `tfGotMajority`. -/
def tfGotMajority : Nat := 0x00010000

/-- `tfLostMajority`. -/
def tfLostMajority : Nat := 0x00020000

/-- One `sfMajority`: an amendment and the close time its majority was recorded at. -/
structure Majority where
  amendment : Uint256
  closeTime : Nat
  deriving DecidableEq, Repr

/-- The `Amendments` entry: `sfAmendments`, the enabled amendments, and `sfMajorities`. -/
structure AmendmentsEntry where
  amendments : List Uint256
  majorities : List Majority
  deriving DecidableEq, Repr

/-- A pseudo-transaction as `Change` reads it. -/
structure ChangeTx where
  txnType : TxType
  transactionID : Uint256
  account : AccountID
  fee : STAmount
  signingPubKeyEmpty : Bool
  hasTxnSignature : Bool
  hasSigners : Bool
  sequence : Nat
  previousTxnID : Option Uint256
  flags : Nat
  amendment : Uint256
  baseFee : Nat
  referenceFeeUnits : Nat
  reserveBase : Nat
  reserveIncrement : Nat
  deriving DecidableEq, Repr

/-- What the pseudo-transactions write: the `Amendments` entry and the fee settings. -/
structure ChangeLedger where
  amendments : Option AmendmentsEntry
  fees : Fees
  deriving DecidableEq, Repr

/-- `getEnabledAmendments`: the enabled amendments; none without the entry. -/
def getEnabledAmendments (entry : Option AmendmentsEntry) : List Uint256 :=
  (entry.map AmendmentsEntry.amendments).getD []

/-- `getMajorityAmendments`: the close time of each amendment's majority, a later record
of one amendment overwriting an earlier one. -/
def getMajorityAmendments (entry : Option AmendmentsEntry) : SortedMap Uint256 Nat :=
  ((entry.map AmendmentsEntry.majorities).getD []).foldl
    (fun majorities m => majorities.alter m.amendment fun _ => some m.closeTime) SortedMap.empty

namespace Change

/-- `Change::preflight`: `preflight0`, then the zero account, a zero native fee, no
signature, and no sequence. -/
def preflight (tx : ChangeTx) : TER :=
  if tx.transactionID = Uint256.zero then temINVALID
  else if tx.account ≠ AccountID.zero then temBAD_SRC_ACCOUNT
  else if !tx.fee.native || tx.fee.mantissa ≠ 0 then temBAD_FEE
  else if !tx.signingPubKeyEmpty || tx.hasTxnSignature || tx.hasSigners then temBAD_SIGNATURE
  else if tx.sequence ≠ 0 || tx.previousTxnID.isSome then temBAD_SEQUENCE
  else tesSUCCESS

/-- `Change::preclaim`: a closed ledger, and one of the two types. -/
def preclaim (isOpen : Bool) (tx : ChangeTx) : TER :=
  if isOpen then temINVALID
  else if tx.txnType ≠ .ttAMENDMENT ∧ tx.txnType ≠ .ttFEE then temUNKNOWN
  else tesSUCCESS

/-- The loop over `sfMajorities`: the majorities of other amendments pass through, and
whether the amendment had one is noted; a majority it already had refuses a new one. -/
def passMajorities (amendment : Uint256) (gotMajority : Bool) :
    List Majority → Except TER (List Majority × Bool)
  | [] => .ok ([], false)
  | majority :: rest =>
    if majority.amendment = amendment then
      if gotMajority then .error tefALREADY
      else (passMajorities amendment gotMajority rest).map fun (kept, _) => (kept, true)
    else (passMajorities amendment gotMajority rest).map fun (kept, found) => (majority :: kept, found)

/-- `Change::applyAmendment`: the entry, made on first use, records a majority the
amendment got (at the parent close time), drops one it lost, or enables it. -/
def applyAmendment (entry : Option AmendmentsEntry) (parentCloseTime : Nat) (amendment : Uint256)
    (flags : Nat) : TER × AmendmentsEntry :=
  let object := entry.getD ⟨[], []⟩
  if amendment ∈ object.amendments then (tefALREADY, object)
  else
    let gotMajority := flags &&& tfGotMajority != 0
    let lostMajority := flags &&& tfLostMajority != 0
    if gotMajority && lostMajority then (temINVALID_FLAG, object)
    else match passMajorities amendment gotMajority object.majorities with
      | .error ter => (ter, object)
      | .ok (newMajorities, found) =>
        if !found && lostMajority then (tefALREADY, object)
        else
          let newMajorities :=
            if gotMajority then newMajorities ++ [⟨amendment, parentCloseTime⟩] else newMajorities
          -- no flag: the amendment is enabled
          let amendments :=
            if !gotMajority && !lostMajority then object.amendments ++ [amendment] else object.amendments
          (tesSUCCESS, ⟨amendments, newMajorities⟩)

/-- `Change::applyFee`: the fee entry, made on first use, takes the four settings. -/
def applyFee (tx : ChangeTx) : Fees := ⟨tx.baseFee, tx.referenceFeeUnits, tx.reserveBase, tx.reserveIncrement⟩

/-- `Change::doApply`, on the ledger whose parent closed at `parentCloseTime`. -/
def doApply (ledger : ChangeLedger) (parentCloseTime : Nat) (tx : ChangeTx) : TER × ChangeLedger :=
  if tx.txnType = .ttAMENDMENT then
    let (ter, entry) := applyAmendment ledger.amendments parentCloseTime tx.amendment tx.flags
    (ter, { ledger with amendments := some entry })
  else (tesSUCCESS, { ledger with fees := applyFee tx })

end Change

/-- A pseudo-transaction applied to a closed ledger: its checks, then `doApply`; a failure
changes nothing. -/
def applyChange (ledger : ChangeLedger) (parentCloseTime : Nat) (tx : ChangeTx) : TER × ChangeLedger :=
  let ter := Change.preflight tx
  if ter ≠ tesSUCCESS then (ter, ledger)
  else
    let ter := Change.preclaim false tx
    if ter ≠ tesSUCCESS then (ter, ledger)
    else
      let (ter, after) := Change.doApply ledger parentCloseTime tx
      if ter = tesSUCCESS then (ter, after) else (ter, ledger)

/-- The pseudo-transactions of one ledger, applied in order. -/
def runChange (ledger : ChangeLedger) (parentCloseTime : Nat) (txs : List ChangeTx) : ChangeLedger :=
  txs.foldl (fun ledger tx => (applyChange ledger parentCloseTime tx).2) ledger

/-! ## What a successful amendment does -/

namespace Change

theorem code_of_eq {α : Type} {ter : TER} {result after : α} (same : (ter, result) = (tesSUCCESS, after)) :
    ter = tesSUCCESS :=
  congrArg Prod.fst same

theorem passMajorities_eq (amendment : Uint256) (gotMajority : Bool) (majorities : List Majority) :
    passMajorities amendment gotMajority majorities =
      if gotMajority ∧ amendment ∈ majorities.map Majority.amendment then .error tefALREADY
      else .ok (majorities.filter (·.amendment ≠ amendment), decide (amendment ∈ majorities.map Majority.amendment)) := by
  induction majorities with
  | nil => simp [passMajorities]
  | cons majority rest ih =>
    unfold passMajorities
    rw [ih]
    by_cases same : majority.amendment = amendment
    · cases gotMajority <;> simp [same, Except.map]
    · have other : amendment ≠ majority.amendment := Ne.symm same
      by_cases got : gotMajority = true <;> by_cases found : amendment ∈ rest.map Majority.amendment <;>
        simp [same, other, got, found, Except.map]

/-- What a successful amendment pseudo-transaction does, for an amendment not enabled: with
`tfGotMajority` alone, it records a majority for an amendment without one; with
`tfLostMajority` alone, it drops the majority the amendment has; with neither flag, it
enables the amendment and drops any majority of it. -/
theorem applyAmendment_eq_success {entry : Option AmendmentsEntry} {parentCloseTime : Nat} {amendment : Uint256}
    {flags : Nat} {after : AmendmentsEntry}
    (applied : applyAmendment entry parentCloseTime amendment flags = (tesSUCCESS, after)) :
    let object := entry.getD ⟨[], []⟩
    amendment ∉ object.amendments ∧
      ((flags &&& tfGotMajority != 0) = true ∧ (flags &&& tfLostMajority != 0) = false ∧
          amendment ∉ object.majorities.map Majority.amendment ∧
          after = ⟨object.amendments, object.majorities ++ [⟨amendment, parentCloseTime⟩]⟩ ∨
        (flags &&& tfGotMajority != 0) = false ∧ (flags &&& tfLostMajority != 0) = true ∧
          amendment ∈ object.majorities.map Majority.amendment ∧
          after = ⟨object.amendments, object.majorities.filter (·.amendment ≠ amendment)⟩ ∨
        (flags &&& tfGotMajority != 0) = false ∧ (flags &&& tfLostMajority != 0) = false ∧
          after = ⟨object.amendments ++ [amendment], object.majorities.filter (·.amendment ≠ amendment)⟩) := by
  unfold applyAmendment at applied
  dsimp only at applied ⊢
  generalize entry.getD ⟨[], []⟩ = object at applied ⊢
  by_cases enabled : amendment ∈ object.amendments
  · rw [if_pos enabled] at applied
    exact absurd (code_of_eq applied) (by decide)
  rw [if_neg enabled, passMajorities_eq] at applied
  refine ⟨enabled, ?_⟩
  have already : tefALREADY ≠ tesSUCCESS := by decide
  have invalid : temINVALID_FLAG ≠ tesSUCCESS := by decide
  -- the two flags, and whether the amendment had a majority, decide the branch
  by_cases found : ∃ majority ∈ object.majorities, majority.amendment = amendment <;>
    cases got : (flags &&& tfGotMajority != 0) <;> cases lost : (flags &&& tfLostMajority != 0) <;>
    simp [got, lost, found, already, invalid] at applied ⊢
  all_goals first
    | exact applied.symm
    | -- a majority got: the amendment had none, so none was dropped
      rw [← applied, List.filter_eq_self.mpr (by simpa using found)]

end Change

/-! ## The `Amendments` entry stays well formed -/

/-- A well-formed `Amendments` entry: distinct enabled amendments, majorities of distinct
amendments, and no majority of an enabled amendment. -/
structure AmendmentsEntry.WF (entry : AmendmentsEntry) : Prop where
  enabledNodup : entry.amendments.Nodup
  majoritiesNodup : (entry.majorities.map Majority.amendment).Nodup
  apart : ∀ majority ∈ entry.majorities, majority.amendment ∉ entry.amendments

theorem AmendmentsEntry.WF.empty : AmendmentsEntry.WF ⟨[], []⟩ :=
  ⟨List.nodup_nil, List.nodup_nil, fun _ absent => absurd absent List.not_mem_nil⟩

/-- The ledger's `Amendments` entry is well formed, or absent. -/
def ChangeLedger.WF (ledger : ChangeLedger) : Prop := (ledger.amendments.getD ⟨[], []⟩).WF

theorem getEnabledAmendments_eq (entry : Option AmendmentsEntry) :
    getEnabledAmendments entry = (entry.getD ⟨[], []⟩).amendments := by
  cases entry <;> rfl

/-- A majority `getMajorityAmendments` reports is one the entry records. -/
theorem mem_of_getMajorityAmendments {entry : Option AmendmentsEntry} {amendment : Uint256} {closeTime : Nat}
    (found : (getMajorityAmendments entry).find? amendment = some closeTime) :
    ⟨amendment, closeTime⟩ ∈ (entry.getD ⟨[], []⟩).majorities := by
  -- each record overwrites the amendment's time, so the time read is one of the records
  have read : ∀ (majorities : List Majority) (start : SortedMap Uint256 Nat),
      (majorities.foldl (fun map m => map.alter m.amendment fun _ => some m.closeTime) start).find? amendment =
        some closeTime → ⟨amendment, closeTime⟩ ∈ majorities ∨ start.find? amendment = some closeTime := by
    intro majorities
    induction majorities with
    | nil => exact fun _ found => .inr found
    | cons m rest ih =>
      intro start found
      rcases ih _ found with later | written
      · exact .inl (List.mem_cons_of_mem _ later)
      rw [SortedMap.find?_alter] at written
      split_ifs at written with same
      · cases m
        cases same
        cases written
        exact .inl List.mem_cons_self
      · exact .inr written
  unfold getMajorityAmendments at found
  rcases read _ _ found with recorded | absent
  · cases entry <;> exact recorded
  · cases absent

namespace Change

/-- A successful amendment keeps the entry well formed, and keeps every enabled amendment
enabled. -/
theorem applyAmendment_keeps_wf {entry : Option AmendmentsEntry} {parentCloseTime : Nat} {amendment : Uint256}
    {flags : Nat} {after : AmendmentsEntry} (formed : (entry.getD ⟨[], []⟩).WF)
    (applied : applyAmendment entry parentCloseTime amendment flags = (tesSUCCESS, after)) :
    after.WF ∧ (entry.getD ⟨[], []⟩).amendments <+: after.amendments := by
  obtain ⟨enabled, changed⟩ := applyAmendment_eq_success applied
  generalize entry.getD ⟨[], []⟩ = object at formed enabled changed ⊢
  -- the majorities left after dropping the amendment's are still distinct and not enabled
  have keptNodup : ((object.majorities.filter (·.amendment ≠ amendment)).map Majority.amendment).Nodup :=
    formed.majoritiesNodup.sublist (List.filter_sublist.map _)
  have keptApart : ∀ majority ∈ object.majorities.filter (·.amendment ≠ amendment),
      majority.amendment ∉ object.amendments :=
    fun majority kept => formed.apart majority (List.mem_of_mem_filter kept)
  rcases changed with ⟨-, -, fresh, rfl⟩ | ⟨-, -, -, rfl⟩ | ⟨-, -, rfl⟩
  · -- a majority got
    refine ⟨⟨formed.enabledNodup, ?_, ?_⟩, List.prefix_refl _⟩
    · rw [List.map_append, List.nodup_append]
      refine ⟨formed.majoritiesNodup, List.nodup_singleton _, ?_⟩
      intro other mem new single same
      rw [List.mem_singleton.mp single] at same
      exact fresh (by simpa [same] using mem)
    · intro majority mem
      rcases List.mem_append.mp mem with old | new
      · exact formed.apart majority old
      · rw [List.mem_singleton.mp new]
        exact enabled
  · -- a majority lost
    exact ⟨⟨formed.enabledNodup, keptNodup, keptApart⟩, List.prefix_refl _⟩
  · -- the amendment enabled
    refine ⟨⟨List.nodup_append.mpr ⟨formed.enabledNodup, List.nodup_singleton _, ?_⟩, keptNodup, ?_⟩,
      List.prefix_append _ _⟩
    · intro other mem new single same
      rw [List.mem_singleton.mp single] at same
      exact enabled (same ▸ mem)
    · intro majority kept
      rw [List.mem_append, List.mem_singleton, not_or]
      exact ⟨keptApart majority kept, by simpa using (List.mem_filter.mp kept).2⟩

/-- Only an amendment pseudo-transaction for the amendment, with neither flag, enables it. -/
theorem applyAmendment_enables {entry : Option AmendmentsEntry} {parentCloseTime : Nat} {amendment : Uint256}
    {flags : Nat} {after : AmendmentsEntry}
    (applied : applyAmendment entry parentCloseTime amendment flags = (tesSUCCESS, after)) {enabled : Uint256}
    (off : enabled ∉ (entry.getD ⟨[], []⟩).amendments) (on : enabled ∈ after.amendments) :
    amendment = enabled ∧ (flags &&& tfGotMajority != 0) = false ∧ (flags &&& tfLostMajority != 0) = false := by
  obtain ⟨-, changed⟩ := applyAmendment_eq_success applied
  rcases changed with ⟨-, -, -, rfl⟩ | ⟨-, -, -, rfl⟩ | ⟨got, lost, rfl⟩
  · exact absurd on off
  · exact absurd on off
  · rcases List.mem_append.mp on with old | new
    · exact absurd old off
    · exact ⟨(List.mem_singleton.mp new).symm, got, lost⟩

/-- Only an amendment pseudo-transaction for the amendment with `tfGotMajority` records a
majority, and it records the parent close time. -/
theorem applyAmendment_records {entry : Option AmendmentsEntry} {parentCloseTime : Nat} {amendment : Uint256}
    {flags : Nat} {after : AmendmentsEntry}
    (applied : applyAmendment entry parentCloseTime amendment flags = (tesSUCCESS, after)) {majority : Majority}
    (off : majority ∉ (entry.getD ⟨[], []⟩).majorities) (on : majority ∈ after.majorities) :
    majority = ⟨amendment, parentCloseTime⟩ ∧ (flags &&& tfGotMajority != 0) = true := by
  obtain ⟨-, changed⟩ := applyAmendment_eq_success applied
  rcases changed with ⟨got, -, -, rfl⟩ | ⟨-, -, -, rfl⟩ | ⟨-, -, rfl⟩
  · rcases List.mem_append.mp on with old | new
    · exact absurd old off
    · exact ⟨List.mem_singleton.mp new, got⟩
  · exact absurd (List.mem_of_mem_filter on) off
  · exact absurd (List.mem_of_mem_filter on) off

/-- What a successful `doApply` wrote: the entry a successful amendment made, or the fee
settings. -/
theorem doApply_eq_success {ledger after : ChangeLedger} {parentCloseTime : Nat} {tx : ChangeTx}
    (applied : doApply ledger parentCloseTime tx = (tesSUCCESS, after)) :
    (tx.txnType = .ttAMENDMENT ∧ ∃ entry, applyAmendment ledger.amendments parentCloseTime tx.amendment tx.flags =
        (tesSUCCESS, entry) ∧ after = { ledger with amendments := some entry }) ∨
      (tx.txnType ≠ .ttAMENDMENT ∧ after = { ledger with fees := applyFee tx }) := by
  unfold doApply at applied
  split_ifs at applied with amendmentTx
  · rcases amended : applyAmendment ledger.amendments parentCloseTime tx.amendment tx.flags with ⟨ter, entry⟩
    rw [amended] at applied
    obtain ⟨rfl, rfl⟩ := Prod.mk.inj applied
    exact .inl ⟨amendmentTx, entry, rfl, rfl⟩
  · exact .inr ⟨amendmentTx, (Prod.mk.inj applied).2.symm⟩

/-- `preclaim` on a closed ledger admits the two types only. -/
theorem preclaim_eq_success {tx : ChangeTx} (admitted : preclaim false tx = tesSUCCESS) :
    tx.txnType = .ttAMENDMENT ∨ tx.txnType = .ttFEE := by
  unfold preclaim at admitted
  by_contra neither
  rw [not_or] at neither
  rw [if_neg Bool.false_ne_true, if_pos neither] at admitted
  exact absurd admitted (by decide)

end Change

/-- A pseudo-transaction changes nothing, or is what a successful `doApply` wrote. -/
theorem applyChange_cases (ledger : ChangeLedger) (parentCloseTime : Nat) (tx : ChangeTx) :
    (applyChange ledger parentCloseTime tx).2 = ledger ∨
      Change.doApply ledger parentCloseTime tx = (tesSUCCESS, (applyChange ledger parentCloseTime tx).2) := by
  unfold applyChange
  dsimp only
  rcases applied : Change.doApply ledger parentCloseTime tx with ⟨ter, after⟩
  split_ifs with refused rejected succeeded
  · exact .inl rfl
  · exact .inl rfl
  · exact .inr (by simp only at succeeded ⊢; rw [succeeded])
  · exact .inl rfl

/-- A pseudo-transaction keeps the fee settings, or is a fee transaction and they are its
settings. -/
theorem applyChange_fees (ledger : ChangeLedger) (parentCloseTime : Nat) (tx : ChangeTx) :
    (applyChange ledger parentCloseTime tx).2.fees = ledger.fees ∨
      tx.txnType = .ttFEE ∧ (applyChange ledger parentCloseTime tx).2.fees = Change.applyFee tx := by
  unfold applyChange
  dsimp only
  rcases applied : Change.doApply ledger parentCloseTime tx with ⟨ter, after⟩
  split_ifs with refused rejected succeeded
  · exact .inl rfl
  · exact .inl rfl
  · simp only at succeeded ⊢
    rw [succeeded] at applied
    rcases Change.doApply_eq_success applied with ⟨-, -, -, rfl⟩ | ⟨amendmentTx, rfl⟩
    · exact .inl rfl
    · exact .inr ⟨(Change.preclaim_eq_success (not_not.mp rejected)).resolve_left amendmentTx, rfl⟩
  · exact .inl rfl

/-- The pseudo-transaction that enabled an amendment was an amendment for it with neither
flag. -/
theorem applyChange_enables {ledger : ChangeLedger} {parentCloseTime : Nat} {tx : ChangeTx} {enabled : Uint256}
    (off : enabled ∉ getEnabledAmendments ledger.amendments)
    (on : enabled ∈ getEnabledAmendments (applyChange ledger parentCloseTime tx).2.amendments) :
    tx.txnType = .ttAMENDMENT ∧ tx.amendment = enabled ∧ (tx.flags &&& tfGotMajority != 0) = false ∧
      (tx.flags &&& tfLostMajority != 0) = false := by
  rcases applyChange_cases ledger parentCloseTime tx with same | applied
  · rw [same] at on
    exact absurd on off
  generalize (applyChange ledger parentCloseTime tx).2 = after at applied on
  rcases Change.doApply_eq_success applied with ⟨amendmentTx, entry, amended, rfl⟩ | ⟨-, rfl⟩
  · rw [getEnabledAmendments_eq] at off on
    exact ⟨amendmentTx, Change.applyAmendment_enables amended off on⟩
  · exact absurd on off

/-- The pseudo-transaction that recorded a majority was an amendment with `tfGotMajority`
for its amendment, and the majority holds the parent close time. -/
theorem applyChange_records {ledger : ChangeLedger} {parentCloseTime : Nat} {tx : ChangeTx} {majority : Majority}
    (off : majority ∉ (ledger.amendments.getD ⟨[], []⟩).majorities)
    (on : majority ∈ ((applyChange ledger parentCloseTime tx).2.amendments.getD ⟨[], []⟩).majorities) :
    tx.txnType = .ttAMENDMENT ∧ majority = ⟨tx.amendment, parentCloseTime⟩ ∧
      (tx.flags &&& tfGotMajority != 0) = true := by
  rcases applyChange_cases ledger parentCloseTime tx with same | applied
  · rw [same] at on
    exact absurd on off
  generalize (applyChange ledger parentCloseTime tx).2 = after at applied on
  rcases Change.doApply_eq_success applied with ⟨amendmentTx, entry, amended, rfl⟩ | ⟨-, rfl⟩
  · exact ⟨amendmentTx, Change.applyAmendment_records amended off on⟩
  · exact absurd on off

/-- One pseudo-transaction keeps the entry well formed and every enabled amendment
enabled. -/
theorem applyChange_keeps_wf {ledger : ChangeLedger} (parentCloseTime : Nat) (tx : ChangeTx)
    (formed : ledger.WF) :
    (applyChange ledger parentCloseTime tx).2.WF ∧
      getEnabledAmendments ledger.amendments <+: getEnabledAmendments (applyChange ledger parentCloseTime tx).2.amendments := by
  rcases applyChange_cases ledger parentCloseTime tx with same | applied
  · rw [same]
    exact ⟨formed, List.prefix_refl _⟩
  generalize (applyChange ledger parentCloseTime tx).2 = after at applied ⊢
  rcases Change.doApply_eq_success applied with ⟨-, entry, amended, rfl⟩ | ⟨-, rfl⟩
  · obtain ⟨entryFormed, grown⟩ := Change.applyAmendment_keeps_wf formed amended
    rw [getEnabledAmendments_eq, getEnabledAmendments_eq]
    exact ⟨entryFormed, grown⟩
  · exact ⟨formed, List.prefix_refl _⟩

/-- The `Amendments` entry stays well formed over every run of pseudo-transactions, and an
enabled amendment stays enabled. -/
theorem runChange_keeps_wf {ledger : ChangeLedger} {parentCloseTime : Nat} {txs : List ChangeTx}
    (formed : ledger.WF) :
    (runChange ledger parentCloseTime txs).WF ∧
      getEnabledAmendments ledger.amendments <+: getEnabledAmendments (runChange ledger parentCloseTime txs).amendments := by
  unfold runChange
  refine foldl_induction _ (P := fun (state : ChangeLedger) => state.WF ∧
    getEnabledAmendments ledger.amendments <+: getEnabledAmendments state.amendments) ⟨formed, List.prefix_refl _⟩ ?_
  rintro state tx - ⟨stateFormed, grown⟩
  obtain ⟨nextFormed, grownNext⟩ := applyChange_keeps_wf parentCloseTime tx stateFormed
  exact ⟨nextFormed, grown.trans grownNext⟩

/-- An amendment pseudo-transaction that records a majority for amendment 77, then one that
enables it. -/
def majorityThenEnable : List ChangeTx :=
  [⟨.ttAMENDMENT, Uint256.ofNat 1, AccountID.zero, STAmount.ofXRPAmount 0, true, false, false, 0, none,
      tfGotMajority, Uint256.ofNat 77, 0, 0, 0, 0⟩,
    ⟨.ttAMENDMENT, Uint256.ofNat 2, AccountID.zero, STAmount.ofXRPAmount 0, true, false, false, 0, none,
      0, Uint256.ofNat 77, 0, 0, 0, 0⟩]

theorem runChange_keeps_wf_majorityThenEnable :
    getEnabledAmendments (runChange ⟨none, ⟨10, 10, 20, 5⟩⟩ 100 majorityThenEnable).amendments = [Uint256.ofNat 77] ∧
      ((runChange ⟨none, ⟨10, 10, 20, 5⟩⟩ 100 majorityThenEnable).WF ∧
        getEnabledAmendments none <+:
          getEnabledAmendments (runChange ⟨none, ⟨10, 10, 20, 5⟩⟩ 100 majorityThenEnable).amendments) :=
  ⟨by decide, runChange_keeps_wf AmendmentsEntry.WF.empty⟩

/-- An amendment a run of pseudo-transactions enabled was enabled by one of them, an
amendment for it with neither flag. -/
theorem runChange_enables {ledger : ChangeLedger} {parentCloseTime : Nat} {txs : List ChangeTx} {enabled : Uint256}
    (off : enabled ∉ getEnabledAmendments ledger.amendments)
    (on : enabled ∈ getEnabledAmendments (runChange ledger parentCloseTime txs).amendments) :
    ∃ tx ∈ txs, tx.txnType = .ttAMENDMENT ∧ tx.amendment = enabled ∧ (tx.flags &&& tfGotMajority != 0) = false ∧
      (tx.flags &&& tfLostMajority != 0) = false := by
  obtain ⟨tx, mem, state, was, is⟩ := exists_step_of_foldl _
    (P := fun (state : ChangeLedger) => enabled ∈ getEnabledAmendments state.amendments) off on
  exact ⟨tx, mem, applyChange_enables was is⟩

/-- A majority a run of pseudo-transactions recorded was recorded by one of them, with the
parent close time. -/
theorem runChange_records {ledger : ChangeLedger} {parentCloseTime : Nat} {txs : List ChangeTx} {majority : Majority}
    (off : majority ∉ (ledger.amendments.getD ⟨[], []⟩).majorities)
    (on : majority ∈ ((runChange ledger parentCloseTime txs).amendments.getD ⟨[], []⟩).majorities) :
    ∃ tx ∈ txs, tx.txnType = .ttAMENDMENT ∧ majority = ⟨tx.amendment, parentCloseTime⟩ ∧
      (tx.flags &&& tfGotMajority != 0) = true := by
  obtain ⟨tx, mem, state, was, is⟩ := exists_step_of_foldl _
    (P := fun (state : ChangeLedger) => majority ∈ (state.amendments.getD ⟨[], []⟩).majorities) off on
  exact ⟨tx, mem, applyChange_records was is⟩

end RadardFormal.Tx
