import RadardFormal.Tx.Change
import RadardFormal.Support.Tally
import RadardFormal.Support.Fold

/-!
# Amendment voting

On a flag ledger each proposing validator asks its amendment table what to vote
(`AmendmentTableImpl::doVoting`).  It counts the votes of the trusted validations of the last
closed ledger's parent, one for each amendment a validation lists.  Then, for each amendment
it knows that the ledger has not enabled, it decides against the `Amendments` entry of the
last closed ledger:
- the amendment got a majority: enough votes, none recorded, and not vetoed;
- it lost its majority: too few votes, and one recorded;
- it has held its majority for the majority time: then it is enabled.

`AmendmentTable::doVoting` turns each decision into an amendment pseudo-transaction of the
validator's initial position, unless the build leaves out `RIPPLE_PROPOSE_AMENDMENTS`, as it
does by default; then the first decision returns before anything is added.

The pseudo-transactions of the consensus set are applied to the ledger built on the last
closed one (`runChange`), whose parent close time is the last closed ledger's close time.
Over any run of such rounds from a ledger with no recorded majority, an amendment is
enabled only after it got a majority of some validator's trusted votes in an earlier round,
recorded at that round's close time, and held it for the majority time
(`enabled_after_majority_time`).  Under the default build no round changes the entry
(`default_build_keeps_amendments`), nor does any run (`default_build_never_amends`).
-/

namespace RadardFormal.Tx

open RadardFormal.Protocol RadardFormal.Ledger RadardFormal.Support TER

/-- A validation as the amendment and fee votes read it: whether its signer is trusted, the
amendments it asks for (`sfAmendments`), and the fee settings it votes for. -/
structure STValidation where
  trusted : Bool
  amendments : Option (List Uint256)
  baseFee : Option Nat
  reserveBase : Option Nat
  reserveIncrement : Option Nat
  deriving DecidableEq, Repr

/-- `AmendmentState`, as far as the votes read it. -/
structure AmendmentState where
  vetoed : Bool
  supported : Bool
  deriving DecidableEq, Repr

/-- An `AmendmentTableImpl`: the amendments it knows, the seconds an amendment must hold a
majority, and the fraction of the trusted validations, out of 256, that make one. -/
structure AmendmentTable where
  amendmentMap : SortedMap Uint256 AmendmentState
  majorityTime : Nat
  majorityFraction : Nat

/-- `AmendmentSet`: the trusted validations counted, and the votes for each amendment. -/
structure AmendmentSet where
  closeTime : Nat
  trustedValidations : Nat
  votes : Tally Uint256

namespace AmendmentSet

def make (closeTime : Nat) : AmendmentSet := ⟨closeTime, 0, Tally.empty⟩

def addVoter (set : AmendmentSet) : AmendmentSet := { set with trustedValidations := set.trustedValidations + 1 }

def addVote (set : AmendmentSet) (amendment : Uint256) : AmendmentSet := { set with votes := set.votes.addVote amendment }

def count (set : AmendmentSet) (amendment : Uint256) : Nat := set.votes.count amendment

end AmendmentSet

namespace AmendmentTable

/-- The loop of `doVoting` over the validations: each trusted one is a voter, and votes once
for each amendment it lists. -/
def tallyValidations (closeTime : Nat) (valSet : List STValidation) : AmendmentSet :=
  valSet.foldl (fun set val =>
    if val.trusted then
      match val.amendments with
      | some amendments => amendments.foldl AmendmentSet.addVote set.addVoter
      | none => set.addVoter
    else set) (AmendmentSet.make closeTime)

/-- The number of votes that makes a majority. -/
def threshold (table : AmendmentTable) (set : AmendmentSet) : Nat :=
  (set.trustedValidations * table.majorityFraction + 255) / 256

/-- The decision of `doVoting` for one amendment of the table: `actions[amendment]` set to
the flags of the pseudo-transaction, or left alone. -/
def voteAction (table : AmendmentTable) (closeTime : Nat) (enabledAmendments : List Uint256)
    (majorityAmendments : SortedMap Uint256 Nat) (set : AmendmentSet) (actions : SortedMap Uint256 Nat)
    (entry : Σ _ : Uint256, AmendmentState) : SortedMap Uint256 Nat :=
  let hasValMajority := set.count entry.1 ≥ threshold table set
  let majorityTime := (majorityAmendments.find? entry.1).getD 0
  if entry.1 ∈ enabledAmendments then actions
  else if hasValMajority ∧ majorityTime = 0 ∧ entry.2.vetoed = false then
    actions.alter entry.1 fun _ => some tfGotMajority
  else if ¬hasValMajority ∧ majorityTime ≠ 0 then
    actions.alter entry.1 fun _ => some tfLostMajority
  else if majorityTime ≠ 0 ∧ majorityTime + table.majorityTime ≤ closeTime ∧ entry.2.vetoed = false then
    actions.alter entry.1 fun _ => some 0
  else actions

/-- `AmendmentTableImpl::doVoting`: the flags of the pseudo-transaction for each amendment
the validator votes to change. -/
def doVoting (table : AmendmentTable) (closeTime : Nat) (enabledAmendments : List Uint256)
    (majorityAmendments : SortedMap Uint256 Nat) (valSet : List STValidation) : SortedMap Uint256 Nat :=
  table.amendmentMap.entries.foldl
    (voteAction table closeTime enabledAmendments majorityAmendments (tallyValidations closeTime valSet))
    SortedMap.empty

/-- `AmendmentTableImpl::getDesired`: the amendments the validator supports, does not veto,
and the ledger has not enabled. -/
def getDesired (table : AmendmentTable) (enabled : List Uint256) : List Uint256 :=
  (table.amendmentMap.entries.filter fun entry =>
    entry.2.supported && !entry.2.vetoed && !decide (entry.1 ∈ enabled)).map (·.1)

/-- `AmendmentTableImpl::doValidation`: the amendments the validator asks for in its
validation, in increasing order (the table's keys already are). -/
def doValidation (table : AmendmentTable) (enabled : List Uint256) : List Uint256 := table.getDesired enabled

/-- `AmendmentTable::doVoting` on the last closed ledger: one amendment pseudo-transaction
for each decision, none when the build leaves out `RIPPLE_PROPOSE_AMENDMENTS`. -/
def proposeVotes (proposeAmendments : Bool) (table : AmendmentTable) (parentCloseTime : Nat)
    (lastClosed : Option AmendmentsEntry) (valSet : List STValidation) : List (Uint256 × Nat) :=
  if proposeAmendments then
    (table.doVoting parentCloseTime (getEnabledAmendments lastClosed) (getMajorityAmendments lastClosed)
      valSet).entries.map fun action => (action.1, action.2)
  else []

end AmendmentTable

/-- One flag ledger's vote: the parent close time of the last closed ledger, which
`doVoting` is given, its close time, which is the parent close time of the ledger the votes
go into, and the pseudo-transactions of the consensus set, in the order applied. -/
structure VotingRound where
  parentCloseTime : Nat
  closeTime : Nat
  txs : List ChangeTx

/-- The round's pseudo-transactions, applied to the ledger built on the last closed one. -/
def VotingRound.apply (round : VotingRound) (ledger : ChangeLedger) : ChangeLedger :=
  runChange ledger round.closeTime round.txs

/-- Rounds of voting, one after the other. -/
def votingRun (ledger : ChangeLedger) (rounds : List VotingRound) : ChangeLedger :=
  rounds.foldl (fun ledger round => round.apply ledger) ledger

/-- Every amendment pseudo-transaction of the round was proposed on the last closed ledger
by a validator whose table has the majority time `majorityTime`. -/
def VotingRound.Proposed (proposeAmendments : Bool) (majorityTime : Nat) (round : VotingRound)
    (ledger : ChangeLedger) : Prop :=
  ∀ tx ∈ round.txs, tx.txnType = .ttAMENDMENT → ∃ (table : AmendmentTable) (valSet : List STValidation),
    table.majorityTime = majorityTime ∧
      (tx.amendment, tx.flags) ∈ table.proposeVotes proposeAmendments round.parentCloseTime ledger.amendments valSet

/-- Some validator with the majority time `majorityTime`, which does not veto the amendment,
counted at least its threshold of trusted votes for it on the round's last closed ledger. -/
def MajorityVoted (majorityTime : Nat) (round : VotingRound) (amendment : Uint256) : Prop :=
  ∃ (table : AmendmentTable) (valSet : List STValidation), table.majorityTime = majorityTime ∧
    (table.amendmentMap.find? amendment).map AmendmentState.vetoed = some false ∧
    let set := AmendmentTable.tallyValidations round.parentCloseTime valSet
    table.threshold set ≤ set.count amendment

/-! ## What a validator votes -/

namespace AmendmentTable

/-- The decision `doVoting` takes for an amendment: it is in the validator's table and not
enabled, and the validator either saw a majority of votes for it with none recorded and does
not veto it (`tfGotMajority`), saw too few votes with a majority recorded (`tfLostMajority`),
or saw a majority of votes for it with a majority recorded at least the majority time
before, and does not veto it (no flag). -/
theorem doVoting_action {table : AmendmentTable} {closeTime : Nat} {enabled : List Uint256}
    {majorities : SortedMap Uint256 Nat} {valSet : List STValidation} {amendment : Uint256} {flags : Nat}
    (proposed : (table.doVoting closeTime enabled majorities valSet).find? amendment = some flags) :
    let set := tallyValidations closeTime valSet
    let majorityTime := (majorities.find? amendment).getD 0
    ∃ state, table.amendmentMap.find? amendment = some state ∧ amendment ∉ enabled ∧
      ((flags = tfGotMajority ∧ table.threshold set ≤ set.count amendment ∧ majorityTime = 0 ∧
          state.vetoed = false) ∨
        (flags = tfLostMajority ∧ set.count amendment < table.threshold set ∧ majorityTime ≠ 0) ∨
        (flags = 0 ∧ table.threshold set ≤ set.count amendment ∧ majorityTime ≠ 0 ∧
          majorityTime + table.majorityTime ≤ closeTime ∧ state.vetoed = false)) := by
  intro set majorityTime
  unfold doVoting at proposed
  -- the action was set by the decision for the amendment's own entry of the table
  obtain ⟨entry, mem, actions, was, is⟩ := exists_step_of_foldl _
    (P := fun (actions : SortedMap Uint256 Nat) => actions.find? amendment = some flags) (by simp) proposed
  have own : ∀ value, (actions.alter entry.1 fun _ => some value).find? amendment = some flags →
      amendment = entry.1 ∧ value = flags := by
    intro value set
    rw [SortedMap.find?_alter] at set
    split_ifs at set with same
    · exact ⟨same, Option.some.inj set⟩
    · exact absurd set was
  have stored : table.amendmentMap.find? entry.1 = some entry.2 := (SortedMap.mem_entries_iff _).mp mem
  unfold voteAction at is
  dsimp only at is
  split_ifs at is with enabledNow got lost held
  · exact absurd is was
  · obtain ⟨rfl, rfl⟩ := own _ is
    exact ⟨entry.2, stored, enabledNow, .inl ⟨rfl, got⟩⟩
  · obtain ⟨rfl, rfl⟩ := own _ is
    exact ⟨entry.2, stored, enabledNow, .inr (.inl ⟨rfl, Nat.lt_of_not_le lost.1, lost.2⟩)⟩
  · obtain ⟨rfl, rfl⟩ := own _ is
    -- the loss of the majority was not decided, so the votes reach the threshold
    have votes : table.threshold set ≤ set.count entry.1 := Classical.byContradiction fun below => lost ⟨below, held.1⟩
    exact ⟨entry.2, stored, enabledNow, .inr (.inr ⟨rfl, votes, held⟩)⟩
  · exact absurd is was

/-- A proposed pseudo-transaction is a decision of `doVoting` on the last closed ledger. -/
theorem find?_of_proposeVotes {proposeAmendments : Bool} {table : AmendmentTable} {parentCloseTime : Nat}
    {lastClosed : Option AmendmentsEntry} {valSet : List STValidation} {amendment : Uint256} {flags : Nat}
    (proposed : (amendment, flags) ∈ table.proposeVotes proposeAmendments parentCloseTime lastClosed valSet) :
    proposeAmendments = true ∧ (table.doVoting parentCloseTime (getEnabledAmendments lastClosed)
      (getMajorityAmendments lastClosed) valSet).find? amendment = some flags := by
  unfold proposeVotes at proposed
  split_ifs at proposed with build
  · obtain ⟨action, mem, same⟩ := List.mem_map.mp proposed
    obtain ⟨rfl, rfl⟩ := Prod.mk.inj same
    exact ⟨build, (SortedMap.mem_entries_iff _).mp mem⟩
  · cases proposed

end AmendmentTable

/-! ## What a round of voting does -/

namespace VotingRound

variable {proposeAmendments : Bool} {majorityTime : Nat} {round : VotingRound} {ledger : ChangeLedger}

/-- An amendment a round enabled had, on the last closed ledger, a majority recorded at least
the majority time before, and a majority of some validator's trusted votes. -/
theorem apply_enables (proposed : round.Proposed proposeAmendments majorityTime ledger) {amendment : Uint256}
    (off : amendment ∉ getEnabledAmendments ledger.amendments)
    (on : amendment ∈ getEnabledAmendments (round.apply ledger).amendments) :
    ∃ closeTime, ⟨amendment, closeTime⟩ ∈ (ledger.amendments.getD ⟨[], []⟩).majorities ∧
      closeTime + majorityTime ≤ round.parentCloseTime ∧ MajorityVoted majorityTime round amendment := by
  obtain ⟨tx, mem, amendmentTx, rfl, notGot, notLost⟩ := runChange_enables off on
  obtain ⟨table, valSet, timed, voted⟩ := proposed tx mem amendmentTx
  obtain ⟨-, found⟩ := AmendmentTable.find?_of_proposeVotes voted
  obtain ⟨state, stored, -, decided⟩ := AmendmentTable.doVoting_action found
  rcases decided with ⟨flagsGot, -⟩ | ⟨flagsLost, -⟩ | ⟨-, votes, held, elapsed, kept⟩
  · rw [flagsGot] at notGot
    exact absurd notGot (by decide)
  · rw [flagsLost] at notLost
    exact absurd notLost (by decide)
  -- the majority time the validator read is a majority the entry records
  rcases read : (getMajorityAmendments ledger.amendments).find? tx.amendment with _ | closeTime
  · rw [read] at held
    exact absurd rfl held
  rw [read, timed] at elapsed
  exact ⟨closeTime, mem_of_getMajorityAmendments read, elapsed,
    table, valSet, timed, by rw [stored]; exact congrArg some kept, votes⟩

/-- A majority a round recorded holds the round's close time, and some validator's trusted
votes made it. -/
theorem apply_records (proposed : round.Proposed proposeAmendments majorityTime ledger) {majority : Majority}
    (off : majority ∉ (ledger.amendments.getD ⟨[], []⟩).majorities)
    (on : majority ∈ ((round.apply ledger).amendments.getD ⟨[], []⟩).majorities) :
    majority.closeTime = round.closeTime ∧ MajorityVoted majorityTime round majority.amendment := by
  obtain ⟨tx, mem, amendmentTx, rfl, got⟩ := runChange_records off on
  obtain ⟨table, valSet, timed, voted⟩ := proposed tx mem amendmentTx
  obtain ⟨-, found⟩ := AmendmentTable.find?_of_proposeVotes voted
  obtain ⟨state, stored, -, decided⟩ := AmendmentTable.doVoting_action found
  rcases decided with ⟨-, votes, -, kept⟩ | ⟨flagsLost, -⟩ | ⟨flagsNone, -⟩
  · exact ⟨rfl, table, valSet, timed, by rw [stored]; exact congrArg some kept, votes⟩
  · rw [flagsLost] at got
    exact absurd got (by decide)
  · rw [flagsNone] at got
    exact absurd got (by decide)

end VotingRound

/-! ## Runs of voting rounds -/

theorem votingRun_take_succ (ledger : ChangeLedger) {rounds : List VotingRound} {n : Nat} (inRun : n < rounds.length) :
    votingRun ledger (rounds.take (n + 1)) = rounds[n].apply (votingRun ledger (rounds.take n)) := by
  simp only [votingRun, List.take_add_one, List.getElem?_eq_getElem inRun, Option.toList_some, List.foldl_append,
    List.foldl_cons, List.foldl_nil]

/-- What each round keeps, from the ledger it starts on, holds at the end of the run. -/
theorem votingRun_induction {P : ChangeLedger → Prop} (ledger : ChangeLedger) {rounds : List VotingRound}
    (holds : P ledger)
    (keeps : ∀ n (inRun : n < rounds.length), P (votingRun ledger (rounds.take n)) →
      P (rounds[n].apply (votingRun ledger (rounds.take n)))) :
    P (votingRun ledger rounds) := by
  -- induction on the rounds done
  have along : ∀ n ≤ rounds.length, P (votingRun ledger (rounds.take n)) := by
    intro n
    induction n with
    | zero =>
      intro _
      simpa [votingRun] using holds
    | succ n ih =>
      intro inRun
      rw [votingRun_take_succ ledger inRun]
      exact keeps n inRun (ih (Nat.le_of_succ_le inRun))
  simpa using along rounds.length le_rfl

section Runs

variable {proposeAmendments : Bool} {majorityTime : Nat} {ledger : ChangeLedger} {rounds : List VotingRound}

/-- Every majority recorded along a run from a ledger with none was made by some
validator's trusted votes in an earlier round, and holds that round's close time. -/
theorem majorities_voted (fresh : (ledger.amendments.getD ⟨[], []⟩).majorities = [])
    (proposed : ∀ n (inRun : n < rounds.length),
      rounds[n].Proposed proposeAmendments majorityTime (votingRun ledger (rounds.take n))) :
    ∀ n ≤ rounds.length, ∀ majority ∈ ((votingRun ledger (rounds.take n)).amendments.getD ⟨[], []⟩).majorities,
      ∃ i < n, ∃ recorded, rounds[i]? = some recorded ∧ majority.closeTime = recorded.closeTime ∧
        MajorityVoted majorityTime recorded majority.amendment := by
  intro n
  -- induction on the rounds done, one round recording at most its own majorities
  induction n with
  | zero =>
    intro _ majority mem
    simp [votingRun, fresh] at mem
  | succ n ih =>
    intro inRun majority mem
    rw [votingRun_take_succ ledger inRun] at mem
    by_cases earlier : majority ∈ ((votingRun ledger (rounds.take n)).amendments.getD ⟨[], []⟩).majorities
    · obtain ⟨i, below, recorded, indexed, timed, voted⟩ := ih (Nat.le_of_succ_le inRun) majority earlier
      exact ⟨i, Nat.lt_succ_of_lt below, recorded, indexed, timed, voted⟩
    · obtain ⟨timed, voted⟩ := VotingRound.apply_records (proposed n inRun) earlier mem
      exact ⟨n, Nat.lt_succ_self n, rounds[n], List.getElem?_eq_getElem inRun, timed, voted⟩

/-- Amendment voting is safe: over any run of rounds whose amendment pseudo-transactions
validators proposed, from a ledger with no recorded majority, an amendment enabled at the end
was enabled in some round `j`, after an earlier round `i` in which some validator's trusted
votes made it a majority; the majority time had passed from round `i`'s close time to the
time round `j` voted at, and some validator's trusted votes still made a majority then. -/
theorem enabled_after_majority_time (fresh : (ledger.amendments.getD ⟨[], []⟩).majorities = [])
    (proposed : ∀ n (inRun : n < rounds.length),
      rounds[n].Proposed proposeAmendments majorityTime (votingRun ledger (rounds.take n)))
    {amendment : Uint256} (off : amendment ∉ getEnabledAmendments ledger.amendments)
    (on : amendment ∈ getEnabledAmendments (votingRun ledger rounds).amendments) :
    ∃ i j, ∃ recorded enabling, i < j ∧ rounds[i]? = some recorded ∧ rounds[j]? = some enabling ∧
      MajorityVoted majorityTime recorded amendment ∧ MajorityVoted majorityTime enabling amendment ∧
      recorded.closeTime + majorityTime ≤ enabling.parentCloseTime ∧
      amendment ∉ getEnabledAmendments (votingRun ledger (rounds.take j)).amendments ∧
      amendment ∈ getEnabledAmendments (votingRun ledger (rounds.take (j + 1))).amendments := by
  -- the round that enabled it
  obtain ⟨j, inRun, before, after⟩ := exists_crossing
    (P := fun n => amendment ∈ getEnabledAmendments (votingRun ledger (rounds.take n)).amendments)
    (by simpa [votingRun] using off) (n := rounds.length) (by simpa using on)
  have enabled := after
  rw [votingRun_take_succ ledger inRun] at enabled
  obtain ⟨closeTime, recordedMajority, elapsed, stillVoted⟩ :=
    VotingRound.apply_enables (proposed j inRun) before enabled
  -- the round that recorded the majority it was enabled on
  obtain ⟨i, below, recorded, indexed, timed, voted⟩ :=
    majorities_voted fresh proposed j inRun.le _ recordedMajority
  refine ⟨i, j, recorded, rounds[j], below, indexed, List.getElem?_eq_getElem inRun, voted, stillVoted, ?_, before, after⟩
  have sameTime : closeTime = recorded.closeTime := timed
  rw [← sameTime]
  exact elapsed

/-- A validator that knows one amendment, with a majority time of ten seconds and the
majority fraction of 204 out of 256. -/
def oneAmendmentTable : AmendmentTable :=
  ⟨SortedMap.empty.insert (Uint256.ofNat 77) ⟨false, true⟩, 10, 204⟩

/-- The trusted validation that asks for the amendment. -/
def oneAmendmentVote : List STValidation := [⟨true, some [Uint256.ofNat 77], none, none, none⟩]

/-- An amendment pseudo-transaction for the amendment, as `AmendmentTable::doVoting` builds
it, with a transaction id. -/
def amendmentPseudoTx (transactionID : Nat) (flags : Nat) : ChangeTx :=
  ⟨.ttAMENDMENT, Uint256.ofNat transactionID, AccountID.zero, STAmount.ofXRPAmount 0, true, false, false, 0, none,
    flags, Uint256.ofNat 77, 0, 0, 0, 0⟩

/-- The amendment gets a majority in a round that votes at 100 and closes at 110, and is
enabled in one that votes at 120. -/
def majorityRounds : List VotingRound :=
  [⟨100, 110, [amendmentPseudoTx 1 tfGotMajority]⟩, ⟨120, 130, [amendmentPseudoTx 2 0]⟩]

/-- A ledger with no `Amendments` entry. -/
def noAmendments : ChangeLedger := ⟨none, ⟨10, 10, 20, 5⟩⟩

theorem majorityRounds_proposed : ∀ n (inRun : n < majorityRounds.length),
    majorityRounds[n].Proposed true 10 (votingRun noAmendments (majorityRounds.take n))
  | 0, _ => by
    show VotingRound.Proposed true 10 ⟨100, 110, [amendmentPseudoTx 1 tfGotMajority]⟩ (votingRun noAmendments [])
    intro tx mem _
    rw [List.mem_singleton.mp mem]
    exact ⟨oneAmendmentTable, oneAmendmentVote, rfl, by decide⟩
  | 1, _ => by
    show VotingRound.Proposed true 10 ⟨120, 130, [amendmentPseudoTx 2 0]⟩
      (votingRun noAmendments [⟨100, 110, [amendmentPseudoTx 1 tfGotMajority]⟩])
    intro tx mem _
    rw [List.mem_singleton.mp mem]
    exact ⟨oneAmendmentTable, oneAmendmentVote, rfl, by decide⟩

theorem enabled_after_majority_time_majorityRounds :
    getEnabledAmendments (votingRun noAmendments majorityRounds).amendments = [Uint256.ofNat 77] ∧
    ∃ i j, ∃ recorded enabling, i < j ∧ majorityRounds[i]? = some recorded ∧ majorityRounds[j]? = some enabling ∧
      MajorityVoted 10 recorded (Uint256.ofNat 77) ∧ MajorityVoted 10 enabling (Uint256.ofNat 77) ∧
      recorded.closeTime + 10 ≤ enabling.parentCloseTime ∧
      Uint256.ofNat 77 ∉ getEnabledAmendments (votingRun noAmendments (majorityRounds.take j)).amendments ∧
      Uint256.ofNat 77 ∈ getEnabledAmendments (votingRun noAmendments (majorityRounds.take (j + 1))).amendments :=
  ⟨by decide, enabled_after_majority_time rfl majorityRounds_proposed (by decide) (by decide)⟩

/-- Under the default build, which leaves out `RIPPLE_PROPOSE_AMENDMENTS`, no validator
proposes an amendment pseudo-transaction, and no round of voting changes the `Amendments`
entry. -/
theorem default_build_keeps_amendments {round : VotingRound} (proposed : round.Proposed false majorityTime ledger) :
    (round.apply ledger).amendments = ledger.amendments := by
  unfold VotingRound.apply runChange
  refine foldl_induction _ (P := fun (state : ChangeLedger) => state.amendments = ledger.amendments) rfl ?_
  intro state tx mem same
  rcases applyChange_cases state round.closeTime tx with unchanged | applied
  · rw [unchanged, same]
  generalize (applyChange state round.closeTime tx).2 = after at applied ⊢
  rcases Change.doApply_eq_success applied with ⟨amendmentTx, -⟩ | ⟨-, rfl⟩
  · obtain ⟨table, valSet, -, voted⟩ := proposed tx mem amendmentTx
    exact absurd (AmendmentTable.find?_of_proposeVotes voted).1 (by decide)
  · exact same

/-- Under the default build no run of rounds changes the `Amendments` entry. -/
theorem default_build_never_amends
    (proposed : ∀ n (inRun : n < rounds.length),
      rounds[n].Proposed false majorityTime (votingRun ledger (rounds.take n))) :
    (votingRun ledger rounds).amendments = ledger.amendments :=
  votingRun_induction (P := fun (state : ChangeLedger) => state.amendments = ledger.amendments) ledger rfl
    fun n inRun same => (default_build_keeps_amendments (proposed n inRun)).trans same

end Runs

end RadardFormal.Tx
