import RadardFormal.Tx.AmendmentTable

/-!
# Fee voting

On the ledger before a flag ledger each validator votes, in its validation, for each fee
setting of its own schedule that the ledger does not have (`FeeVoteImpl::doValidation`).  On
the flag ledger a validator that proposes tallies, for the base fee, the reserve and the
reserve increment, its own target and the vote of each trusted validation of the parent
ledger, the current setting standing for a validation without one.  It takes the most voted
value between the current setting and its target (`VotableInteger::getVotes`), and puts a
fee pseudo-transaction into its initial position when that changes a setting
(`FeeVoteImpl::doVoting`).

A vote lies between the ledger's settings and the validator's target, setting by setting
(`doVoting_within`), so no run of rounds moves a setting out of a range that holds the
starting settings and every validator's target (`fees_within_targets`).  When every trusted
validation comes from a validator with one's own setup, the vote is that setup's schedule
(`doVoting_unanimous`).

The setup holds 64-bit values; the two reserves are 32-bit in a validation, a fee
transaction and the ledger, and are narrowed where the source assigns them (`% 2 ^ 32`).
-/

namespace RadardFormal.Ledger

/-- Fee settings between two schedules, for each setting the votes move. -/
structure Fees.Within (fees lo hi : Fees) : Prop where
  base : lo.base ≤ fees.base ∧ fees.base ≤ hi.base
  reserve : lo.reserve ≤ fees.reserve ∧ fees.reserve ≤ hi.reserve
  increment : lo.increment ≤ fees.increment ∧ fees.increment ≤ hi.increment

instance (fees lo hi : Fees) : Decidable (fees.Within lo hi) :=
  decidable_of_iff ((lo.base ≤ fees.base ∧ fees.base ≤ hi.base) ∧
      (lo.reserve ≤ fees.reserve ∧ fees.reserve ≤ hi.reserve) ∧
      (lo.increment ≤ fees.increment ∧ fees.increment ≤ hi.increment))
    ⟨fun ⟨base, reserve, increment⟩ => ⟨base, reserve, increment⟩,
      fun ⟨base, reserve, increment⟩ => ⟨base, reserve, increment⟩⟩

@[simp] theorem Fees.accountReserve_zero (fees : Fees) : fees.accountReserve 0 = fees.reserve := by
  simp [Fees.accountReserve]

end RadardFormal.Ledger

namespace RadardFormal.Tx

open RadardFormal.Protocol RadardFormal.Ledger RadardFormal.Support

namespace FeeVote

/-- `FeeVote::Setup`: the fee schedule the validator moves towards, with its recommended
values. -/
structure Setup where
  referenceFee : Nat := 1000
  accountReserve : Nat := 0
  ownerReserve : Nat := 0
  deriving DecidableEq, Repr

/-- `Setup::reference_fee_units`, a constant of every setup. -/
def Setup.referenceFeeUnits : Nat := 10

/-- The schedule the setup's votes take, its reserves narrowed to 32 bits. -/
def Setup.target (setup : Setup) : Fees :=
  ⟨setup.referenceFee, Setup.referenceFeeUnits, setup.accountReserve % 2 ^ 32, setup.ownerReserve % 2 ^ 32⟩

end FeeVote

/-- `detail::VotableInteger`: the current setting, the one the validator wants, and the votes
for each value. -/
structure VotableInteger where
  current : Nat
  target : Nat
  voteMap : Tally Nat

namespace VotableInteger

/-- The constructor casts the validator's own vote, for its target. -/
def make (current target : Nat) : VotableInteger := ⟨current, target, Tally.empty.addVote target⟩

/-- `addVote`. -/
def addVote (votable : VotableInteger) (vote : Nat) : VotableInteger :=
  { votable with voteMap := votable.voteMap.addVote vote }

/-- `noVote`: a vote for the current setting. -/
def noVote (votable : VotableInteger) : VotableInteger := votable.addVote votable.current

/-- `getVotes`: the most voted value between the current setting and the target, inclusive,
the least of them on a tie; the current setting when none of them has a vote. -/
def getVotes (votable : VotableInteger) : Nat :=
  votable.voteMap.pluralityIn (min votable.target votable.current) (max votable.target votable.current)
    votable.current

/-- The body of the loop of `doVoting`, for one setting: a trusted validation votes with its
field, or for the current setting without one; an untrusted one does not count. -/
def addValidation (field : STValidation → Option Nat) (votable : VotableInteger) (val : STValidation) :
    VotableInteger :=
  if val.trusted then
    match field val with
    | some vote => votable.addVote vote
    | none => votable.noVote
  else votable

end VotableInteger

namespace FeeVote

/-- `FeeVoteImpl::doValidation`: a vote for each setting of the validator's schedule that the
last closed ledger does not have. -/
def doValidation (setup : Setup) (fees : Fees) (baseValidation : STValidation) : STValidation :=
  let val := if fees.base ≠ setup.referenceFee then { baseValidation with baseFee := some setup.referenceFee }
    else baseValidation
  let val := if fees.accountReserve 0 ≠ setup.accountReserve then
      { val with reserveBase := some (setup.accountReserve % 2 ^ 32) }
    else val
  if fees.increment ≠ setup.ownerReserve then { val with reserveIncrement := some (setup.ownerReserve % 2 ^ 32) }
  else val

/-- `FeeVoteImpl::doVoting` on the flag ledger: the settings of the validator's fee
pseudo-transaction, none when its vote keeps the ledger's.  The loop over the validations
feeds three tallies that do not interact, so each is its own fold here. -/
def doVoting (setup : Setup) (fees : Fees) (set : List STValidation) : Option Fees :=
  let baseFeeVote := set.foldl (VotableInteger.addValidation STValidation.baseFee)
    (VotableInteger.make fees.base setup.referenceFee)
  let baseReserveVote := set.foldl (VotableInteger.addValidation STValidation.reserveBase)
    (VotableInteger.make ((fees.accountReserve 0).toNat % 2 ^ 32) (setup.accountReserve % 2 ^ 32))
  let incReserveVote := set.foldl (VotableInteger.addValidation STValidation.reserveIncrement)
    (VotableInteger.make fees.increment (setup.ownerReserve % 2 ^ 32))
  let baseFee := baseFeeVote.getVotes
  let baseReserve := baseReserveVote.getVotes
  let incReserve := incReserveVote.getVotes
  if baseFee ≠ fees.base ∨ (baseReserve : Int) ≠ fees.accountReserve 0 ∨ incReserve ≠ fees.increment then
    some ⟨baseFee, Setup.referenceFeeUnits, baseReserve, incReserve⟩
  else none

end FeeVote

/-- The validation a validator signs for a closed ledger (`LedgerConsensusImp::accept`): its
own, so trusted, and, when the next ledger is a flag ledger, with its fee votes and the
amendments it asks for (no field when there are none).  The flag ledger's settings are those
of the ledger before it, which no pseudo-transaction changes, so one ledger stands for both. -/
def buildValidation (setup : FeeVote.Setup) (table : AmendmentTable) (ledger : ChangeLedger) (seq : Nat) :
    STValidation :=
  let v : STValidation := ⟨true, none, none, none, none⟩
  if (seq + 1) % 256 = 0 then
    let v := FeeVote.doValidation setup ledger.fees v
    let ourAmendments := table.doValidation (getEnabledAmendments ledger.amendments)
    if ourAmendments.isEmpty then v else { v with amendments := some ourAmendments }
  else v

/-! ## What a vote can be -/

namespace VotableInteger

/-- A validation changes the votes only. -/
theorem addValidation_keeps (field : STValidation → Option Nat) (votable : VotableInteger) (val : STValidation) :
    (addValidation field votable val).current = votable.current ∧
      (addValidation field votable val).target = votable.target := by
  unfold addValidation
  split_ifs
  · split <;> exact ⟨rfl, rfl⟩
  · exact ⟨rfl, rfl⟩

/-- The validations change the votes only. -/
theorem foldl_addValidation_keeps (field : STValidation → Option Nat) (set : List STValidation)
    (votable : VotableInteger) :
    (set.foldl (addValidation field) votable).current = votable.current ∧
      (set.foldl (addValidation field) votable).target = votable.target := by
  refine foldl_induction _ (P := fun (v : VotableInteger) => v.current = votable.current ∧ v.target = votable.target)
    ⟨rfl, rfl⟩ ?_
  rintro v val - ⟨sameCurrent, sameTarget⟩
  obtain ⟨keptCurrent, keptTarget⟩ := addValidation_keeps field v val
  exact ⟨keptCurrent.trans sameCurrent, keptTarget.trans sameTarget⟩

/-- The vote lies between the current setting and the target. -/
theorem getVotes_between (votable : VotableInteger) :
    min votable.target votable.current ≤ votable.getVotes ∧ votable.getVotes ≤ max votable.target votable.current := by
  unfold getVotes
  rcases votable.voteMap.pluralityIn_cases (min votable.target votable.current) (max votable.target votable.current)
      votable.current with kept | ⟨low, high, -⟩
  · rw [kept]
    exact ⟨min_le_right _ _, le_max_right _ _⟩
  · exact ⟨low, high⟩

/-- What `doVoting` takes for one setting lies between the current setting and the target. -/
theorem getVotes_foldl_between (field : STValidation → Option Nat) (set : List STValidation) (current target : Nat) :
    min target current ≤ (set.foldl (addValidation field) (make current target)).getVotes ∧
      (set.foldl (addValidation field) (make current target)).getVotes ≤ max target current := by
  obtain ⟨sameCurrent, sameTarget⟩ := foldl_addValidation_keeps field set (make current target)
  have between := getVotes_between (set.foldl (addValidation field) (make current target))
  rw [sameCurrent, sameTarget] at between
  exact between

/-- Every vote of the tally is for the target, and it has one. -/
def VotesOnlyFor (target : Nat) (votable : VotableInteger) : Prop :=
  0 < votable.voteMap.count target ∧ ∀ other, other ≠ target → votable.voteMap.count other = 0

theorem make_votesOnlyFor (current target : Nat) : (make current target).VotesOnlyFor target :=
  ⟨by simp [make], fun other apart => by simp [make, apart]⟩

theorem addVote_votesOnlyFor {votable : VotableInteger} {target : Nat} (only : votable.VotesOnlyFor target) :
    (votable.addVote target).VotesOnlyFor target :=
  ⟨by simp [addVote], fun other apart => by simp [addVote, apart, only.2 other apart]⟩

/-- A validation that votes for the target, or carries no vote while the current setting is
the target, leaves every vote for the target. -/
theorem addValidation_votesOnlyFor {field : STValidation → Option Nat} {votable : VotableInteger}
    {val : STValidation} {target : Nat} (only : votable.VotesOnlyFor target)
    (agreed : val.trusted → field val = some target ∨ field val = none ∧ votable.current = target) :
    (addValidation field votable val).VotesOnlyFor target := by
  unfold addValidation
  split_ifs with trusted
  · split
    · rename_i vote present
      rcases agreed trusted with carried | ⟨absent, -⟩
      · obtain rfl := Option.some.inj (present.symm.trans carried)
        exact addVote_votesOnlyFor only
      · rw [present] at absent
        cases absent
    · rename_i absent
      rcases agreed trusted with carried | ⟨-, atTarget⟩
      · rw [absent] at carried
        cases carried
      · unfold noVote
        rw [atTarget]
        exact addVote_votesOnlyFor only
  · exact only

/-- When every trusted validation votes for the target, or carries no vote while the current
setting is the target, the tally has votes for the target only, and takes it. -/
theorem getVotes_unanimous {field : STValidation → Option Nat} {set : List STValidation} {current target : Nat}
    (agreed : ∀ val ∈ set, val.trusted → field val = some target ∨ field val = none ∧ current = target) :
    (set.foldl (addValidation field) (make current target)).getVotes = target := by
  -- the invariant carries the current setting, which a validation without a vote counts for
  obtain ⟨-, voted, others⟩ : (set.foldl (addValidation field) (make current target)).current = current ∧
      (set.foldl (addValidation field) (make current target)).VotesOnlyFor target := by
    refine foldl_induction _ (P := fun (v : VotableInteger) => v.current = current ∧ v.VotesOnlyFor target)
      ⟨rfl, make_votesOnlyFor current target⟩ ?_
    rintro v val mem ⟨same, only⟩
    refine ⟨(addValidation_keeps field v val).1.trans same, addValidation_votesOnlyFor only fun trusted => ?_⟩
    rw [same]
    exact agreed val mem trusted
  obtain ⟨sameCurrent, sameTarget⟩ := foldl_addValidation_keeps field set (make current target)
  unfold getVotes
  rw [sameCurrent, sameTarget]
  exact Tally.pluralityIn_eq_of_sole _ current (min_le_left _ _) (le_max_left _ _) voted others

end VotableInteger

namespace FeeVote

/-- A vote lies between the ledger's settings and the validator's target, setting by setting:
within any range that holds both. -/
theorem doVoting_within {setup : Setup} {fees lo hi voted : Fees} {set : List STValidation}
    (current : fees.Within lo hi) (target : setup.target.Within lo hi) (fits : fees.reserve < 2 ^ 32)
    (vote : doVoting setup fees set = some voted) : voted.Within lo hi := by
  unfold doVoting at vote
  dsimp only at vote
  split_ifs at vote
  cases vote
  have base := VotableInteger.getVotes_foldl_between STValidation.baseFee set fees.base setup.referenceFee
  have reserve := VotableInteger.getVotes_foldl_between STValidation.reserveBase set
    ((fees.accountReserve 0).toNat % 2 ^ 32) (setup.accountReserve % 2 ^ 32)
  have increment := VotableInteger.getVotes_foldl_between STValidation.reserveIncrement set fees.increment
    (setup.ownerReserve % 2 ^ 32)
  -- the ledger's reserve is 32-bit, so narrowing it keeps it
  have narrowed : (fees.accountReserve 0).toNat % 2 ^ 32 = fees.reserve := by
    rw [Fees.accountReserve_zero, Int.toNat_natCast, Nat.mod_eq_of_lt fits]
  rw [narrowed] at reserve ⊢
  obtain ⟨currentBase, currentReserve, currentIncrement⟩ := current
  obtain ⟨targetBase, targetReserve, targetIncrement⟩ := target
  simp only [Setup.target] at targetBase targetReserve targetIncrement
  refine ⟨?_, ?_, ?_⟩ <;> dsimp only <;> omega

/-- The fee votes a validation carries after `doValidation`: the target of each setting the
ledger does not have, what it carried before otherwise. -/
theorem doValidation_fields (setup : Setup) (fees : Fees) (val : STValidation) :
    (doValidation setup fees val).baseFee =
        (if fees.base ≠ setup.referenceFee then some setup.referenceFee else val.baseFee) ∧
      (doValidation setup fees val).reserveBase =
        (if fees.reserve ≠ setup.accountReserve then some (setup.accountReserve % 2 ^ 32) else val.reserveBase) ∧
      (doValidation setup fees val).reserveIncrement =
        (if fees.increment ≠ setup.ownerReserve then some (setup.ownerReserve % 2 ^ 32) else val.reserveIncrement) := by
  unfold doValidation
  simp only [Fees.accountReserve_zero, ne_eq, Nat.cast_inj]
  split_ifs <;> exact ⟨rfl, rfl, rfl⟩

end FeeVote

/-- A flag validation carries the fee votes of `doValidation` on a validation with none. -/
theorem buildValidation_fees (setup : FeeVote.Setup) (table : AmendmentTable) (ledger : ChangeLedger) {seq : Nat}
    (flag : (seq + 1) % 256 = 0) :
    let votes := FeeVote.doValidation setup ledger.fees ⟨true, none, none, none, none⟩
    (buildValidation setup table ledger seq).baseFee = votes.baseFee ∧
      (buildValidation setup table ledger seq).reserveBase = votes.reserveBase ∧
      (buildValidation setup table ledger seq).reserveIncrement = votes.reserveIncrement := by
  unfold buildValidation
  simp only [flag, if_true]
  split_ifs <;> exact ⟨rfl, rfl, rfl⟩

namespace FeeVote

/-- When every trusted validation of the set is the flag validation of a validator with one's
own setup, on a ledger whose reserves are 32-bit, the vote is the setup's schedule, or
nothing when the ledger already has it. -/
theorem doVoting_unanimous {setup : Setup} {ledger : ChangeLedger} {set : List STValidation} {seq : Nat}
    (flag : (seq + 1) % 256 = 0) (fits : ledger.fees.reserve < 2 ^ 32 ∧ ledger.fees.increment < 2 ^ 32)
    (agreed : ∀ val ∈ set, val.trusted → ∃ table, val = buildValidation setup table ledger seq) :
    doVoting setup ledger.fees set =
      if setup.target.base ≠ ledger.fees.base ∨ setup.target.reserve ≠ ledger.fees.reserve ∨
          setup.target.increment ≠ ledger.fees.increment then some setup.target
      else none := by
  -- what each validation carries, setting by setting
  have fields : ∀ val ∈ set, val.trusted →
      (val.baseFee = some setup.target.base ∨ val.baseFee = none ∧ ledger.fees.base = setup.target.base) ∧
      (val.reserveBase = some setup.target.reserve ∨ val.reserveBase = none ∧ ledger.fees.reserve = setup.target.reserve) ∧
      (val.reserveIncrement = some setup.target.increment ∨
        val.reserveIncrement = none ∧ ledger.fees.increment = setup.target.increment) := by
    intro val mem trusted
    obtain ⟨table, rfl⟩ := agreed val mem trusted
    obtain ⟨base, reserve, increment⟩ := buildValidation_fees setup table ledger flag
    obtain ⟨votedBase, votedReserve, votedIncrement⟩ :=
      doValidation_fields setup ledger.fees ⟨true, none, none, none, none⟩
    rw [base, reserve, increment, votedBase, votedReserve, votedIncrement]
    simp only [Setup.target]
    -- a setting the ledger has carries no vote, and its narrowing is the ledger's
    refine ⟨?_, ?_, ?_⟩ <;> split_ifs with differs
    · exact .inl rfl
    · exact .inr ⟨rfl, not_not.mp differs⟩
    · exact .inl rfl
    · exact .inr ⟨rfl, by have := not_not.mp differs; omega⟩
    · exact .inl rfl
    · exact .inr ⟨rfl, by have := not_not.mp differs; omega⟩
  have base := VotableInteger.getVotes_unanimous (fun val mem trusted => (fields val mem trusted).1)
  have reserve := VotableInteger.getVotes_unanimous (fun val mem trusted => (fields val mem trusted).2.1)
  have increment := VotableInteger.getVotes_unanimous (fun val mem trusted => (fields val mem trusted).2.2)
  have narrowed : (ledger.fees.accountReserve 0).toNat % 2 ^ 32 = ledger.fees.reserve := by
    rw [Fees.accountReserve_zero, Int.toNat_natCast, Nat.mod_eq_of_lt fits.1]
  simp only [Setup.target] at base reserve increment
  unfold doVoting
  dsimp only
  rw [narrowed, base, reserve, increment]
  simp only [Fees.accountReserve_zero, Setup.target, ne_eq, Nat.cast_inj]
  rfl

end FeeVote

/-- A validator that wants a base fee of twelve drops, a reserve of twenty and an increment of
five. -/
def twelveDropSetup : FeeVote.Setup := { referenceFee := 12, accountReserve := 20, ownerReserve := 5 }

theorem doVoting_unanimous_twelveDrops :
    FeeVote.doVoting twelveDropSetup noAmendments.fees
        [buildValidation twelveDropSetup oneAmendmentTable noAmendments 255, ⟨false, none, some 30, none, none⟩] =
      some ⟨12, 10, 20, 5⟩ :=
  (@FeeVote.doVoting_unanimous twelveDropSetup noAmendments _ 255 (by decide) (by decide) fun val mem trusted => by
    rcases List.mem_pair.mp mem with rfl | rfl
    · exact ⟨oneAmendmentTable, rfl⟩
    · cases trusted).trans (by decide)

/-! ## Runs of rounds -/

/-- Every fee pseudo-transaction of the round is the vote of a validator with a setup of
`setups`, on some validations of the last closed ledger. -/
def VotingRound.FeeProposed (setups : List FeeVote.Setup) (round : VotingRound) (ledger : ChangeLedger) : Prop :=
  ∀ tx ∈ round.txs, tx.txnType = .ttFEE → ∃ setup ∈ setups, ∃ set : List STValidation,
    FeeVote.doVoting setup ledger.fees set = some (Change.applyFee tx)

section Runs

variable {setups : List FeeVote.Setup} {lo hi : Fees} {ledger : ChangeLedger} {rounds : List VotingRound}

/-- A round keeps the fee settings within a 32-bit range that holds every validator's
target. -/
theorem VotingRound.apply_fees_within {round : VotingRound} (proposed : round.FeeProposed setups ledger)
    (targets : ∀ setup ∈ setups, setup.target.Within lo hi) (fits : hi.reserve < 2 ^ 32)
    (start : ledger.fees.Within lo hi) : (round.apply ledger).fees.Within lo hi := by
  unfold VotingRound.apply runChange
  refine foldl_induction _ (P := fun (state : ChangeLedger) => state.fees.Within lo hi) start ?_
  intro state tx mem within
  rcases applyChange_fees state round.closeTime tx with same | ⟨feeTx, set⟩
  · rw [same]
    exact within
  · -- the fee transaction's settings are a vote on the round's last closed ledger
    obtain ⟨setup, member, valSet, vote⟩ := proposed tx mem feeTx
    rw [set]
    exact FeeVote.doVoting_within start (targets setup member) (lt_of_le_of_lt start.reserve.2 fits) vote

/-- Fee voting never leaves the range of the validators' wishes: over any run of rounds whose
fee pseudo-transactions validators with setups of `setups` proposed, every fee setting of
every ledger stays within a 32-bit range that holds the starting settings and every setup's
target. -/
theorem fees_within_targets
    (proposed : ∀ n (inRun : n < rounds.length),
      rounds[n].FeeProposed setups (votingRun ledger (rounds.take n)))
    (targets : ∀ setup ∈ setups, setup.target.Within lo hi) (fits : hi.reserve < 2 ^ 32)
    (start : ledger.fees.Within lo hi) : (votingRun ledger rounds).fees.Within lo hi := by
  refine votingRun_induction (P := fun (state : ChangeLedger) => state.fees.Within lo hi) ledger start ?_
  intro n inRun within
  exact VotingRound.apply_fees_within (proposed n inRun) targets fits within

/-- The fee pseudo-transaction of the vote of a validator with `twelveDropSetup`. -/
def twelveDropFeeTx : ChangeTx :=
  ⟨.ttFEE, Uint256.ofNat 3, AccountID.zero, STAmount.ofXRPAmount 0, true, false, false, 0, none, 0, Uint256.zero,
    12, 10, 20, 5⟩

/-- A round that raises the base fee, then one with no pseudo-transaction. -/
def feeRounds : List VotingRound := [⟨100, 110, [twelveDropFeeTx]⟩, ⟨120, 130, []⟩]

theorem feeRounds_proposed : ∀ n (inRun : n < feeRounds.length),
    feeRounds[n].FeeProposed [twelveDropSetup] (votingRun noAmendments (feeRounds.take n))
  | 0, _ => by
    show VotingRound.FeeProposed [twelveDropSetup] ⟨100, 110, [twelveDropFeeTx]⟩ (votingRun noAmendments [])
    intro tx mem _
    rw [List.mem_singleton.mp mem]
    exact ⟨twelveDropSetup, List.mem_singleton_self _, [], by decide⟩
  | 1, _ => by
    show VotingRound.FeeProposed [twelveDropSetup] ⟨120, 130, []⟩
      (votingRun noAmendments [⟨100, 110, [twelveDropFeeTx]⟩])
    intro tx mem
    cases mem

theorem fees_within_targets_feeRounds :
    (votingRun noAmendments feeRounds).fees = ⟨12, 10, 20, 5⟩ ∧
      (votingRun noAmendments feeRounds).fees.Within ⟨10, 0, 20, 5⟩ ⟨12, 0, 20, 5⟩ :=
  ⟨by decide, fees_within_targets feeRounds_proposed (by decide) (by decide) (by decide)⟩

end Runs

end RadardFormal.Tx
