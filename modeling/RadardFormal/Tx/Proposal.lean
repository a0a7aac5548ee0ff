import RadardFormal.Protocol.Basics

/-!
# Governance proposals

`CreateProposal` lets the configured vote admin open a proposal with a number of options and
an expiry time; the proposals are numbered from one, the largest number given out kept under
`keylet::proposal (0)`.  `CloseProposal` lets the proposer close an open proposal before it
expires, recording the closing ledger.  `VoteProposal` rebuilds the voter's `sfProposalVotes`:
records of closed or expired proposals are dropped, the record of the proposal voted on takes
the new vote, and a vote of zero abstains.

The model keeps of a ledger what the three transactors read and write: the entries under
`keylet::proposal (index)`, keyed by the index as every keylet is keyed by its preimage, and
the `sfProposalVotes` of each account root.  A transaction refused by preflight or preclaim
changes neither (a claimed fee touches only the account's balance and sequence).  Of the
checks `invoke_preclaim` makes before the transactor's own, only the existence of the
sender's root is kept: leaving out the sequence, fee and signature checks admits more
transactions, so what holds over every run here holds over the runs they allow.

The transactors call neither `preflight1` nor `preflight2`, so nothing in `ripple::apply`
refuses the zero account, for which `invoke_preclaim` skips every check, the transactor's
preclaim included.  Nothing before it does either: `passesLocalChecks` refuses an unset
account field, not a zero one, and the dividend transactions of the same server are sent
from the zero account through the same `checkValidity`.  The shape below is kept by every
run of transactions from other senders (`Run`); a transaction from the zero account breaks
it (`zero_sender_breaks_governance`).
-/

namespace RadardFormal.Protocol

/-- `temBAD_EXPIRATION`. -/
def temBAD_EXPIRATION : TER := ⟨-296⟩

end RadardFormal.Protocol

namespace RadardFormal.Tx

open RadardFormal.Protocol TER

/-- An `ltPROPOSAL` entry.  Every field of its format is optional; the entry under
`keylet::proposal (0)` holds only `sfProposalIndex`. -/
structure ProposalSle where
  account : Option AccountID
  proposalIndex : Option Nat
  proposalOptions : Option Nat
  proposalExpire : Option Nat
  proposalAppendix : Option (List UInt8)
  proposalCloseLedger : Option Nat
  deriving DecidableEq, Repr

namespace ProposalSle

/-- The entry `CreateProposal` makes under `keylet::proposal (0)` on first use. -/
def infoEntry : ProposalSle := ⟨none, some 0, none, none, none, none⟩

/-- `getFieldU32 (sfProposalExpire)`: zero when absent. -/
def expireTime (sle : ProposalSle) : Nat := sle.proposalExpire.getD 0

/-- `getFieldU8 (sfProposalOptions)`. -/
def options (sle : ProposalSle) : Nat := sle.proposalOptions.getD 0

/-- A proposal is closed once `sfProposalCloseLedger` is present and non-zero. -/
def closed (sle : ProposalSle) : Bool :=
  match sle.proposalCloseLedger with
  | some closeLedgerSeq => closeLedgerSeq > 0
  | none => false

end ProposalSle

/-- One `sfVoteRecords` object of an account's `sfProposalVotes`. -/
structure VoteRecord where
  proposalIndex : Nat
  proposalVote : Nat
  deriving DecidableEq, Repr

/-- What the proposal transactors read of an `ltACCOUNT_ROOT`: its optional
`sfProposalVotes`. -/
structure VoterRoot where
  proposalVotes : Option (List VoteRecord)
  deriving DecidableEq, Repr

/-- The proposal entries of a ledger, by index, and its account roots. -/
structure ProposalLedger where
  proposal : Nat → Option ProposalSle
  accountRoot : AccountID → Option VoterRoot

/-- What a transaction reads of the ledger it is applied to: `info ().seq`,
`info ().closeTime` and `parentCloseTime ()`. -/
structure CloseInfo where
  seq : Nat
  closeTime : Nat
  parentCloseTime : Nat
  deriving DecidableEq, Repr

/-- The `[proposal_vote]` section: its `vote_admin` as an account, `none` when the section is
missing or the text is no account. -/
structure ProposalConfig where
  voteAdmin : Option AccountID
  deriving DecidableEq, Repr

/-- The three proposal transactions with the fields they carry; the first is `sfAccount`. -/
inductive ProposalTx where
  | createProposal (account : AccountID) (proposalOptions proposalExpire : Option Nat)
      (proposalAppendix : Option (List UInt8))
  | closeProposal (account : AccountID) (proposalIndex : Option Nat)
  | voteProposal (account : AccountID) (proposalIndex proposalVote : Option Nat)
  deriving DecidableEq, Repr

/-- `sfAccount`. -/
def ProposalTx.account : ProposalTx → AccountID
  | .createProposal account _ _ _ => account
  | .closeProposal account _ => account
  | .voteProposal account _ _ => account

namespace ProposalLedger

/-- Write the entry under `keylet::proposal (index)`. -/
def setProposal (view : ProposalLedger) (index : Nat) (sle : ProposalSle) : ProposalLedger :=
  { view with proposal := fun i => if i = index then some sle else view.proposal i }

/-- `view ().insert`: a key already taken is a `LogicError`, which stops the server. -/
def insertProposal (view : ProposalLedger) (index : Nat) (sle : ProposalSle) : Option ProposalLedger :=
  if view.proposal index = none then some (view.setProposal index sle) else none

/-- Write an account root. -/
def setAccountRoot (view : ProposalLedger) (account : AccountID) (root : VoterRoot) : ProposalLedger :=
  { view with accountRoot := fun a => if a = account then some root else view.accountRoot a }

/-- The largest proposal index given out: `sfProposalIndex` under `keylet::proposal (0)`, zero
before the first proposal. -/
def lastIndex (view : ProposalLedger) : Nat := ((view.proposal 0).bind (·.proposalIndex)).getD 0

/-- An account's vote records, none when it has no root or no `sfProposalVotes`. -/
def votesOf (view : ProposalLedger) (account : AccountID) : List VoteRecord :=
  ((view.accountRoot account).bind (·.proposalVotes)).getD []

/-- The proposal under `index` is there, not closed, and not expired at the close time. -/
def liveAt (info : CloseInfo) (view : ProposalLedger) (index : Nat) : Bool :=
  match view.proposal index with
  | some sle => !sle.closed && !(sle.expireTime < info.closeTime)
  | none => false

section Writes

variable (view : ProposalLedger)

@[simp] theorem proposal_setProposal (index : Nat) (sle : ProposalSle) (i : Nat) :
    (view.setProposal index sle).proposal i = if i = index then some sle else view.proposal i := rfl

@[simp] theorem accountRoot_setProposal (index : Nat) (sle : ProposalSle) :
    (view.setProposal index sle).accountRoot = view.accountRoot := rfl

@[simp] theorem votesOf_setProposal (index : Nat) (sle : ProposalSle) :
    (view.setProposal index sle).votesOf = view.votesOf := rfl

@[simp] theorem proposal_setAccountRoot (account : AccountID) (root : VoterRoot) :
    (view.setAccountRoot account root).proposal = view.proposal := rfl

@[simp] theorem liveAt_setAccountRoot (info : CloseInfo) (account : AccountID) (root : VoterRoot) :
    (view.setAccountRoot account root).liveAt info = view.liveAt info := rfl

theorem votesOf_setAccountRoot (account : AccountID) (root : VoterRoot) (a : AccountID) :
    (view.setAccountRoot account root).votesOf a = if a = account then root.proposalVotes.getD [] else view.votesOf a := by
  by_cases same : a = account
  · simp [votesOf, setAccountRoot, same]
  · simp [votesOf, setAccountRoot, same]

theorem insertProposal_eq_some {index : Nat} {sle : ProposalSle} {after : ProposalLedger} :
    view.insertProposal index sle = some after ↔ view.proposal index = none ∧ after = view.setProposal index sle := by
  unfold insertProposal
  split_ifs with free
  · simp [free, eq_comm]
  · simp [free]

end Writes

/-- The last index is read from the entry under zero alone. -/
theorem lastIndex_congr {view view' : ProposalLedger} (zero : view'.proposal 0 = view.proposal 0) :
    view'.lastIndex = view.lastIndex := by
  unfold lastIndex
  rw [zero]

/-- An entry that is live at the close time is there. -/
theorem proposal_ne_none_of_liveAt {info : CloseInfo} {view : ProposalLedger} {index : Nat}
    (live : view.liveAt info index = true) : view.proposal index ≠ none := by
  unfold liveAt at live
  intro missing
  rw [missing] at live
  cases live

/-- A closed entry is not live. -/
theorem not_closed_of_liveAt {info : CloseInfo} {view : ProposalLedger} {index : Nat} {sle : ProposalSle}
    (live : view.liveAt info index = true) (found : view.proposal index = some sle) : sle.closed = false := by
  simp only [liveAt, found, Bool.and_eq_true, Bool.not_eq_true'] at live
  exact live.1

end ProposalLedger

/-! ## The transactors -/

namespace CreateProposal

/-- `CreateProposal::preflight`. -/
def preflight (config : ProposalConfig) (proposalOptions proposalExpire : Option Nat) : TER :=
  match config.voteAdmin with
  | none => tefINTERNAL
  | some _ =>
    if proposalOptions.isNone || proposalOptions.getD 0 ≤ 0 then temINVALID
    else if proposalExpire.isNone || proposalExpire.getD 0 ≤ 0 then temBAD_EXPIRATION
    else tesSUCCESS

/-- `CreateProposal::preclaim`: the proposal must expire after the parent ledger closed, and
the proposer be the vote admin. -/
def preclaim (config : ProposalConfig) (info : CloseInfo) (view : ProposalLedger) (proposer : AccountID)
    (proposalExpire : Option Nat) : TER :=
  if info.parentCloseTime ≥ proposalExpire.getD 0 then temBAD_EXPIRATION
  else if view.accountRoot proposer = none then terNO_ACCOUNT
  -- an admin text that is no account leaves `adminAccount` zero
  else if config.voteAdmin.getD AccountID.zero ≠ proposer then temINVALID
  else tesSUCCESS

/-- `CreateProposal::doApply`. -/
def doApply (view : ProposalLedger) (account : AccountID) (proposalOptions proposalExpire : Option Nat)
    (proposalAppendix : Option (List UInt8)) : Option ProposalLedger :=
  -- the entry made on first use holds index zero, so both branches read the index from it
  let proposalInfo := (view.proposal 0).getD ProposalSle.infoEntry
  let lastProposalIndex := proposalInfo.proposalIndex.getD 0
  let view := view.setProposal 0 proposalInfo
  -- `lastProposalIndex + 1` is a `uint32_t` sum
  let index := (lastProposalIndex + 1) % 2 ^ 32
  let newProposal : ProposalSle :=
    ⟨some account, some index, some (proposalOptions.getD 0), some (proposalExpire.getD 0),
      proposalAppendix, none⟩
  (view.insertProposal index newProposal).map fun view =>
    view.setProposal 0 { proposalInfo with proposalIndex := some index }

/-- The vote admin is the only proposer preclaim lets through. -/
theorem proposer_eq_of_preclaim {config : ProposalConfig} {admin : AccountID} (configured : config.voteAdmin = some admin)
    {info : CloseInfo} {view : ProposalLedger} {proposer : AccountID} {proposalExpire : Option Nat}
    (passed : preclaim config info view proposer proposalExpire = tesSUCCESS) : proposer = admin := by
  unfold preclaim at passed
  rw [configured, Option.getD_some] at passed
  split_ifs at passed with late missing other
  · cases passed
  · cases passed
  · cases passed
  · exact (not_not.mp other).symm

/-- What an applied `CreateProposal` does: the index after the last is free, and becomes the new
proposal's and the last index given out. -/
theorem doApply_eq_some {view after : ProposalLedger} {account : AccountID} {proposalOptions proposalExpire : Option Nat}
    {proposalAppendix : Option (List UInt8)}
    (applied : doApply view account proposalOptions proposalExpire proposalAppendix = some after) :
    0 < (view.lastIndex + 1) % 2 ^ 32 ∧ view.proposal ((view.lastIndex + 1) % 2 ^ 32) = none ∧
      after.accountRoot = view.accountRoot ∧
      after.proposal 0 = some { (view.proposal 0).getD ProposalSle.infoEntry with
        proposalIndex := some ((view.lastIndex + 1) % 2 ^ 32) } ∧
      ∀ i, 0 < i → after.proposal i = if i = (view.lastIndex + 1) % 2 ^ 32 then
        some ⟨some account, some i, some (proposalOptions.getD 0), some (proposalExpire.getD 0), proposalAppendix, none⟩
        else view.proposal i := by
  have last : ((view.proposal 0).getD ProposalSle.infoEntry).proposalIndex.getD 0 = view.lastIndex := by
    unfold ProposalLedger.lastIndex
    cases view.proposal 0 <;> rfl
  simp only [doApply, last, Option.map_eq_some_iff, ProposalLedger.insertProposal_eq_some] at applied
  obtain ⟨inserted, ⟨free, rfl⟩, rfl⟩ := applied
  -- the index is free after the entry under zero was written, so it is not zero
  have positive : 0 < (view.lastIndex + 1) % 2 ^ 32 := by
    by_contra zero
    rw [ProposalLedger.proposal_setProposal, if_pos (by omega)] at free
    cases free
  rw [ProposalLedger.proposal_setProposal, if_neg (by omega)] at free
  refine ⟨positive, free, rfl, by simp, fun i above => ?_⟩
  -- past the entry under zero, written twice, only the new proposal differs
  have notZero : i ≠ 0 := Nat.pos_iff_ne_zero.mp above
  rw [ProposalLedger.proposal_setProposal, if_neg notZero, ProposalLedger.proposal_setProposal,
    ProposalLedger.proposal_setProposal, if_neg notZero]
  by_cases same : i = (view.lastIndex + 1) % 2 ^ 32
  · rw [if_pos same, if_pos same, same]
  · rw [if_neg same, if_neg same]

end CreateProposal

namespace CloseProposal

/-- `CloseProposal::preflight`. -/
def preflight (proposalIndex : Option Nat) : TER :=
  if proposalIndex.isNone || proposalIndex.getD 0 ≤ 0 then temINVALID else tesSUCCESS

/-- `CloseProposal::preclaim`: the proposal must be there and open, and only its proposer may
close it. -/
def preclaim (view : ProposalLedger) (proposer : AccountID) (proposalIndex : Option Nat) : TER :=
  match view.proposal (proposalIndex.getD 0) with
  | none => tecNO_ENTRY
  | some proposalSle =>
    if proposalSle.closed then temINVALID
    else if (match proposalSle.account with
        | some owner => proposer != owner
        | none => false) then temINVALID
    else tesSUCCESS

/-- `CloseProposal::doApply`: a proposal not yet expired records the current ledger as the one
it closed in; an expired one is left as it is.  A missing entry is a null dereference. -/
def doApply (info : CloseInfo) (view : ProposalLedger) (proposalIndex : Option Nat) :
    Option ProposalLedger :=
  let index := proposalIndex.getD 0
  match view.proposal index with
  | none => none
  | some proposalInfo =>
    if info.closeTime ≤ proposalInfo.expireTime then
      some (view.setProposal index { proposalInfo with proposalCloseLedger := some info.seq })
    else some view

/-- Preclaim lets through only an open proposal that is there. -/
theorem open_of_preclaim {view : ProposalLedger} {proposer : AccountID} {proposalIndex : Option Nat}
    (passed : preclaim view proposer proposalIndex = tesSUCCESS) :
    ∃ sle, view.proposal (proposalIndex.getD 0) = some sle ∧ sle.closed = false := by
  unfold preclaim at passed
  cases found : view.proposal (proposalIndex.getD 0) with
  | none => rw [found] at passed; cases passed
  | some sle =>
    simp only [found] at passed
    refine ⟨sle, rfl, ?_⟩
    by_contra closed
    rw [if_pos (by simpa using closed)] at passed
    cases passed

/-- What an applied `CloseProposal` does: at most the close ledger of the proposal changes. -/
theorem doApply_eq_some {info : CloseInfo} {view after : ProposalLedger} {proposalIndex : Option Nat}
    (applied : doApply info view proposalIndex = some after) :
    ∃ sle, view.proposal (proposalIndex.getD 0) = some sle ∧
      (after = view ∨ after = view.setProposal (proposalIndex.getD 0) { sle with proposalCloseLedger := some info.seq }) := by
  unfold doApply at applied
  cases found : view.proposal (proposalIndex.getD 0) with
  | none => simp only [found] at applied; cases applied
  | some sle =>
    simp only [found] at applied
    refine ⟨sle, rfl, ?_⟩
    split_ifs at applied
    · exact .inr (Option.some.inj applied).symm
    · exact .inl (Option.some.inj applied).symm

end CloseProposal

namespace VoteProposal

/-- `VoteProposal::preflight`. -/
def preflight (proposalIndex proposalVote : Option Nat) : TER :=
  if proposalIndex.isNone || proposalIndex.getD 0 ≤ 0 then temINVALID
  else if proposalVote.isNone then temINVALID
  else tesSUCCESS

/-- `VoteProposal::preclaim`: the proposal must be there, open and not expired, and the vote
at most its number of options. -/
def preclaim (info : CloseInfo) (view : ProposalLedger) (proposalIndex proposalVote : Option Nat) : TER :=
  match view.proposal (proposalIndex.getD 0) with
  | none => tecNO_ENTRY
  | some proposalSle =>
    if proposalSle.closed then temINVALID
    else if info.closeTime > proposalSle.expireTime then temINVALID
    else if proposalVote.getD 0 > proposalSle.options then temINVALID
    else tesSUCCESS

/-- One round of the loop of `VoteProposal::doApply` over the voter's records, with the records
kept so far and whether the proposal voted on was met.  A record naming no entry is a null
dereference. -/
def voteStep (info : CloseInfo) (view : ProposalLedger) (proposalIndex proposalVote : Nat)
    (acc : List VoteRecord × Bool) (vote : VoteRecord) : Option (List VoteRecord × Bool) :=
  match view.proposal vote.proposalIndex with
  | none => none
  | some proposalSle =>
    -- records of closed proposals are dropped
    if proposalSle.closed then some acc
    -- and so are records of expired ones
    else if proposalSle.expireTime < info.closeTime then some acc
    else if vote.proposalIndex = proposalIndex then
      -- the proposal voted on: its record takes the new vote, and is dropped if it abstains
      if proposalVote ≠ 0 then some (acc.1 ++ [{ vote with proposalVote := proposalVote }], true)
      else some (acc.1, true)
    else if vote.proposalVote ≠ 0 then some (acc.1 ++ [vote], acc.2)
    else some acc

/-- `VoteProposal::doApply`: the voter's records rebuilt, with a new record appended for a
proposal not met in the loop unless the vote abstains.  A missing root is a null
dereference. -/
def doApply (info : CloseInfo) (view : ProposalLedger) (account : AccountID)
    (proposalIndex proposalVote : Option Nat) : Option ProposalLedger :=
  let proposalIndex := proposalIndex.getD 0
  let proposalVote := proposalVote.getD 0
  match view.accountRoot account with
  | none => none
  | some accountSle =>
    let originVotes := accountSle.proposalVotes.getD []
    match originVotes.foldlM (voteStep info view proposalIndex proposalVote) ([], false) with
    | none => none
    | some (votes, found) =>
      let votes := if !found && proposalVote ≠ 0 then votes ++ [⟨proposalIndex, proposalVote⟩] else votes
      some (view.setAccountRoot account { accountSle with proposalVotes := some votes })

/-- Preclaim lets through only a vote on a live proposal, at most its number of options. -/
theorem live_of_preclaim {info : CloseInfo} {view : ProposalLedger} {proposalIndex proposalVote : Option Nat}
    (passed : preclaim info view proposalIndex proposalVote = tesSUCCESS) :
    view.liveAt info (proposalIndex.getD 0) = true ∧
      ∃ sle, view.proposal (proposalIndex.getD 0) = some sle ∧ proposalVote.getD 0 ≤ sle.options := by
  unfold preclaim at passed
  cases found : view.proposal (proposalIndex.getD 0) with
  | none => simp only [found] at passed; cases passed
  | some sle =>
    simp only [found] at passed
    split_ifs at passed with closed expired tooMany
    · cases passed
    · cases passed
    · cases passed
    · refine ⟨?_, sle, rfl, not_lt.mp tooMany⟩
      simp only [ProposalLedger.liveAt, found, Bool.and_eq_true, Bool.not_eq_true', decide_eq_false_iff_not]
      exact ⟨Bool.eq_false_iff.mpr closed, expired⟩

/-! ### The loop over the voter's records -/

section Loop

variable (info : CloseInfo) (view : ProposalLedger) (proposalIndex proposalVote : Nat)

/-- What the loop keeps of a record whose proposal is there: nothing for a closed or expired
proposal or an abstention, the record with the new vote for the proposal voted on, the record
itself otherwise. -/
def keptVote (vote : VoteRecord) : Option VoteRecord :=
  if view.liveAt info vote.proposalIndex then
    if vote.proposalIndex = proposalIndex then
      if proposalVote ≠ 0 then some { vote with proposalVote := proposalVote } else none
    else if vote.proposalVote ≠ 0 then some vote else none
  else none

/-- Whether the loop meets the proposal voted on in a record. -/
def meets (vote : VoteRecord) : Bool :=
  view.liveAt info vote.proposalIndex && vote.proposalIndex == proposalIndex

/-- The voter's records after the vote: those the loop keeps, then a record for the proposal
voted on when the loop did not meet it and the vote does not abstain. -/
def newVotes (origin : List VoteRecord) : List VoteRecord :=
  if !origin.any (meets info view proposalIndex) && proposalVote ≠ 0 then
    origin.filterMap (keptVote info view proposalIndex proposalVote) ++ [⟨proposalIndex, proposalVote⟩]
  else origin.filterMap (keptVote info view proposalIndex proposalVote)

variable {info view proposalIndex proposalVote}

/-- One round keeps what `keptVote` keeps and notes a meeting. -/
theorem voteStep_eq {vote : VoteRecord} (present : view.proposal vote.proposalIndex ≠ none)
    (acc : List VoteRecord × Bool) :
    voteStep info view proposalIndex proposalVote acc vote =
      some (acc.1 ++ (keptVote info view proposalIndex proposalVote vote).toList,
        acc.2 || meets info view proposalIndex vote) := by
  obtain ⟨sle, found⟩ := Option.ne_none_iff_exists'.mp present
  unfold voteStep keptVote meets ProposalLedger.liveAt
  simp only [found]
  split_ifs <;> simp_all [beq_false_of_ne]

/-- The loop over records that all name an entry keeps what `keptVote` keeps, in order, and
meets the proposal voted on if some record does. -/
theorem foldlM_voteStep (votes : List VoteRecord) (present : ∀ vote ∈ votes, view.proposal vote.proposalIndex ≠ none)
    (acc : List VoteRecord × Bool) :
    votes.foldlM (voteStep info view proposalIndex proposalVote) acc =
      some (acc.1 ++ votes.filterMap (keptVote info view proposalIndex proposalVote),
        acc.2 || votes.any (meets info view proposalIndex)) := by
  induction votes generalizing acc with
  | nil => simp
  | cons vote rest ih =>
    have later := ih fun r mem => present r (List.mem_cons_of_mem vote mem)
    simp only [List.foldlM_cons, voteStep_eq (present vote List.mem_cons_self), Option.bind_eq_bind,
      Option.bind_some, later, List.any_cons, Bool.or_assoc]
    cases kept : keptVote info view proposalIndex proposalVote vote <;> simp [kept]

/-- What a kept record is: one of a live proposal, with its index, a vote that is not zero, the
new vote for the proposal voted on, and unchanged otherwise. -/
theorem keptVote_eq_some {vote kept : VoteRecord}
    (keeps : keptVote info view proposalIndex proposalVote vote = some kept) :
    view.liveAt info vote.proposalIndex = true ∧ kept.proposalIndex = vote.proposalIndex ∧
      kept.proposalVote ≠ 0 ∧ (vote.proposalIndex = proposalIndex → kept.proposalVote = proposalVote) ∧
      (vote.proposalIndex ≠ proposalIndex → kept = vote) := by
  unfold keptVote at keeps
  split_ifs at keeps with live same abstains other <;> cases keeps
  · exact ⟨live, rfl, abstains, fun _ => rfl, fun apart => absurd same apart⟩
  · exact ⟨live, rfl, other, fun meet => absurd meet same, fun _ => rfl⟩

/-- A live record of another proposal with a vote is kept as it is. -/
theorem keptVote_of_other {vote : VoteRecord} (live : view.liveAt info vote.proposalIndex = true)
    (other : vote.proposalIndex ≠ proposalIndex) (voted : vote.proposalVote ≠ 0) :
    keptVote info view proposalIndex proposalVote vote = some vote := by
  simp [keptVote, live, other, voted]

/-- A record that meets the proposal voted on is kept with the new vote, unless it abstains. -/
theorem keptVote_of_meets {vote : VoteRecord} (meet : meets info view proposalIndex vote = true)
    (voted : proposalVote ≠ 0) :
    keptVote info view proposalIndex proposalVote vote = some ⟨proposalIndex, proposalVote⟩ := by
  simp only [meets, Bool.and_eq_true, beq_iff_eq] at meet
  obtain ⟨live, same⟩ := meet
  rw [same] at live
  simp [keptVote, same, live, voted]

/-- The loop keeps records in order and with their indexes, so the indexes it keeps are a
sublist of those it read. -/
theorem indexes_filterMap_keptVote_sublist (origin : List VoteRecord) :
    ((origin.filterMap (keptVote info view proposalIndex proposalVote)).map (·.proposalIndex)).Sublist
      (origin.map (·.proposalIndex)) := by
  induction origin with
  | nil => simp
  | cons vote rest ih =>
    cases keeps : keptVote info view proposalIndex proposalVote vote with
    | none =>
      rw [List.filterMap_cons, keeps, List.map_cons]
      exact ih.cons _
    | some kept =>
      rw [List.filterMap_cons, keeps, List.map_cons, List.map_cons, (keptVote_eq_some keeps).2.1]
      exact ih.cons_cons _

/-- A voter's records name each proposal at most once after the vote, if they did before. -/
theorem nodup_newVotes {origin : List VoteRecord} (nodup : (origin.map (·.proposalIndex)).Nodup) :
    ((newVotes info view proposalIndex proposalVote origin).map (·.proposalIndex)).Nodup := by
  have kept : ((origin.filterMap (keptVote info view proposalIndex proposalVote)).map (·.proposalIndex)).Nodup :=
    nodup.sublist (indexes_filterMap_keptVote_sublist origin)
  unfold newVotes
  split_ifs with append
  · -- a kept record of the proposal voted on would have been met
    simp only [Bool.and_eq_true, Bool.not_eq_true', List.any_eq_false, decide_eq_true_eq] at append
    rw [List.map_append, List.nodup_append]
    refine ⟨kept, by simp, fun i inKept j single => ?_⟩
    obtain ⟨r, rMem, rfl⟩ := List.mem_map.mp inKept
    obtain ⟨o, oMem, keeps⟩ := List.mem_filterMap.mp rMem
    obtain ⟨live, sameIndex, -, -, -⟩ := keptVote_eq_some keeps
    rintro rfl
    simp only [List.map_cons, List.map_nil, List.mem_singleton] at single
    have meet : meets info view proposalIndex o = true := by
      simp only [meets, live, Bool.true_and, beq_iff_eq]
      rw [← sameIndex, single]
    exact append.1 o oMem meet
  · exact kept

/-- The records after the vote: the kept ones, and the new record when it is appended. -/
theorem mem_newVotes {origin : List VoteRecord} {r : VoteRecord} :
    r ∈ newVotes info view proposalIndex proposalVote origin ↔
      (∃ o ∈ origin, keptVote info view proposalIndex proposalVote o = some r) ∨
      (r = ⟨proposalIndex, proposalVote⟩ ∧ origin.any (meets info view proposalIndex) = false ∧ proposalVote ≠ 0) := by
  unfold newVotes
  split_ifs with append
  · simp only [Bool.and_eq_true, Bool.not_eq_true', decide_eq_true_eq] at append
    simp [List.mem_filterMap, append.1, append.2]
  · simp only [Bool.and_eq_true, Bool.not_eq_true', decide_eq_true_eq, not_and] at append
    simp only [List.mem_filterMap]
    constructor
    · exact .inl
    · rintro (kept | ⟨-, unmet, voted⟩)
      · exact kept
      · exact absurd voted (append unmet)

end Loop

/-- What an applied `VoteProposal` does when every record of the voter names an entry: the
voter's records become `newVotes`, and nothing else changes. -/
theorem doApply_eq {info : CloseInfo} {view : ProposalLedger} {account : AccountID} {accountSle : VoterRoot}
    (root : view.accountRoot account = some accountSle)
    (present : ∀ vote ∈ view.votesOf account, view.proposal vote.proposalIndex ≠ none)
    (proposalIndex proposalVote : Nat) :
    doApply info view account (some proposalIndex) (some proposalVote) =
      some (view.setAccountRoot account
        { accountSle with proposalVotes := some (newVotes info view proposalIndex proposalVote (view.votesOf account)) }) := by
  have origin : accountSle.proposalVotes.getD [] = view.votesOf account := by
    simp [ProposalLedger.votesOf, root]
  unfold doApply
  simp only [Option.getD_some, root, origin, foldlM_voteStep _ present, List.nil_append, Bool.false_or]
  rfl

end VoteProposal

/-! ## Applying a transaction -/

/-- The sender is not the zero account, so `invoke_preclaim` runs its checks. -/
def ProposalTx.fromAccount (tx : ProposalTx) : Bool := tx.account != AccountID.zero

/-- The transaction's preflight. -/
def ProposalTx.preflight (config : ProposalConfig) : ProposalTx → TER
  | .createProposal _ proposalOptions proposalExpire _ =>
    CreateProposal.preflight config proposalOptions proposalExpire
  | .closeProposal _ proposalIndex => CloseProposal.preflight proposalIndex
  | .voteProposal _ proposalIndex proposalVote => VoteProposal.preflight proposalIndex proposalVote

/-- The transactor's own preclaim. -/
def ProposalTx.transactorPreclaim (config : ProposalConfig) (info : CloseInfo) (view : ProposalLedger) : ProposalTx → TER
  | .createProposal proposer _ proposalExpire _ =>
    CreateProposal.preclaim config info view proposer proposalExpire
  | .closeProposal proposer proposalIndex => CloseProposal.preclaim view proposer proposalIndex
  | .voteProposal _ proposalIndex proposalVote => VoteProposal.preclaim info view proposalIndex proposalVote

/-- `invoke_preclaim`: for a sender other than the zero account, `checkSeq` refuses one with no
root, and the transactor's preclaim follows; the zero account skips every check. -/
def ProposalTx.preclaim (config : ProposalConfig) (info : CloseInfo) (view : ProposalLedger) (tx : ProposalTx) : TER :=
  if tx.account != AccountID.zero then
    if view.accountRoot tx.account = none then terNO_ACCOUNT
    else ProposalTx.transactorPreclaim config info view tx
  else tesSUCCESS

/-- The transactor's `doApply`. -/
def ProposalTx.doApply (info : CloseInfo) (view : ProposalLedger) : ProposalTx → Option ProposalLedger
  | .createProposal account proposalOptions proposalExpire proposalAppendix =>
    CreateProposal.doApply view account proposalOptions proposalExpire proposalAppendix
  | .closeProposal _ proposalIndex => CloseProposal.doApply info view proposalIndex
  | .voteProposal account proposalIndex proposalVote =>
    VoteProposal.doApply info view account proposalIndex proposalVote

/-- `ripple::apply` on the proposal entries and vote records: the result and the ledger after
it.  A transaction refused by preflight or preclaim leaves the ledger as it is; `none` is a
`LogicError` or a null dereference in `doApply`. -/
def applyProposal (config : ProposalConfig) (info : CloseInfo) (view : ProposalLedger) (tx : ProposalTx) :
    Option (TER × ProposalLedger) :=
  let ter := ProposalTx.preflight config tx
  if ter != tesSUCCESS then some (ter, view)
  else
    let ter := ProposalTx.preclaim config info view tx
    if ter != tesSUCCESS then some (ter, view)
    else (ProposalTx.doApply info view tx).map fun view => (tesSUCCESS, view)

/-- A run of proposal transactions from senders other than the zero account, each applied in a
ledger of its own sequence and close times. -/
inductive Run (config : ProposalConfig) : ProposalLedger → ProposalLedger → Prop
  | refl (view : ProposalLedger) : Run config view view
  | step {view next last : ProposalLedger} {ter : TER} (info : CloseInfo) (tx : ProposalTx)
      (sender : tx.fromAccount = true) (applied : applyProposal config info view tx = some (ter, next))
      (rest : Run config next last) : Run config view last

/-- A ledger with no proposal data: no proposal entries and no vote records. -/
def Initial (view : ProposalLedger) : Prop :=
  (∀ index, view.proposal index = none) ∧ ∀ account root, view.accountRoot account = some root → root.proposalVotes = none

/-- A ledger reached by a run from one with no proposal data. -/
def Reachable (config : ProposalConfig) (view : ProposalLedger) : Prop :=
  ∃ start, Initial start ∧ Run config start view

/-! ## What one transaction can do -/

section Step

variable {config : ProposalConfig} {info : CloseInfo} {view after : ProposalLedger}

/-- A transaction refused by preflight or preclaim leaves the ledger as it is; one that passes
both is the transactor's `doApply`. -/
theorem applyProposal_eq_some {tx : ProposalTx} {ter : TER} (applied : applyProposal config info view tx = some (ter, after)) :
    (ter ≠ tesSUCCESS ∧ after = view) ∨
      (ProposalTx.preflight config tx = tesSUCCESS ∧ ProposalTx.preclaim config info view tx = tesSUCCESS ∧ ter = tesSUCCESS ∧
        ProposalTx.doApply info view tx = some after) := by
  unfold applyProposal at applied
  dsimp only at applied
  split_ifs at applied with refused refusedLater
  · obtain ⟨rfl, rfl⟩ := Prod.mk.inj (Option.some.inj applied)
    exact .inl ⟨bne_iff_ne.mp refused, rfl⟩
  · obtain ⟨rfl, rfl⟩ := Prod.mk.inj (Option.some.inj applied)
    exact .inl ⟨bne_iff_ne.mp refusedLater, rfl⟩
  · obtain ⟨done, found, same⟩ := Option.map_eq_some_iff.mp applied
    obtain ⟨rfl, rfl⟩ := Prod.mk.inj same
    refine .inr ⟨?_, ?_, rfl, found⟩
    · simpa using refused
    · simpa using refusedLater

/-- For a sender that passes the local checks, preclaim passes only if the sender has a root
and the transactor's own preclaim passes. -/
theorem transactorPreclaim_of_preclaim {tx : ProposalTx} (sender : tx.fromAccount = true)
    (passed : ProposalTx.preclaim config info view tx = tesSUCCESS) :
    view.accountRoot tx.account ≠ none ∧ ProposalTx.transactorPreclaim config info view tx = tesSUCCESS := by
  unfold ProposalTx.fromAccount at sender
  unfold ProposalTx.preclaim at passed
  rw [if_pos sender] at passed
  split_ifs at passed with missing
  · cases passed
  · exact ⟨missing, passed⟩

/-- Preflight lets through only a proposal index above zero. -/
theorem CloseProposal.positive_of_preflight {proposalIndex : Option Nat}
    (passed : CloseProposal.preflight proposalIndex = tesSUCCESS) : 0 < proposalIndex.getD 0 := by
  unfold CloseProposal.preflight at passed
  split_ifs at passed with bad
  · cases passed
  · simp only [Bool.or_eq_true, decide_eq_true_eq, not_or] at bad
    omega

/-- Preflight lets through only a vote that names a proposal index above zero and carries a vote. -/
theorem VoteProposal.eq_some_of_preflight {proposalIndex proposalVote : Option Nat}
    (passed : VoteProposal.preflight proposalIndex proposalVote = tesSUCCESS) :
    ∃ index vote, proposalIndex = some index ∧ proposalVote = some vote ∧ 0 < index := by
  unfold VoteProposal.preflight at passed
  split_ifs at passed with bad missing
  · cases passed
  · cases passed
  · cases proposalIndex with
    | none => simp at bad
    | some index =>
      cases proposalVote with
      | none => simp at missing
      | some vote =>
        simp only [Option.isNone_some, Option.getD_some, Bool.false_or, decide_eq_true_eq, not_le] at bad
        exact ⟨index, vote, rfl, rfl, bad⟩

/-- A `CloseProposal` from the zero account skips preclaim: it rewrites the close ledger of any
proposal not yet expired, a closed one included. -/
theorem applyProposal_zero_account_close {index : Nat} {sle : ProposalSle} (positive : 0 < index)
    (found : view.proposal index = some sle) (notExpired : info.closeTime ≤ sle.expireTime) :
    applyProposal config info view (.closeProposal AccountID.zero (some index)) =
      some (tesSUCCESS, view.setProposal index { sle with proposalCloseLedger := some info.seq }) := by
  have flight : ProposalTx.preflight config (.closeProposal AccountID.zero (some index)) = tesSUCCESS := by
    simp [ProposalTx.preflight, CloseProposal.preflight, Nat.pos_iff_ne_zero.mp positive]
  have claim : ProposalTx.preclaim config info view (.closeProposal AccountID.zero (some index)) = tesSUCCESS := by
    simp [ProposalTx.preclaim, ProposalTx.account]
  simp only [applyProposal, flight, claim, bne_self_eq_false, Bool.false_eq_true, if_false, ProposalTx.doApply,
    CloseProposal.doApply, Option.getD_some, found, if_pos notExpired, Option.map_some]

/-- A `CreateProposal` from the zero account skips preclaim, the vote admin test included: it is
`doApply` with the zero account as the proposer. -/
theorem applyProposal_zero_account_create {admin : AccountID} (configured : config.voteAdmin = some admin)
    {proposalOptions proposalExpire : Nat} {proposalAppendix : Option (List UInt8)}
    (options : 0 < proposalOptions) (expire : 0 < proposalExpire) :
    applyProposal config info view (.createProposal AccountID.zero (some proposalOptions) (some proposalExpire) proposalAppendix) =
      (CreateProposal.doApply view AccountID.zero (some proposalOptions) (some proposalExpire) proposalAppendix).map
        fun after => (tesSUCCESS, after) := by
  have flight : ProposalTx.preflight config
      (.createProposal AccountID.zero (some proposalOptions) (some proposalExpire) proposalAppendix) = tesSUCCESS := by
    simp [ProposalTx.preflight, CreateProposal.preflight, configured, Nat.pos_iff_ne_zero.mp options,
      Nat.pos_iff_ne_zero.mp expire]
  have claim : ProposalTx.preclaim config info view
      (.createProposal AccountID.zero (some proposalOptions) (some proposalExpire) proposalAppendix) = tesSUCCESS := by
    simp [ProposalTx.preclaim, ProposalTx.account]
  simp only [applyProposal, flight, claim, bne_self_eq_false, Bool.false_eq_true, if_false, ProposalTx.doApply]

end Step

/-! ## The shape every reachable ledger keeps -/

/-- The proposals are exactly `keylet::proposal (1)` to `keylet::proposal (k)` for `k` the
index kept under `keylet::proposal (0)`, each made by the vote admin under its own index; the
entry under zero is never closed; and each account's records name distinct proposals, each an
existing one, with a vote from one to its number of options. -/
structure Wellformed (admin : AccountID) (view : ProposalLedger) : Prop where
  lastIndex_lt : view.lastIndex < 2 ^ 32
  exists_iff : ∀ index, 0 < index → (view.proposal index ≠ none ↔ index ≤ view.lastIndex)
  info_open : ∀ sle, view.proposal 0 = some sle → sle.proposalCloseLedger = none
  created : ∀ index sle, 0 < index → view.proposal index = some sle →
    sle.account = some admin ∧ sle.proposalIndex = some index
  nodup : ∀ account, ((view.votesOf account).map (·.proposalIndex)).Nodup
  record : ∀ account vote, vote ∈ view.votesOf account → 0 < vote.proposalIndex ∧
    ∃ sle, view.proposal vote.proposalIndex = some sle ∧ 0 < vote.proposalVote ∧ vote.proposalVote ≤ sle.options

section Preservation

variable {admin : AccountID} {view after : ProposalLedger}

/-- A ledger with no proposal data has the shape. -/
theorem wellformed_initial (initial : Initial view) : Wellformed admin view := by
  obtain ⟨noProposal, noVotes⟩ := initial
  have last : view.lastIndex = 0 := by simp [ProposalLedger.lastIndex, noProposal]
  have none : ∀ account, view.votesOf account = [] := by
    intro account
    unfold ProposalLedger.votesOf
    cases root : view.accountRoot account with
    | none => rfl
    | some sle => simp [noVotes account sle root]
  refine ⟨by omega, fun index positive => ?_, fun sle found => ?_, fun index sle _ found => ?_,
    fun account => ?_, fun account vote mem => ?_⟩
  · simp [noProposal, last]
    omega
  · simp [noProposal] at found
  · simp [noProposal] at found
  · simp [none]
  · simp [none] at mem

/-- An applied `CreateProposal` by the admin keeps the shape: its index is the one after the
last, which is free and does not wrap. -/
theorem Wellformed.createProposal (wf : Wellformed admin view) {proposalOptions proposalExpire : Option Nat}
    {proposalAppendix : Option (List UInt8)}
    (applied : CreateProposal.doApply view admin proposalOptions proposalExpire proposalAppendix = some after) :
    Wellformed admin after := by
  obtain ⟨positive, free, roots, zero, others⟩ := CreateProposal.doApply_eq_some applied
  generalize nextIs : (view.lastIndex + 1) % 2 ^ 32 = next at positive free zero others
  -- a free index above zero lies past the last one, so the sum did not wrap
  have past : view.lastIndex < next := by
    by_contra atMost
    exact (wf.exists_iff next positive).mpr (by omega) free
  have bound := wf.lastIndex_lt
  have succ : next = view.lastIndex + 1 := by omega
  have last : after.lastIndex = next := by simp [ProposalLedger.lastIndex, zero]
  have votes : after.votesOf = view.votesOf := by
    funext account
    simp [ProposalLedger.votesOf, roots]
  refine ⟨by omega, fun index above => ?_, fun sle found => ?_, fun index sle above found => ?_,
    fun account => ?_, fun account vote mem => ?_⟩
  · rw [others index above, last]
    split_ifs with same
    · simp [same]
    · rw [wf.exists_iff index above]
      omega
  · rw [zero] at found
    cases found
    cases info : view.proposal 0 with
    | none => rfl
    | some sle => exact wf.info_open sle info
  · rw [others index above] at found
    split_ifs at found with same
    · cases found
      exact ⟨rfl, rfl⟩
    · exact wf.created index sle above found
  · rw [votes]
    exact wf.nodup account
  · rw [votes] at mem
    obtain ⟨above, sle, found, voted, bounded⟩ := wf.record account vote mem
    refine ⟨above, sle, ?_, voted, bounded⟩
    rw [others _ above, if_neg]
    · exact found
    · rintro same
      rw [same, free] at found
      cases found

/-- Rewriting a proposal with the same proposer, index and options keeps the shape. -/
theorem Wellformed.setProposal (wf : Wellformed admin view) {index : Nat} {sle sle' : ProposalSle}
    (positive : 0 < index) (found : view.proposal index = some sle) (account : sle'.account = sle.account)
    (sameIndex : sle'.proposalIndex = sle.proposalIndex) (options : sle'.options = sle.options) :
    Wellformed admin (view.setProposal index sle') := by
  have zero : (view.setProposal index sle').proposal 0 = view.proposal 0 := by
    simp [Nat.ne_of_lt positive]
  have last := ProposalLedger.lastIndex_congr zero
  refine ⟨by rw [last]; exact wf.lastIndex_lt, fun i above => ?_, fun s info => ?_, fun i s above at' => ?_,
    fun a => wf.nodup a, fun a vote mem => ?_⟩
  · rw [last, ← wf.exists_iff i above, ProposalLedger.proposal_setProposal]
    split_ifs with same
    · simp [same, found]
    · rfl
  · rw [zero] at info
    exact wf.info_open s info
  · rw [ProposalLedger.proposal_setProposal] at at'
    split_ifs at at' with same
    · cases at'
      rw [account, sameIndex]
      exact same ▸ wf.created index sle positive found
    · exact wf.created i s above at'
  · obtain ⟨above, s, at', voted, bounded⟩ := wf.record a vote (by simpa using mem)
    by_cases same : vote.proposalIndex = index
    · rw [same, found] at at'
      cases at'
      exact ⟨above, sle', by simp [same], voted, options ▸ bounded⟩
    · exact ⟨above, s, by simp [same, at'], voted, bounded⟩

/-- An applied `CloseProposal` keeps the shape: at most a close ledger changes. -/
theorem Wellformed.closeProposal (wf : Wellformed admin view) {info : CloseInfo} {proposalIndex : Option Nat}
    (positive : 0 < proposalIndex.getD 0) (applied : CloseProposal.doApply info view proposalIndex = some after) :
    Wellformed admin after := by
  obtain ⟨sle, found, rfl | rfl⟩ := CloseProposal.doApply_eq_some applied
  · exact wf
  · exact wf.setProposal positive found rfl rfl rfl

/-- An applied `VoteProposal` on a ledger of that shape changes only the voter's records, which
become `newVotes`. -/
theorem Wellformed.voteProposal_eq (wf : Wellformed admin view) {info : CloseInfo} {account : AccountID}
    {proposalIndex proposalVote : Nat}
    (applied : VoteProposal.doApply info view account (some proposalIndex) (some proposalVote) = some after) :
    after.proposal = view.proposal ∧
      after.votesOf account = VoteProposal.newVotes info view proposalIndex proposalVote (view.votesOf account) ∧
      ∀ other, other ≠ account → after.votesOf other = view.votesOf other := by
  have present : ∀ vote ∈ view.votesOf account, view.proposal vote.proposalIndex ≠ none := by
    intro vote mem
    obtain ⟨-, sle, found, -⟩ := wf.record account vote mem
    simp [found]
  cases root : view.accountRoot account with
  | none => simp [VoteProposal.doApply, root] at applied
  | some accountSle =>
    rw [VoteProposal.doApply_eq root present, Option.some.injEq] at applied
    subst applied
    refine ⟨rfl, ?_, fun other apart => ?_⟩
    · simp [ProposalLedger.votesOf_setAccountRoot]
    · simp [ProposalLedger.votesOf_setAccountRoot, apart]

/-- An applied `VoteProposal` keeps the shape: the voter's new records name distinct existing
proposals, each with a vote its proposal allows. -/
theorem Wellformed.voteProposal (wf : Wellformed admin view) {info : CloseInfo} {account : AccountID}
    {proposalIndex proposalVote : Nat} (positive : 0 < proposalIndex)
    (passed : VoteProposal.preclaim info view (some proposalIndex) (some proposalVote) = tesSUCCESS)
    (applied : VoteProposal.doApply info view account (some proposalIndex) (some proposalVote) = some after) :
    Wellformed admin after := by
  obtain ⟨proposals, votes, others⟩ := wf.voteProposal_eq applied
  obtain ⟨-, target, targetFound, allowed⟩ := VoteProposal.live_of_preclaim passed
  simp only [Option.getD_some] at targetFound allowed
  have last : after.lastIndex = view.lastIndex := ProposalLedger.lastIndex_congr (by rw [proposals])
  refine ⟨by rw [last]; exact wf.lastIndex_lt, fun i above => by rw [proposals, last]; exact wf.exists_iff i above,
    fun sle found => wf.info_open sle (by rwa [proposals] at found),
    fun i sle above found => wf.created i sle above (by rwa [proposals] at found), fun a => ?_, fun a vote mem => ?_⟩
  · by_cases same : a = account
    · subst same
      rw [votes]
      exact VoteProposal.nodup_newVotes (wf.nodup a)
    · rw [others a same]
      exact wf.nodup a
  · rw [proposals]
    by_cases same : a = account
    · subst same
      rw [votes] at mem
      rcases VoteProposal.mem_newVotes.mp mem with ⟨o, oMem, keeps⟩ | ⟨rfl, -, voted⟩
      · -- a kept record has its old index and proposal, and a vote that proposal allows
        obtain ⟨-, sameIndex, voted, newVote, unchanged⟩ := VoteProposal.keptVote_eq_some keeps
        obtain ⟨above, sle, found, -, bounded⟩ := wf.record a o oMem
        refine ⟨sameIndex ▸ above, sle, sameIndex ▸ found, Nat.pos_of_ne_zero voted, ?_⟩
        by_cases meet : o.proposalIndex = proposalIndex
        · rw [meet, targetFound] at found
          cases found
          rw [newVote meet]
          exact allowed
        · rw [unchanged meet]
          exact bounded
      · exact ⟨positive, target, targetFound, Nat.pos_of_ne_zero voted, allowed⟩
    · exact wf.record a vote (by rwa [others a same] at mem)

/-- After a vote, every record of the voter names a proposal that was live at the close time. -/
theorem Wellformed.liveAt_of_voteProposal (wf : Wellformed admin view) {info : CloseInfo} {account : AccountID}
    {proposalIndex proposalVote : Nat}
    (passed : VoteProposal.preclaim info view (some proposalIndex) (some proposalVote) = tesSUCCESS)
    (applied : VoteProposal.doApply info view account (some proposalIndex) (some proposalVote) = some after) :
    ∀ vote ∈ after.votesOf account, view.liveAt info vote.proposalIndex = true := by
  intro vote mem
  rw [(wf.voteProposal_eq applied).2.1] at mem
  rcases VoteProposal.mem_newVotes.mp mem with ⟨o, -, keeps⟩ | ⟨rfl, -, -⟩
  · obtain ⟨live, sameIndex, -⟩ := VoteProposal.keptVote_eq_some keeps
    rw [sameIndex]
    exact live
  · exact (VoteProposal.live_of_preclaim passed).1

/-- What a vote leaves of the voter's records: the record of the proposal voted on holds the
new vote and is there exactly when the vote does not abstain, the records of other live
proposals are as they were, and only records of live proposals remain. -/
theorem Wellformed.voteProposal_post (wf : Wellformed admin view) {info : CloseInfo} {account : AccountID}
    {proposalIndex proposalVote : Nat}
    (passed : VoteProposal.preclaim info view (some proposalIndex) (some proposalVote) = tesSUCCESS)
    (applied : VoteProposal.doApply info view account (some proposalIndex) (some proposalVote) = some after) :
    (∀ vote ∈ after.votesOf account, vote.proposalIndex = proposalIndex → vote.proposalVote = proposalVote) ∧
    ((∃ vote ∈ after.votesOf account, vote.proposalIndex = proposalIndex) ↔ proposalVote ≠ 0) ∧
    (∀ vote, vote.proposalIndex ≠ proposalIndex → view.liveAt info vote.proposalIndex = true →
      (vote ∈ after.votesOf account ↔ vote ∈ view.votesOf account)) ∧
    (∀ vote ∈ after.votesOf account, view.liveAt info vote.proposalIndex = true) := by
  have votes := (wf.voteProposal_eq applied).2.1
  refine ⟨fun vote mem same => ?_, ⟨fun ⟨vote, mem, same⟩ => ?_, fun voted => ?_⟩, fun vote other live => ?_,
    wf.liveAt_of_voteProposal passed applied⟩
  · rw [votes] at mem
    rcases VoteProposal.mem_newVotes.mp mem with ⟨o, -, keeps⟩ | ⟨rfl, -, -⟩
    · obtain ⟨-, sameIndex, -, newVote, -⟩ := VoteProposal.keptVote_eq_some keeps
      exact newVote (sameIndex ▸ same)
    · rfl
  · rw [votes] at mem
    rcases VoteProposal.mem_newVotes.mp mem with ⟨o, -, keeps⟩ | ⟨rfl, -, voted⟩
    · obtain ⟨-, sameIndex, voted, newVote, -⟩ := VoteProposal.keptVote_eq_some keeps
      rwa [newVote (sameIndex ▸ same)] at voted
    · exact voted
  · -- the proposal's record was met and takes the vote, or it is appended
    rw [votes]
    cases met : (view.votesOf account).any (VoteProposal.meets info view proposalIndex) with
    | true =>
      obtain ⟨o, oMem, meet⟩ := List.any_eq_true.mp met
      exact ⟨⟨proposalIndex, proposalVote⟩,
        VoteProposal.mem_newVotes.mpr (.inl ⟨o, oMem, VoteProposal.keptVote_of_meets meet voted⟩), rfl⟩
    | false => exact ⟨⟨proposalIndex, proposalVote⟩, VoteProposal.mem_newVotes.mpr (.inr ⟨rfl, met, voted⟩), rfl⟩
  · rw [votes]
    constructor
    · intro mem
      rcases VoteProposal.mem_newVotes.mp mem with ⟨o, oMem, keeps⟩ | ⟨rfl, -, -⟩
      · obtain ⟨-, sameIndex, -, -, unchanged⟩ := VoteProposal.keptVote_eq_some keeps
        rw [unchanged (sameIndex ▸ other)]
        exact oMem
      · exact absurd rfl other
    · intro mem
      obtain ⟨-, -, -, voted, -⟩ := wf.record account vote mem
      exact VoteProposal.mem_newVotes.mpr
        (.inl ⟨vote, mem, VoteProposal.keptVote_of_other live other (Nat.pos_iff_ne_zero.mp voted)⟩)

end Preservation

/-- No transaction that passes the local checks touches a closed proposal: its entry stays as
it is, and no record of it appears. -/
theorem Wellformed.closed_step {config : ProposalConfig} {admin : AccountID} {info : CloseInfo}
    {view after : ProposalLedger} {tx : ProposalTx} {ter : TER} (wf : Wellformed admin view)
    (sender : tx.fromAccount = true) (applied : applyProposal config info view tx = some (ter, after))
    {index : Nat} {sle : ProposalSle} (found : view.proposal index = some sle) (closed : sle.closed = true) :
    after.proposal index = some sle ∧
      ∀ account vote, vote ∈ after.votesOf account → vote.proposalIndex = index → vote ∈ view.votesOf account := by
  rcases applyProposal_eq_some applied with ⟨-, rfl⟩ | ⟨flight, claim, -, done⟩
  · exact ⟨found, fun _ _ mem _ => mem⟩
  · have own := (transactorPreclaim_of_preclaim sender claim).2
    cases tx with
    | createProposal account proposalOptions proposalExpire proposalAppendix =>
      obtain ⟨-, free, roots, -, others⟩ := CreateProposal.doApply_eq_some done
      have votes : after.votesOf = view.votesOf := by
        funext account
        simp [ProposalLedger.votesOf, roots]
      -- the entry under zero is never closed, and the new index was free
      have above : 0 < index := by
        rcases Nat.eq_zero_or_pos index with rfl | above
        · simp [ProposalSle.closed, wf.info_open sle found] at closed
        · exact above
      refine ⟨?_, fun account vote mem _ => by rwa [votes] at mem⟩
      rw [others index above, if_neg]
      · exact found
      · rintro rfl
        rw [free] at found
        cases found
    | closeProposal account proposalIndex =>
      obtain ⟨target, targetFound, targetOpen⟩ := CloseProposal.open_of_preclaim own
      obtain ⟨-, -, rfl | rfl⟩ := CloseProposal.doApply_eq_some done
      · exact ⟨found, fun _ _ mem _ => mem⟩
      · have apart : index ≠ proposalIndex.getD 0 := by
          rintro rfl
          rw [found] at targetFound
          cases targetFound
          rw [closed] at targetOpen
          cases targetOpen
        exact ⟨by simp [apart, found], fun _ _ mem _ => by simpa using mem⟩
    | voteProposal account proposalIndex proposalVote =>
      obtain ⟨index', vote', rfl, rfl, -⟩ := VoteProposal.eq_some_of_preflight flight
      obtain ⟨proposals, -, others⟩ := wf.voteProposal_eq done
      have live := wf.liveAt_of_voteProposal own done
      refine ⟨by rw [proposals]; exact found, fun a vote mem same => ?_⟩
      by_cases voter : a = account
      · -- every record of the voter names a live proposal, and a closed one is not live
        subst voter
        have atIndex : view.proposal vote.proposalIndex = some sle := by rw [same]; exact found
        rw [ProposalLedger.not_closed_of_liveAt (live vote mem) atIndex] at closed
        cases closed
      · rwa [others a voter] at mem

/-- One transaction from a sender other than the zero account keeps the shape. -/
theorem Wellformed.applyProposal {config : ProposalConfig} {admin : AccountID} (configured : config.voteAdmin = some admin)
    {info : CloseInfo} {view after : ProposalLedger} {tx : ProposalTx} {ter : TER} (wf : Wellformed admin view)
    (sender : tx.fromAccount = true) (applied : applyProposal config info view tx = some (ter, after)) :
    Wellformed admin after := by
  rcases applyProposal_eq_some applied with ⟨-, rfl⟩ | ⟨flight, claim, -, done⟩
  · exact wf
  · have own := (transactorPreclaim_of_preclaim sender claim).2
    cases tx with
    | createProposal account proposalOptions proposalExpire proposalAppendix =>
      have admitted := CreateProposal.proposer_eq_of_preclaim configured own
      subst admitted
      exact wf.createProposal done
    | closeProposal account proposalIndex =>
      exact wf.closeProposal (CloseProposal.positive_of_preflight flight) done
    | voteProposal account proposalIndex proposalVote =>
      obtain ⟨index, vote, rfl, rfl, positive⟩ := VoteProposal.eq_some_of_preflight flight
      exact wf.voteProposal positive own done

/-! ## Whole runs -/

section Runs

variable {config : ProposalConfig} {admin : AccountID} (configured : config.voteAdmin = some admin)
include configured

/-- Every ledger a run reaches from one of that shape has it. -/
theorem Run.wellformed {view after : ProposalLedger} (run : Run config view after) :
    Wellformed admin view → Wellformed admin after := by
  induction run with
  | refl => exact id
  | step info tx sender applied rest ih => exact fun wf => ih (wf.applyProposal configured sender applied)

theorem Reachable.wellformed {view : ProposalLedger} (reachable : Reachable config view) : Wellformed admin view := by
  obtain ⟨start, initial, run⟩ := reachable
  exact run.wellformed configured (wellformed_initial initial)

/-- Along a run from a ledger of that shape, a closed proposal keeps its entry, and its
records only go. -/
theorem Run.closed_stable {view after : ProposalLedger} (run : Run config view after) (wf : Wellformed admin view)
    {index : Nat} {sle : ProposalSle} (found : view.proposal index = some sle) (closed : sle.closed = true) :
    after.proposal index = some sle ∧
      ∀ account vote, vote ∈ after.votesOf account → vote.proposalIndex = index → vote ∈ view.votesOf account := by
  induction run with
  | refl => exact ⟨found, fun _ _ mem _ => mem⟩
  | step info tx sender applied rest ih =>
    obtain ⟨kept, fewer⟩ := wf.closed_step sender applied found closed
    obtain ⟨stays, fewerLater⟩ := ih (wf.applyProposal configured sender applied) kept
    exact ⟨stays, fun account vote mem same => fewer account vote (fewerLater account vote mem same) same⟩

end Runs

/-- Governance records over every run of proposal transactions from a ledger with no proposal
data: every reachable ledger has the shape `Wellformed` (the proposals are exactly those
numbered from one to the index kept under zero, each made by the vote admin, and each
account's records name distinct existing proposals with votes they allow); from a reachable
ledger on, a closed proposal keeps its entry and gains no records; and a successful vote leaves
the voter's record of the proposal voted on with the new vote (none for an abstention), the
records of other live proposals as they were, and only records of live proposals. -/
theorem proposal_ledger_invariants (config : ProposalConfig) (admin : AccountID) (configured : config.voteAdmin = some admin) :
    (∀ view, Reachable config view → Wellformed admin view) ∧
    (∀ view after, Reachable config view → Run config view after →
      ∀ index sle, view.proposal index = some sle → sle.closed = true →
        after.proposal index = some sle ∧
        ∀ account vote, vote ∈ after.votesOf account → vote.proposalIndex = index → vote ∈ view.votesOf account) ∧
    (∀ view after info account proposalIndex proposalVote, Reachable config view →
      (ProposalTx.voteProposal account (some proposalIndex) (some proposalVote)).fromAccount = true →
      applyProposal config info view (.voteProposal account (some proposalIndex) (some proposalVote)) =
        some (tesSUCCESS, after) →
      (∀ vote ∈ after.votesOf account, vote.proposalIndex = proposalIndex → vote.proposalVote = proposalVote) ∧
      ((∃ vote ∈ after.votesOf account, vote.proposalIndex = proposalIndex) ↔ proposalVote ≠ 0) ∧
      (∀ vote, vote.proposalIndex ≠ proposalIndex → view.liveAt info vote.proposalIndex = true →
        (vote ∈ after.votesOf account ↔ vote ∈ view.votesOf account)) ∧
      (∀ vote ∈ after.votesOf account, view.liveAt info vote.proposalIndex = true)) := by
  refine ⟨fun view reachable => reachable.wellformed configured,
    fun view after reachable run index sle found closed =>
      run.closed_stable configured (reachable.wellformed configured) found closed,
    fun view after info account proposalIndex proposalVote reachable sender applied => ?_⟩
  rcases applyProposal_eq_some applied with ⟨refused, -⟩ | ⟨-, claim, -, done⟩
  · exact absurd rfl refused
  · exact (reachable.wellformed configured).voteProposal_post (transactorPreclaim_of_preclaim sender claim).2 done

/-- With account 1 as the vote admin, every reachable ledger is well formed. -/
theorem proposal_ledger_invariants_admin :
    (⟨some (AccountID.ofNat 1)⟩ : ProposalConfig).voteAdmin = some (AccountID.ofNat 1) ∧
      ∀ view, Reachable ⟨some (AccountID.ofNat 1)⟩ view → Wellformed (AccountID.ofNat 1) view :=
  ⟨rfl, (proposal_ledger_invariants ⟨some (AccountID.ofNat 1)⟩ (AccountID.ofNat 1) rfl).1⟩

/-! ## Transactions from the zero account -/

/-- The vote admin is account 1. -/
def zeroSenderConfig : ProposalConfig := ⟨some (AccountID.ofNat 1)⟩

/-- No proposal data, and a root for the vote admin. -/
def zeroSenderLedger : ProposalLedger :=
  ⟨fun _ => none, fun account => if account = AccountID.ofNat 1 then some ⟨none⟩ else none⟩

/-- From a ledger with no proposal data, three transactions from the zero account are applied:
a `CreateProposal`, whose proposal names the zero account and not the vote admin, and two
`CloseProposal`s of it, the second rewriting the close ledger of a closed proposal. -/
theorem zero_sender_breaks_governance :
    Initial zeroSenderLedger ∧
    ∃ first second third,
      applyProposal zeroSenderConfig ⟨1, 10, 5⟩ zeroSenderLedger
        (.createProposal AccountID.zero (some 2) (some 100) none) = some (tesSUCCESS, first) ∧
      (first.proposal 1).bind (·.account) = some AccountID.zero ∧
      applyProposal zeroSenderConfig ⟨2, 20, 10⟩ first (.closeProposal AccountID.zero (some 1)) =
        some (tesSUCCESS, second) ∧
      (second.proposal 1).bind (·.proposalCloseLedger) = some 2 ∧
      applyProposal zeroSenderConfig ⟨3, 30, 20⟩ second (.closeProposal AccountID.zero (some 1)) =
        some (tesSUCCESS, third) ∧
      (third.proposal 1).bind (·.proposalCloseLedger) = some 3 := by
  have initial : Initial zeroSenderLedger := by
    refine ⟨fun _ => rfl, fun account root found => ?_⟩
    by_cases admin : account = AccountID.ofNat 1
    · simp only [zeroSenderLedger, admin, if_true, Option.some.injEq] at found
      rw [← found]
    · simp [zeroSenderLedger, admin] at found
  exact ⟨initial, _, _, _, rfl, rfl, rfl, rfl, rfl, rfl⟩

end RadardFormal.Tx
