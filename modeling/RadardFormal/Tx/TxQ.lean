import RadardFormal.Tx.ApplySteps
import RadardFormal.Support.SortedMap
import Mathlib.Data.List.Sort

/-!
# The transaction queue

With fee escalation on, the open ledger takes a transaction at once only when it pays the
fee level the open ledger's size asks for; one that pays less waits in the queue
(`TxQ::apply`).  The queue keeps its transactions twice: by fee level, highest first
(`byFee_`), and by account and sequence (`byAccount_`).  When a ledger closes, `TxQ::accept`
moves transactions from the queue into the new open ledger, highest level first, until the
level required grows past what the next one pays.  When a ledger is validated,
`TxQ::processValidatedLedger` updates the fee metrics, sets the queue's size limit, and drops
the transactions whose last ledger has passed and those beyond the limit.

Which transactor runs a transaction is a parameter (`kinds`), as in `ApplySteps`; so is
whether the `FeeEscalation` amendment is enabled, which the modelled `Rules` do not hold.
An exception, and what the C++ standard leaves undefined, are `none`.
-/

namespace RadardFormal.Tx

open RadardFormal.Protocol RadardFormal.Support RadardFormal.Ledger TER

/-! ## Fee levels -/

/-- `std::numeric_limits<std::uint64_t>::max ()`. -/
def maxUInt64 : Nat := 2 ^ 64 - 1

/-- `lowestTerms`: both numbers divided by their greatest common divisor, which the source
finds by Euclid's loop. -/
def lowestTerms (a b : Nat) : Nat × Nat :=
  let x := Nat.gcd a b
  (a / x, b / x)

/-- `mulDiv`: `value * mul / div` on 64 bits, in lowest terms, dividing first when the
product would overflow; `none` where the source throws `std::overflow_error`. -/
def mulDiv (value mul div : Nat) : Option Nat :=
  let (value, div) := lowestTerms value div
  let (mul, div) := lowestTerms mul div
  let (value, mul) := if value < mul then (mul, value) else (value, mul)
  if value > maxUInt64 / mul then
    if value / div > maxUInt64 / mul then none else some (value / div * mul)
  else some (value * mul / div)

/-- `mulDivNoThrow`: `mulDiv`, or the largest value where it would overflow. -/
def mulDivNoThrow (value mul div : Nat) : Nat := (mulDiv value mul div).getD maxUInt64

/-- `getRequiredFeeLevel`: every transaction type asks for the reference level. -/
def getRequiredFeeLevel (_txType : TxType) : Nat := 256

/-- `getFeeLevelPaid`: the transaction's fee in drops, scaled so that a reference
transaction paying the base fee `refTxnCostDrops` has level `baseRefLevel`; the largest
level when nothing is required. -/
def getFeeLevelPaid (tx : STTx) (baseRefLevel refTxnCostDrops : Nat) : Nat :=
  let requiredFee := getRequiredFeeLevel tx.txnType
  if requiredFee = 0 ∨ refTxnCostDrops = 0 then maxUInt64
  else
    let referenceFee := getRequiredFeeLevel .ttACCOUNT_SET
    mulDivNoThrow (tx.fee.xrp % 2 ^ 64).toNat (baseRefLevel * referenceFee % 2 ^ 64)
      (refTxnCostDrops * requiredFee % 2 ^ 64)

/-! ## Fee metrics -/

/-- `boost::algorithm::clamp`. -/
def clamp (value lo hi : Nat) : Nat := if value < lo then lo else if hi < value then hi else value

/-- `detail::FeeMetrics`: the number of transactions a ledger is expected to hold, between a
minimum and a target, and the escalation multiplier, at least a minimum. -/
structure FeeMetrics where
  targetTxnCount : Nat
  minimumTxnCount : Nat
  txnsExpected : Nat
  minimumMultiplier : Nat
  escalationMultiplier : Nat
  deriving DecidableEq, Repr

namespace FeeMetrics

/-- `FeeMetrics::baseLevel`, the level of a reference transaction. -/
def baseLevel : Nat := 256

/-- The constructor: a target of 50 transactions, a minimum of 5 (1000 standalone) that the
expected number starts at, and a minimum multiplier of 500 that the multiplier starts at. -/
def make (standAlone : Bool) : FeeMetrics :=
  let minimumTxnCount := if standAlone then 1000 else 5
  ⟨50, minimumTxnCount, minimumTxnCount, 500, 500⟩

/-- `updateFeeMetrics`, given the fee levels the validated ledger's transactions paid: a slow
ledger clamps the expected number to its size, a timely one raises it to its size when that
is larger than the expected number or the target; the multiplier becomes the median level,
and the minimum for an empty ledger.  Also the number of transactions. -/
def updateFeeMetrics (metrics : FeeMetrics) (feeLevels : List Nat) (timeLeap : Bool) : FeeMetrics × Nat :=
  let feeLevels := feeLevels.insertionSort (· ≤ ·)
  let size := feeLevels.length
  let txnsExpected :=
    if timeLeap then clamp size metrics.minimumTxnCount (metrics.targetTxnCount - 1)
    else if size > metrics.txnsExpected ∨ size > metrics.targetTxnCount then size
    else metrics.txnsExpected
  let escalationMultiplier :=
    if feeLevels.isEmpty then metrics.minimumMultiplier
    else
      -- the mean of the two middle levels, on 64 bits, kept in a 32-bit multiplier
      let median := (feeLevels.getD (size / 2) 0 + feeLevels.getD ((size - 1) / 2) 0 + 1) % 2 ^ 64 / 2 % 2 ^ 32
      max median metrics.minimumMultiplier
  ({ metrics with txnsExpected := txnsExpected, escalationMultiplier := escalationMultiplier }, size)

/-- `scaleFeeLevel`: the level the open ledger asks for, the base level until it holds more
transactions than expected, then growing with the square of its size. -/
def scaleFeeLevel (metrics : FeeMetrics) (view : OpenView) : Nat :=
  let fee := baseLevel
  let current := view.txs.length
  let target := metrics.txnsExpected
  let multiplier := metrics.escalationMultiplier
  if current > target then
    mulDivNoThrow fee (current * current * multiplier % 2 ^ 64) (target * target % 2 ^ 64)
  else fee

end FeeMetrics

/-- The fee levels the transactions of a validated ledger paid, against their base fees. -/
def ledgerFeeLevels (kinds : TxType → TransactorKind) (view : OpenView) (txs : List STTx) : List Nat :=
  txs.map fun tx => getFeeLevelPaid tx FeeMetrics.baseLevel ((kinds tx.txnType).calculateBaseFee view tx)

/-! ## The queue -/

/-- `TxQ::Setup`, with its defaults. -/
structure TxQSetup where
  ledgersInQueue : Nat := 20
  retrySequencePercent : Nat := 125
  standAlone : Bool := false
  deriving DecidableEq, Repr

/-- `TxQ::CandidateTxn`: a held transaction with its fee level, the account and sequence it
is held under and its last valid ledger; `MaybeTx` is what `accept` applies it with. -/
structure CandidateTxn extends MaybeTx where
  txn : STTx
  feeLevel : Nat
  txID : Uint256
  priorTxID : Option Uint256
  account : AccountID
  lastValid : Option Nat
  sequence : Nat

/-- The `CandidateTxn` constructor. -/
def CandidateTxn.make (txn : STTx) (txID : Uint256) (feeLevel : Nat) (flags : ApplyFlags)
    (pfresult : PreflightResult) : CandidateTxn :=
  { flags := flags, pfresult := pfresult, txn := txn, feeLevel := feeLevel, txID := txID,
    priorTxID := txn.accountTxnID, account := txn.account, lastValid := txn.lastLedgerSequence,
    sequence := txn.sequence }

/-- `TxQ::TxQAccount`: an account's held transactions by sequence (`totalFees`, which
nothing reads, is left out). -/
structure TxQAccount where
  account : AccountID
  transactions : SortedMap Nat CandidateTxn

namespace TxQAccount

/-- The constructor: no transaction held. -/
def make (account : AccountID) : TxQAccount := ⟨account, SortedMap.empty⟩

/-- `empty`. -/
def empty (txQAccount : TxQAccount) : Bool := txQAccount.transactions.entries.isEmpty

/-- `addCandidate`: `emplace`, which keeps a transaction already held at the sequence. -/
def addCandidate (txQAccount : TxQAccount) (txn : CandidateTxn) : TxQAccount :=
  { txQAccount with transactions := txQAccount.transactions.insert txn.sequence txn }

/-- `removeCandidate`. -/
def removeCandidate (txQAccount : TxQAccount) (sequence : Nat) : TxQAccount :=
  { txQAccount with transactions := txQAccount.transactions.alter sequence fun _ => none }

/-- `findCandidateAt`. -/
def findCandidateAt (txQAccount : TxQAccount) (sequence : Nat) : Option CandidateTxn :=
  txQAccount.transactions.find? sequence

end TxQAccount

/-- The queue's transactions by account: `byAccount_`. -/
abbrev ByAccount := SortedMap AccountID TxQAccount

/-- The transaction held for an account at a sequence. -/
def ByAccount.lookup (byAccount : ByAccount) (account : AccountID) (sequence : Nat) : Option CandidateTxn :=
  (byAccount.find? account).bind fun txQAccount => txQAccount.findCandidateAt sequence

/-- The `byAccount_` half of `TxQ::erase`: the candidate leaves its account's transactions
(`byAccount_.at`, which would throw on a missing account, finds it in every queue a run
reaches). -/
def ByAccount.erase (byAccount : ByAccount) (candidate : CandidateTxn) : ByAccount :=
  byAccount.alter candidate.account (Option.map fun txQAccount => txQAccount.removeCandidate candidate.sequence)

/-- A candidate changed in place, under its account and sequence. -/
def ByAccount.set (byAccount : ByAccount) (candidate : CandidateTxn) : ByAccount :=
  byAccount.alter candidate.account (Option.map fun txQAccount =>
    { txQAccount with transactions := txQAccount.transactions.alter candidate.sequence (Option.map fun _ => candidate) })

/-- Hold a candidate: its account's entry, made when missing (`emplace`), takes it. -/
def ByAccount.hold (byAccount : ByAccount) (candidate : CandidateTxn) : ByAccount :=
  (byAccount.insert candidate.account (TxQAccount.make candidate.account)).alter candidate.account
    (Option.map fun txQAccount => txQAccount.addCandidate candidate)

/-- `byFee_.insert`: a multiset ordered by decreasing fee level puts a candidate after those
with a level at least its own. -/
def insertByFee (candidate : CandidateTxn) (byFee : List CandidateTxn) : List CandidateTxn :=
  byFee.takeWhile (fun other => candidate.feeLevel ≤ other.feeLevel) ++
    candidate :: byFee.dropWhile (fun other => candidate.feeLevel ≤ other.feeLevel)

/-- The transaction queue: its setup and fee metrics, the held transactions by fee level and
by account, and the size limit. -/
structure TxQ where
  setup : TxQSetup
  feeMetrics : FeeMetrics
  byFee : List CandidateTxn
  byAccount : ByAccount
  maxSize : Option Nat

/-- The candidate's `preflight` result, made again when the rules or the flags changed since
(`accept` stores it in the candidate). -/
def MaybeTx.refreshed (candidate : MaybeTx) (kind : TransactorKind) (rules : Rules) : MaybeTx :=
  if candidate.pfresult.rules != rules || candidate.pfresult.flags != candidate.flags then
    { candidate with pfresult := preflight kind rules candidate.pfresult.tx candidate.flags }
  else candidate

namespace TxQ

section Queue

variable (kinds : TxType → TransactorKind) (config : Config) (feeEscalation : Bool)

/-- The constructor: an empty queue with no size limit. -/
def make (setup : TxQSetup) : TxQ := ⟨setup, FeeMetrics.make setup.standAlone, [], SortedMap.empty, none⟩

/-- `isFull`. -/
def isFull (q : TxQ) : Bool := q.maxSize.any fun maxSize => maxSize ≤ q.byFee.length

/-- `TxQ::erase` of a held candidate. -/
def eraseCandidate (q : TxQ) (candidate : CandidateTxn) : TxQ :=
  { q with
    byFee := q.byFee.eraseP fun other => other.account == candidate.account && other.sequence == candidate.sequence
    byAccount := q.byAccount.erase candidate }

/-- `TxQ::erase` of the cheapest candidate, the last by fee. -/
def eraseLast (q : TxQ) (last : CandidateTxn) : TxQ :=
  { q with byFee := q.byFee.dropLast, byAccount := q.byAccount.erase last }

/-- Hold a candidate in both orders. -/
def hold (q : TxQ) (candidate : CandidateTxn) : TxQ :=
  { q with byFee := insertByFee candidate q.byFee, byAccount := q.byAccount.hold candidate }

/-- The loop of `TxQ::apply` over the sequences from the account's to the transaction's: the
first one with no transaction held makes the transaction's sequence current. -/
def seqGap (txQAccount : TxQAccount) : Nat → Nat → Bool
  | _, 0 => false
  | seq, n + 1 => (txQAccount.findCandidateAt seq).isNone || seqGap txQAccount (seq + 1) n

/-- Whether the transaction's sequence counts as current: it is the account's, or some
sequence from the account's up to it has no transaction held, the loop of `TxQ::apply`
making it current at the first such gap (an account the queue or the ledger does not know
counts as current). -/
def currentSeq (q : TxQ) (view : OpenView) (tx : STTx) : Bool :=
  match q.byAccount.find? tx.account, view.account? tx.account with
  | some txQAcct, some sle => sle.sequence == tx.sequence || seqGap txQAcct sle.sequence (tx.sequence - sle.sequence)
  | _, _ => true

/-- `canBeHeld`: no `sfAccountTxnID` (the modelled transactions carry no `sfPreviousTxnID`),
and no transaction of the account already held. -/
def canBeHeld (q : TxQ) (tx : STTx) : Bool :=
  tx.accountTxnID.isNone && (q.byAccount.find? tx.account).all TxQAccount.empty

/-- The replacement check of `TxQ::apply`: a transaction of the account held at the same
sequence is dropped for this one when this one pays enough more, or when it could not get
into the open ledger and this one can; otherwise this one is refused (`none`). -/
def replaceHeld (q : TxQ) (tx : STTx) (feeLevelPaid requiredFeeLevel : Nat) : Option TxQ :=
  match q.byAccount.lookup tx.account tx.sequence with
  | none => some q
  | some existing =>
    let requiredRetryLevel := mulDivNoThrow existing.feeLevel q.setup.retrySequencePercent 100
    if feeLevelPaid > requiredRetryLevel ∨ (existing.feeLevel < requiredFeeLevel ∧ feeLevelPaid ≥ requiredFeeLevel) then
      some (q.eraseCandidate existing)
    else none

/-- The loop of `TxQ::apply` that makes room in a full queue: the cheapest transaction goes
while the new one pays more, and `false` when it pays no more.  A full queue with nothing in
it (a size limit of zero) dereferences `rbegin ()` of an empty set: `none`; so does running
out of `fuel`, which `byFee_.size () + 1` never does. -/
def makeRoom (feeLevelPaid : Nat) : Nat → TxQ → Option (TxQ × Bool)
  | 0, _ => none
  | fuel + 1, q =>
    if q.isFull then
      match q.byFee.getLast? with
      | none => none
      | some last =>
        if feeLevelPaid > last.feeLevel then makeRoom feeLevelPaid fuel (q.eraseLast last)
        else some (q, false)
    else some (q, true)

/-- The end of `TxQ::apply`, once the replacement check passed: apply the transaction at
once when its sequence is current and it pays the required level, else hold it if it can be
held and the queue has room for it. -/
def applyOrHold (kind : TransactorKind) (q : TxQ) (view : OpenView) (tx : STTx) (flags : ApplyFlags)
    (currentSeq : Bool) (pfresult : PreflightResult) (pcresult : PreclaimResult)
    (feeLevelPaid requiredFeeLevel : Nat) : Option ((TER × Bool) × TxQ × OpenView) :=
  if currentSeq && feeLevelPaid ≥ requiredFeeLevel then
    (doApply kind config pcresult view).map fun (ter, didApply, view) => ((ter, didApply), q, view)
  else if !q.canBeHeld tx then
    some ((if feeLevelPaid ≥ requiredFeeLevel then terPRE_SEQ else telINSUF_FEE_P, false), q, view)
  else
    (makeRoom feeLevelPaid (q.byFee.length + 1) q).map fun (q, room) =>
      if room then ((terQUEUED, false), q.hold (CandidateTxn.make tx tx.transactionID feeLevelPaid flags pfresult), view)
      else ((telINSUF_FEE_P, false), q, view)

/-- `TxQ::apply`: without fee escalation, `ripple::apply`; with it, the checks with
`tapPOST_SEQ` when the sequence is not current, a refusal of a transaction unlikely to claim
a fee, the replacement check, then `applyOrHold`.  The result, whether the transaction
applied, the queue and the open ledger. -/
def applyTxn (q : TxQ) (view : OpenView) (tx : STTx) (flags : ApplyFlags) :
    Option ((TER × Bool) × TxQ × OpenView) :=
  let kind := kinds tx.txnType
  if !(flags.has .tapENABLE_TESTING || feeEscalation) then
    (RadardFormal.Tx.apply kind config view tx flags).map fun (ter, didApply, view) => ((ter, didApply), q, view)
  else
    let currentSeq := q.currentSeq view tx
    let pfresult := preflight kind view.rules tx (if currentSeq then flags else flags.union .tapPOST_SEQ)
    (preclaim kind pfresult view).bind fun pcresult =>
      if !pcresult.likelyToClaimFee then some ((pcresult.ter, false), q, view)
      else
        let feeLevelPaid := getFeeLevelPaid tx FeeMetrics.baseLevel pcresult.baseFee
        let requiredFeeLevel := q.feeMetrics.scaleFeeLevel view
        match q.replaceHeld tx feeLevelPaid requiredFeeLevel with
        | none => some ((telINSUF_FEE_P, false), q, view)
        | some q => q.applyOrHold config kind view tx flags currentSeq pfresult pcresult feeLevelPaid requiredFeeLevel

/-- The loop of `TxQ::accept`, over the candidates by fee with those kept so far: a candidate
that pays the level the open ledger asks for is applied, with its `preflight` result made
again if needed; it leaves the queue if it applied or failed with a `tef`, `tem` or `tel`
code, and stays otherwise.  The first candidate that pays less ends the loop. -/
def acceptLoop (metrics : FeeMetrics) :
    List CandidateTxn → List CandidateTxn → ByAccount → OpenView → Bool →
      Option (List CandidateTxn × ByAccount × OpenView × Bool)
  | kept, [], byAccount, view, changed => some (kept, byAccount, view, changed)
  | kept, candidate :: rest, byAccount, view, changed =>
    if candidate.feeLevel ≥ metrics.scaleFeeLevel view then
      let kind := kinds candidate.pfresult.tx.txnType
      let candidate := { candidate with toMaybeTx := candidate.toMaybeTx.refreshed kind view.rules }
      (candidate.toMaybeTx.apply kind config view).bind fun (ter, didApply, view) =>
        if didApply then acceptLoop metrics kept rest (byAccount.erase candidate) view true
        else if isTefFailure ter || isTemMalformed ter || isTelLocal ter then
          acceptLoop metrics kept rest (byAccount.erase candidate) view changed
        else acceptLoop metrics (kept ++ [candidate]) rest (byAccount.set candidate) view changed
    else some (kept ++ candidate :: rest, byAccount, view, changed)

/-- `TxQ::accept`: whether the open ledger changed, the queue and the open ledger. -/
def accept (q : TxQ) (view : OpenView) (flags : ApplyFlags) : Option (Bool × TxQ × OpenView) :=
  if !(flags.has .tapENABLE_TESTING || feeEscalation) then some (false, q, view)
  else
    (acceptLoop kinds config q.feeMetrics [] q.byFee q.byAccount view false).map
      fun (byFee, byAccount, view, changed) => (changed, { q with byFee := byFee, byAccount := byAccount }, view)

/-- The first loop of `processValidatedLedger`, counting the candidates it keeps: while fewer
than the limit are kept, a candidate whose last valid ledger has passed goes and another is
kept.  The kept candidates, those the loop did not reach, and the queue by account. -/
def expireLoop (ledgerSeq : Nat) (maxSize : Option Nat) :
    Nat → List CandidateTxn → ByAccount → List CandidateTxn × List CandidateTxn × ByAccount
  | _, [], byAccount => ([], [], byAccount)
  | keptCandidates, candidate :: rest, byAccount =>
    if maxSize.all (keptCandidates < ·) then
      if candidate.lastValid.any (· ≤ ledgerSeq) then
        expireLoop ledgerSeq maxSize keptCandidates rest (byAccount.erase candidate)
      else
        let (kept, beyond, byAccount) := expireLoop ledgerSeq maxSize (keptCandidates + 1) rest byAccount
        (candidate :: kept, beyond, byAccount)
    else ([], candidate :: rest, byAccount)

/-- The second loop of `processValidatedLedger`, meant to erase every candidate beyond the
limit: `for (; it != end; ++it) it = erase (it);` erases one, steps over the next, and
increments past the end (undefined: `none`) when it erased the last. -/
def trimLoop : List CandidateTxn → ByAccount → Option (List CandidateTxn × ByAccount)
  | [], byAccount => some ([], byAccount)
  | [_], _ => none
  | candidate :: next :: rest, byAccount =>
    (trimLoop rest (byAccount.erase candidate)).map fun (kept, byAccount) => (next :: kept, byAccount)

/-- `TxQ::processValidatedLedger` for a validated ledger and its transactions: the fee
metrics, the size limit (set only when the ledger was timely), the two loops, then the
accounts with nothing held go. -/
def processValidatedLedger (q : TxQ) (view : OpenView) (txs : List STTx) (timeLeap : Bool)
    (flags : ApplyFlags) : Option TxQ :=
  if !(flags.has .tapENABLE_TESTING || feeEscalation) then some q
  else
    let feeMetrics := (q.feeMetrics.updateFeeMetrics (ledgerFeeLevels kinds view txs) timeLeap).1
    let maxSize := if !timeLeap then some (feeMetrics.txnsExpected * q.setup.ledgersInQueue) else q.maxSize
    let (kept, beyond, byAccount) := expireLoop view.seq maxSize 0 q.byFee q.byAccount
    (trimLoop beyond byAccount).map fun (trimmed, byAccount) =>
      { q with feeMetrics := feeMetrics, maxSize := maxSize, byFee := kept ++ trimmed,
               byAccount := byAccount.filter fun _ txQAccount => !txQAccount.empty }

end Queue

end TxQ

/-- What happens to the queue: a transaction submitted to an open ledger, the queue emptied
into a new open ledger, and a ledger validated with its transactions. -/
inductive TxQEvent where
  | apply (view : OpenView) (tx : STTx) (flags : ApplyFlags)
  | accept (view : OpenView) (flags : ApplyFlags)
  | processValidatedLedger (view : OpenView) (txs : List STTx) (timeLeap : Bool) (flags : ApplyFlags)

namespace TxQ

variable (kinds : TxType → TransactorKind) (config : Config) (feeEscalation : Bool)

/-- One event: the queue after it, `none` where the source throws or is undefined. -/
def step (q : TxQ) : TxQEvent → Option TxQ
  | .apply view tx flags => (q.applyTxn kinds config feeEscalation view tx flags).map fun (_, q, _) => q
  | .accept view flags => (q.accept kinds config feeEscalation view flags).map fun (_, q, _) => q
  | .processValidatedLedger view txs timeLeap flags =>
    q.processValidatedLedger kinds feeEscalation view txs timeLeap flags

/-- A run of events. -/
def run : TxQ → List TxQEvent → Option TxQ
  | q, [] => some q
  | q, event :: events => (q.step kinds config feeEscalation event).bind fun q => run q events

end TxQ

end RadardFormal.Tx
