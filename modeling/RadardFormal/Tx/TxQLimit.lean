import RadardFormal.Tx.TxQInvariant

/-!
# The queue's size limit

A submission keeps the queue within its limit: it adds at most one transaction, and adds one
only when the queue is not full once the cheapest transactions paying less were dropped
(`applyTxn_within_limit`).

A validated ledger is meant to bring the queue back to the limit it sets, but the loop that
erases the transactions beyond the limit, `for (; it != end; ++it) it = erase (it);`,
increments the iterator `erase` returned: it erases one transaction and steps over the next.
So half of the excess stays, and on an odd excess the loop increments past the end
(`processValidatedLedger_halves_excess`).
-/

namespace RadardFormal.Tx

open RadardFormal.Protocol RadardFormal.Support RadardFormal.Ledger TER

namespace TxQ

variable (kinds : TxType → TransactorKind) (config : Config) (feeEscalation : Bool)

/-! ## Submissions -/

theorem hold_length (q : TxQ) (candidate : CandidateTxn) :
    (q.hold candidate).byFee.length = q.byFee.length + 1 :=
  (perm_insertByFee candidate q.byFee).length_eq

theorem isFull_eq_false {q : TxQ} (notFull : q.isFull = false) :
    q.maxSize.all (q.byFee.length < ·) := by
  unfold isFull at notFull
  cases limit : q.maxSize with
  | none => rfl
  | some maxSize =>
    rw [limit] at notFull
    simpa using notFull

/-- The replacement check keeps the limit and never adds a transaction. -/
theorem replaceHeld_limit {q after : TxQ} {tx : STTx} {feeLevelPaid requiredFeeLevel : Nat}
    (replaced : q.replaceHeld tx feeLevelPaid requiredFeeLevel = some after) :
    after.maxSize = q.maxSize ∧ after.byFee.length ≤ q.byFee.length := by
  rcases replaceHeld_cases replaced with rfl | ⟨existing, -, rfl⟩
  · exact ⟨rfl, le_refl _⟩
  · exact ⟨rfl, List.length_eraseP_le⟩

/-- The end of `TxQ::apply` keeps the limit, adds at most one transaction, and adds one only
where the limit leaves room for it. -/
theorem applyOrHold_limit {kind : TransactorKind} {q after : TxQ} {view view' : OpenView} {tx : STTx}
    {flags : ApplyFlags} {currentSeq : Bool} {pfresult : PreflightResult} {pcresult : PreclaimResult}
    {feeLevelPaid requiredFeeLevel : Nat} {ter : TER} {didApply : Bool}
    (applied : q.applyOrHold config kind view tx flags currentSeq pfresult pcresult feeLevelPaid requiredFeeLevel =
      some ((ter, didApply), after, view')) :
    after.maxSize = q.maxSize ∧ after.byFee.length ≤ q.byFee.length + 1 ∧
      (q.byFee.length < after.byFee.length → after.maxSize.all (after.byFee.length ≤ ·)) := by
  rcases applyOrHold_cases config applied with ⟨-, -, rfl⟩ | ⟨-, -, rfl | ⟨-, roomy, room, made, rfl⟩⟩
  · exact ⟨rfl, Nat.le_succ _, fun grew => absurd grew (lt_irrefl _)⟩
  · exact ⟨rfl, Nat.le_succ _, fun grew => absurd grew (lt_irrefl _)⟩
  · obtain ⟨limit, sublist, roomyFits⟩ := makeRoom_shrinks made
    have shrank := sublist.length_le
    cases room
    · -- no room: at most the cheapest transactions went
      refine ⟨limit, by simp only [Bool.false_eq_true, ↓reduceIte]; omega, fun grew => ?_⟩
      simp only [Bool.false_eq_true, ↓reduceIte] at grew
      omega
    · -- room: the transaction is held below the limit
      have below := isFull_eq_false (roomyFits rfl)
      simp only [↓reduceIte, hold_length]
      refine ⟨limit, by omega, fun _ => ?_⟩
      show (roomy.maxSize).all _ = true
      cases size : roomy.maxSize with
      | none => rfl
      | some maxSize =>
        rw [size] at below
        simp only [Option.all_some, decide_eq_true_eq] at below ⊢
        omega

/-- `TxQ::apply` keeps the queue's limit, adds at most one transaction to the queue, and when
it adds one the queue holds no more than its limit. -/
theorem applyTxn_within_limit {q after : TxQ} {view view' : OpenView} {tx : STTx} {flags : ApplyFlags}
    {ter : TER} {didApply : Bool}
    (applied : q.applyTxn kinds config feeEscalation view tx flags = some ((ter, didApply), after, view')) :
    after.maxSize = q.maxSize ∧ after.byFee.length ≤ q.byFee.length + 1 ∧
      (q.byFee.length < after.byFee.length → after.maxSize.all (after.byFee.length ≤ ·)) := by
  rcases applyTxn_cases kinds config feeEscalation applied with
    ⟨-, rfl⟩ | ⟨-, -, rfl⟩ | ⟨pcresult, replaced, -, found, rest⟩
  · exact ⟨rfl, Nat.le_succ _, fun grew => absurd grew (lt_irrefl _)⟩
  · exact ⟨rfl, Nat.le_succ _, fun grew => absurd grew (lt_irrefl _)⟩
  · obtain ⟨limit, shrank⟩ := replaceHeld_limit found
    obtain ⟨limit', grown, fits⟩ := applyOrHold_limit config rest
    exact ⟨limit'.trans limit, by omega, fun grew => fits (by omega)⟩

end TxQ

/-- An empty queue with room for one transaction. -/
def roomForOne : TxQ := { TxQ.make {} with maxSize := some 1 }

set_option maxRecDepth 20000 in
/-- Held in a queue with room for one, the transaction grows the queue to its limit. -/
theorem applyTxn_within_limit_roomForOne :
    roomForOne.applyTxn (fun _ => SetAccount.kind) ⟨none⟩ true busyLedger cheapTx .tapNONE =
        some ((terQUEUED, false), { cheapHeld with maxSize := some 1 }, busyLedger) ∧
      roomForOne.byFee.length < ({ cheapHeld with maxSize := some 1 } : TxQ).byFee.length ∧
      ({ cheapHeld with maxSize := some 1 } : TxQ).maxSize.all
        (({ cheapHeld with maxSize := some 1 } : TxQ).byFee.length ≤ ·) := by
  have applied : roomForOne.applyTxn (fun _ => SetAccount.kind) ⟨none⟩ true busyLedger cheapTx .tapNONE =
      some ((terQUEUED, false), { cheapHeld with maxSize := some 1 }, busyLedger) := by rfl
  have grew : roomForOne.byFee.length < ({ cheapHeld with maxSize := some 1 } : TxQ).byFee.length := by
    decide
  obtain ⟨-, -, fits⟩ := TxQ.applyTxn_within_limit _ _ _ applied
  exact ⟨applied, grew, fits grew⟩

namespace TxQ

variable (kinds : TxType → TransactorKind) (feeEscalation : Bool)

/-! ## Validated ledgers -/

/-- With no candidate whose last ledger has passed, the first loop of
`processValidatedLedger` keeps the candidates up to the limit and reaches none of the rest. -/
theorem expireLoop_of_unexpired {ledgerSeq limit keptCandidates : Nat} {remaining : List CandidateTxn}
    {byAccount : ByAccount} (unexpired : ∀ candidate ∈ remaining, candidate.lastValid.all (ledgerSeq < ·)) :
    expireLoop ledgerSeq (some limit) keptCandidates remaining byAccount =
      (remaining.take (limit - keptCandidates), remaining.drop (limit - keptCandidates), byAccount) := by
  induction remaining generalizing keptCandidates with
  | nil => simp [expireLoop]
  | cons candidate rest ih =>
    have stays : candidate.lastValid.any (· ≤ ledgerSeq) = false := by
      have valid := unexpired candidate List.mem_cons_self
      cases last : candidate.lastValid with
      | none => rfl
      | some lastValid =>
        rw [last] at valid
        simp only [Option.all_some, decide_eq_true_eq] at valid
        simpa using valid
    unfold expireLoop
    by_cases below : keptCandidates < limit
    · have room : limit - keptCandidates = (limit - (keptCandidates + 1)) + 1 := by omega
      rw [ih fun other mem => unexpired other (List.mem_cons_of_mem _ mem)]
      simp [below, stays, room]
    · have full : limit - keptCandidates = 0 := by omega
      simp [below, full]

/-- The second loop erases one candidate and steps over the next: it keeps half of an even
number of candidates, and steps past the end of an odd number. -/
theorem trimLoop_length (remaining : List CandidateTxn) (byAccount : ByAccount) :
    (trimLoop remaining byAccount).map (fun trimmed => trimmed.1.length) =
      if remaining.length % 2 = 0 then some (remaining.length / 2) else none := by
  induction remaining, byAccount using trimLoop.induct with
  | case1 byAccount => simp [trimLoop]
  | case2 candidate byAccount => simp [trimLoop]
  | case3 candidate next rest byAccount ih =>
    have parity : (rest.length + 2) % 2 = rest.length % 2 := by omega
    have half : (rest.length + 2) / 2 = rest.length / 2 + 1 := by omega
    simp only [trimLoop, Option.map_map, List.length_cons, Nat.add_assoc, Nat.reduceAdd, parity, half]
    cases trimmed : trimLoop rest (byAccount.erase candidate) with
    | none =>
      rw [trimmed] at ih
      split_ifs at ih ⊢
      · cases ih
      · rfl
    | some result =>
      rw [trimmed] at ih
      split_ifs at ih ⊢
      · simp only [Option.map_some, Option.some.injEq] at ih
        simp [ih]
      · cases ih

/-- `TxQ::processValidatedLedger` on a timely ledger, with fee escalation on and no candidate
whose last ledger has passed: the queue keeps the candidates up to the limit it sets, and of
those beyond it, half when their number is even; when it is odd, the loop increments past the
end of the queue. -/
theorem processValidatedLedger_halves_excess (q : TxQ) (view : OpenView) (txs : List STTx)
    (flags : ApplyFlags) (enabled : (flags.has .tapENABLE_TESTING || feeEscalation) = true)
    (unexpired : ∀ candidate ∈ q.byFee, candidate.lastValid.all (view.seq < ·)) :
    let limit := (q.feeMetrics.updateFeeMetrics (ledgerFeeLevels kinds view txs) false).1.txnsExpected *
      q.setup.ledgersInQueue
    (q.processValidatedLedger kinds feeEscalation view txs false flags).map (fun after => after.byFee.length) =
      if (q.byFee.length - limit) % 2 = 0 then some (min q.byFee.length limit + (q.byFee.length - limit) / 2)
      else none := by
  intro limit
  unfold processValidatedLedger
  rw [if_neg (by simp [enabled])]
  simp only [Bool.not_false, ↓reduceIte, Nat.sub_zero, expireLoop_of_unexpired unexpired, Option.map_map]
  have trimmed := trimLoop_length (q.byFee.drop limit) q.byAccount
  rw [List.length_drop] at trimmed
  cases result : trimLoop (q.byFee.drop limit) q.byAccount with
  | none =>
    rw [result] at trimmed
    split_ifs at trimmed ⊢
    · cases trimmed
    · rfl
  | some kept =>
    rw [result] at trimmed
    split_ifs at trimmed ⊢
    · simp only [Option.map_some, Option.some.injEq] at trimmed
      simp only [Option.map_some, Function.comp_apply, List.length_append, List.length_take, trimmed,
        Option.some.injEq]
      omega
    · cases trimmed

end TxQ

/-- The busy ledger's queue with a limit of no ledgers: its one transaction is beyond the
limit. -/
def cheapOverfull : TxQ := { cheapHeld with setup := { ledgersInQueue := 0 } }

/-- An `AccountSet` from a second account, at the same fee. -/
def otherCheapTx : STTx := STTx.make .ttACCOUNT_SET (AccountID.ofNat 8) 1 10

/-- That queue with the second account's transaction held too: two transactions beyond the
limit. -/
def twoOverfull : TxQ :=
  cheapOverfull.hold (CandidateTxn.make otherCheapTx otherCheapTx.transactionID 256 .tapNONE
    (preflight SetAccount.kind ⟨true⟩ otherCheapTx .tapNONE))

/-- With a limit of no ledgers, two transactions beyond it leave one, and one steps past the end. -/
theorem processValidatedLedger_halves_excess_busyLedger :
    (twoOverfull.processValidatedLedger (fun _ => SetAccount.kind) true busyLedger [] false .tapNONE).map
        (fun after => after.byFee.length) = some 1 ∧
      (cheapOverfull.processValidatedLedger (fun _ => SetAccount.kind) true busyLedger [] false .tapNONE).map
        (fun after => after.byFee.length) = none := by
  have halves := TxQ.processValidatedLedger_halves_excess (fun _ => SetAccount.kind) true
  rw [halves twoOverfull busyLedger [] .tapNONE (by decide) (by decide),
    halves cheapOverfull busyLedger [] .tapNONE (by decide) (by decide)]
  decide

end RadardFormal.Tx
