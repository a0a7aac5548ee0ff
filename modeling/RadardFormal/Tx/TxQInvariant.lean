import RadardFormal.Tx.TxQ
import Mathlib.Data.List.TakeWhile

/-!
# The queue's two orders agree over every run

The queue keeps each held transaction twice, in the fee order and under its account and
sequence (`QueueWF`): levels never increase along the fee order, no account appears twice in
it, and a transaction is held under an account and sequence exactly when it is in the fee
order with that account and sequence.  Each change the queue makes keeps this: removing a
candidate wherever it stands (`QueueWF.remove`), changing one in place (`QueueWF.set`), and
holding one of an account with nothing held (`QueueWF.hold`).  So do `apply`, `accept` and
`processValidatedLedger`, and with them every run from an empty queue (`run_wf`).

In particular the queue never holds two transactions of one account, and `byAccount_.at`,
which `TxQ::erase` calls, always finds the account.
-/

namespace RadardFormal.Tx

open RadardFormal.Protocol RadardFormal.Support RadardFormal.Ledger TER

/-! ## Lookups by account -/

/-- An account with nothing held finds nothing at any sequence. -/
theorem TxQAccount.findCandidateAt_of_empty {txQAccount : TxQAccount} (nothing : txQAccount.empty)
    (sequence : Nat) : txQAccount.findCandidateAt sequence = none := by
  unfold TxQAccount.empty at nothing
  unfold TxQAccount.findCandidateAt SortedMap.find?
  rw [List.isEmpty_iff.mp nothing]
  rfl

namespace ByAccount

theorem lookup_erase (byAccount : ByAccount) (candidate : CandidateTxn) (account : AccountID) (sequence : Nat) :
    (byAccount.erase candidate).lookup account sequence =
      if account = candidate.account ∧ sequence = candidate.sequence then none
      else byAccount.lookup account sequence := by
  unfold lookup erase
  rw [SortedMap.find?_alter]
  by_cases sameAccount : account = candidate.account
  · subst sameAccount
    cases found : byAccount.find? candidate.account with
    | none => simp
    | some txQAccount =>
      simp only [if_true, true_and, Option.map_some, Option.bind_some, TxQAccount.findCandidateAt,
        TxQAccount.removeCandidate, SortedMap.find?_alter]
  · simp [sameAccount]

theorem lookup_set (byAccount : ByAccount) (candidate : CandidateTxn) (account : AccountID) (sequence : Nat) :
    (byAccount.set candidate).lookup account sequence =
      if account = candidate.account ∧ sequence = candidate.sequence then
        (byAccount.lookup account sequence).map fun _ => candidate
      else byAccount.lookup account sequence := by
  unfold lookup set
  rw [SortedMap.find?_alter]
  by_cases sameAccount : account = candidate.account
  · subst sameAccount
    cases found : byAccount.find? candidate.account with
    | none => simp
    | some txQAccount =>
      simp only [if_true, true_and, Option.map_some, Option.bind_some, TxQAccount.findCandidateAt,
        SortedMap.find?_alter]
      by_cases sameSequence : sequence = candidate.sequence <;> simp [sameSequence]
  · simp [sameAccount]

theorem lookup_hold (byAccount : ByAccount) (candidate : CandidateTxn) (account : AccountID) (sequence : Nat) :
    (byAccount.hold candidate).lookup account sequence =
      if account = candidate.account ∧ sequence = candidate.sequence then
        (byAccount.lookup account sequence).or (some candidate)
      else byAccount.lookup account sequence := by
  unfold lookup hold
  rw [SortedMap.find?_alter, SortedMap.find?_insert]
  by_cases sameAccount : account = candidate.account
  · subst sameAccount
    cases found : byAccount.find? candidate.account with
    | none =>
      simp only [if_true, true_and, Option.none_or, Option.map_some, Option.bind_some, Option.bind_none,
        TxQAccount.findCandidateAt, TxQAccount.addCandidate, TxQAccount.make, SortedMap.find?_insert,
        SortedMap.find?_empty]
    | some txQAccount =>
      simp only [if_true, true_and, Option.some_or, Option.map_some, Option.bind_some,
        TxQAccount.findCandidateAt, TxQAccount.addCandidate, SortedMap.find?_insert]
      by_cases sameSequence : sequence = candidate.sequence <;> simp [sameSequence]
  · simp only [sameAccount, if_false, false_and]
    rw [SortedMap.find?_insert, if_neg sameAccount]

/-- Dropping the accounts with nothing held changes no lookup. -/
theorem lookup_filter_nonempty (byAccount : ByAccount) (account : AccountID) (sequence : Nat) :
    ByAccount.lookup (byAccount.filter fun _ txQAccount => !txQAccount.empty) account sequence =
      byAccount.lookup account sequence := by
  unfold lookup
  rw [SortedMap.find?_filter]
  cases found : byAccount.find? account with
  | none => rfl
  | some txQAccount =>
    by_cases nothing : txQAccount.empty
    · rw [Option.filter_some, nothing]
      simp [TxQAccount.findCandidateAt_of_empty nothing]
    · rw [Option.filter_some]
      simp [nothing]

end ByAccount

/-! ## The fee order -/

/-- Inserting after the candidates of at least its level keeps the levels non-increasing. -/
theorem sorted_insertByFee {byFee : List CandidateTxn} (sorted : (byFee.map CandidateTxn.feeLevel).Pairwise (· ≥ ·))
    (candidate : CandidateTxn) : ((insertByFee candidate byFee).map CandidateTxn.feeLevel).Pairwise (· ≥ ·) := by
  rw [List.pairwise_map] at sorted ⊢
  have whole := List.takeWhile_append_dropWhile (p := fun other : CandidateTxn => decide (candidate.feeLevel ≤ other.feeLevel))
    (l := byFee)
  rw [← whole, List.pairwise_append] at sorted
  obtain ⟨front, back, across⟩ := sorted
  -- the candidates past the insertion point are below its level: the first fails the test,
  -- and the others are below the first
  have below : ∀ other ∈ byFee.dropWhile (fun other => decide (candidate.feeLevel ≤ other.feeLevel)),
      other.feeLevel < candidate.feeLevel := by
    have firstFails := List.head_dropWhile_not (fun other : CandidateTxn => decide (candidate.feeLevel ≤ other.feeLevel))
      (l := byFee)
    revert back firstFails
    cases byFee.dropWhile (fun other => decide (candidate.feeLevel ≤ other.feeLevel)) with
    | nil => simp
    | cons first later =>
      intro back firstFails other mem
      have firstBelow : first.feeLevel < candidate.feeLevel := by
        exact Nat.lt_of_not_le (of_decide_eq_false (firstFails (List.cons_ne_nil _ _)))
      rcases List.mem_cons.mp mem with rfl | inLater
      · exact firstBelow
      · exact lt_of_le_of_lt ((List.pairwise_cons.mp back).1 other inLater) firstBelow
  unfold insertByFee
  rw [List.pairwise_append, List.pairwise_cons]
  refine ⟨front, ⟨fun other mem => (below other mem).le, back⟩, ?_⟩
  intro before inFront after inBack
  rcases List.mem_cons.mp inBack with rfl | later
  · simpa using List.mem_takeWhile_imp inFront
  · exact across before inFront after later

theorem perm_insertByFee (candidate : CandidateTxn) (byFee : List CandidateTxn) :
    List.Perm (insertByFee candidate byFee) (candidate :: byFee) := by
  unfold insertByFee
  refine List.perm_middle.trans ?_
  rw [List.takeWhile_append_dropWhile]

theorem mem_insertByFee {candidate other : CandidateTxn} {byFee : List CandidateTxn} :
    other ∈ insertByFee candidate byFee ↔ other = candidate ∨ other ∈ byFee := by
  rw [(perm_insertByFee candidate byFee).mem_iff, List.mem_cons]

/-! ## The invariant -/

/-- The queue's two orders agree: levels never increase along the fee order and no account
appears twice in it; a candidate is held under an account and sequence exactly when it is in
the fee order with them. -/
structure QueueWF (byFee : List CandidateTxn) (byAccount : ByAccount) : Prop where
  sorted : (byFee.map CandidateTxn.feeLevel).Pairwise (· ≥ ·)
  oneEach : (byFee.map CandidateTxn.account).Nodup
  agree : ∀ account sequence candidate, byAccount.lookup account sequence = some candidate ↔
    candidate ∈ byFee ∧ candidate.account = account ∧ candidate.sequence = sequence

/-- The queue's two orders agree. -/
def TxQ.WF (q : TxQ) : Prop := QueueWF q.byFee q.byAccount

namespace QueueWF

theorem empty : QueueWF [] SortedMap.empty :=
  ⟨List.Pairwise.nil, List.nodup_nil, fun _ _ _ => by simp [ByAccount.lookup]⟩

section Middle

variable {kept rest : List CandidateTxn} {candidate : CandidateTxn} {byAccount : ByAccount}

/-- No other candidate of the fee order has a held candidate's account. -/
theorem account_ne (wf : QueueWF (kept ++ candidate :: rest) byAccount) {other : CandidateTxn}
    (mem : other ∈ kept ++ rest) : other.account ≠ candidate.account := by
  have nodup := wf.oneEach
  rw [List.map_append, List.map_cons, List.nodup_middle, List.nodup_cons, ← List.map_append] at nodup
  intro same
  exact nodup.1 (same ▸ List.mem_map_of_mem mem)

/-- The fee order without one candidate, anywhere in it, and the account order without it. -/
theorem remove (wf : QueueWF (kept ++ candidate :: rest) byAccount) :
    QueueWF (kept ++ rest) (byAccount.erase candidate) where
  sorted := wf.sorted.sublist (((List.sublist_cons_self candidate rest).append_left kept).map _)
  oneEach := wf.oneEach.sublist (((List.sublist_cons_self candidate rest).append_left kept).map _)
  agree := by
    intro account sequence other
    rw [ByAccount.lookup_erase]
    split_ifs with erased
    · -- nothing else is held under the erased key
      obtain ⟨rfl, rfl⟩ := erased
      constructor
      · intro found
        cases found
      · rintro ⟨mem, same, -⟩
        exact absurd same (wf.account_ne mem)
    · rw [wf.agree]
      constructor
      · rintro ⟨mem, rfl, rfl⟩
        refine ⟨?_, rfl, rfl⟩
        rcases List.mem_append.mp mem with inKept | inRest
        · exact List.mem_append_left _ inKept
        · rcases List.mem_cons.mp inRest with rfl | later
          · exact absurd ⟨rfl, rfl⟩ erased
          · exact List.mem_append_right _ later
      · rintro ⟨mem, rfl, rfl⟩
        exact ⟨((List.sublist_cons_self candidate rest).append_left kept).subset mem, rfl, rfl⟩

/-- A candidate changed in place, keeping its account, sequence and level. -/
theorem set (wf : QueueWF (kept ++ candidate :: rest) byAccount) {changed : CandidateTxn}
    (account : changed.account = candidate.account) (sequence : changed.sequence = candidate.sequence)
    (feeLevel : changed.feeLevel = candidate.feeLevel) :
    QueueWF (kept ++ changed :: rest) (byAccount.set changed) where
  sorted := by
    have same : (kept ++ changed :: rest).map CandidateTxn.feeLevel = (kept ++ candidate :: rest).map CandidateTxn.feeLevel := by
      simp [feeLevel]
    rw [same]
    exact wf.sorted
  oneEach := by
    have same : (kept ++ changed :: rest).map CandidateTxn.account = (kept ++ candidate :: rest).map CandidateTxn.account := by
      simp [account]
    rw [same]
    exact wf.oneEach
  agree := by
    intro account' sequence' other
    rw [ByAccount.lookup_set]
    split_ifs with atKey
    · -- the key held the old candidate, and now holds the changed one only
      obtain ⟨rfl, rfl⟩ := atKey
      have held : byAccount.lookup changed.account changed.sequence = some candidate :=
        (wf.agree _ _ _).mpr ⟨List.mem_append_right _ List.mem_cons_self, account.symm, sequence.symm⟩
      rw [held, Option.map_some]
      constructor
      · intro found
        cases found
        exact ⟨List.mem_append_right _ List.mem_cons_self, rfl, rfl⟩
      · rintro ⟨mem, same, -⟩
        rcases List.mem_append.mp mem with inKept | inRest
        · exact absurd (same.trans account) (wf.account_ne (List.mem_append_left _ inKept))
        · rcases List.mem_cons.mp inRest with rfl | later
          · rfl
          · exact absurd (same.trans account) (wf.account_ne (List.mem_append_right _ later))
    · rw [wf.agree]
      -- away from the key the old candidate and the changed one are both absent
      constructor
      · rintro ⟨mem, rfl, rfl⟩
        refine ⟨?_, rfl, rfl⟩
        rcases List.mem_append.mp mem with inKept | inRest
        · exact List.mem_append_left _ inKept
        · rcases List.mem_cons.mp inRest with rfl | later
          · exact absurd ⟨account.symm, sequence.symm⟩ atKey
          · exact List.mem_append_right _ (List.mem_cons_of_mem _ later)
      · rintro ⟨mem, rfl, rfl⟩
        refine ⟨?_, rfl, rfl⟩
        rcases List.mem_append.mp mem with inKept | inRest
        · exact List.mem_append_left _ inKept
        · rcases List.mem_cons.mp inRest with rfl | later
          · exact absurd ⟨rfl, rfl⟩ atKey
          · exact List.mem_append_right _ (List.mem_cons_of_mem _ later)

end Middle

variable {byFee : List CandidateTxn} {byAccount : ByAccount}

/-- A candidate of an account with nothing in the fee order, held in both orders. -/
theorem hold (wf : QueueWF byFee byAccount) {candidate : CandidateTxn}
    (fresh : ∀ other ∈ byFee, other.account ≠ candidate.account) :
    QueueWF (insertByFee candidate byFee) (byAccount.hold candidate) where
  sorted := sorted_insertByFee wf.sorted candidate
  oneEach := by
    refine ((perm_insertByFee candidate byFee).map CandidateTxn.account).nodup_iff.mpr ?_
    rw [List.map_cons, List.nodup_cons]
    refine ⟨fun mem => ?_, wf.oneEach⟩
    obtain ⟨other, inFee, same⟩ := List.mem_map.mp mem
    exact fresh other inFee same
  agree := by
    intro account sequence other
    rw [ByAccount.lookup_hold, mem_insertByFee]
    split_ifs with atKey
    · -- nothing was held under the candidate's key
      obtain ⟨rfl, rfl⟩ := atKey
      have nothing : byAccount.lookup candidate.account candidate.sequence = none := by
        cases found : byAccount.lookup candidate.account candidate.sequence with
        | none => rfl
        | some held =>
          obtain ⟨mem, same, -⟩ := (wf.agree _ _ _).mp found
          exact absurd same (fresh held mem)
      rw [nothing, Option.none_or]
      constructor
      · intro found
        cases found
        exact ⟨.inl rfl, rfl, rfl⟩
      · rintro ⟨rfl | mem, same, -⟩
        · rfl
        · exact absurd same (fresh other mem)
    · rw [wf.agree]
      constructor
      · rintro ⟨mem, rfl, rfl⟩
        exact ⟨.inr mem, rfl, rfl⟩
      · rintro ⟨rfl | mem, rfl, rfl⟩
        · exact absurd ⟨rfl, rfl⟩ atKey
        · exact ⟨mem, rfl, rfl⟩

/-- Dropping the accounts with nothing held keeps the orders agreeing. -/
theorem filterNonempty (wf : QueueWF byFee byAccount) :
    QueueWF byFee (byAccount.filter fun _ txQAccount => !txQAccount.empty) :=
  ⟨wf.sorted, wf.oneEach, fun account sequence other => by
    rw [ByAccount.lookup_filter_nonempty]
    exact wf.agree account sequence other⟩

/-- An account with no entry, or with nothing held, has no candidate in the fee order. -/
theorem not_held (wf : QueueWF byFee byAccount) {account : AccountID}
    (nothing : (byAccount.find? account).all TxQAccount.empty) : ∀ other ∈ byFee, other.account ≠ account := by
  intro other mem same
  have held := (wf.agree account other.sequence other).mpr ⟨mem, same, rfl⟩
  unfold ByAccount.lookup at held
  cases found : byAccount.find? account with
  | none =>
    rw [found] at held
    cases held
  | some txQAccount =>
    rw [found] at held nothing
    rw [Option.bind_some, TxQAccount.findCandidateAt_of_empty (by simpa using nothing)] at held
    cases held

/-- A held candidate sits somewhere in the fee order. -/
theorem split_of_lookup (wf : QueueWF byFee byAccount) {account : AccountID} {sequence : Nat}
    {candidate : CandidateTxn} (found : byAccount.lookup account sequence = some candidate) :
    ∃ kept rest, byFee = kept ++ candidate :: rest :=
  List.append_of_mem ((wf.agree _ _ _).mp found).1

end QueueWF

/-! ## What each operation keeps -/

namespace TxQ

variable (kinds : TxType → TransactorKind) (config : Config) (feeEscalation : Bool)

theorem make_wf (setup : TxQSetup) : (TxQ.make setup).WF := QueueWF.empty

/-! ### What one call can do -/

/-- The replacement check leaves the queue as it was, or erases the candidate held at the
transaction's account and sequence. -/
theorem replaceHeld_cases {q after : TxQ} {tx : STTx} {feeLevelPaid requiredFeeLevel : Nat}
    (replaced : q.replaceHeld tx feeLevelPaid requiredFeeLevel = some after) :
    after = q ∨ ∃ existing, q.byAccount.lookup tx.account tx.sequence = some existing ∧
      after = q.eraseCandidate existing := by
  unfold replaceHeld at replaced
  split at replaced
  · cases replaced
    exact .inl rfl
  · rename_i existing found
    dsimp only at replaced
    split_ifs at replaced
    cases replaced
    exact .inr ⟨existing, found, rfl⟩

/-- Making room only drops candidates from the fee order, keeps the limit, and reports room
only when the queue is no longer full. -/
theorem makeRoom_shrinks {feeLevelPaid fuel : Nat} {q after : TxQ} {room : Bool}
    (made : makeRoom feeLevelPaid fuel q = some (after, room)) :
    after.maxSize = q.maxSize ∧ List.Sublist after.byFee q.byFee ∧ (room = true → after.isFull = false) := by
  induction fuel generalizing q with
  | zero => cases made
  | succ fuel ih =>
    unfold makeRoom at made
    split_ifs at made with full
    · split at made
      · cases made
      · rename_i last isLast
        split_ifs at made with pays
        · obtain ⟨limit, sublist, roomy⟩ := ih made
          exact ⟨limit, sublist.trans (List.dropLast_sublist _), roomy⟩
        · cases made
          exact ⟨rfl, List.Sublist.refl _, nofun⟩
    · cases made
      exact ⟨rfl, List.Sublist.refl _, fun _ => by simpa using full⟩

/-- The end of `TxQ::apply` either applies the transaction at once through `doApply`, with the
queue as it was, or leaves the open ledger as it was: with the queue as it was, or, for a
transaction that can be held, with room made and the transaction held when there was room. -/
theorem applyOrHold_cases {kind : TransactorKind} {q after : TxQ} {view view' : OpenView} {tx : STTx}
    {flags : ApplyFlags} {currentSeq : Bool} {pfresult : PreflightResult} {pcresult : PreclaimResult}
    {feeLevelPaid requiredFeeLevel : Nat} {ter : TER} {didApply : Bool}
    (applied : q.applyOrHold config kind view tx flags currentSeq pfresult pcresult feeLevelPaid requiredFeeLevel =
      some ((ter, didApply), after, view')) :
    (currentSeq = true ∧ doApply kind config pcresult view = some (ter, didApply, view') ∧ after = q) ∨
    (didApply = false ∧ view' = view ∧ (after = q ∨ q.canBeHeld tx = true ∧ ∃ roomy room,
      makeRoom feeLevelPaid (q.byFee.length + 1) q = some (roomy, room) ∧
      after = if room then roomy.hold (CandidateTxn.make tx tx.transactionID feeLevelPaid flags pfresult)
        else roomy)) := by
  unfold applyOrHold at applied
  split at applied
  · rename_i now
    obtain ⟨_, run, same⟩ := Option.map_eq_some_iff.mp applied
    cases same
    exact .inl ⟨(Bool.and_eq_true_iff.mp now).1, run, rfl⟩
  split at applied
  · cases applied
    exact .inr ⟨rfl, rfl, .inl rfl⟩
  · rename_i cannot
    obtain ⟨⟨roomy, room⟩, made, same⟩ := Option.map_eq_some_iff.mp applied
    have held : q.canBeHeld tx = true := by simpa using cannot
    cases room
    · simp only [Bool.false_eq_true, ↓reduceIte, Prod.mk.injEq] at same
      obtain ⟨⟨-, rfl⟩, rfl, rfl⟩ := same
      exact .inr ⟨rfl, rfl, .inr ⟨held, roomy, false, made, rfl⟩⟩
    · simp only [↓reduceIte, Prod.mk.injEq] at same
      obtain ⟨⟨-, rfl⟩, rfl, rfl⟩ := same
      exact .inr ⟨rfl, rfl, .inr ⟨held, roomy, true, made, rfl⟩⟩

/-- `TxQ::apply` either is `ripple::apply` (fee escalation off), or stops before the queue
with the open ledger and the queue as they were, or passes the replacement check and ends in
`applyOrHold`. -/
theorem applyTxn_cases {q after : TxQ} {view view' : OpenView} {tx : STTx} {flags : ApplyFlags} {ter : TER}
    {didApply : Bool}
    (applied : q.applyTxn kinds config feeEscalation view tx flags = some ((ter, didApply), after, view')) :
    (RadardFormal.Tx.apply (kinds tx.txnType) config view tx flags = some (ter, didApply, view') ∧ after = q) ∨
    (didApply = false ∧ view' = view ∧ after = q) ∨
    ∃ pcresult replaced,
      preclaim (kinds tx.txnType) (preflight (kinds tx.txnType) view.rules tx
        (if q.currentSeq view tx then flags else flags.union .tapPOST_SEQ)) view = some pcresult ∧
      q.replaceHeld tx (getFeeLevelPaid tx FeeMetrics.baseLevel pcresult.baseFee)
        (q.feeMetrics.scaleFeeLevel view) = some replaced ∧
      replaced.applyOrHold config (kinds tx.txnType) view tx flags (q.currentSeq view tx)
        (preflight (kinds tx.txnType) view.rules tx (if q.currentSeq view tx then flags else flags.union .tapPOST_SEQ))
        pcresult (getFeeLevelPaid tx FeeMetrics.baseLevel pcresult.baseFee) (q.feeMetrics.scaleFeeLevel view) =
          some ((ter, didApply), after, view') := by
  unfold applyTxn at applied
  by_cases disabled : (!(flags.has .tapENABLE_TESTING || feeEscalation)) = true
  · rw [if_pos disabled] at applied
    obtain ⟨_, run, same⟩ := Option.map_eq_some_iff.mp applied
    cases same
    exact .inl ⟨run, rfl⟩
  · rw [if_neg disabled] at applied
    dsimp only at applied
    obtain ⟨pcresult, checked, rest⟩ := Option.bind_eq_some_iff.mp applied
    by_cases unlikely : (!pcresult.likelyToClaimFee) = true
    · rw [if_pos unlikely] at rest
      cases rest
      exact .inr (.inl ⟨rfl, rfl, rfl⟩)
    · rw [if_neg unlikely] at rest
      split at rest
      · cases rest
        exact .inr (.inl ⟨rfl, rfl, rfl⟩)
      · rename_i replaced found
        exact .inr (.inr ⟨pcresult, replaced, checked, found, rest⟩)

/-! ### The invariant -/

/-- `TxQ::erase` of a held candidate. -/
theorem eraseCandidate_wf {q : TxQ} (wf : q.WF) {account : AccountID} {sequence : Nat} {candidate : CandidateTxn}
    (found : q.byAccount.lookup account sequence = some candidate) : (q.eraseCandidate candidate).WF := by
  obtain ⟨kept, rest, split⟩ := QueueWF.split_of_lookup wf found
  unfold WF at wf
  rw [split] at wf
  -- no candidate before it has its key, so `eraseP` removes it where it stands
  have erased : q.byFee.eraseP (fun other => other.account == candidate.account && other.sequence == candidate.sequence) =
      kept ++ rest := by
    rw [split, List.eraseP_append_right _ fun other mem hit => ?_, List.eraseP_cons_of_pos (by simp)]
    simp only [Bool.and_eq_true, beq_iff_eq] at hit
    exact wf.account_ne (List.mem_append_left _ mem) hit.1
  show QueueWF _ _
  rw [eraseCandidate, erased]
  exact wf.remove

/-- `TxQ::erase` of the last candidate by fee. -/
theorem eraseLast_wf {q : TxQ} (wf : q.WF) {last : CandidateTxn} (isLast : q.byFee.getLast? = some last) :
    (q.eraseLast last).WF := by
  obtain ⟨kept, split⟩ := List.getLast?_eq_some_iff.mp isLast
  unfold WF at wf
  rw [split] at wf
  show QueueWF _ _
  rw [eraseLast, split, List.dropLast_concat]
  simpa using QueueWF.remove (show QueueWF (kept ++ last :: []) q.byAccount from wf)

/-- Making room keeps the orders agreeing. -/
theorem makeRoom_wf {feeLevelPaid : Nat} {fuel : Nat} {q after : TxQ} {room : Bool} (wf : q.WF)
    (made : makeRoom feeLevelPaid fuel q = some (after, room)) : after.WF := by
  induction fuel generalizing q with
  | zero => cases made
  | succ fuel ih =>
    unfold makeRoom at made
    split_ifs at made with full
    · split at made
      · cases made
      · rename_i last isLast
        split_ifs at made with pays
        · exact ih (eraseLast_wf wf isLast) made
        · cases made
          exact wf
    · cases made
      exact wf

/-- The replacement check keeps the orders agreeing. -/
theorem replaceHeld_wf {q after : TxQ} (wf : q.WF) {tx : STTx} {feeLevelPaid requiredFeeLevel : Nat}
    (replaced : q.replaceHeld tx feeLevelPaid requiredFeeLevel = some after) : after.WF := by
  rcases replaceHeld_cases replaced with rfl | ⟨existing, found, rfl⟩
  · exact wf
  · exact eraseCandidate_wf wf found

/-- Holding a transaction that can be held, after making room, keeps the orders agreeing. -/
theorem hold_wf {q roomy : TxQ} (wf : q.WF) {tx : STTx} (held : q.canBeHeld tx)
    (sublist : List.Sublist roomy.byFee q.byFee) (roomyWF : roomy.WF) {txID : Uint256} {feeLevel : Nat}
    {flags : ApplyFlags} {pfresult : PreflightResult} :
    (roomy.hold (CandidateTxn.make tx txID feeLevel flags pfresult)).WF := by
  have nothing : (q.byAccount.find? tx.account).all TxQAccount.empty := by
    unfold canBeHeld at held
    simp only [Bool.and_eq_true] at held
    exact held.2
  have fresh := QueueWF.not_held wf nothing
  exact QueueWF.hold roomyWF fun other mem => fresh other (sublist.subset mem)

/-- The end of `TxQ::apply` keeps the orders agreeing. -/
theorem applyOrHold_wf {kind : TransactorKind} {q after : TxQ} (wf : q.WF) {view view' : OpenView} {tx : STTx}
    {flags : ApplyFlags} {currentSeq : Bool} {pfresult : PreflightResult} {pcresult : PreclaimResult}
    {feeLevelPaid requiredFeeLevel : Nat} {ter : TER} {didApply : Bool}
    (applied : q.applyOrHold config kind view tx flags currentSeq pfresult pcresult feeLevelPaid requiredFeeLevel =
      some ((ter, didApply), after, view')) : after.WF := by
  rcases applyOrHold_cases config applied with ⟨-, -, rfl⟩ | ⟨-, -, rfl | ⟨held, roomy, room, made, rfl⟩⟩
  · exact wf
  · exact wf
  · have roomyWF := makeRoom_wf wf made
    cases room
    · exact roomyWF
    · exact hold_wf wf held (makeRoom_shrinks made).2.1 roomyWF

/-- `TxQ::apply` keeps the orders agreeing. -/
theorem applyTxn_wf {q after : TxQ} (wf : q.WF) {view view' : OpenView} {tx : STTx} {flags : ApplyFlags}
    {ter : TER} {didApply : Bool}
    (applied : q.applyTxn kinds config feeEscalation view tx flags = some ((ter, didApply), after, view')) :
    after.WF := by
  rcases applyTxn_cases kinds config feeEscalation applied with
    ⟨-, rfl⟩ | ⟨-, -, rfl⟩ | ⟨pcresult, replaced, -, found, rest⟩
  · exact wf
  · exact wf
  · exact applyOrHold_wf config (replaceHeld_wf wf found) rest

/-- `accept`'s loop keeps the orders agreeing, for the candidates kept so far followed by
those still to come. -/
theorem acceptLoop_wf {metrics : FeeMetrics} {kept remaining : List CandidateTxn} {byAccount : ByAccount}
    {view : OpenView} {changed : Bool} {byFee' : List CandidateTxn} {byAccount' : ByAccount} {view' : OpenView}
    {changed' : Bool} (wf : QueueWF (kept ++ remaining) byAccount)
    (looped : acceptLoop kinds config metrics kept remaining byAccount view changed =
      some (byFee', byAccount', view', changed')) :
    QueueWF byFee' byAccount' := by
  induction remaining generalizing kept byAccount view changed with
  | nil =>
    simp only [acceptLoop, Option.some.injEq, Prod.mk.injEq] at looped
    obtain ⟨rfl, rfl, -, -⟩ := looped
    simpa using wf
  | cons candidate rest ih =>
    unfold acceptLoop at looped
    split_ifs at looped with pays
    · -- the candidate leaves the queue, or stays with its refreshed `preflight` result
      dsimp only at looped
      obtain ⟨⟨ter, didApply, view₁⟩, -, next⟩ := Option.bind_eq_some_iff.mp looped
      split_ifs at next
      · exact ih wf.remove next
      · exact ih wf.remove next
      · refine ih ?_ next
        rw [List.append_assoc]
        exact wf.set rfl rfl rfl
    · -- the first candidate that pays too little ends the loop
      cases looped
      exact wf

/-- `TxQ::accept` keeps the orders agreeing. -/
theorem accept_wf {q after : TxQ} (wf : q.WF) {view view' : OpenView} {flags : ApplyFlags} {changed : Bool}
    (accepted : q.accept kinds config feeEscalation view flags = some (changed, after, view')) : after.WF := by
  unfold accept at accepted
  by_cases disabled : (!(flags.has .tapENABLE_TESTING || feeEscalation)) = true
  · rw [if_pos disabled] at accepted
    cases accepted
    exact wf
  · rw [if_neg disabled] at accepted
    obtain ⟨⟨byFee, byAccount, view₁, changed₁⟩, looped, same⟩ := Option.map_eq_some_iff.mp accepted
    cases same
    exact acceptLoop_wf kinds config (show QueueWF ([] ++ q.byFee) q.byAccount from wf) looped

/-- The first loop of `processValidatedLedger` keeps the orders agreeing, for the candidates
before it, those it kept and those it did not reach. -/
theorem expireLoop_wf {ledgerSeq : Nat} {maxSize : Option Nat} (pre : List CandidateTxn) {keptCandidates : Nat}
    {remaining : List CandidateTxn} {byAccount : ByAccount} (wf : QueueWF (pre ++ remaining) byAccount) :
    QueueWF (pre ++ (expireLoop ledgerSeq maxSize keptCandidates remaining byAccount).1 ++
        (expireLoop ledgerSeq maxSize keptCandidates remaining byAccount).2.1)
      (expireLoop ledgerSeq maxSize keptCandidates remaining byAccount).2.2 := by
  induction remaining generalizing pre keptCandidates byAccount with
  | nil => simpa [expireLoop] using wf
  | cons candidate rest ih =>
    unfold expireLoop
    split_ifs with within expired
    · exact ih pre wf.remove
    · -- a candidate still valid is kept
      have kept := @ih (pre ++ [candidate]) (keptCandidates + 1) byAccount (by simpa using wf)
      simpa using kept
    · simpa using wf

/-- The second loop of `processValidatedLedger` keeps the orders agreeing. -/
theorem trimLoop_wf (pre : List CandidateTxn) {remaining kept : List CandidateTxn} {byAccount byAccount' : ByAccount}
    (wf : QueueWF (pre ++ remaining) byAccount) (trimmed : trimLoop remaining byAccount = some (kept, byAccount')) :
    QueueWF (pre ++ kept) byAccount' := by
  induction remaining, byAccount using trimLoop.induct generalizing pre kept byAccount' with
  | case1 byAccount =>
    simp only [trimLoop, Option.some.injEq, Prod.mk.injEq] at trimmed
    obtain ⟨rfl, rfl⟩ := trimmed
    simpa using wf
  | case2 candidate byAccount => cases trimmed
  | case3 candidate next rest byAccount ih =>
    simp only [trimLoop] at trimmed
    obtain ⟨⟨kept₁, byAccount₁⟩, inner, same⟩ := Option.map_eq_some_iff.mp trimmed
    cases same
    -- the loop erases one candidate and steps over the next
    have removed : QueueWF ((pre ++ [next]) ++ rest) (byAccount.erase candidate) := by
      simpa using wf.remove
    simpa using ih (pre ++ [next]) removed inner

/-- `TxQ::processValidatedLedger` keeps the orders agreeing. -/
theorem processValidatedLedger_wf {q after : TxQ} (wf : q.WF) {view : OpenView} {txs : List STTx}
    {timeLeap : Bool} {flags : ApplyFlags}
    (processed : q.processValidatedLedger kinds feeEscalation view txs timeLeap flags = some after) : after.WF := by
  unfold processValidatedLedger at processed
  by_cases disabled : (!(flags.has .tapENABLE_TESTING || feeEscalation)) = true
  · rw [if_pos disabled] at processed
    cases processed
    exact wf
  · rw [if_neg disabled] at processed
    dsimp only at processed
    obtain ⟨⟨trimmed, byAccount⟩, trimmedEq, rfl⟩ := Option.map_eq_some_iff.mp processed
    -- the kept candidates come first, then what the second loop left of the rest
    exact (trimLoop_wf _ (expireLoop_wf [] (show QueueWF ([] ++ q.byFee) q.byAccount from wf))
      trimmedEq).filterNonempty

/-- One event keeps the orders agreeing. -/
theorem step_wf {q after : TxQ} (wf : q.WF) {event : TxQEvent}
    (stepped : q.step kinds config feeEscalation event = some after) : after.WF := by
  cases event with
  | apply view tx flags =>
    obtain ⟨⟨⟨ter, didApply⟩, q', view'⟩, applied, rfl⟩ := Option.map_eq_some_iff.mp stepped
    exact applyTxn_wf kinds config feeEscalation wf applied
  | accept view flags =>
    obtain ⟨⟨changed, q', view'⟩, accepted, rfl⟩ := Option.map_eq_some_iff.mp stepped
    exact accept_wf kinds config feeEscalation wf accepted
  | processValidatedLedger view txs timeLeap flags =>
    exact processValidatedLedger_wf kinds feeEscalation wf stepped

/-- A run keeps the orders agreeing. -/
theorem run_wf {q after : TxQ} (wf : q.WF) {events : List TxQEvent}
    (ran : q.run kinds config feeEscalation events = some after) : after.WF := by
  induction events generalizing q with
  | nil =>
    cases ran
    exact wf
  | cons event events ih =>
    obtain ⟨next, stepped, rest⟩ := Option.bind_eq_some_iff.mp ran
    exact ih (step_wf kinds config feeEscalation wf stepped) rest

end TxQ

/-- From an empty queue, after every run of submissions, `accept`s and validated ledgers that
the source completes, the queue's two orders agree: fee levels never increase along the fee
order, no account has two transactions in it, and a transaction is held under an account
and sequence exactly when the fee order holds it with that account and sequence. -/
theorem queue_orders_agree (kinds : TxType → TransactorKind) (config : Config) (feeEscalation : Bool)
    {setup : TxQSetup} {events : List TxQEvent} {q : TxQ}
    (ran : (TxQ.make setup).run kinds config feeEscalation events = some q) : q.WF :=
  TxQ.run_wf kinds config feeEscalation (TxQ.make_wf setup) ran

/-- An open ledger already holding six transactions, more than a new queue expects, with one
account at sequence 5. -/
def busyLedger : OpenView :=
  ⟨AList.singleton (.account (AccountID.ofNat 7))
      (.accountRoot ⟨AccountID.ofNat 7, 1000, 0, 5, 0, 0, none, none, none, none⟩),
    100000, 0, List.replicate 6 Uint256.zero, 10, 0, true, ⟨10, 10, 200, 50⟩, ⟨true⟩⟩

/-- An `AccountSet` from that account at its sequence, paying the base fee. -/
def cheapTx : STTx := STTx.make .ttACCOUNT_SET (AccountID.ofNat 7) 5 10

/-- The queue holding it at the reference level, which is below what the busy ledger asks. -/
def cheapHeld : TxQ :=
  (TxQ.make {}).hold
    (CandidateTxn.make cheapTx cheapTx.transactionID 256 .tapNONE (preflight SetAccount.kind ⟨true⟩ cheapTx .tapNONE))

set_option maxRecDepth 20000 in
/-- Submitted to the busy ledger, the transaction is held. -/
theorem cheapTx_held :
    (TxQ.make {}).run (fun _ => SetAccount.kind) ⟨none⟩ true [.apply busyLedger cheapTx .tapNONE] =
      some cheapHeld := by
  rfl

theorem queue_orders_agree_cheapHeld :
    (TxQ.make {}).run (fun _ => SetAccount.kind) ⟨none⟩ true [.apply busyLedger cheapTx .tapNONE] =
      some cheapHeld ∧ cheapHeld.WF :=
  ⟨cheapTx_held, queue_orders_agree _ _ _ cheapTx_held⟩

end RadardFormal.Tx
