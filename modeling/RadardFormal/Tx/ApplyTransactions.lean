import RadardFormal.Tx.CanonicalTXSet
import RadardFormal.Tx.ApplySteps

/-!
# Applying a set of transactions in passes

When consensus closes a ledger, `applyTransactions` applies the agreed set to it: the
transactions the last closed ledger does not hold go into a `CanonicalTXSet`, and then up
to `LEDGER_TOTAL_PASSES` passes run over that set in its order.  A transaction that
applies, or fails for good (`tef`, `tem`, `tel`), leaves the set; one that asks for a retry
stays.  The first passes apply with `tapRETRY`, so that a transaction which may succeed
later does not claim its fee yet; they continue while they change the ledger, up to
`LEDGER_RETRY_PASSES`; the passes after them are final.  `OpenLedger::apply` builds the
next open ledger the same way, after one pass of its own over the transactions it is
given.

What the passes do is a list of tries (`Try`): each transaction of the set tried through
`ripple::apply` once per pass, on the ledger the tries before it left, with the flags of its
pass, reporting what `ripple::apply` gives there (`tryAll`).  The ledger they build is the
one the tries give, and the set's transactions are those that applied in a try, those that
failed for good in one, and those left (`Accounts`, `passLoop_tries`).  Since the canonical
set orders the transactions by key alone, consensus builds one ledger from one set of
transactions, whatever order they are read in (`applyTransactions_perm`).  The last pass is
always final, so each transaction left was tried last without `tapRETRY` and asked for a
retry there (`applyTransactions_left_final`, the assert that ends the loop); since
`ripple::apply` applies no transaction the ledger holds, none is applied twice
(`applyTransactions_txs_nodup`); and `OpenLedger::apply` loses no transaction it is given
(`OpenLedger.apply_keeps`).
-/

namespace RadardFormal.Tx

open RadardFormal.Protocol RadardFormal.Ledger RadardFormal.Support TER

/-- `LEDGER_TOTAL_PASSES`: the passes over the retriable transactions. -/
def ledgerTotalPasses : Nat := 3

/-- `LEDGER_RETRY_PASSES`: the passes after the first that may still be retriable. -/
def ledgerRetryPasses : Nat := 1

/-- The result of applying a transaction: `LedgerConsensusImp`'s `resultSuccess`,
`resultFail` and `resultRetry`, and `OpenLedger::Result`. -/
inductive ApplyResult
  | success
  | failure
  | retry
  deriving DecidableEq, Repr

/-- The flags a transaction is applied with: `tapRETRY` added while a retry is assured. -/
def retryFlags (retryAssured : Bool) (flags : ApplyFlags) : ApplyFlags :=
  if retryAssured then flags.union .tapRETRY else flags

theorem retryFlags_cases (retryAssured : Bool) (flags : ApplyFlags) :
    retryFlags retryAssured flags = flags ∨ retryFlags retryAssured flags = flags.union .tapRETRY := by
  cases retryAssured
  · exact .inl rfl
  · exact .inr rfl

/-- An item of the consensus set: its key, and the transaction its data deserializes to,
`none` where `STTx (SerialIter)` throws. -/
structure SetItem where
  key : Uint256
  txn : Option STTx
  deriving DecidableEq, Repr

section

variable (kinds : TxType → TransactorKind) (config : Config)

/-- `applyTransaction`: `ripple::apply`, with `tapRETRY` while a retry is assured.  A
transaction that applied is a success; one that did not is a failure for a `tef`, `tem`
or `tel` result, and otherwise asks for a retry. -/
def applyTransaction (view : OpenView) (txn : STTx) (retryAssured : Bool) (flags : ApplyFlags) :
    Option (ApplyResult × OpenView) :=
  (apply (kinds txn.txnType) config view txn (retryFlags retryAssured flags)).map
    fun (ter, didApply, view) =>
      if didApply then (.success, view)
      else if isTefFailure ter || isTemMalformed ter || isTelLocal ter then (.failure, view)
      else (.retry, view)

/-- `OpenLedger::apply_one`, the same steps as `applyTransaction`. -/
def OpenLedger.applyOne (view : OpenView) (tx : STTx) (retry : Bool) (flags : ApplyFlags) :
    Option (ApplyResult × OpenView) :=
  applyTransaction kinds config view tx retry flags

/-- One pass of the loop over the retriable transactions, from `begin ()`: one that
applies or fails is erased, one that asks for a retry stays.  The number of transactions
applied, the set and the ledger after the pass. -/
def applyPass (certainRetry : Bool) (flags : ApplyFlags) :
    List (Σ _ : CanonicalTXSet.Key, STTx) → CanonicalTXSet → OpenView →
      Option (Nat × CanonicalTXSet × OpenView)
  | [], set, view => some (0, set, view)
  | entry :: rest, set, view =>
    (applyTransaction kinds config view entry.2 certainRetry flags).bind fun (result, view) =>
      match result with
      | .success =>
        (applyPass certainRetry flags rest (set.erase entry.1) view).map
          fun (changes, set, view) => (changes + 1, set, view)
      | .failure => applyPass certainRetry flags rest (set.erase entry.1) view
      | .retry => applyPass certainRetry flags rest set view

/-- The loop over the passes, given the numbers of the passes: a pass is retriable while
the passes before it changed the ledger, up to `LEDGER_RETRY_PASSES`; the loop stops after
a final pass that changed nothing.  The set, the ledger and `certainRetry` at the end. -/
def passLoop (flags : ApplyFlags) :
    List Nat → Bool → CanonicalTXSet → OpenView → Option (CanonicalTXSet × OpenView × Bool)
  | [], certainRetry, set, view => some (set, view, certainRetry)
  | pass :: later, certainRetry, set, view =>
    (applyPass kinds config certainRetry flags set.map.entries set view).bind
      fun (changes, set, view) =>
        if changes = 0 ∧ certainRetry = false then some (set, view, certainRetry)
        else passLoop flags later
          (if changes = 0 ∨ ledgerRetryPasses ≤ pass then false else certainRetry) set view

/-- The transactions the first loop of `applyTransactions` puts in the set: those of the
items whose key the check ledger does not hold and that deserialize. -/
def candidateTxs (checkLedger : OpenView) (items : List SetItem) : List STTx :=
  items.filterMap fun item => if checkLedger.txExists item.key then none else item.txn

/-- `applyTransactions`: the transactions of the consensus set, if there is one, join the
retriable ones, and the passes apply them.  The ledger and the transactions left. -/
def applyTransactions (set : Option (List SetItem)) (view : OpenView) (checkLedger : OpenView)
    (retriableTxs : CanonicalTXSet) (flags : ApplyFlags) : Option (OpenView × CanonicalTXSet) :=
  let retriableTxs := match set with
    | none => retriableTxs
    | some items => retriableTxs.insertTxs (candidateTxs checkLedger items)
  (passLoop kinds config flags (List.range ledgerTotalPasses) true retriableTxs view).map
    fun (retriableTxs, view, _) => (view, retriableTxs)

/-- The first loop of `OpenLedger::apply`: each transaction that neither the check ledger
nor the open ledger holds is applied with `tapRETRY`, and kept for the passes when it asks
for a retry. -/
def OpenLedger.applyFirst (check : OpenView) (flags : ApplyFlags) :
    List STTx → CanonicalTXSet → OpenView → Option (CanonicalTXSet × OpenView)
  | [], retries, view => some (retries, view)
  | tx :: rest, retries, view =>
    if check.txExists tx.transactionID || view.txExists tx.transactionID then
      applyFirst check flags rest retries view
    else
      (OpenLedger.applyOne kinds config view tx true flags).bind fun (result, view) =>
        applyFirst check flags rest (if result = .retry then retries.insert tx else retries) view

/-- `OpenLedger::apply`: the first loop, then the passes over the retries.  The open ledger
and the retries left. -/
def OpenLedger.apply (view : OpenView) (check : OpenView) (txs : List STTx)
    (retries : CanonicalTXSet) (flags : ApplyFlags) : Option (OpenView × CanonicalTXSet) :=
  (OpenLedger.applyFirst kinds config check flags txs retries view).bind fun (retries, view) =>
    (passLoop kinds config flags (List.range ledgerTotalPasses) true retries view).map
      fun (retries, view, _) => (view, retries)

/-! ## What the passes should do -/

/-- The set the passes of `applyTransactions` start from: the retriable set, with the
candidates of the consensus set inserted when there is one. -/
def startSet (set : Option (List SetItem)) (checkLedger : OpenView) (retriableTxs : CanonicalTXSet) :
    CanonicalTXSet :=
  match set with
  | none => retriableTxs
  | some items => retriableTxs.insertTxs (candidateTxs checkLedger items)

/-- What `applyTransaction` reports for what `ripple::apply` returned. -/
def resultOf (ter : TER) (didApply : Bool) : ApplyResult :=
  if didApply then .success
  else if isTefFailure ter || isTemMalformed ter || isTelLocal ter then .failure
  else .retry

/-- One try of a transaction: the transaction, the flags `ripple::apply` was given, and what
the try reported. -/
structure Try where
  txn : STTx
  flags : ApplyFlags
  result : ApplyResult
  deriving DecidableEq, Repr

/-- The transactions of the tries that reported a result, in the order they were tried. -/
def triesWith (result : ApplyResult) (tries : List Try) : List STTx :=
  (tries.filter fun t => t.result = result).map Try.txn

/-- Tries made one after the other through `ripple::apply`, each on the ledger the tries
before it left, each reporting what `ripple::apply` gives there: the ledger after the last;
`none` where a try reports anything else. -/
def tryAll : List Try → OpenView → Option OpenView
  | [], view => some view
  | t :: rest, view =>
    match apply (kinds t.txn.txnType) config view t.txn t.flags with
    | some (ter, didApply, after) => if resultOf ter didApply = t.result then tryAll rest after else none
    | none => none

/-- What tries did to a list of transactions: each try is of one of them, with the flags asked
for or with `tapRETRY`, and the list is the transactions that applied, those that failed for
good and those left. -/
structure Accounts (flags : ApplyFlags) (tries : List Try) (start left : List STTx) : Prop where
  flagged : ∀ t ∈ tries, t.flags = flags ∨ t.flags = flags.union .tapRETRY
  tried : ∀ t ∈ tries, t.txn ∈ start
  split : start.Perm (triesWith .success tries ++ triesWith .failure tries ++ left)

/-- Each transaction left was tried last with the flags asked for, without `tapRETRY`, and
asked for a retry there. -/
def FinalRetries (flags : ApplyFlags) (tries : List Try) (left : List STTx) : Prop :=
  ∀ txn ∈ left, ∃ before after, tries = before ++ ⟨txn, flags, .retry⟩ :: after ∧
    ∀ t ∈ after, t.txn ≠ txn

/-- Where a transaction given to `OpenLedger::apply` ends, after tries that built `view'` and
left `retries'`: in the check ledger, in the open ledger, failed for good in one of the
tries, or among the retries. -/
def Kept (check view' : OpenView) (retries' : CanonicalTXSet) (tries : List Try) (tx : STTx) : Prop :=
  check.txExists tx.transactionID = true ∨ tx.transactionID ∈ view'.txs ∨
    tx ∈ triesWith .failure tries ∨ tx ∈ retries'.txs

theorem tryAll_append :
    ∀ (first second : List Try) (view : OpenView),
      tryAll kinds config (first ++ second) view =
        (tryAll kinds config first view).bind (tryAll kinds config second)
  | [], _, _ => rfl
  | t :: rest, second, view => by
    simp only [List.cons_append, tryAll]
    cases apply (kinds t.txn.txnType) config view t.txn t.flags with
    | none => rfl
    | some outcome =>
      obtain ⟨ter, didApply, after⟩ := outcome
      simp only
      split_ifs
      · exact tryAll_append rest second after
      · rfl

end

/-! ## One transaction -/

/-- `operator()` applies a transaction by adding it to the ledger's transactions. -/
theorem operator_applied_txs {ctx : ApplyContext} {code : Transactor → ViewM TER}
    {base after : OpenView} {ter : TER} (run : operator ctx code base = some (ter, true, after)) :
    after.txs = base.txs ++ [ctx.tx.transactionID] := by
  obtain ⟨terResult, view, -, -, branch⟩ := operator_eq_some run
  rcases branch with ⟨-, fee, view', -, applied⟩ | ⟨-, -, applied⟩ | ⟨-, -, notApplied, -⟩
  · rw [(applyView_eq_some applied).2.2.2]
    rfl
  · rw [(applyView_eq_some applied).2.2.2]
    rfl
  · cases notApplied

/-- `ripple::apply` applies a transaction by adding it to the ledger's transactions. -/
theorem apply_applied_txs {kind : TransactorKind} {config : Config} {view after : OpenView}
    {tx : STTx} {flags : ApplyFlags} {ter : TER}
    (run : apply kind config view tx flags = some (ter, true, after)) :
    after.txs = view.txs ++ [tx.transactionID] := by
  obtain ⟨result, checked, applied⟩ := Option.bind_eq_some_iff.mp run
  obtain ⟨-, -, ran⟩ := doApply_applied applied
  rw [operator_applied_txs ran]
  -- the context's transaction is the one `preflight` was given
  rw [show (result.context config).tx = tx from (preclaim_eq_some checked).1]

/-- `ripple::apply` applies no transaction the ledger holds already. -/
theorem apply_txs_nodup {kind : TransactorKind} {config : Config} {view after : OpenView}
    {tx : STTx} {flags : ApplyFlags} {ter : TER}
    (run : apply kind config view tx flags = some (ter, true, after)) (nodup : view.txs.Nodup) :
    after.txs.Nodup := by
  obtain ⟨result, checked, applied⟩ := Option.bind_eq_some_iff.mp run
  obtain ⟨-, fresh, -⟩ := doApply_applied applied
  rw [show result.tx = tx from (preclaim_eq_some checked).1] at fresh
  have absent : tx.transactionID ∉ view.txs := by simpa [OpenView.txExists] using fresh
  rw [apply_applied_txs run]
  exact List.Nodup.append nodup (List.nodup_singleton _) (List.disjoint_singleton.mpr absent)

section

variable {kinds : TxType → TransactorKind} {config : Config}

/-! ## Tries -/

@[simp] theorem triesWith_nil (result : ApplyResult) : triesWith result [] = [] := rfl

@[simp] theorem triesWith_cons (result : ApplyResult) (t : Try) (tries : List Try) :
    triesWith result (t :: tries) =
      if t.result = result then t.txn :: triesWith result tries else triesWith result tries := by
  by_cases same : t.result = result <;> simp [triesWith, same]

@[simp] theorem triesWith_append (result : ApplyResult) (first second : List Try) :
    triesWith result (first ++ second) = triesWith result first ++ triesWith result second := by
  simp [triesWith, List.filter_append]

/-- Every try reports one of three results: the transactions tried are those that applied,
those that failed for good and those that asked for a retry. -/
theorem map_txn_perm_triesWith : ∀ tries : List Try,
    (tries.map Try.txn).Perm
      (triesWith .success tries ++ triesWith .failure tries ++ triesWith .retry tries)
  | [] => List.Perm.refl _
  | ⟨txn, flags, result⟩ :: rest => by
    have split := (map_txn_perm_triesWith rest).cons txn
    cases result with
    | success => exact split
    | failure =>
      show (txn :: rest.map Try.txn).Perm
        (triesWith .success rest ++ txn :: triesWith .failure rest ++ triesWith .retry rest)
      rw [List.append_assoc, List.cons_append]
      refine split.trans ?_
      rw [List.append_assoc]
      exact List.perm_middle.symm
    | retry =>
      show (txn :: rest.map Try.txn).Perm
        (triesWith .success rest ++ triesWith .failure rest ++ txn :: triesWith .retry rest)
      exact split.trans List.perm_middle.symm

/-- What one try does: `ripple::apply` on the ledger as it stands, reporting the try's
result. -/
theorem tryAll_cons_eq_some {t : Try} {rest : List Try} {view view' : OpenView} :
    tryAll kinds config (t :: rest) view = some view' ↔
      ∃ ter didApply after,
        apply (kinds t.txn.txnType) config view t.txn t.flags = some (ter, didApply, after) ∧
          resultOf ter didApply = t.result ∧ tryAll kinds config rest after = some view' := by
  cases applied : apply (kinds t.txn.txnType) config view t.txn t.flags with
  | none => simp [tryAll, applied]
  | some outcome =>
    obtain ⟨ter, didApply, after⟩ := outcome
    simp only [tryAll, applied]
    constructor
    · intro ran
      split_ifs at ran with reported
      exact ⟨ter, didApply, after, rfl, reported, ran⟩
    · rintro ⟨ter', didApply', after', same, reported, ran⟩
      simp only [Option.some.injEq, Prod.mk.injEq] at same
      obtain ⟨rfl, rfl, rfl⟩ := same
      rw [if_pos reported]
      exact ran

theorem tryAll_append_of {first second : List Try} {view middle view' : OpenView}
    (early : tryAll kinds config first view = some middle)
    (late : tryAll kinds config second middle = some view') :
    tryAll kinds config (first ++ second) view = some view' := by
  rw [tryAll_append, early]
  exact late

/-- Tries add to the ledger's transactions those of the tries that applied, in order. -/
theorem tryAll_txs : ∀ {tries : List Try} {view view' : OpenView},
    tryAll kinds config tries view = some view' →
      view'.txs = view.txs ++ (triesWith .success tries).map STTx.transactionID
  | [], view, view', ran => by
    cases ran
    simp
  | t :: rest, view, view', ran => by
    obtain ⟨ter, didApply, after, applied, reported, ran⟩ := tryAll_cons_eq_some.mp ran
    rw [tryAll_txs ran, triesWith_cons]
    cases didApply
    · -- not applied: the ledger is as it was, and the try reported no success
      obtain rfl := apply_not_applied applied
      have notApplied : t.result ≠ .success := by
        rw [← reported]
        by_cases forGood : (isTefFailure ter || isTemMalformed ter || isTelLocal ter) = true <;>
          simp [resultOf, forGood]
      simp [notApplied]
    · have success : t.result = .success := by
        rw [← reported]
        rfl
      simp [success, apply_applied_txs applied]

/-- Tries leave no repeat among the ledger's transactions. -/
theorem tryAll_nodup : ∀ {tries : List Try} {view view' : OpenView},
    tryAll kinds config tries view = some view' → view.txs.Nodup → view'.txs.Nodup
  | [], view, view', ran, nodup => by
    cases ran
    exact nodup
  | t :: rest, view, view', ran, nodup => by
    obtain ⟨ter, didApply, after, applied, -, ran⟩ := tryAll_cons_eq_some.mp ran
    refine tryAll_nodup ran ?_
    cases didApply
    · rw [apply_not_applied applied]
      exact nodup
    · exact apply_txs_nodup applied nodup

/-- `applyTransaction` is one try, with `tapRETRY` while a retry is assured. -/
theorem applyTransaction_try {view view' : OpenView} {txn : STTx} {retryAssured : Bool}
    {flags : ApplyFlags} {result : ApplyResult}
    (ran : applyTransaction kinds config view txn retryAssured flags = some (result, view')) :
    tryAll kinds config [⟨txn, retryFlags retryAssured flags, result⟩] view = some view' := by
  unfold applyTransaction at ran
  obtain ⟨⟨ter, didApply, after⟩, run, shaped⟩ := Option.map_eq_some_iff.mp ran
  dsimp only at shaped
  -- what `applyTransaction` reports is `resultOf`
  have reported : (resultOf ter didApply, after) = (result, view') := by
    rw [← shaped]
    unfold resultOf
    split_ifs <;> rfl
  simp only [Prod.mk.injEq] at reported
  obtain ⟨reported, rfl⟩ := reported
  exact tryAll_cons_eq_some.mpr ⟨ter, didApply, after, run, reported, rfl⟩

namespace Accounts

theorem nil (flags : ApplyFlags) (start : List STTx) : Accounts flags [] start start :=
  ⟨by simp, by simp, by simp⟩

/-- One pass: a try of each transaction, with the pass's flags; those that asked for a retry
are left. -/
theorem ofPass {flags : ApplyFlags} {certainRetry : Bool} {tries : List Try} {start : List STTx}
    (order : tries.map Try.txn = start) (flagged : ∀ t ∈ tries, t.flags = retryFlags certainRetry flags) :
    Accounts flags tries start (triesWith .retry tries) where
  flagged t member := by
    rw [flagged t member]
    exact retryFlags_cases certainRetry flags
  tried t member := order ▸ List.mem_map_of_mem member
  split := order ▸ map_txn_perm_triesWith tries

/-- Tries on a list, then tries on what they left. -/
theorem trans {flags : ApplyFlags} {first second : List Try} {start middle left : List STTx}
    (before : Accounts flags first start middle) (after : Accounts flags second middle left) :
    Accounts flags (first ++ second) start left where
  flagged t member := (List.mem_append.mp member).elim (before.flagged t) (after.flagged t)
  tried t member := (List.mem_append.mp member).elim (before.tried t) fun late =>
    before.split.symm.subset (List.mem_append_right _ (after.tried t late))
  split := by
    have first := before.split
    have second := after.split
    rw [List.perm_iff_count] at first second ⊢
    intro txn
    have firstCount := first txn
    have secondCount := second txn
    simp only [triesWith_append, List.count_append] at firstCount secondCount ⊢
    omega

theorem perm_start {flags : ApplyFlags} {tries : List Try} {start start' left : List STTx}
    (accounts : Accounts flags tries start left) (perm : start.Perm start') :
    Accounts flags tries start' left where
  flagged := accounts.flagged
  tried t member := perm.subset (accounts.tried t member)
  split := perm.symm.trans accounts.split

end Accounts

theorem FinalRetries.append_left {flags : ApplyFlags} {tries : List Try} {left : List STTx}
    (final : FinalRetries flags tries left) (earlier : List Try) :
    FinalRetries flags (earlier ++ tries) left := by
  intro txn member
  obtain ⟨before, after, rfl, later⟩ := final txn member
  exact ⟨earlier ++ before, after, by simp, later⟩

/-- A final pass tries each transaction once: each it leaves was tried last there, with the
flags asked for, and asked for a retry. -/
theorem FinalRetries.ofPass {flags : ApplyFlags} {tries : List Try}
    (distinct : (tries.map Try.txn).Nodup) (flagged : ∀ t ∈ tries, t.flags = flags) :
    FinalRetries flags tries (triesWith .retry tries) := by
  intro txn member
  obtain ⟨t, kept, rfl⟩ := List.mem_map.mp member
  obtain ⟨tMember, retried⟩ := List.mem_filter.mp kept
  obtain ⟨before, after, rfl⟩ := List.append_of_mem tMember
  obtain ⟨txn, flags', result⟩ := t
  have final : flags' = flags := flagged ⟨txn, flags', result⟩ (by simp)
  simp only [decide_eq_true_eq] at retried
  subst final retried
  refine ⟨before, after, rfl, fun other later same => ?_⟩
  -- the pass tried each transaction once
  rw [List.map_append, List.map_cons] at distinct
  have alone := (List.nodup_cons.mp (List.nodup_middle.mp distinct)).1
  exact alone (List.mem_append_right _ (List.mem_map.mpr ⟨other, later, same⟩))

theorem Kept.append_left {check view' : OpenView} {retries' : CanonicalTXSet} {tries : List Try}
    {tx : STTx} (kept : Kept check view' retries' tries tx) (earlier : List Try) :
    Kept check view' retries' (earlier ++ tries) tx := by
  rcases kept with inCheck | inView | failed | retried
  · exact .inl inCheck
  · exact .inr (.inl inView)
  · exact .inr (.inr (.inl (by simp [failed])))
  · exact .inr (.inr (.inr retried))

/-! ## The passes -/

/-- One pass over entries that close the set, after `kept`: one try of each entry, in the
set's order, with the pass's flags; the set keeps after `kept` the entries whose try asked
for a retry, and the pass counts the tries that applied. -/
theorem applyPass_tries {certainRetry : Bool} {flags : ApplyFlags} :
    ∀ {entries kept : List (Σ _ : CanonicalTXSet.Key, STTx)} {set set' : CanonicalTXSet}
      {view view' : OpenView} {changes : Nat},
      set.map.entries = kept ++ entries →
      applyPass kinds config certainRetry flags entries set view = some (changes, set', view') →
      ∃ tries : List Try, ∃ retried : List (Σ _ : CanonicalTXSet.Key, STTx),
        set'.map.entries = kept ++ retried ∧ retried.map (·.2) = triesWith .retry tries ∧
        tries.map Try.txn = entries.map (·.2) ∧
        (∀ t ∈ tries, t.flags = retryFlags certainRetry flags) ∧
        changes = (triesWith .success tries).length ∧ tryAll kinds config tries view = some view'
  | [], kept, set, set', view, view', changes, split, ran => by
    simp only [applyPass, Option.some.injEq, Prod.mk.injEq] at ran
    obtain ⟨rfl, rfl, rfl⟩ := ran
    exact ⟨[], [], by simpa using split, rfl, rfl, by simp, rfl, rfl⟩
  | entry :: rest, kept, set, set', view, view', changes, split, ran => by
    simp only [applyPass] at ran
    obtain ⟨⟨result, after⟩, tried, continued⟩ := Option.bind_eq_some_iff.mp ran
    -- the try of this entry, then those of the rest of the pass
    have first := applyTransaction_try tried
    have ownFlags : ∀ tries : List Try, (∀ t ∈ tries, t.flags = retryFlags certainRetry flags) →
        ∀ t ∈ (⟨entry.2, retryFlags certainRetry flags, result⟩ : Try) :: tries,
          t.flags = retryFlags certainRetry flags := by
      intro tries flagged t member
      rcases List.mem_cons.mp member with rfl | later
      · rfl
      · exact flagged t later
    cases result with
    | success =>
      obtain ⟨⟨changes', set'', view''⟩, ran', shaped⟩ := Option.map_eq_some_iff.mp continued
      simp only [Prod.mk.injEq] at shaped
      obtain ⟨rfl, rfl, rfl⟩ := shaped
      obtain ⟨tries, retried, kept', leftTries, order, flagged, counted, run⟩ :=
        applyPass_tries (SortedMap.erase_entries_of_split split) ran'
      exact ⟨_ :: tries, retried, kept', by simp [leftTries], by simp [order],
        ownFlags tries flagged, by simp [counted], tryAll_append_of first run⟩
    | failure =>
      obtain ⟨tries, retried, kept', leftTries, order, flagged, counted, run⟩ :=
        applyPass_tries (SortedMap.erase_entries_of_split split) continued
      exact ⟨_ :: tries, retried, kept', by simp [leftTries], by simp [order],
        ownFlags tries flagged, by simp [counted], tryAll_append_of first run⟩
    | retry =>
      -- kept in place
      have split' : set.map.entries = (kept ++ [entry]) ++ rest := by simp [split]
      obtain ⟨tries, retried, kept', leftTries, order, flagged, counted, run⟩ :=
        applyPass_tries split' continued
      exact ⟨_ :: tries, entry :: retried, by simpa using kept', by simp [leftTries],
        by simp [order], ownFlags tries flagged, by simp [counted], tryAll_append_of first run⟩

/-- A pass over the whole set: one try of each of its transactions, in the set's order, with
the pass's flags; the set keeps those whose try asked for a retry. -/
theorem applyPass_whole {certainRetry : Bool} {flags : ApplyFlags} {set passed : CanonicalTXSet}
    {view after : OpenView} {changes : Nat}
    (ran : applyPass kinds config certainRetry flags set.map.entries set view =
      some (changes, passed, after)) :
    ∃ tries : List Try, tryAll kinds config tries view = some after ∧ tries.map Try.txn = set.txs ∧
      (∀ t ∈ tries, t.flags = retryFlags certainRetry flags) ∧ passed.txs = triesWith .retry tries ∧
      changes = (triesWith .success tries).length := by
  obtain ⟨tries, retried, kept, leftTries, order, flagged, counted, run⟩ :=
    applyPass_tries (List.nil_append _).symm ran
  refine ⟨tries, run, order, flagged, ?_, counted⟩
  rw [CanonicalTXSet.txs, kept, List.nil_append, leftTries]

/-- The loop's tries: the ledger at the end is what they give, one after the other, and they
account for the set's transactions. -/
theorem passLoop_tries {flags : ApplyFlags} :
    ∀ {passes : List Nat} {certainRetry certainRetry' : Bool} {set set' : CanonicalTXSet}
      {view view' : OpenView},
      passLoop kinds config flags passes certainRetry set view = some (set', view', certainRetry') →
      ∃ tries, tryAll kinds config tries view = some view' ∧ Accounts flags tries set.txs set'.txs
  | [], certainRetry, certainRetry', set, set', view, view', ran => by
    simp only [passLoop, Option.some.injEq, Prod.mk.injEq] at ran
    obtain ⟨rfl, rfl, -⟩ := ran
    exact ⟨[], rfl, .nil flags set.txs⟩
  | pass :: later, certainRetry, certainRetry', set, set', view, view', ran => by
    simp only [passLoop] at ran
    obtain ⟨⟨changes, passed, after⟩, swept, continued⟩ := Option.bind_eq_some_iff.mp ran
    obtain ⟨here, run, order, flagged, leftHere, -⟩ := applyPass_whole swept
    have thisPass : Accounts flags here set.txs passed.txs := by
      rw [leftHere]
      exact Accounts.ofPass order flagged
    dsimp only at continued
    by_cases stopped : changes = 0 ∧ certainRetry = false
    · -- a final pass changed nothing: the loop stops
      rw [if_pos stopped] at continued
      simp only [Option.some.injEq, Prod.mk.injEq] at continued
      obtain ⟨rfl, rfl, -⟩ := continued
      exact ⟨here, run, thisPass⟩
    · rw [if_neg stopped] at continued
      obtain ⟨rest, runRest, accounts⟩ := passLoop_tries continued
      exact ⟨here ++ rest, tryAll_append_of run runRest, thisPass.trans accounts⟩

/-- A retriable pass: its tries, and the loop goes on with the passes after it, final once
the pass is the last retriable one. -/
theorem passLoop_retriable_step {flags : ApplyFlags} {pass : Nat} {later : List Nat}
    {set : CanonicalTXSet} {view : OpenView} {result : CanonicalTXSet × OpenView × Bool}
    (ran : passLoop kinds config flags (pass :: later) true set view = some result) :
    ∃ here passed after certainRetry, tryAll kinds config here view = some after ∧
      Accounts flags here set.txs passed.txs ∧ (ledgerRetryPasses ≤ pass → certainRetry = false) ∧
      passLoop kinds config flags later certainRetry passed after = some result := by
  simp only [passLoop] at ran
  obtain ⟨⟨changes, passed, after⟩, swept, continued⟩ := Option.bind_eq_some_iff.mp ran
  obtain ⟨here, run, order, flagged, leftHere, -⟩ := applyPass_whole swept
  dsimp only at continued
  rw [if_neg (by simp)] at continued
  refine ⟨here, passed, after, _, run, ?_, fun late => by simp [late], continued⟩
  rw [leftHere]
  exact Accounts.ofPass order flagged

/-- A final pass: its tries, each transaction it leaves tried last there, and the loop stops
or goes on, final, with the passes after it. -/
theorem passLoop_final_step {flags : ApplyFlags} {pass : Nat} {later : List Nat}
    {set : CanonicalTXSet} {view : OpenView} {result : CanonicalTXSet × OpenView × Bool}
    (ran : passLoop kinds config flags (pass :: later) false set view = some result) :
    ∃ here passed after, tryAll kinds config here view = some after ∧
      Accounts flags here set.txs passed.txs ∧ FinalRetries flags here passed.txs ∧
      (result = (passed, after, false) ∨
        passLoop kinds config flags later false passed after = some result) := by
  simp only [passLoop] at ran
  obtain ⟨⟨changes, passed, after⟩, swept, continued⟩ := Option.bind_eq_some_iff.mp ran
  obtain ⟨here, run, order, flagged, leftHere, -⟩ := applyPass_whole swept
  have distinct : (here.map Try.txn).Nodup := order ▸ set.txs_nodup
  refine ⟨here, passed, after, run, ?_, ?_, ?_⟩
  · rw [leftHere]
    exact Accounts.ofPass order flagged
  · rw [leftHere]
    exact FinalRetries.ofPass distinct flagged
  · dsimp only at continued
    by_cases stopped : changes = 0
    · rw [if_pos (by simp [stopped])] at continued
      exact .inl (Option.some.inj continued).symm
    · rw [if_neg (by simp [stopped]), ite_self] at continued
      exact .inr continued

/-- Passes that are all final: their tries, and each transaction left was tried last in one of
them and asked for a retry there. -/
theorem passLoop_final_tries {flags : ApplyFlags} (later : List Nat) :
    ∀ {pass : Nat} {set set' : CanonicalTXSet} {view view' : OpenView} {certainRetry' : Bool},
      passLoop kinds config flags (pass :: later) false set view = some (set', view', certainRetry') →
      ∃ tries, tryAll kinds config tries view = some view' ∧ Accounts flags tries set.txs set'.txs ∧
        FinalRetries flags tries set'.txs := by
  induction later with
  | nil =>
    intro pass set set' view view' certainRetry' ran
    obtain ⟨here, passed, after, run, accounts, final, stopped | continued⟩ := passLoop_final_step ran
    · simp only [Prod.mk.injEq] at stopped
      obtain ⟨rfl, rfl, -⟩ := stopped
      exact ⟨here, run, accounts, final⟩
    · simp only [passLoop, Option.some.injEq, Prod.mk.injEq] at continued
      obtain ⟨rfl, rfl, -⟩ := continued
      exact ⟨here, run, accounts, final⟩
  | cons next rest ih =>
    intro pass set set' view view' certainRetry' ran
    obtain ⟨here, passed, after, run, accounts, final, stopped | continued⟩ := passLoop_final_step ran
    · simp only [Prod.mk.injEq] at stopped
      obtain ⟨rfl, rfl, -⟩ := stopped
      exact ⟨here, run, accounts, final⟩
    · obtain ⟨tries, runRest, accountsRest, finalRest⟩ := ih continued
      exact ⟨here ++ tries, tryAll_append_of run runRest, accounts.trans accountsRest,
        finalRest.append_left here⟩

/-! ## Closing a ledger on the consensus set -/

/-- The account of the sender of `settingTx`, at its sequence, in a closed ledger that holds
no transaction. -/
def closedLedger : OpenView :=
  ⟨AList.singleton (.account (AccountID.ofNat 7))
      (.accountRoot ⟨AccountID.ofNat 7, 1000, 0, 5, 0, 0, none, none, none, none⟩),
    100000, 0, [], 10, 0, false, ⟨10, 10, 200, 50⟩, ⟨true⟩⟩

/-- An `AccountSet` from that account at its sequence, paying the base fee. -/
def settingTx : STTx := STTx.make .ttACCOUNT_SET (AccountID.ofNat 7) 5 10

/-- The same, one sequence ahead of the account: it asks for a retry. -/
def pendingTx : STTx := STTx.make .ttACCOUNT_SET (AccountID.ofNat 7) 6 10

/-- `applyTransactions` runs the passes over the set they start from. -/
theorem applyTransactions_eq_some {set : Option (List SetItem)}
    {view checkLedger view' : OpenView} {retriableTxs left : CanonicalTXSet} {flags : ApplyFlags}
    (ran : applyTransactions kinds config set view checkLedger retriableTxs flags = some (view', left)) :
    ∃ certainRetry, passLoop kinds config flags (List.range ledgerTotalPasses) true
      (startSet set checkLedger retriableTxs) view = some (left, view', certainRetry) := by
  obtain ⟨⟨left', view'', certainRetry⟩, looped, shaped⟩ := Option.map_eq_some_iff.mp ran
  simp only [Prod.mk.injEq] at shaped
  obtain ⟨rfl, rfl⟩ := shaped
  exact ⟨certainRetry, looped⟩

/-- Consensus builds one ledger from one set of transactions, whatever order its items are
read in, when the transactions are determined by their ids. -/
theorem applyTransactions_perm {items items' : List SetItem} (perm : items.Perm items')
    {checkLedger : OpenView}
    (identified : ∀ a ∈ candidateTxs checkLedger items, ∀ b ∈ candidateTxs checkLedger items,
      a.transactionID = b.transactionID → a = b)
    (view : OpenView) (retriableTxs : CanonicalTXSet) (flags : ApplyFlags) :
    applyTransactions kinds config (some items) view checkLedger retriableTxs flags =
      applyTransactions kinds config (some items') view checkLedger retriableTxs flags := by
  -- the canonical set the passes run over is the same
  have sameSet : retriableTxs.insertTxs (candidateTxs checkLedger items) =
      retriableTxs.insertTxs (candidateTxs checkLedger items') :=
    retriableTxs.insertTxs_perm (perm.filterMap _) identified
  simp only [applyTransactions, sameSet]

theorem applyTransactions_perm_swapped :
    applyTransactions (fun _ => SetAccount.kind) ⟨none⟩
        (some [⟨Uint256.zero, some settingTx⟩, ⟨Uint256.zero, none⟩]) closedLedger closedLedger
        (CanonicalTXSet.make Uint256.zero) .tapNONE =
      applyTransactions (fun _ => SetAccount.kind) ⟨none⟩
        (some [⟨Uint256.zero, none⟩, ⟨Uint256.zero, some settingTx⟩]) closedLedger closedLedger
        (CanonicalTXSet.make Uint256.zero) .tapNONE :=
  applyTransactions_perm (List.Perm.swap _ _ [])
    (by simp [candidateTxs, closedLedger, OpenView.txExists]) _ _ _

/-- Consensus closes a ledger as the tries it made give it: tries through `ripple::apply`,
one after the other, each on the ledger the ones before it left, with the flags asked for or
with `tapRETRY` added. Each candidate of the set, counted once, applied in one of them,
failed for good in one of them, or is left to retry; the new ledger holds the ids of those
that applied after those it held. -/
theorem applyTransactions_accounts {items : List SetItem} {view checkLedger view' : OpenView}
    {salt : Uint256} {left : CanonicalTXSet} {flags : ApplyFlags}
    (identified : ∀ a ∈ candidateTxs checkLedger items, ∀ b ∈ candidateTxs checkLedger items,
      a.transactionID = b.transactionID → a = b)
    (ran : applyTransactions kinds config (some items) view checkLedger (CanonicalTXSet.make salt) flags =
      some (view', left)) :
    ∃ tries : List Try, tryAll kinds config tries view = some view' ∧
      Accounts flags tries (candidateTxs checkLedger items).dedup left.txs ∧
      view'.txs = view.txs ++ (triesWith .success tries).map STTx.transactionID := by
  obtain ⟨certainRetry, looped⟩ := applyTransactions_eq_some ran
  obtain ⟨tries, run, accounts⟩ := passLoop_tries looped
  -- the set the passes start from holds each candidate once
  have filled := (CanonicalTXSet.make salt).insertTxs_txs_perm (candidateTxs checkLedger items)
    (by simpa using identified)
  rw [CanonicalTXSet.make_txs, List.nil_append] at filled
  exact ⟨tries, run, accounts.perm_start filled, tryAll_txs run⟩

set_option maxRecDepth 20000 in
theorem applyTransactions_accounts_settingTx :
    ∃ view' left, applyTransactions (fun _ => SetAccount.kind) ⟨none⟩
        (some [⟨Uint256.zero, some settingTx⟩]) closedLedger closedLedger
        (CanonicalTXSet.make Uint256.zero) .tapNONE = some (view', left) ∧
      ∃ tries : List Try, tryAll (fun _ => SetAccount.kind) ⟨none⟩ tries closedLedger = some view' ∧
        Accounts .tapNONE tries [settingTx].dedup left.txs := by
  obtain ⟨⟨view', left⟩, ran⟩ : ∃ result, applyTransactions (fun _ => SetAccount.kind) ⟨none⟩
      (some [⟨Uint256.zero, some settingTx⟩]) closedLedger closedLedger
      (CanonicalTXSet.make Uint256.zero) .tapNONE = some result := ⟨_, rfl⟩
  obtain ⟨tries, run, accounts, -⟩ := applyTransactions_accounts
    (by simp [candidateTxs, closedLedger, OpenView.txExists]) ran
  exact ⟨view', left, ran, tries, run, accounts⟩

/-- Whatever closing a ledger leaves to retry was tried last in a final pass, without
`tapRETRY`, and asked for a retry there: the last pass is always final, which is what the
assert that ends `applyTransactions` stands for. The tries give the new ledger and account
for the set the passes start from. -/
theorem applyTransactions_left_final {set : Option (List SetItem)}
    {view checkLedger view' : OpenView} {retriableTxs left : CanonicalTXSet} {flags : ApplyFlags}
    (ran : applyTransactions kinds config set view checkLedger retriableTxs flags = some (view', left)) :
    ∃ tries : List Try, tryAll kinds config tries view = some view' ∧
      Accounts flags tries (startSet set checkLedger retriableTxs).txs left.txs ∧
      FinalRetries flags tries left.txs := by
  obtain ⟨certainRetry, looped⟩ := applyTransactions_eq_some ran
  rw [show List.range ledgerTotalPasses = [0, 1, 2] from rfl] at looped
  -- the first pass is retriable, and the second is final when the first changed nothing
  obtain ⟨first, passed, after, second, runFirst, accountsFirst, -, looped'⟩ :=
    passLoop_retriable_step looped
  cases second
  · obtain ⟨rest, runRest, accountsRest, final⟩ := passLoop_final_tries [2] looped'
    exact ⟨first ++ rest, tryAll_append_of runFirst runRest, accountsFirst.trans accountsRest,
      final.append_left first⟩
  · -- a retriable second pass is the last retriable one: the third is final
    obtain ⟨middle, passed', after', third, runMiddle, accountsMiddle, final, last⟩ :=
      passLoop_retriable_step looped'
    obtain rfl := final (by decide)
    obtain ⟨rest, runRest, accountsRest, finalRest⟩ := passLoop_final_tries [] last
    exact ⟨first ++ (middle ++ rest), tryAll_append_of runFirst (tryAll_append_of runMiddle runRest),
      accountsFirst.trans (accountsMiddle.trans accountsRest),
      (finalRest.append_left middle).append_left first⟩

set_option maxRecDepth 20000 in
theorem applyTransactions_left_final_pendingTx :
    ∃ view' left, applyTransactions (fun _ => SetAccount.kind) ⟨none⟩
        (some [⟨Uint256.zero, some pendingTx⟩]) closedLedger closedLedger
        (CanonicalTXSet.make Uint256.zero) .tapNONE = some (view', left) ∧
      ∃ tries : List Try, tryAll (fun _ => SetAccount.kind) ⟨none⟩ tries closedLedger = some view' ∧
        FinalRetries .tapNONE tries left.txs := by
  obtain ⟨⟨view', left⟩, ran⟩ : ∃ result, applyTransactions (fun _ => SetAccount.kind) ⟨none⟩
      (some [⟨Uint256.zero, some pendingTx⟩]) closedLedger closedLedger
      (CanonicalTXSet.make Uint256.zero) .tapNONE = some result := ⟨_, rfl⟩
  obtain ⟨tries, run, -, final⟩ := applyTransactions_left_final ran
  exact ⟨view', left, ran, tries, run, final⟩

/-- Closing a ledger applies no transaction twice: a ledger without repeats among its
transactions has none after. -/
theorem applyTransactions_txs_nodup {set : Option (List SetItem)}
    {view checkLedger view' : OpenView} {retriableTxs left : CanonicalTXSet} {flags : ApplyFlags}
    (ran : applyTransactions kinds config set view checkLedger retriableTxs flags = some (view', left))
    (nodup : view.txs.Nodup) : view'.txs.Nodup := by
  obtain ⟨certainRetry, looped⟩ := applyTransactions_eq_some ran
  obtain ⟨tries, run, -⟩ := passLoop_tries looped
  exact tryAll_nodup run nodup

set_option maxRecDepth 20000 in
theorem applyTransactions_txs_nodup_settingTx :
    ∃ view' left, applyTransactions (fun _ => SetAccount.kind) ⟨none⟩
        (some [⟨Uint256.zero, some settingTx⟩, ⟨Uint256.zero, some settingTx⟩]) closedLedger
        closedLedger (CanonicalTXSet.make Uint256.zero) .tapNONE = some (view', left) ∧
      view'.txs.Nodup := by
  obtain ⟨⟨view', left⟩, ran⟩ : ∃ result, applyTransactions (fun _ => SetAccount.kind) ⟨none⟩
      (some [⟨Uint256.zero, some settingTx⟩, ⟨Uint256.zero, some settingTx⟩]) closedLedger
      closedLedger (CanonicalTXSet.make Uint256.zero) .tapNONE = some result := ⟨_, rfl⟩
  exact ⟨view', left, ran, applyTransactions_txs_nodup ran List.nodup_nil⟩

/-! ## Building the next open ledger -/

/-- The first loop of `OpenLedger::apply`: its tries, each of a transaction it was given,
with `tapRETRY`; the retries it keeps were given to it; and each transaction given to it
ends in the check ledger, in the open ledger, failed for good in one of the tries, or among
the retries. -/
theorem applyFirst_tries {check : OpenView} {flags : ApplyFlags} :
    ∀ {txs : List STTx} {retries retries' : CanonicalTXSet} {view view' : OpenView},
      (∀ a ∈ txs ++ retries.txs, ∀ b ∈ txs ++ retries.txs, a.transactionID = b.transactionID → a = b) →
      OpenLedger.applyFirst kinds config check flags txs retries view = some (retries', view') →
      ∃ tries : List Try, tryAll kinds config tries view = some view' ∧
        (∀ t ∈ tries, t.txn ∈ txs ∧ t.flags = retryFlags true flags) ∧
        (∀ tx ∈ retries'.txs, tx ∈ txs ++ retries.txs) ∧
        ∀ tx ∈ txs ++ retries.txs, Kept check view' retries' tries tx
  | [], retries, retries', view, view', _, ran => by
    simp only [OpenLedger.applyFirst, Option.some.injEq, Prod.mk.injEq] at ran
    obtain ⟨rfl, rfl⟩ := ran
    refine ⟨[], rfl, by simp, fun tx member => by simpa using member, fun tx member => ?_⟩
    exact .inr (.inr (.inr (by simpa using member)))
  | tx :: rest, retries, retries', view, view', identified, ran => by
    have within : ∀ a ∈ rest ++ retries.txs, a ∈ (tx :: rest) ++ retries.txs := by
      intro a member
      simp only [List.mem_append, List.mem_cons] at member ⊢
      tauto
    -- what the loop does with the transactions after this one
    have later : ∀ {retries'' : CanonicalTXSet}, (∀ old ∈ retries.txs, old ∈ retries''.txs) →
        (∀ a ∈ rest ++ retries''.txs, a ∈ (tx :: rest) ++ retries.txs) →
        ∀ {after : OpenView},
        OpenLedger.applyFirst kinds config check flags rest retries'' after = some (retries', view') →
        ∃ tries : List Try, tryAll kinds config tries after = some view' ∧
          (∀ t ∈ tries, t.txn ∈ tx :: rest ∧ t.flags = retryFlags true flags) ∧
          (∀ old ∈ retries'.txs, old ∈ (tx :: rest) ++ retries.txs) ∧
          (∀ other ∈ rest ++ retries.txs, Kept check view' retries' tries other) ∧
          after.txs ⊆ view'.txs ∧ ∀ old ∈ retries''.txs, Kept check view' retries' tries old := by
      intro retries'' keeps inside after continued
      obtain ⟨tries, run, ownTries, kept', kept⟩ := applyFirst_tries
        (fun a aMember b bMember => identified a (inside a aMember) b (inside b bMember)) continued
      refine ⟨tries, run, fun t member => ⟨List.mem_cons_of_mem _ (ownTries t member).1,
        (ownTries t member).2⟩, fun old member => inside old (kept' old member),
        fun other member => ?_, ?_, fun old member => kept old (List.mem_append_right _ member)⟩
      · rcases List.mem_append.mp member with early | old
        · exact kept other (List.mem_append_left _ early)
        · exact kept other (List.mem_append_right _ (keeps other old))
      · rw [tryAll_txs run]
        exact List.subset_append_left _ _
    -- the transaction at the head, then those the loop passes on
    have assemble : ∀ {tries : List Try}, Kept check view' retries' tries tx →
        (∀ other ∈ rest ++ retries.txs, Kept check view' retries' tries other) →
        ∀ other ∈ (tx :: rest) ++ retries.txs, Kept check view' retries' tries other := by
      intro tries head kept other member
      rcases List.mem_cons.mp (List.cons_append ▸ member) with rfl | other
      · exact head
      · exact kept _ other
    simp only [OpenLedger.applyFirst] at ran
    split_ifs at ran with present
    · -- the check ledger or the open ledger holds it already: skipped
      obtain ⟨tries, run, ownTries, kept', kept, grown, -⟩ := later (fun _ => id) within ran
      refine ⟨tries, run, ownTries, kept', assemble ?_ kept⟩
      rcases Bool.or_eq_true_iff.mp present with inCheck | inView
      · exact .inl inCheck
      · exact .inr (.inl (grown (by simpa [OpenView.txExists] using inView)))
    · obtain ⟨⟨result, after⟩, tried, continued⟩ := Option.bind_eq_some_iff.mp ran
      have first := applyTransaction_try tried
      -- the tries of the whole loop: this one, then the rest
      have whole : ∀ {tries : List Try}, (∀ t ∈ tries, t.txn ∈ tx :: rest ∧ t.flags = retryFlags true flags) →
          ∀ t ∈ (⟨tx, retryFlags true flags, result⟩ : Try) :: tries,
            t.txn ∈ tx :: rest ∧ t.flags = retryFlags true flags := by
        intro tries ownTries t member
        rcases List.mem_cons.mp member with rfl | later
        · exact ⟨List.mem_cons_self, rfl⟩
        · exact ownTries t later
      cases result with
      | success =>
        -- applied: the open ledger holds it
        rw [if_neg (by simp)] at continued
        obtain ⟨tries, run, ownTries, kept', kept, grown, -⟩ := later (fun _ => id) within continued
        have held : tx.transactionID ∈ view'.txs := grown (by rw [tryAll_txs first]; simp)
        exact ⟨_ :: tries, tryAll_append_of first run, whole ownTries, kept',
          assemble (.inr (.inl held)) fun other member => (kept other member).append_left [_]⟩
      | failure =>
        -- failed for good with tapRETRY, in this try
        rw [if_neg (by simp)] at continued
        obtain ⟨tries, run, ownTries, kept', kept, -, -⟩ := later (fun _ => id) within continued
        exact ⟨_ :: tries, tryAll_append_of first run, whole ownTries, kept',
          assemble (.inr (.inr (.inl (by simp)))) fun other member => (kept other member).append_left [_]⟩
      | retry =>
        -- asks for a retry: kept among the retries
        rw [if_pos rfl] at continued
        have inserted : ∀ other, other ∈ (retries.insert tx).txs ↔ other ∈ retries.txs ∨ other = tx :=
          fun other => CanonicalTXSet.mem_insert_txs retries fun old oldMember sameID =>
            identified old (by simp [oldMember]) tx (by simp) sameID
        have inside : ∀ a ∈ rest ++ (retries.insert tx).txs, a ∈ (tx :: rest) ++ retries.txs := by
          intro a member
          rcases List.mem_append.mp member with early | held
          · exact within a (List.mem_append_left _ early)
          · rcases (inserted a).mp held with old | rfl
            · exact within a (List.mem_append_right _ old)
            · simp
        obtain ⟨tries, run, ownTries, kept', kept, -, keptRetries⟩ :=
          later (fun old member => (inserted old).mpr (.inl member)) inside continued
        exact ⟨_ :: tries, tryAll_append_of first run, whole ownTries, kept',
          assemble ((keptRetries _ ((inserted _).mpr (.inr rfl))).append_left [_])
            fun other member => (kept other member).append_left [_]⟩

/-- `OpenLedger::apply` loses no transaction: the open ledger is what its tries give, one
after the other, each of a transaction it was given or a retry, with the flags asked for or
with `tapRETRY`; and each of those transactions ends in the check ledger, in the open
ledger, failed for good in one of the tries, or among the retries. -/
theorem OpenLedger.apply_keeps {view check view' : OpenView} {txs : List STTx}
    {retries retries' : CanonicalTXSet} {flags : ApplyFlags}
    (identified : ∀ a ∈ txs ++ retries.txs, ∀ b ∈ txs ++ retries.txs,
      a.transactionID = b.transactionID → a = b)
    (ran : OpenLedger.apply kinds config view check txs retries flags = some (view', retries')) :
    ∃ tries : List Try, tryAll kinds config tries view = some view' ∧
      (∀ t ∈ tries, t.txn ∈ txs ++ retries.txs ∧ (t.flags = flags ∨ t.flags = flags.union .tapRETRY)) ∧
      ∀ tx ∈ txs ++ retries.txs, Kept check view' retries' tries tx := by
  obtain ⟨⟨retriesFirst, viewFirst⟩, first, looped⟩ := Option.bind_eq_some_iff.mp ran
  obtain ⟨⟨left, viewLast, certainRetry⟩, passes, shaped⟩ := Option.map_eq_some_iff.mp looped
  simp only [Prod.mk.injEq] at shaped
  obtain ⟨rfl, rfl⟩ := shaped
  obtain ⟨triesFirst, runFirst, ownTries, within, keptFirst⟩ := applyFirst_tries identified first
  obtain ⟨triesPasses, runPasses, accounts⟩ := passLoop_tries passes
  have grown := tryAll_txs runPasses
  refine ⟨triesFirst ++ triesPasses, tryAll_append_of runFirst runPasses, fun t member => ?_,
    fun tx member => ?_⟩
  · rcases List.mem_append.mp member with early | late
    · exact ⟨List.mem_append_left _ (ownTries t early).1, .inr (ownTries t early).2⟩
    · exact ⟨within _ (accounts.tried t late), accounts.flagged t late⟩
  · rcases keptFirst tx member with inCheck | inView | failed | retried
    · exact .inl inCheck
    · exact .inr (.inl (by rw [grown]; exact List.mem_append_left _ inView))
    · exact .inr (.inr (.inl (by simp [failed])))
    · -- the passes account for each retry
      rcases List.mem_append.mp (accounts.split.subset retried) with placed | left
      · rcases List.mem_append.mp placed with applied | failed
        · refine .inr (.inl ?_)
          rw [grown]
          exact List.mem_append_right _ (List.mem_map.mpr ⟨tx, applied, rfl⟩)
        · exact .inr (.inr (.inl (by simp [failed])))
      · exact .inr (.inr (.inr left))

set_option maxRecDepth 20000 in
theorem apply_keeps_settingTx :
    ∃ view' retries', OpenLedger.apply (fun _ => SetAccount.kind) ⟨none⟩ closedLedger closedLedger
        [settingTx] (CanonicalTXSet.make Uint256.zero) .tapNONE = some (view', retries') ∧
      ∃ tries : List Try, tryAll (fun _ => SetAccount.kind) ⟨none⟩ tries closedLedger = some view' ∧
        Kept closedLedger view' retries' tries settingTx := by
  obtain ⟨⟨view', retries'⟩, ran⟩ : ∃ result, OpenLedger.apply (fun _ => SetAccount.kind) ⟨none⟩
      closedLedger closedLedger [settingTx] (CanonicalTXSet.make Uint256.zero) .tapNONE =
        some result := ⟨_, rfl⟩
  obtain ⟨tries, run, -, kept⟩ := OpenLedger.apply_keeps (by simp) ran
  exact ⟨view', retries', ran, tries, run, kept settingTx (by simp)⟩

end

end RadardFormal.Tx
