import RadardFormal.Tx.TxQInvariant

/-!
# The queue applies transactions as `ripple::apply` does

Whatever the queue decides, `TxQ::apply` changes the open ledger only by applying the
transaction as `ripple::apply` does with the flags it was given (`applyTxn_applies_as_apply`).

Every transaction the queue holds is kept with the flags it was submitted with and a
`preflight` result of it (`CandidateTxn.AsSubmitted`), and every operation keeps that.  So
`TxQ::accept`, on a queue any run reached, builds the new open ledger by applying a prefix of
the fee order, one transaction after the other, each as `ripple::apply` with its own flags
(`accept_applies_in_turn`).
-/

namespace RadardFormal.Tx

open RadardFormal.Protocol RadardFormal.Support RadardFormal.Ledger TER

/-! ## Held transactions -/

/-- A candidate kept as `TxQ::apply` holds it: its transaction's `preflight` result under some
rules, with the flags it was submitted with and `tapPOST_SEQ` added or not. -/
def CandidateTxn.AsSubmitted (kinds : TxType → TransactorKind) (candidate : CandidateTxn) : Prop :=
  ∃ rules currentSeq, candidate.toMaybeTx =
    MaybeTx.held (kinds candidate.txn.txnType) rules candidate.txn candidate.flags currentSeq

/-- Every candidate of the queue is kept as submitted. -/
def TxQ.AsSubmitted (kinds : TxType → TransactorKind) (q : TxQ) : Prop :=
  ∀ candidate ∈ q.byFee, candidate.AsSubmitted kinds

/-- Making the `preflight` result again does not change what applying a candidate does. -/
theorem MaybeTx.apply_refreshed (candidate : MaybeTx) (kind : TransactorKind) (config : Config)
    (view : OpenView) :
    (candidate.refreshed kind view.rules).apply kind config view = candidate.apply kind config view := by
  unfold MaybeTx.refreshed
  split
  · rename_i stale
    -- the result made again has the view's rules and the candidate's flags
    unfold MaybeTx.apply
    simp only [preflight, bne_self_eq_false, Bool.or_self, Bool.false_eq_true, ↓reduceIte]
    rw [if_pos stale]
  · rfl

namespace CandidateTxn

variable {kinds : TxType → TransactorKind}

theorem AsSubmitted.tx_eq {candidate : CandidateTxn} (held : candidate.AsSubmitted kinds) :
    candidate.pfresult.tx = candidate.txn := by
  obtain ⟨rules, currentSeq, stored⟩ := held
  have := congrArg (fun stored : MaybeTx => stored.pfresult.tx) stored
  simpa [MaybeTx.held, preflight] using this

/-- A candidate kept as submitted applies as `ripple::apply` with its own flags. -/
theorem AsSubmitted.apply_eq {candidate : CandidateTxn} (held : candidate.AsSubmitted kinds) (config : Config)
    (view : OpenView) :
    candidate.toMaybeTx.apply (kinds candidate.pfresult.tx.txnType) config view =
      RadardFormal.Tx.apply (kinds candidate.txn.txnType) config view candidate.txn candidate.flags := by
  obtain ⟨rules, currentSeq, stored⟩ := held
  rw [AsSubmitted.tx_eq ⟨rules, currentSeq, stored⟩, stored]
  exact MaybeTx.apply_held _ config rules view candidate.txn candidate.flags currentSeq

/-- The candidate `TxQ::apply` holds is kept as submitted. -/
theorem make_asSubmitted (tx : STTx) (txID : Uint256) (feeLevel : Nat) (flags : ApplyFlags) (rules : Rules)
    (currentSeq : Bool) :
    (CandidateTxn.make tx txID feeLevel flags
      (preflight (kinds tx.txnType) rules tx (if currentSeq then flags else flags.union .tapPOST_SEQ))).AsSubmitted
        kinds :=
  ⟨rules, currentSeq, rfl⟩

/-- `accept` keeps a candidate as submitted when it makes its `preflight` result again. -/
theorem AsSubmitted.refreshed {candidate : CandidateTxn} (held : candidate.AsSubmitted kinds) (rules : Rules) :
    ({ candidate with
        toMaybeTx := candidate.toMaybeTx.refreshed (kinds candidate.pfresult.tx.txnType) rules } :
      CandidateTxn).AsSubmitted kinds := by
  have sameTx := held.tx_eq
  unfold MaybeTx.refreshed
  split
  · -- made again, with the flags the candidate was submitted with
    refine ⟨rules, true, ?_⟩
    simp only [MaybeTx.held, ↓reduceIte, sameTx]
  · exact held

end CandidateTxn

/-! ## Submissions -/

namespace TxQ

variable (kinds : TxType → TransactorKind) (config : Config) (feeEscalation : Bool)

/-- Whatever the queue decides, `TxQ::apply` changes the open ledger only by applying the
transaction as `ripple::apply` does with the flags it was given; a transaction it does not
apply leaves the open ledger as it was. -/
theorem applyTxn_applies_as_apply {q after : TxQ} {view view' : OpenView} {tx : STTx} {flags : ApplyFlags}
    {ter : TER} {didApply : Bool}
    (applied : q.applyTxn kinds config feeEscalation view tx flags = some ((ter, didApply), after, view')) :
    (didApply = true → RadardFormal.Tx.apply (kinds tx.txnType) config view tx flags = some (ter, true, view')) ∧
      (didApply = false → view' = view) := by
  rcases applyTxn_cases kinds config feeEscalation applied with
    ⟨run, -⟩ | ⟨unapplied, unchanged, -⟩ | ⟨pcresult, replaced, checked, -, rest⟩
  · -- fee escalation off: `ripple::apply` itself
    refine ⟨fun yes => yes ▸ run, fun no => ?_⟩
    rw [no] at run
    exact apply_not_applied run
  · exact ⟨fun yes => absurd (unapplied ▸ yes) Bool.false_ne_true, fun _ => unchanged⟩
  · rcases applyOrHold_cases config rest with ⟨current, run, -⟩ | ⟨unapplied, unchanged, -⟩
    · -- applied at once: the sequence is current, so `preflight` had the flags as given
      rw [current, if_pos rfl] at checked
      have whole : RadardFormal.Tx.apply (kinds tx.txnType) config view tx flags = some (ter, didApply, view') :=
        Option.bind_eq_some_iff.mpr ⟨pcresult, checked, run⟩
      refine ⟨fun yes => yes ▸ whole, fun no => ?_⟩
      rw [no] at run
      exact doApply_not_applied run
    · exact ⟨fun yes => absurd (unapplied ▸ yes) Bool.false_ne_true, fun _ => unchanged⟩

/-! ## Every operation keeps the candidates as submitted -/

theorem make_asSubmitted (setup : TxQSetup) : (TxQ.make setup).AsSubmitted kinds := fun _ mem => by
  simp [TxQ.make] at mem

theorem applyTxn_asSubmitted {q after : TxQ} (held : q.AsSubmitted kinds) {view view' : OpenView} {tx : STTx}
    {flags : ApplyFlags} {ter : TER} {didApply : Bool}
    (applied : q.applyTxn kinds config feeEscalation view tx flags = some ((ter, didApply), after, view')) :
    after.AsSubmitted kinds := by
  rcases applyTxn_cases kinds config feeEscalation applied with
    ⟨-, rfl⟩ | ⟨-, -, rfl⟩ | ⟨pcresult, replaced, -, found, rest⟩
  · exact held
  · exact held
  · have replacedHeld : replaced.AsSubmitted kinds := by
      rcases replaceHeld_cases found with rfl | ⟨existing, -, rfl⟩
      · exact held
      · exact fun candidate mem => held candidate (List.mem_of_mem_eraseP mem)
    rcases applyOrHold_cases config rest with ⟨-, -, rfl⟩ | ⟨-, -, rfl | ⟨-, roomy, room, made, rfl⟩⟩
    · exact replacedHeld
    · exact replacedHeld
    · have roomyHeld : roomy.AsSubmitted kinds := fun candidate mem =>
        replacedHeld candidate ((makeRoom_shrinks made).2.1.subset mem)
      cases room
      · exact roomyHeld
      · -- the one candidate added is the transaction as `apply` checked it
        rw [if_pos rfl]
        intro candidate mem
        rcases List.mem_cons.mp ((perm_insertByFee _ _).subset mem) with rfl | old
        · exact CandidateTxn.make_asSubmitted _ _ _ _ _ _
        · exact roomyHeld candidate old

theorem acceptLoop_asSubmitted {metrics : FeeMetrics} {kept remaining : List CandidateTxn}
    {byAccount : ByAccount} {view : OpenView} {changed : Bool} {byFee' : List CandidateTxn}
    {byAccount' : ByAccount} {view' : OpenView} {changed' : Bool}
    (held : ∀ candidate ∈ kept ++ remaining, candidate.AsSubmitted kinds)
    (looped : acceptLoop kinds config metrics kept remaining byAccount view changed =
      some (byFee', byAccount', view', changed')) :
    ∀ candidate ∈ byFee', candidate.AsSubmitted kinds := by
  induction remaining generalizing kept byAccount view changed with
  | nil =>
    simp only [acceptLoop, Option.some.injEq, Prod.mk.injEq] at looped
    obtain ⟨rfl, -, -, -⟩ := looped
    simpa using held
  | cons candidate rest ih =>
    unfold acceptLoop at looped
    split_ifs at looped with pays
    · dsimp only at looped
      obtain ⟨⟨ter, didApply, view₁⟩, -, next⟩ := Option.bind_eq_some_iff.mp looped
      have restHeld : ∀ other ∈ kept ++ rest, other.AsSubmitted kinds := fun other mem =>
        held other (by simp only [List.mem_append, List.mem_cons] at mem ⊢; tauto)
      split_ifs at next
      · exact ih restHeld next
      · exact ih restHeld next
      · -- kept, with its `preflight` result made again
        refine ih (fun other mem => ?_) next
        rcases List.mem_append.mp mem with early | later
        · rcases List.mem_append.mp early with old | fresh
          · exact held other (List.mem_append_left _ old)
          · rw [List.mem_singleton.mp fresh]
            exact (held candidate (List.mem_append_right _ List.mem_cons_self)).refreshed view.rules
        · exact restHeld other (List.mem_append_right _ later)
    · cases looped
      exact held

theorem accept_asSubmitted {q after : TxQ} (held : q.AsSubmitted kinds) {view view' : OpenView}
    {flags : ApplyFlags} {changed : Bool}
    (accepted : q.accept kinds config feeEscalation view flags = some (changed, after, view')) :
    after.AsSubmitted kinds := by
  unfold accept at accepted
  by_cases disabled : (!(flags.has .tapENABLE_TESTING || feeEscalation)) = true
  · rw [if_pos disabled] at accepted
    cases accepted
    exact held
  · rw [if_neg disabled] at accepted
    obtain ⟨⟨byFee, byAccount, view₁, changed₁⟩, looped, same⟩ := Option.map_eq_some_iff.mp accepted
    cases same
    exact acceptLoop_asSubmitted kinds config (fun candidate mem => held candidate (by simpa using mem)) looped

/-- The first loop of `processValidatedLedger` only drops candidates. -/
theorem expireLoop_sublist (ledgerSeq : Nat) (maxSize : Option Nat) (keptCandidates : Nat)
    (remaining : List CandidateTxn) (byAccount : ByAccount) :
    List.Sublist ((expireLoop ledgerSeq maxSize keptCandidates remaining byAccount).1 ++
      (expireLoop ledgerSeq maxSize keptCandidates remaining byAccount).2.1) remaining := by
  induction remaining generalizing keptCandidates byAccount with
  | nil => simp [expireLoop]
  | cons candidate rest ih =>
    unfold expireLoop
    split_ifs
    · exact (ih keptCandidates _).cons candidate
    · simpa using (ih (keptCandidates + 1) byAccount).cons_cons candidate
    · simp

/-- The second loop of `processValidatedLedger` only drops candidates. -/
theorem trimLoop_sublist {remaining kept : List CandidateTxn} {byAccount byAccount' : ByAccount}
    (trimmed : trimLoop remaining byAccount = some (kept, byAccount')) : List.Sublist kept remaining := by
  induction remaining, byAccount using trimLoop.induct generalizing kept byAccount' with
  | case1 byAccount =>
    simp only [trimLoop, Option.some.injEq, Prod.mk.injEq] at trimmed
    obtain ⟨rfl, -⟩ := trimmed
    exact List.Sublist.slnil
  | case2 candidate byAccount => cases trimmed
  | case3 candidate next rest byAccount ih =>
    simp only [trimLoop] at trimmed
    obtain ⟨⟨kept₁, byAccount₁⟩, inner, same⟩ := Option.map_eq_some_iff.mp trimmed
    cases same
    exact ((ih inner).cons_cons next).cons candidate

theorem processValidatedLedger_asSubmitted {q after : TxQ} (held : q.AsSubmitted kinds) {view : OpenView}
    {txs : List STTx} {timeLeap : Bool} {flags : ApplyFlags}
    (processed : q.processValidatedLedger kinds feeEscalation view txs timeLeap flags = some after) :
    after.AsSubmitted kinds := by
  unfold processValidatedLedger at processed
  by_cases disabled : (!(flags.has .tapENABLE_TESTING || feeEscalation)) = true
  · rw [if_pos disabled] at processed
    cases processed
    exact held
  · rw [if_neg disabled] at processed
    dsimp only at processed
    obtain ⟨⟨trimmed, byAccount⟩, trimmedEq, rfl⟩ := Option.map_eq_some_iff.mp processed
    intro candidate mem
    rcases List.mem_append.mp mem with kept | rest
    · exact held candidate ((expireLoop_sublist _ _ _ _ _).subset (List.mem_append_left _ kept))
    · exact held candidate ((expireLoop_sublist _ _ _ _ _).subset
        (List.mem_append_right _ ((trimLoop_sublist trimmedEq).subset rest)))

theorem step_asSubmitted {q after : TxQ} (held : q.AsSubmitted kinds) {event : TxQEvent}
    (stepped : q.step kinds config feeEscalation event = some after) : after.AsSubmitted kinds := by
  cases event with
  | apply view tx flags =>
    obtain ⟨⟨⟨ter, didApply⟩, q', view'⟩, applied, rfl⟩ := Option.map_eq_some_iff.mp stepped
    exact applyTxn_asSubmitted kinds config feeEscalation held applied
  | accept view flags =>
    obtain ⟨⟨changed, q', view'⟩, accepted, rfl⟩ := Option.map_eq_some_iff.mp stepped
    exact accept_asSubmitted kinds config feeEscalation held accepted
  | processValidatedLedger view txs timeLeap flags =>
    exact processValidatedLedger_asSubmitted kinds feeEscalation held stepped

/-- A run keeps the candidates as submitted. -/
theorem run_asSubmitted {q after : TxQ} (held : q.AsSubmitted kinds) {events : List TxQEvent}
    (ran : q.run kinds config feeEscalation events = some after) : after.AsSubmitted kinds := by
  induction events generalizing q with
  | nil =>
    cases ran
    exact held
  | cons event events ih =>
    obtain ⟨next, stepped, rest⟩ := Option.bind_eq_some_iff.mp ran
    exact ih (step_asSubmitted kinds config feeEscalation held stepped) rest

end TxQ

/-! ## Accepting held transactions -/

/-- What `accept` should do with the transactions it tries: apply them one after the other,
each as `ripple::apply` with its own flags; the open ledger after them, and whether one of
them applied. -/
def applyInTurn (kinds : TxType → TransactorKind) (config : Config) :
    List CandidateTxn → OpenView → Option (OpenView × Bool)
  | [], view => some (view, false)
  | candidate :: rest, view =>
    (RadardFormal.Tx.apply (kinds candidate.txn.txnType) config view candidate.txn candidate.flags).bind
      fun (_, didApply, view) => (applyInTurn kinds config rest view).map fun (view, changed) => (view, didApply || changed)

theorem applyInTurn_cons {kinds : TxType → TransactorKind} {config : Config} {candidate : CandidateTxn}
    {tried : List CandidateTxn} {view view₁ view' : OpenView} {ter : TER} {didApply changed : Bool}
    (run : RadardFormal.Tx.apply (kinds candidate.txn.txnType) config view candidate.txn candidate.flags =
      some (ter, didApply, view₁))
    (rest : applyInTurn kinds config tried view₁ = some (view', changed)) :
    applyInTurn kinds config (candidate :: tried) view = some (view', didApply || changed) := by
  simp [applyInTurn, run, rest]

namespace TxQ

variable (kinds : TxType → TransactorKind) (config : Config) (feeEscalation : Bool)

/-- `accept`'s loop tries a prefix of the candidates still to come, applying each as
`ripple::apply` with its own flags. -/
theorem acceptLoop_applies_in_turn {metrics : FeeMetrics} {kept remaining : List CandidateTxn}
    {byAccount : ByAccount} {view : OpenView} {changed : Bool} {byFee' : List CandidateTxn}
    {byAccount' : ByAccount} {view' : OpenView} {changed' : Bool}
    (held : ∀ candidate ∈ remaining, candidate.AsSubmitted kinds)
    (looped : acceptLoop kinds config metrics kept remaining byAccount view changed =
      some (byFee', byAccount', view', changed')) :
    ∃ tried changedTried, List.IsPrefix tried remaining ∧
      applyInTurn kinds config tried view = some (view', changedTried) ∧ changed' = (changed || changedTried) := by
  induction remaining generalizing kept byAccount view changed with
  | nil =>
    simp only [acceptLoop, Option.some.injEq, Prod.mk.injEq] at looped
    obtain ⟨-, -, rfl, rfl⟩ := looped
    exact ⟨[], false, List.nil_prefix, rfl, by simp⟩
  | cons candidate rest ih =>
    unfold acceptLoop at looped
    split_ifs at looped with pays
    · dsimp only at looped
      obtain ⟨⟨ter, didApply, view₁⟩, run, next⟩ := Option.bind_eq_some_iff.mp looped
      -- the candidate, its `preflight` result made again or not, applies as submitted
      rw [MaybeTx.apply_refreshed, (held candidate List.mem_cons_self).apply_eq] at run
      have restHeld := fun other mem => held other (List.mem_cons_of_mem candidate mem)
      split_ifs at next with applied <;>
        obtain ⟨tried, changedTried, leading, rest, flag⟩ := ih restHeld next <;>
        refine ⟨candidate :: tried, didApply || changedTried, List.cons_prefix_cons.mpr ⟨rfl, leading⟩,
          applyInTurn_cons run rest, ?_⟩ <;>
        simp_all
    · cases looped
      exact ⟨[], false, List.nil_prefix, rfl, by simp⟩

end TxQ

/-- On a queue any run from an empty queue reached, `TxQ::accept` builds the new open ledger
by applying a prefix of the fee order, one transaction after the other, each as
`ripple::apply` with the flags it was submitted with; it reports a change exactly when one of
them applied. -/
theorem accept_applies_in_turn (kinds : TxType → TransactorKind) (config : Config) (feeEscalation : Bool)
    {setup : TxQSetup} {events : List TxQEvent} {q after : TxQ} {view view' : OpenView} {flags : ApplyFlags}
    {changed : Bool} (ran : (TxQ.make setup).run kinds config feeEscalation events = some q)
    (accepted : q.accept kinds config feeEscalation view flags = some (changed, after, view')) :
    ∃ tried, List.IsPrefix tried q.byFee ∧ applyInTurn kinds config tried view = some (view', changed) := by
  have held := TxQ.run_asSubmitted kinds config feeEscalation (TxQ.make_asSubmitted kinds setup) ran
  unfold TxQ.accept at accepted
  by_cases disabled : (!(flags.has .tapENABLE_TESTING || feeEscalation)) = true
  · rw [if_pos disabled] at accepted
    cases accepted
    exact ⟨[], List.nil_prefix, rfl⟩
  · rw [if_neg disabled] at accepted
    obtain ⟨⟨byFee, byAccount, view₁, changed₁⟩, looped, same⟩ := Option.map_eq_some_iff.mp accepted
    cases same
    obtain ⟨tried, changedTried, leading, applied, flag⟩ :=
      TxQ.acceptLoop_applies_in_turn kinds config held looped
    rw [Bool.false_or] at flag
    exact ⟨tried, leading, flag ▸ applied⟩

/-- The busy ledger's account on an open ledger with nothing in it yet. -/
def quietLedger : OpenView := { busyLedger with txs := [] }

set_option maxRecDepth 20000 in
theorem applyTxn_applies_as_apply_quietLedger :
    ∃ view', (TxQ.make {}).applyTxn (fun _ => SetAccount.kind) ⟨none⟩ true quietLedger cheapTx .tapNONE =
        some ((tesSUCCESS, true), TxQ.make {}, view') ∧
      RadardFormal.Tx.apply SetAccount.kind ⟨none⟩ quietLedger cheapTx .tapNONE = some (tesSUCCESS, true, view') := by
  obtain ⟨view', applied⟩ : ∃ view', (TxQ.make {}).applyTxn (fun _ => SetAccount.kind) ⟨none⟩ true quietLedger
      cheapTx .tapNONE = some ((tesSUCCESS, true), TxQ.make {}, view') := ⟨_, rfl⟩
  exact ⟨view', applied, (TxQ.applyTxn_applies_as_apply _ _ _ applied).1 rfl⟩

set_option maxRecDepth 20000 in
theorem accept_applies_in_turn_cheapHeld :
    ∃ changed after view', cheapHeld.accept (fun _ => SetAccount.kind) ⟨none⟩ true quietLedger .tapNONE =
        some (changed, after, view') ∧
      ∃ tried, List.IsPrefix tried cheapHeld.byFee ∧
        applyInTurn (fun _ => SetAccount.kind) ⟨none⟩ tried quietLedger = some (view', changed) := by
  obtain ⟨⟨changed, after, view'⟩, accepted⟩ :
      ∃ result, cheapHeld.accept (fun _ => SetAccount.kind) ⟨none⟩ true quietLedger .tapNONE = some result :=
    ⟨_, rfl⟩
  exact ⟨changed, after, view', accepted, accept_applies_in_turn _ _ _ cheapTx_held accepted⟩

end RadardFormal.Tx
