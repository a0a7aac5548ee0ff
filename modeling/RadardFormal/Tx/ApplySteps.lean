import RadardFormal.Tx.SetAccount
import RadardFormal.Tx.SetRegularKey
import RadardFormal.Tx.ActiveAccount

/-!
# The steps of applying a transaction

`ripple::apply` runs a transaction in three steps: `preflight` checks it alone,
`preclaim` checks it against the ledger (the sender's sequence, the fee, the signature,
then the transactor's own `preclaim`), and `doApply` runs `Transactor::operator()` when
the result of the checks can claim a fee, unless the transaction is already in the open
ledger.  `applySteps` dispatches each step on the transaction type; here the transactor
is a parameter, `TransactorKind`, holding what each step calls on it, and
`transactorOf` is the dispatch for the modelled transaction types.

The queue applies transactions through the same steps.  `TxQ::apply` applies one to the
open ledger at once only when no earlier sequence of its account is waiting in the
queue, after a `preflight` with the flags it was given; a held transaction keeps a
`preflight` result made with `tapPOST_SEQ` added, and `TxQ::accept` runs `preflight`
again when that result's flags or rules differ from what it applies with.

An exception, which `preclaim` and `doApply` would turn into `tefEXCEPTION` with the
ledger unchanged, and a crash of the source are both `none`.
-/

namespace RadardFormal.Tx

open RadardFormal.Protocol RadardFormal.Support RadardFormal.Ledger TER

/-- The static functions `applySteps` calls on a transactor class. -/
structure TransactorKind where
  preflight : STTx → Rules → ApplyFlags → TER
  calculateBaseFee : OpenView → STTx → Nat
  preclaim : OpenView → STTx → ApplyFlags → Option TER
  doApply : ApplyContext → Transactor → ViewM TER

/-- `PreflightResult`: the transaction, the rules and flags it was checked under, and the
result. -/
structure PreflightResult where
  tx : STTx
  rules : Rules
  flags : ApplyFlags
  ter : TER

/-- `PreclaimResult`: the transaction and flags it was checked with, the result of the
checks and the base fee. -/
structure PreclaimResult where
  tx : STTx
  flags : ApplyFlags
  ter : TER
  baseFee : Nat

/-- `likelyToClaimFee`: the checks passed, or failed with a code that claims the fee. -/
def PreclaimResult.likelyToClaimFee (result : PreclaimResult) : Bool :=
  result.ter == tesSUCCESS || result.ter.isTecClaim

/-- The `ApplyContext` `doApply` makes from the result of the checks. -/
def PreclaimResult.context (result : PreclaimResult) (config : Config) : ApplyContext :=
  ⟨result.tx, result.ter, result.baseFee, result.flags, config⟩

/-- `preflight`. -/
def preflight (kind : TransactorKind) (rules : Rules) (tx : STTx) (flags : ApplyFlags) :
    PreflightResult :=
  ⟨tx, rules, flags, kind.preflight tx rules flags⟩

/-- `invoke_preclaim<T>`: the checks of a transaction from an account, in order, each
failure returned with the base fee.  A pseudo-transaction, from no account, passes. -/
def invokePreclaim (kind : TransactorKind) (view : OpenView) (tx : STTx) (flags : ApplyFlags) :
    Option (TER × Nat) := do
  let baseFee := kind.calculateBaseFee view tx
  if tx.account != AccountID.zero then
    let result := Transactor.checkSeq view tx flags
    if result != tesSUCCESS then return (result, baseFee)
    let result ← Transactor.checkFee view tx baseFee
    if result != tesSUCCESS then return (result, baseFee)
    let result ← Transactor.checkSign view tx flags
    if result != tesSUCCESS then return (result, baseFee)
    let result ← kind.preclaim view tx flags
    if result != tesSUCCESS then return (result, baseFee)
  return (tesSUCCESS, baseFee)

/-- `preclaim`: `preflight` again if the ledger's rules changed since; a transaction that
failed it keeps that result. -/
def preclaim (kind : TransactorKind) (preflightResult : PreflightResult) (view : OpenView) :
    Option PreclaimResult :=
  let ctx := if preflightResult.rules != view.rules then
      preflight kind view.rules preflightResult.tx preflightResult.flags
    else preflightResult
  if ctx.ter != tesSUCCESS then some ⟨ctx.tx, ctx.flags, ctx.ter, 0⟩
  else (invokePreclaim kind view ctx.tx ctx.flags).map fun (ter, baseFee) =>
    ⟨ctx.tx, ctx.flags, ter, baseFee⟩

/-- `doApply`: the result, whether the transaction applied, and the ledger after it. -/
def doApply (kind : TransactorKind) (config : Config) (preclaimResult : PreclaimResult)
    (view : OpenView) : Option (TER × Bool × OpenView) :=
  if !preclaimResult.likelyToClaimFee then some (preclaimResult.ter, false, view)
  else
    let ctx := preclaimResult.context config
    if view.txExists ctx.tx.transactionID then some (tefALREADY, false, view)
    else operator ctx (kind.doApply ctx) view

/-- `ripple::apply`: the three steps in order. -/
def apply (kind : TransactorKind) (config : Config) (view : OpenView) (tx : STTx)
    (flags : ApplyFlags) : Option (TER × Bool × OpenView) := do
  let pfresult := preflight kind view.rules tx flags
  let pcresult ← preclaim kind pfresult view
  doApply kind config pcresult view

/-! ## The modelled transactors -/

/-- `Transactor::preclaim`, which a transactor without its own inherits. -/
def Transactor.preclaim (_view : OpenView) (_tx : STTx) (_flags : ApplyFlags) : Option TER :=
  some tesSUCCESS

def SetAccount.kind : TransactorKind :=
  ⟨fun tx _ _ => SetAccount.preflight tx, Transactor.calculateBaseFee, SetAccount.preclaim,
    SetAccount.doApply⟩

def SetRegularKey.kind : TransactorKind :=
  ⟨fun tx _ _ => SetRegularKey.preflight tx, SetRegularKey.calculateBaseFee, Transactor.preclaim,
    SetRegularKey.doApply⟩

def SetSignerList.kind : TransactorKind :=
  ⟨SetSignerList.preflight, Transactor.calculateBaseFee, Transactor.preclaim,
    SetSignerList.doApply⟩

def ActiveAccount.kind : TransactorKind :=
  ⟨fun tx _ _ => ActiveAccount.preflight tx, Transactor.calculateBaseFee,
    fun view tx _ => some (ActiveAccount.preclaim view tx), ActiveAccount.doApply⟩

/-- What `TxQ::apply` does with a transaction that is likely to claim a fee, up to the
queue: apply it at once when its sequence is the account's current one (`currentSeq`:
no earlier sequence of the account is missing from the queue) and its fee level is high
enough (`feeLevelHigh`, from the fee metrics, which are not modelled); otherwise it is
held or dropped, and the open ledger is unchanged. -/
def TxQ.apply (kind : TransactorKind) (config : Config) (view : OpenView) (tx : STTx)
    (flags : ApplyFlags) (currentSeq feeLevelHigh : Bool) : Option (TER × Bool × OpenView) := do
  let pfresult := preflight kind view.rules tx
    (if currentSeq then flags else flags.union .tapPOST_SEQ)
  let pcresult ← preclaim kind pfresult view
  if !pcresult.likelyToClaimFee then return (pcresult.ter, false, view)
  if currentSeq && feeLevelHigh then doApply kind config pcresult view
  else return (terQUEUED, false, view)

/-- A transaction held in the queue (`MaybeTx`): the flags it was submitted with and its
`preflight` result. -/
structure MaybeTx where
  flags : ApplyFlags
  pfresult : PreflightResult

/-- The candidate `TxQ::apply` holds: preflighted with `tapPOST_SEQ` added when an earlier
sequence of the account is missing. -/
def MaybeTx.held (kind : TransactorKind) (rules : Rules) (tx : STTx) (flags : ApplyFlags)
    (currentSeq : Bool) : MaybeTx :=
  ⟨flags, preflight kind rules tx (if currentSeq then flags else flags.union .tapPOST_SEQ)⟩

/-- The body of `TxQ::accept`'s loop for one candidate whose fee level is high enough:
`preflight` again if the rules or the flags changed, then `preclaim` and `doApply`. -/
def MaybeTx.apply (kind : TransactorKind) (config : Config) (candidate : MaybeTx)
    (view : OpenView) : Option (TER × Bool × OpenView) := do
  let pfresult :=
    if candidate.pfresult.rules != view.rules || candidate.pfresult.flags != candidate.flags then
      preflight kind view.rules candidate.pfresult.tx candidate.flags
    else candidate.pfresult
  let pcresult ← preclaim kind pfresult view
  doApply kind config pcresult view

/-! ## What the checks guarantee -/

/-- `checkSeq` refuses with a `ter` or `tef` code, never with one that claims a fee. -/
theorem checkSeq_not_isTecClaim (view : OpenView) (tx : STTx) (flags : ApplyFlags) :
    (Transactor.checkSeq view tx flags).isTecClaim = false := by
  unfold Transactor.checkSeq
  split
  · decide
  · dsimp only
    split_ifs <;> decide

/-- Without `tapPOST_SEQ`, `checkSeq` passes only a transaction that carries the sender's
sequence. -/
theorem checkSeq_sequence {view : OpenView} {tx : STTx} {flags : ApplyFlags}
    (passed : Transactor.checkSeq view tx flags = tesSUCCESS)
    (noPostSeq : flags.has .tapPOST_SEQ = false) :
    ∃ root, view.account? tx.account = some root ∧ root.sequence = tx.sequence := by
  unfold Transactor.checkSeq at passed
  split at passed
  · exact absurd passed (by decide)
  · rename_i root found
    refine ⟨root, found, ?_⟩
    by_contra differs
    have differs' : (tx.sequence != root.sequence) = true := by
      simp only [bne_iff_ne, ne_eq]
      exact fun same => differs same.symm
    dsimp only at passed
    simp only [differs', ↓reduceIte, noPostSeq, Bool.false_eq_true] at passed
    split_ifs at passed <;> exact absurd passed (by decide)

/-- A transaction from an account whose checks passed, or failed with a code that claims
a fee, passed `checkSeq`: every refusal of `checkSeq` is returned as it is. -/
theorem invokePreclaim_checkSeq {kind : TransactorKind} {view : OpenView} {tx : STTx}
    {flags : ApplyFlags} {ter : TER} {baseFee : Nat}
    (run : invokePreclaim kind view tx flags = some (ter, baseFee))
    (fromAccount : tx.account ≠ AccountID.zero) (likely : (ter == tesSUCCESS || ter.isTecClaim) = true) :
    Transactor.checkSeq view tx flags = tesSUCCESS := by
  by_contra refused
  have refusedNe : (Transactor.checkSeq view tx flags != tesSUCCESS) = true := by
    simpa using refused
  have account : (tx.account != AccountID.zero) = true := by simpa using fromAccount
  simp only [invokePreclaim, account, refusedNe, ↓reduceIte, Option.pure_def, Option.some.injEq,
    Prod.mk.injEq] at run
  obtain ⟨rfl, -⟩ := run
  simp [refused, checkSeq_not_isTecClaim] at likely

/-- `preclaim` keeps the transaction and flags of the `preflight` result; a result that
is likely to claim a fee comes from a `preflight` result that is, or from
`invoke_preclaim`. -/
theorem preclaim_eq_some {kind : TransactorKind} {preflightResult : PreflightResult}
    {view : OpenView} {result : PreclaimResult}
    (run : preclaim kind preflightResult view = some result) :
    result.tx = preflightResult.tx ∧ result.flags = preflightResult.flags ∧
      ((result.ter ≠ tesSUCCESS ∧ (result.ter = preflightResult.ter ∨
          result.ter = kind.preflight preflightResult.tx view.rules preflightResult.flags)) ∨
        invokePreclaim kind view result.tx result.flags = some (result.ter, result.baseFee)) := by
  unfold preclaim at run
  -- Whether `preflight` runs again, the transaction and flags are the ones it was given.
  generalize ctxDef : (if (preflightResult.rules != view.rules) = true then
      preflight kind view.rules preflightResult.tx preflightResult.flags
    else preflightResult) = ctx at run
  have same : ctx.tx = preflightResult.tx ∧ ctx.flags = preflightResult.flags ∧
      (ctx.ter = preflightResult.ter ∨
        ctx.ter = kind.preflight preflightResult.tx view.rules preflightResult.flags) := by
    subst ctxDef
    split
    · exact ⟨rfl, rfl, .inr rfl⟩
    · exact ⟨rfl, rfl, .inl rfl⟩
  obtain ⟨sameTx, sameFlags, sameTer⟩ := same
  dsimp only at run
  split at run
  · rename_i failed
    cases run
    exact ⟨sameTx, sameFlags, .inl ⟨by simpa using failed, sameTer⟩⟩
  · obtain ⟨⟨ter, baseFee⟩, invoked, rfl⟩ := Option.map_eq_some_iff.mp run
    exact ⟨sameTx, sameFlags, .inr (by rw [← sameTx, ← sameFlags] at *; exact invoked)⟩

/-- `doApply` applies a transaction only through `operator()`, for a result of the checks
that is likely to claim a fee and a transaction not yet in the ledger. -/
theorem doApply_applied {kind : TransactorKind} {config : Config} {result : PreclaimResult}
    {view after : OpenView} {ter : TER}
    (run : doApply kind config result view = some (ter, true, after)) :
    result.likelyToClaimFee = true ∧ view.txExists result.tx.transactionID = false ∧
      operator (result.context config) (kind.doApply (result.context config)) view =
        some (ter, true, after) := by
  unfold doApply at run
  split at run
  · simp at run
  · rename_i likely
    dsimp only at run
    split at run
    · simp at run
    · rename_i fresh
      exact ⟨by simpa using likely, by simpa [PreclaimResult.context] using fresh, run⟩

/-- A transaction that `operator()` does not apply leaves the ledger as it was. -/
theorem operator_not_applied {ctx : ApplyContext} {code : Transactor → ViewM TER}
    {base after : OpenView} {ter : TER}
    (run : operator ctx code base = some (ter, false, after)) : after = base := by
  obtain ⟨terResult, view, -, -, branch⟩ := operator_eq_some run
  rcases branch with ⟨-, fee, view', -, applyRun⟩ | ⟨-, -, applyRun⟩ | ⟨-, -, -, unchanged⟩
  · cases (applyView_eq_some applyRun).2.1
  · cases (applyView_eq_some applyRun).2.1
  · exact unchanged

theorem doApply_not_applied {kind : TransactorKind} {config : Config} {result : PreclaimResult}
    {view after : OpenView} {ter : TER}
    (run : doApply kind config result view = some (ter, false, after)) : after = view := by
  unfold doApply at run
  split at run
  · cases run
    rfl
  · dsimp only at run
    split at run
    · cases run
      rfl
    · exact operator_not_applied run

/-- A transaction that `apply` does not apply leaves the ledger as it was. -/
theorem apply_not_applied {kind : TransactorKind} {config : Config} {view after : OpenView}
    {tx : STTx} {flags : ApplyFlags} {ter : TER}
    (run : apply kind config view tx flags = some (ter, false, after)) : after = view := by
  obtain ⟨result, -, applied⟩ := Option.bind_eq_some_iff.mp run
  exact doApply_not_applied applied

/-! ## The queue applies through the same steps -/

/-- `TxQ::apply` applies a transaction only as `ripple::apply` would with the same flags:
at once only for the account's current sequence, which it preflights with the flags it was
given. -/
theorem TxQ.apply_applied {kind : TransactorKind} {config : Config} {view after : OpenView}
    {tx : STTx} {flags : ApplyFlags} {currentSeq feeLevelHigh : Bool} {ter : TER}
    (run : TxQ.apply kind config view tx flags currentSeq feeLevelHigh = some (ter, true, after)) :
    RadardFormal.Tx.apply kind config view tx flags = some (ter, true, after) := by
  obtain ⟨result, checked, applied⟩ := Option.bind_eq_some_iff.mp run
  split at applied
  · simp at applied
  · split at applied
    · rename_i now
      obtain ⟨current, -⟩ := Bool.and_eq_true_iff.mp now
      simp only [current, ↓reduceIte] at checked
      exact Option.bind_eq_some_iff.mpr ⟨result, checked, applied⟩
    · simp at applied

/-- `TxQ::accept` applies a held transaction exactly as `ripple::apply` with the flags it
was submitted with: its `preflight` result is made again whenever `tapPOST_SEQ` was added
or the rules changed. -/
theorem MaybeTx.apply_held (kind : TransactorKind) (config : Config) (rules : Rules)
    (view : OpenView) (tx : STTx) (flags : ApplyFlags) (currentSeq : Bool) :
    (MaybeTx.held kind rules tx flags currentSeq).apply kind config view =
      RadardFormal.Tx.apply kind config view tx flags := by
  -- Neither the rules nor the flags changed: the stored result is the one made now.
  have same : ∀ stored : ApplyFlags,
      (if ((preflight kind rules tx stored).rules != view.rules ||
            (preflight kind rules tx stored).flags != flags) = true then
          preflight kind view.rules (preflight kind rules tx stored).tx flags
        else preflight kind rules tx stored) = preflight kind view.rules tx flags := by
    intro stored
    split
    · rfl
    · rename_i unchanged
      simp only [preflight, Bool.or_eq_true, bne_iff_ne, ne_eq, not_or, not_not] at unchanged
      rw [unchanged.1, unchanged.2]
  unfold MaybeTx.apply MaybeTx.held RadardFormal.Tx.apply
  dsimp only
  rw [same]

end RadardFormal.Tx
