import RadardFormal.Tx.TransactorFrame

/-!
# Sequence numbers and replay

An account root carries the sequence number its next transaction must have.
`Transactor::checkSeq`, in `preclaim`, passes a transaction only with that sequence
(a later one only with `tapPOST_SEQ`, which the queue adds to its own checks and takes off
again before it applies anything); `Transactor::setSeq`, in `apply`, and the fee-claim
path of `operator()` write `sfSequence` as the transaction's sequence plus one.  The
source computes that sum in 32 bits: a transaction with sequence `2^32 - 1` leaves the
account at sequence 0.

The invariant of one transaction is a bound on every account's sequence, tracked through
the table with `Ledger.Frame`: the sender's is the next one, every other account's is the
one it had, or 1 for an account the transaction creates.  Each modelled transactor keeps
it, and so does every applied run of `operator()`.
-/

namespace RadardFormal.Tx

open RadardFormal.Protocol RadardFormal.Support RadardFormal.Ledger TER ViewM

/-! ## The sequence of each account -/

/-- The sequence of the account root under an account's key; no sequence under any other
key. -/
def sequenceOf : Key → Option SLE → Option Nat
  | .account _, entry => (entry.bind SLE.accountRoot?).map AccountRoot.sequence
  | _, _ => none

theorem sequenceOf_read (ledger : OpenView) (id : AccountID) :
    sequenceOf (.account id) (ledger.read (.account id)) =
      (ledger.account? id).map AccountRoot.sequence := rfl

/-- The sequence sees account roots only through their sequence. -/
theorem sequenceOf_accountView : AccountView sequenceOf where
  blind key _ _ blind := by
    cases key <;> first | rfl | cases blind
  root _ _ _ same _ := by simp [sequenceOf, SLE.accountRoot?, same]
  notRoot _ _ notRoot := by simp [sequenceOf, notRoot]
  notRefer _ _ _ := rfl

/-- What a transaction from `sender` may leave of the sequences of the ledger `before`:
`next` for the sender; for every other account the sequence it had, or 1 for an account
it creates. -/
def SequenceBound (before : OpenView) (sender : AccountID) (next : Nat) (key : Key)
    (value : Option Nat) : Prop :=
  if key = .account sender then value = some next
  else value = sequenceOf key (before.read key) ∨
    (sequenceOf key (before.read key) = none ∧ value = some 1)

/-- The bound for a key the table has only looked at: anything under the sender's key,
whose first write is through the pointer and is not applied until it is updated. -/
def SequenceBound.loose (before : OpenView) (sender : AccountID) (next : Nat) (key : Key)
    (value : Option Nat) : Prop :=
  SequenceBound before sender next key value ∨ key = .account sender

section bound

variable {before : OpenView} {sender : AccountID} {next : Nat}

theorem SequenceBound.unchanged {key : Key} (other : key ≠ .account sender) :
    SequenceBound before sender next key (sequenceOf key (before.read key)) := by
  simp [SequenceBound, other]

/-- An account absent from the bound may be created with sequence 1. -/
theorem SequenceBound.creates {id : AccountID}
    (absent : SequenceBound before sender next (.account id) none) :
    SequenceBound before sender next (.account id) (some 1) := by
  unfold SequenceBound at *
  -- Under the sender's key the bound excludes an absent entry.
  split_ifs at absent ⊢
  rcases absent with wasAbsent | ⟨-, created⟩
  · exact .inr ⟨wasAbsent.symm, rfl⟩
  · cases created

theorem SequenceBound.widen (key : Key) (value : Option Nat)
    (bound : SequenceBound before sender next key value) :
    SequenceBound.loose before sender next key value :=
  .inl bound

theorem SequenceBound.settle {key : Key} {value : Option Nat} (other : key ≠ .account sender)
    (loose : SequenceBound.loose before sender next key value) :
    SequenceBound before sender next key value :=
  loose.resolve_right other

end bound

/-! ## The table after the sender's first write -/

section first

variable {base : OpenView} {view : ApplyViewImpl} {id : AccountID} {root root' : AccountRoot}

theorem exec_peekAccount_fresh (empty : view.items = Overlay.empty)
    (found : base.account? id = some root) :
    (peekAccount id).exec base view =
      some (some root, { view with items := Overlay.single (.account id) (.cache, .accountRoot root) }) := by
  obtain ⟨sle, read, selected⟩ := Option.bind_eq_some_iff.mp found
  have stored : base.stateMap.lookup (.account id) = some (.accountRoot root) := by
    rw [← SLE.accountRoot?_eq_some.mp selected]
    exact read
  simp [peekAccount, empty, Overlay.peek_empty, stored, SLE.accountRoot?]

theorem exec_peekAccount_single
    (single : view.items = Overlay.single (.account id) (.cache, .accountRoot root)) :
    (peekAccount id).exec base view = some (some root, view) := by
  simp [peekAccount, single, Overlay.peek_single, SLE.accountRoot?]
  rw [← single]

theorem exec_pokeAccount_single
    (single : view.items = Overlay.single (.account id) (.cache, .accountRoot root)) :
    (pokeAccount id root').exec base view =
      some ((), { view with items := Overlay.single (.account id) (.cache, .accountRoot root') }) := by
  simp [pokeAccount, single, Overlay.poke_single]

/-- `setSeq` on the table of the sender's first look writes the next sequence through the
pointer. -/
theorem exec_setSeq_single (base : OpenView) (ctx : ApplyContext)
    (single : view.items = Overlay.single (.account id) (.cache, .accountRoot root)) :
    ∃ root', root'.sequence = (ctx.tx.sequence + 1) % 2 ^ 32 ∧
      (Transactor.setSeq ctx id).exec base view =
        some ((), { view with items := Overlay.single (.account id) (.cache, .accountRoot root') }) := by
  unfold Transactor.setSeq
  rw [exec_bind, exec_peekAccount_single single, Option.bind_some]
  dsimp only
  split
  · exact ⟨_, rfl, exec_pokeAccount_single single⟩
  · exact ⟨_, rfl, exec_pokeAccount_single single⟩

/-- A table that has only looked at the sender's entry, with the next sequence written
through the pointer, is within the bound of a transaction from the sender. -/
theorem tracks_single (single : view.items = Overlay.single (.account id) (.cache, .accountRoot root')) :
    Tracks sequenceOf (SequenceBound base id root'.sequence) (SequenceBound.loose base id root'.sequence)
      base view where
  read key := by
    by_cases same : key = .account id
    · subst same
      simp [visible, single, Overlay.read, SequenceBound, sequenceOf, SLE.accountRoot?]
    · have fromBase : visible base view key = base.read key := by
        simp [visible, single, Overlay.read, same, OpenView.read]
      rw [fromBase]
      exact SequenceBound.unchanged same
  cached key cached := by
    obtain ⟨recorded, found⟩ := cached
    rw [single, Overlay.lookup_single] at found
    split_ifs at found with same
    exact .inr same
  erasable key absent := by
    by_cases same : key = .account id
    · subst same
      simp [SequenceBound, sequenceOf] at absent
    · exact SequenceBound.unchanged same

end first

/-! ## The first write of the sender's entry -/

section firstWrite

variable {before : OpenView} {id : AccountID} {root : AccountRoot}

theorem peekAccount_fresh (found : before.account? id = some root) :
    Triple (fun base view => base = before ∧ view.items = Overlay.empty) (peekAccount id)
      (fun result base view => result = some root ∧ base = before ∧
        view.items = Overlay.single (.account id) (.cache, .accountRoot root)) := by
  rintro base view result view' ⟨rfl, empty⟩ run
  change (peekAccount id).exec base view = some (result, view') at run
  rw [exec_peekAccount_fresh empty found, Option.some.injEq, Prod.mk.injEq] at run
  obtain ⟨rfl, rfl⟩ := run
  exact ⟨rfl, rfl, rfl⟩

theorem pokeAccount_first (entry : AccountRoot) :
    Triple (fun base view => base = before ∧
        view.items = Overlay.single (.account id) (.cache, .accountRoot root))
      (pokeAccount id entry)
      (fun _ => Tracks sequenceOf (SequenceBound before id entry.sequence)
        (SequenceBound.loose before id entry.sequence)) := by
  rintro base view _ view' ⟨rfl, single⟩ run
  change (pokeAccount id entry).exec base view = some ((), view') at run
  rw [exec_pokeAccount_single single, Option.some.injEq, Prod.mk.injEq] at run
  obtain ⟨-, rfl⟩ := run
  exact tracks_single rfl

theorem setSeq_first (ctx : ApplyContext) :
    Triple (fun base view => base = before ∧
        view.items = Overlay.single (.account id) (.cache, .accountRoot root))
      (Transactor.setSeq ctx id)
      (fun _ => Tracks sequenceOf (SequenceBound before id ((ctx.tx.sequence + 1) % 2 ^ 32))
          (SequenceBound.loose before id ((ctx.tx.sequence + 1) % 2 ^ 32))) := by
  rintro base view _ view' ⟨rfl, single⟩ run
  obtain ⟨root', next, ran⟩ := exec_setSeq_single base ctx single
  change (Transactor.setSeq ctx id).exec base view = some ((), view') at run
  rw [ran, Option.some.injEq, Prod.mk.injEq] at run
  obtain ⟨-, rfl⟩ := run
  rw [← next]
  exact tracks_single rfl

end firstWrite

/-! ## Settling the sender's entry -/

section settle

variable {before : OpenView} {sender : AccountID} {next : Nat}

/-- Once the sender's entry is updated, no key needs the loose bound. -/
theorem tracks_settle_sender {base : OpenView} {view : ApplyViewImpl}
    (tracks : Tracks sequenceOf (SequenceBound before sender next)
      (SequenceBound.loose before sender next) base view)
    (updated : ¬Cached view (.account sender)) :
    Tracks sequenceOf (SequenceBound before sender next) (SequenceBound before sender next) base view :=
  tracks.narrow fun key cached =>
    SequenceBound.settle (fun same => updated (same ▸ cached)) (tracks.cached key cached)

/-- `view().update (sle)` of the sender's entry as it is read. -/
theorem updateAccount_settles (entry : AccountRoot) :
    Triple (fun base view => Tracks sequenceOf (SequenceBound before sender next)
        (SequenceBound.loose before sender next) base view ∧
        visible base view (.account sender) = some (.accountRoot entry))
      (updateAccount sender entry)
      (fun _ => Tracks sequenceOf (SequenceBound before sender next)
        (SequenceBound before sender next)) :=
  Triple.consequence (update_settles (.account sender) (.accountRoot entry))
    (fun base view holds => ⟨holds.1, by simpa [holds.2] using holds.1.read (.account sender)⟩)
    (fun _ _ _ holds => tracks_settle_sender holds.1 holds.2)

end settle

/-! ## `Transactor::apply` and the fee-claim path -/

section runs

variable {before : OpenView} {root : AccountRoot}

/-- `Transactor::apply` from a fresh table, for a sender with an account root: a run that
succeeds ends within the bound of the next sequence, when the transactor's `doApply`
keeps that bound. -/
theorem Transactor.apply_sequences (ctx : ApplyContext) (doApply : Transactor → ViewM TER)
    (found : before.account? ctx.tx.account = some root)
    (keeps : ∀ self, Triple
      (Tracks sequenceOf (SequenceBound before ctx.tx.account ((ctx.tx.sequence + 1) % 2 ^ 32))
        (SequenceBound before ctx.tx.account ((ctx.tx.sequence + 1) % 2 ^ 32)))
      (doApply self)
      (fun _ => Tracks sequenceOf (SequenceBound before ctx.tx.account ((ctx.tx.sequence + 1) % 2 ^ 32))
        (SequenceBound before ctx.tx.account ((ctx.tx.sequence + 1) % 2 ^ 32)))) :
    Triple (fun base view => base = before ∧ view.items = Overlay.empty)
      (Transactor.apply ctx doApply)
      (fun ter base view => ter = tesSUCCESS →
        Tracks sequenceOf (SequenceBound before ctx.tx.account ((ctx.tx.sequence + 1) % 2 ^ 32))
          (SequenceBound before ctx.tx.account ((ctx.tx.sequence + 1) % 2 ^ 32)) base view) := by
  unfold Transactor.apply
  dsimp only
  refine Triple.bind_rule (peekAccount_fresh found) fun found' => ?_
  rcases found' with _ | sle
  · exact Triple.absurd_rule fun _ _ holds => nomatch holds.1
  refine Triple.assume_rule fun (same : some sle = some root) => ?_
  cases same
  -- The sequence is written first, then the fee, each through the pointer.
  refine Triple.bind_rule (setSeq_first ctx) fun _ => ?_
  refine Triple.bind_rule (payFee_tracks sequenceOf_accountView SequenceBound.widen _ _) fun paid => ?_
  obtain ⟨terResult, self⟩ := paid
  dsimp only
  split
  · -- `payFee` failed: the result is not a success.
    rename_i failed
    exact Triple.strengthen (Triple.pure_rule terResult)
      (fun _ _ _ success => absurd success (by simpa using failed))
  -- The entry is stored with `update`, and the transactor runs on the settled table.
  refine peekAccount_then SequenceBound.widen _ (fun entry => ?_) Triple.failure_rule
  refine Triple.bind_rule (updateAccount_settles entry) fun _ => ?_
  exact Triple.weaken (keeps _) fun _ _ _ holds _ => holds

/-- The fee-claim path on a fresh table: the sender's entry is written with the next
sequence and stored with `update`, and the offers it removes are no account's. -/
theorem claimFee_sequences (ctx : ApplyContext) (fee : Int) (oversize : Bool) (offers : List Key)
    (found : before.account? ctx.tx.account = some root) :
    Triple (fun base view => base = before ∧ view.items = Overlay.empty)
      (claimFee ctx fee oversize offers)
      (fun _ => Tracks sequenceOf (SequenceBound before ctx.tx.account ((ctx.tx.sequence + 1) % 2 ^ 32))
        (SequenceBound before ctx.tx.account ((ctx.tx.sequence + 1) % 2 ^ 32))) := by
  unfold claimFee
  refine Triple.bind_rule (peekAccount_fresh found) fun found' => ?_
  rcases found' with _ | txnAcct
  · exact Triple.absurd_rule fun _ _ holds => nomatch holds.1
  refine Triple.assume_rule fun (same : some txnAcct = some root) => ?_
  cases same
  dsimp -zeta only
  extract_lets balance charged settle
  -- Whether or not offers are removed, the entry is read again and stored.
  have settles : ∀ u, Triple
      (Tracks sequenceOf (SequenceBound before ctx.tx.account ((ctx.tx.sequence + 1) % 2 ^ 32))
        (SequenceBound.loose before ctx.tx.account ((ctx.tx.sequence + 1) % 2 ^ 32)))
      (settle u)
      (fun _ => Tracks sequenceOf (SequenceBound before ctx.tx.account ((ctx.tx.sequence + 1) % 2 ^ 32))
        (SequenceBound before ctx.tx.account ((ctx.tx.sequence + 1) % 2 ^ 32))) := by
    intro u
    dsimp only [settle]
    refine peekAccount_then SequenceBound.widen _ (fun entry => ?_) Triple.failure_rule
    exact Triple.bind_rule (updateAccount_settles entry) fun _ => Triple.pure_keep _
  refine Triple.bind_rule (pokeAccount_first _) fun _ => ?_
  split
  · exact Triple.bind_rule
      (removeUnfundedOffers_tracks sequenceOf_accountView SequenceBound.widen _ _) settles
  · exact settles ()

/-- A run of `operator()` that applies a transaction, from a sender with an account root,
leaves every account within the bound of the next sequence, when the transactor's
`doApply` keeps that bound. -/
theorem operator_sequences (ctx : ApplyContext) (doApply : Transactor → ViewM TER)
    (found : before.account? ctx.tx.account = some root)
    (keeps : ∀ self, Triple
      (Tracks sequenceOf (SequenceBound before ctx.tx.account ((ctx.tx.sequence + 1) % 2 ^ 32))
        (SequenceBound before ctx.tx.account ((ctx.tx.sequence + 1) % 2 ^ 32)))
      (doApply self)
      (fun _ => Tracks sequenceOf (SequenceBound before ctx.tx.account ((ctx.tx.sequence + 1) % 2 ^ 32))
        (SequenceBound before ctx.tx.account ((ctx.tx.sequence + 1) % 2 ^ 32))))
    {after : OpenView} {ter : TER} (run : operator ctx doApply before = some (ter, true, after))
    (key : Key) :
    SequenceBound before ctx.tx.account ((ctx.tx.sequence + 1) % 2 ^ 32) key
      (sequenceOf key (after.read key)) := by
  obtain ⟨terResult, view, stage, rfl, branch⟩ := operator_eq_some run
  rcases branch with ⟨-, fee, view', claimed, applyRun⟩ | ⟨-, success, applyRun⟩ |
    ⟨-, -, notApplied, -⟩
  · -- The fee-claim path, on a fresh table.
    obtain ⟨-, -, -, rfl⟩ := applyView_eq_some applyRun
    have tracks := claimFee_sequences ctx _ _ _ found before (ApplyViewImpl.fresh ctx.flags) fee
      view' ⟨rfl, rfl⟩ claimed
    rw [read_apply]
    exact tracks.bound_applied tracks.cached key
  · -- The transactor succeeded: its own table is applied.
    obtain ⟨-, -, -, rfl⟩ := applyView_eq_some applyRun
    have tracks : Tracks sequenceOf
        (SequenceBound before ctx.tx.account ((ctx.tx.sequence + 1) % 2 ^ 32))
        (SequenceBound before ctx.tx.account ((ctx.tx.sequence + 1) % 2 ^ 32)) before view := by
      unfold applyStage at stage
      split at stage
      · exact Transactor.apply_sequences ctx doApply found keeps before _ terResult view
          ⟨rfl, rfl⟩ stage (by simpa [TER.isTesSuccess] using success)
      · -- A failed check is not a success.
        rename_i failed
        simp only [Option.some.injEq, Prod.mk.injEq] at stage
        obtain ⟨rfl, -⟩ := stage
        simp [TER.isTesSuccess] at success
        simp [success] at failed
    rw [read_apply]
    exact tracks.bound_applied tracks.cached key
  · cases notApplied

/-! ## The transactors keep sequences -/

/-- A `doApply` that keeps sequences: it keeps every bound on them that lets an absent
account be created with sequence 1. -/
def KeepsSequences (doApply : ApplyContext → Transactor → ViewM TER) : Prop :=
  ∀ (okV : Key → Option Nat → Prop), (∀ id, okV (.account id) none → okV (.account id) (some 1)) →
    ∀ ctx self, Triple (Tracks sequenceOf okV okV) (doApply ctx self)
      (fun _ => Tracks sequenceOf okV okV)

section creates

variable {okV : Key → Option Nat → Prop}

end creates

/-- What `apply` needs of a transactor to advance sequences: its `preflight` never returns a
code that claims a fee, and its `doApply` keeps sequences. -/
structure SequenceSafe (kind : TransactorKind) : Prop where
  preflight : ∀ tx rules flags, (kind.preflight tx rules flags).isTecClaim = false
  keeps : KeepsSequences kind.doApply

/-- The checks of a transaction that `apply` applies passed `checkSeq`: a result likely to
claim a fee comes from `invoke_preclaim`, which returns every refusal of `checkSeq` as it
is. -/
theorem apply_checkSeq {kind : TransactorKind} (safe : SequenceSafe kind) {config : Config}
    {before after : OpenView} {tx : STTx} {flags : ApplyFlags} {ter : TER}
    (fromAccount : tx.account ≠ AccountID.zero)
    (run : apply kind config before tx flags = some (ter, true, after)) :
    ∃ result : PreclaimResult, result.tx = tx ∧ result.flags = flags ∧
      Transactor.checkSeq before tx flags = tesSUCCESS ∧
      operator (result.context config) (kind.doApply (result.context config)) before =
        some (ter, true, after) := by
  obtain ⟨result, checked, applied⟩ := Option.bind_eq_some_iff.mp run
  obtain ⟨likely, -, operated⟩ := doApply_applied applied
  obtain ⟨sameTx, sameFlags, origin⟩ := preclaim_eq_some checked
  refine ⟨result, sameTx, sameFlags, ?_, operated⟩
  rcases origin with ⟨notSuccess, fromPreflight⟩ | invoked
  · -- A `preflight` result likely to claim a fee would be a `tec` code, which no
    -- sequence-safe `preflight` returns.
    have claims : result.ter.isTecClaim = true := by
      simpa [PreclaimResult.likelyToClaimFee, notSuccess] using likely
    rcases fromPreflight with same | same <;> rw [same] at claims <;>
      simp [preflight, safe.preflight] at claims
  · rw [sameTx, sameFlags] at invoked
    exact invokePreclaim_checkSeq invoked fromAccount likely

/-- `ripple::apply` of a transaction from an account, with flags without `tapPOST_SEQ`,
through a sequence-safe transactor: an applied transaction carried the sender's sequence,
and leaves every account within the bound of the next one. -/
theorem apply_sequences {kind : TransactorKind} (safe : SequenceSafe kind) {config : Config}
    {before after : OpenView} {tx : STTx} {flags : ApplyFlags} {ter : TER}
    (noPostSeq : flags.has .tapPOST_SEQ = false) (fromAccount : tx.account ≠ AccountID.zero)
    (run : apply kind config before tx flags = some (ter, true, after)) :
    (∃ root, before.account? tx.account = some root ∧ root.sequence = tx.sequence) ∧
      ∀ key, SequenceBound before tx.account ((tx.sequence + 1) % 2 ^ 32) key
        (sequenceOf key (after.read key)) := by
  obtain ⟨result, rfl, rfl, passed, operated⟩ := apply_checkSeq safe fromAccount run
  obtain ⟨root, found, current⟩ := checkSeq_sequence passed noPostSeq
  refine ⟨⟨root, found, current⟩, fun key => ?_⟩
  exact operator_sequences (result.context config) _ found
    (fun self => safe.keeps _ (fun _ absent => SequenceBound.creates absent) _ self) operated key

end runs

/-! ## What a transaction leaves of each account's sequence -/

section advance

variable {before after : OpenView} {sender : AccountID} {next : Nat}

/-- The sender's root after a run within the bound is at the next sequence. -/
theorem SequenceBound.sender_root
    (bound : SequenceBound before sender next (.account sender)
      (sequenceOf (.account sender) (after.read (.account sender)))) :
    ∃ root, after.account? sender = some root ∧ root.sequence = next := by
  simpa [SequenceBound, sequenceOf_read] using bound

/-- Another account keeps its sequence, or has none before and 1 after. -/
theorem SequenceBound.other_sequence {id : AccountID}
    (bound : SequenceBound before sender next (.account id)
      (sequenceOf (.account id) (after.read (.account id))))
    (other : id ≠ sender) :
    (after.account? id).map AccountRoot.sequence = (before.account? id).map AccountRoot.sequence ∨
      (before.account? id = none ∧ (after.account? id).map AccountRoot.sequence = some 1) := by
  have differs : Key.account id ≠ .account sender := fun same => other (Key.account.inj same)
  simpa [SequenceBound, differs, sequenceOf_read] using bound

/-- Another account with a root keeps it at its sequence. -/
theorem SequenceBound.other_root {id : AccountID} {root : AccountRoot}
    (bound : SequenceBound before sender next (.account id)
      (sequenceOf (.account id) (after.read (.account id))))
    (other : id ≠ sender) (found : before.account? id = some root) :
    ∃ root', after.account? id = some root' ∧ root'.sequence = root.sequence := by
  rcases bound.other_sequence other with same | ⟨absent, -⟩
  · simpa [found] using same
  · simp [found] at absent

end advance

/-- A new open ledger on the same state map sees the same account roots. -/
theorem account?_of_stateMap {ledger next : OpenView} (same : next.stateMap = ledger.stateMap)
    (id : AccountID) : next.account? id = ledger.account? id := by
  unfold OpenView.account? OpenView.read
  rw [same]

/-- The 32-bit successor of a sequence is never that sequence. -/
theorem next_sequence_ne (sequence : Nat) : (sequence + 1) % 2 ^ 32 ≠ sequence := by
  omega

/-! ## Histories of the engine -/

/-- A history of the engine from one ledger to another: transactions of any type whose
transactor is sequence-safe applied through `ripple::apply` without `tapPOST_SEQ` (the
queue's paths reduce to it), submissions of any transactor that `apply` does not apply, and
new open ledgers on the state reached.  The log lists the sender and sequence of each
applied transaction, in order. -/
inductive History (config : Config) : OpenView → List (AccountID × Nat) → OpenView → Prop
  | nil (ledger : OpenView) : History config ledger [] ledger
  | applied {ledger middle final : OpenView} {log : List (AccountID × Nat)} {kind : TransactorKind}
      {tx : STTx} {flags : ApplyFlags} {ter : TER} (safe : SequenceSafe kind)
      (noPostSeq : flags.has .tapPOST_SEQ = false) (fromAccount : tx.account ≠ AccountID.zero)
      (run : apply kind config ledger tx flags = some (ter, true, middle))
      (rest : History config middle log final) :
      History config ledger ((tx.account, tx.sequence) :: log) final
  | refused {ledger middle final : OpenView} {log : List (AccountID × Nat)} {kind : TransactorKind}
      {tx : STTx} {flags : ApplyFlags} {ter : TER}
      (run : apply kind config ledger tx flags = some (ter, false, middle))
      (rest : History config middle log final) :
      History config ledger log final
  | reopened {ledger next final : OpenView} {log : List (AccountID × Nat)}
      (same : next.stateMap = ledger.stateMap) (rest : History config next log final) :
      History config ledger log final

section history

variable {config : Config}

/-- A history splits where its log does. -/
theorem History.split {ledger final : OpenView} {first second : List (AccountID × Nat)}
    (history : History config ledger (first ++ second) final) :
    ∃ middle, History config ledger first middle ∧ History config middle second final := by
  generalize joined : first ++ second = log at history
  induction history generalizing first with
  | nil ledger =>
    obtain ⟨rfl, rfl⟩ := List.append_eq_nil_iff.mp joined
    exact ⟨ledger, .nil _, .nil _⟩
  | applied safe noPostSeq fromAccount run rest ih =>
    cases first with
    | nil =>
      rw [List.nil_append] at joined
      subst joined
      exact ⟨_, .nil _, .applied safe noPostSeq fromAccount run rest⟩
    | cons entry first =>
      obtain ⟨rfl, rejoined⟩ := List.cons_eq_cons.mp joined
      obtain ⟨middle, front, back⟩ := ih rejoined
      exact ⟨middle, .applied safe noPostSeq fromAccount run front, back⟩
  | refused run rest ih =>
    obtain ⟨middle, front, back⟩ := ih joined
    exact ⟨middle, .refused run front, back⟩
  | reopened same rest ih =>
    obtain ⟨middle, front, back⟩ := ih joined
    exact ⟨middle, .reopened same front, back⟩

/-- The first applied transaction of a history found its sender at its sequence, and the
rest of the history starts from a ledger where the sender is at the next one. -/
theorem History.head {ledger final : OpenView} {id : AccountID} {sequence : Nat}
    {log : List (AccountID × Nat)}
    (history : History config ledger ((id, sequence) :: log) final) :
    (∃ root, ledger.account? id = some root ∧ root.sequence = sequence) ∧
      ∃ middle root, History config middle log final ∧ middle.account? id = some root ∧
        root.sequence = (sequence + 1) % 2 ^ 32 := by
  generalize joined : (id, sequence) :: log = entries at history
  induction history with
  | nil => cases joined
  | applied safe noPostSeq fromAccount run rest =>
    simp only [List.cons.injEq, Prod.mk.injEq] at joined
    obtain ⟨⟨rfl, rfl⟩, rfl⟩ := joined
    obtain ⟨found, bound⟩ := apply_sequences safe noPostSeq fromAccount run
    obtain ⟨root, advanced⟩ := (bound _).sender_root
    exact ⟨found, _, root, rest, advanced⟩
  | refused run rest ih =>
    -- A refused submission leaves the ledger as it was.
    cases apply_not_applied run
    exact ih joined
  | reopened same rest ih =>
    obtain ⟨⟨root, found, current⟩, later⟩ := ih joined
    exact ⟨⟨root, by rwa [← account?_of_stateMap same], current⟩, later⟩

/-- Along a history, an account with a root keeps one, at its sequence plus the number of
transactions it sent, in 32 bits. -/
theorem History.sequence {ledger final : OpenView} {log : List (AccountID × Nat)}
    (history : History config ledger log final) {id : AccountID} {root : AccountRoot}
    (found : ledger.account? id = some root) (fits : root.sequence < 2 ^ 32) :
    ∃ root', final.account? id = some root' ∧
      root'.sequence = (root.sequence + log.countP (fun entry => entry.1 == id)) % 2 ^ 32 := by
  induction history generalizing root with
  | nil => exact ⟨root, found, by rw [List.countP_nil, Nat.add_zero, Nat.mod_eq_of_lt fits]⟩
  | @applied ledger middle final log kind tx flags ter safe noPostSeq fromAccount run rest ih =>
    obtain ⟨⟨sent, sentFound, current⟩, bound⟩ := apply_sequences safe noPostSeq fromAccount run
    by_cases sender : tx.account = id
    · -- The sender moves to the next sequence, and the rest counts from there.
      subst sender
      obtain ⟨advancedRoot, found', advanced⟩ := (bound _).sender_root
      obtain ⟨root', foundFinal, counted⟩ :=
        ih found' (advanced ▸ Nat.mod_lt _ (Nat.two_pow_pos 32))
      rw [found] at sentFound
      cases sentFound
      refine ⟨root', foundFinal, ?_⟩
      rw [counted, advanced, current, List.countP_cons_of_pos (by simp), Nat.mod_add_mod,
        Nat.add_assoc, Nat.add_comm 1]
    · -- Any other account keeps its sequence.
      obtain ⟨kept, found', same⟩ := (bound _).other_root (Ne.symm sender) found
      obtain ⟨root', foundFinal, counted⟩ := ih found' (same ▸ fits)
      refine ⟨root', foundFinal, ?_⟩
      rw [counted, same, List.countP_cons_of_neg (by simpa using sender)]
  | refused run rest ih =>
    cases apply_not_applied run
    exact ih found fits
  | reopened same rest ih =>
    exact ih (by rwa [account?_of_stateMap same]) fits

end history

/-! ## Replay protection -/

end RadardFormal.Tx
