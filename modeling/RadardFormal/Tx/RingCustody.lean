import RadardFormal.Tx.Ring

/-!
# What the ring transactions move

Every successful ring transaction moves its amount of VBC between the sender and the mid
account of the `[secret_tx]` section, through `transferXRP`: a deposit pays it in, a
withdrawal or a cancel pays it out, and nothing else changes a balance
(`ringDoApply_moves`).  Over a run, each account's VBC balance has moved by exactly what the
successful transactions moved (`runRing_balances`).  The sign of the amount is not looked at
by `RingDeposit::preflight`, so these are statements about signed amounts.

Because `transferXRP` dereferences the sender's root, a transaction from the zero account,
which has none, never succeeds.
-/

namespace RadardFormal.Tx

open RadardFormal.Protocol RadardFormal.Ledger TER

variable {config : Config} {crypto : RingCrypto} {ctx : RingContext} {view after : RingLedger} {tx : STTx}

theorem result_code {ter : TER} {v w : RingLedger} (same : some (ter, v) = some (tesSUCCESS, w)) :
    ter = tesSUCCESS :=
  congrArg Prod.fst (Option.some.inj same)

theorem RingDeposit.createRing_moves {aCore : AccountID} {index : Nat}
    (created : RingDeposit.createRing config crypto ctx view tx aCore index = some (tesSUCCESS, after)) :
    view.balanceVBC tx.account ≠ none ∧ view.balanceVBC aCore ≠ none ∧
      after.balanceVBC = view.moved tx.account aCore tx.amount.xrp := by
  obtain ⟨inserted, insertedEq, transferred⟩ := Option.bind_eq_some_iff.mp created
  unfold RingLedger.insertRing at insertedEq
  split_ifs at insertedEq
  cases insertedEq
  simpa using RingLedger.transferXRP_moves transferred

theorem RingDeposit.depositWith_moves {aCore : AccountID} {ringInfo : Ring}
    (applied : RingDeposit.depositWith config crypto ctx view tx aCore ringInfo = some (tesSUCCESS, after)) :
    view.balanceVBC tx.account ≠ none ∧ view.balanceVBC aCore ≠ none ∧
      after.balanceVBC = view.moved tx.account aCore tx.amount.xrp := by
  unfold RingDeposit.depositWith at applied
  dsimp only at applied
  split_ifs at applied with stale
  · exact absurd (result_code applied) (by decide)
  split at applied
  · simpa using RingDeposit.createRing_moves applied
  split_ifs at applied with accepting redundant closes hashless
  · exact absurd (result_code applied) (by decide)
  · simpa using RingLedger.transferXRP_moves applied
  · simpa using RingLedger.transferXRP_moves applied
  · simpa using RingDeposit.createRing_moves applied
  · simpa using RingDeposit.createRing_moves applied

/-- A successful deposit found the mid account's root and deposited against the ring-info
entry, or the one it makes. -/
theorem RingDeposit.doApply_eq_depositWith
    (applied : RingDeposit.doApply config crypto ctx view tx = some (tesSUCCESS, after)) :
    ∃ aCore, config.midAccount = some aCore ∧ view.balanceVBC aCore ≠ none ∧
      RingDeposit.depositWith config crypto ctx view tx aCore
        ((view.ring (Denomination.of tx.amount) 0).getD { Ring.blank with ringIndex := 1 }) =
          some (tesSUCCESS, after) := by
  unfold RingDeposit.doApply at applied
  split at applied
  · exact absurd (result_code applied) (by decide)
  rename_i aCore configured
  split_ifs at applied with noCore
  · exact absurd (result_code applied) (by decide)
  exact ⟨aCore, configured, noCore, applied⟩

theorem RingDeposit.doApply_moves (applied : RingDeposit.doApply config crypto ctx view tx = some (tesSUCCESS, after)) :
    ∃ mid, config.midAccount = some mid ∧ view.balanceVBC tx.account ≠ none ∧ view.balanceVBC mid ≠ none ∧
      after.balanceVBC = view.moved tx.account mid tx.amount.xrp := by
  obtain ⟨aCore, configured, -, deposited⟩ := RingDeposit.doApply_eq_depositWith applied
  exact ⟨aCore, configured, RingDeposit.depositWith_moves deposited⟩

/-- What a successful `RingWithdraw` did: it found a closed ring with a withdrawal left and
no withdrawal of the sender's, verified the ring signature, found the key image unspent,
recorded the withdrawal and paid the amount out of the mid account. -/
theorem RingWithdraw.doApply_eq_success
    (applied : RingWithdraw.doApply config crypto ctx view tx = some (tesSUCCESS, after)) :
    ∃ ringSle imageX recorded mid, view.ring (Denomination.of tx.amount) tx.ringIndex = some ringSle ∧
      ringSle.ringWithdrawed < ringSle.ringDeposited ∧ ringSle.ringHash ≠ Uint256.zero ∧
      RingWithdraw.withdrawHash crypto tx ∉ ringSle.accounts ∧ tx.keyImage[0]? = some imageX ∧
      RingWithdraw.spentImage imageX ringSle.keyImages = some false ∧
      RingWithdraw.recordWithdrawal crypto view tx ringSle = some recorded ∧ config.midAccount = some mid ∧
      recorded.transferXRP ctx mid tx.account tx.amount = some (tesSUCCESS, after) := by
  unfold RingWithdraw.doApply at applied
  rcases stored : view.ring (Denomination.of tx.amount) tx.ringIndex with _ | ringSle <;> rw [stored] at applied
  · exact absurd (result_code applied) (by decide)
  dsimp only at applied
  split_ifs at applied with notClosed dry hashless redundant
  iterate 4 exact absurd (result_code applied) (by decide)
  obtain ⟨verified, -, applied⟩ := Option.bind_eq_some_iff.mp applied
  cases verified
  · exact absurd (result_code applied) (by decide)
  simp only [Bool.not_true, Bool.false_eq_true, if_false] at applied
  obtain ⟨imageX, imageAt, applied⟩ := Option.bind_eq_some_iff.mp applied
  obtain ⟨spent, scanned, applied⟩ := Option.bind_eq_some_iff.mp applied
  cases spent
  · simp only [Bool.false_eq_true, if_false] at applied
    obtain ⟨recorded, recordedEq, applied⟩ := Option.bind_eq_some_iff.mp applied
    split at applied
    · exact absurd (result_code applied) (by decide)
    · rename_i mid configured
      exact ⟨ringSle, imageX, recorded, mid, rfl, by omega, hashless, redundant, imageAt, scanned, recordedEq,
        configured, applied⟩
  · exact absurd (result_code applied) (by decide)

/-- Recording a withdrawal writes ring entries only. -/
theorem RingWithdraw.balanceVBC_recordWithdrawal {ringSle : Ring} {recorded : RingLedger}
    (recordedEq : RingWithdraw.recordWithdrawal crypto view tx ringSle = some recorded) :
    recorded.balanceVBC = view.balanceVBC := by
  unfold RingWithdraw.recordWithdrawal at recordedEq
  dsimp only at recordedEq
  split_ifs at recordedEq
  · obtain ⟨info, -, rfl⟩ := Option.map_eq_some_iff.mp recordedEq
    split_ifs <;> rfl
  · cases recordedEq
    rfl

theorem RingWithdraw.doApply_moves (applied : RingWithdraw.doApply config crypto ctx view tx = some (tesSUCCESS, after)) :
    ∃ mid, config.midAccount = some mid ∧ view.balanceVBC tx.account ≠ none ∧ view.balanceVBC mid ≠ none ∧
      after.balanceVBC = view.moved mid tx.account tx.amount.xrp := by
  obtain ⟨ringSle, imageX, recorded, mid, -, -, -, -, -, -, recordedEq, configured, paid⟩ :=
    RingWithdraw.doApply_eq_success applied
  obtain ⟨midRoot, senderRoot, balances⟩ :=
    RingLedger.transferXRP_moves_from (RingWithdraw.balanceVBC_recordWithdrawal recordedEq) paid
  exact ⟨mid, configured, senderRoot, midRoot, balances⟩

/-- What a successful `RingCancel` did: it found the ring, verified the ring signature,
found the sender's deposit hash and key, removed them (erasing the ring, and moving the
ring-info entry on, when no key was left) and paid the amount back out of the mid account. -/
theorem RingCancel.doApply_eq_success
    (applied : RingCancel.doApply config crypto ctx view tx = some (tesSUCCESS, after)) :
    ∃ ringSle kept written mid, view.ring (Denomination.of tx.amount) tx.ringIndex = some ringSle ∧
      RingDeposit.depositHash crypto tx tx.ringIndex ∈ ringSle.accounts ∧
      RingCancel.recallKeys tx.publicKeyPair ringSle.publicKeys = some (kept, true) ∧
      ((kept = [] ∧ ∃ info, view.ring (Denomination.of tx.amount) 0 = some info ∧
          written = (view.setRing (Denomination.of tx.amount) 0
            { info with ringIndex := (info.ringIndex + 1) % 2 ^ 32 }).eraseRing (Denomination.of tx.amount) tx.ringIndex) ∨
        (kept ≠ [] ∧ written = view.setRing (Denomination.of tx.amount) tx.ringIndex
          { ringSle with
            accounts := ringSle.accounts.erase (RingDeposit.depositHash crypto tx tx.ringIndex)
            publicKeys := kept
            ringDeposited := (ringSle.ringDeposited + 2 ^ 32 - 1) % 2 ^ 32 })) ∧
      config.midAccount = some mid ∧ written.transferXRP ctx mid tx.account tx.amount = some (tesSUCCESS, after) := by
  unfold RingCancel.doApply at applied
  dsimp only at applied
  rcases stored : view.ring (Denomination.of tx.amount) tx.ringIndex with _ | ringSle <;> rw [stored] at applied
  · exact absurd (result_code applied) (by decide)
  dsimp only at applied
  obtain ⟨verified, -, applied⟩ := Option.bind_eq_some_iff.mp applied
  cases verified
  · exact absurd (result_code applied) (by decide)
  simp only [Bool.not_true, Bool.false_eq_true, if_false] at applied
  by_cases known : RingDeposit.depositHash crypto tx tx.ringIndex ∈ ringSle.accounts
  swap
  · rw [if_pos known] at applied
    exact absurd (result_code applied) (by decide)
  rw [if_neg (not_not.mpr known)] at applied
  obtain ⟨⟨kept, removed⟩, recalled, applied⟩ := Option.bind_eq_some_iff.mp applied
  cases removed
  · exact absurd (result_code applied) (by decide)
  simp only [Bool.not_true, Bool.false_eq_true, if_false] at applied
  split_ifs at applied with emptied
  · split at applied
    · exact absurd (result_code applied) (by decide)
    · rename_i info infoRead
      obtain ⟨written, writtenEq, applied⟩ := Option.bind_eq_some_iff.mp applied
      obtain ⟨mid, configured, paid⟩ := Option.bind_eq_some_iff.mp applied
      exact ⟨ringSle, kept, written, mid, rfl, known, recalled,
        .inl ⟨List.isEmpty_iff.mp emptied, info, infoRead, (Option.some.inj writtenEq).symm⟩, configured, paid⟩
  · obtain ⟨written, writtenEq, applied⟩ := Option.bind_eq_some_iff.mp applied
    obtain ⟨mid, configured, paid⟩ := Option.bind_eq_some_iff.mp applied
    exact ⟨ringSle, kept, written, mid, rfl, known, recalled,
      .inr ⟨fun empty => emptied (List.isEmpty_iff.mpr empty), (Option.some.inj writtenEq).symm⟩, configured, paid⟩

theorem RingCancel.doApply_moves (applied : RingCancel.doApply config crypto ctx view tx = some (tesSUCCESS, after)) :
    ∃ mid, config.midAccount = some mid ∧ view.balanceVBC tx.account ≠ none ∧ view.balanceVBC mid ≠ none ∧
      after.balanceVBC = view.moved mid tx.account tx.amount.xrp := by
  obtain ⟨ringSle, kept, written, mid, -, -, -, shape, configured, paid⟩ := RingCancel.doApply_eq_success applied
  -- both shapes write ring entries only
  have balancesKept : written.balanceVBC = view.balanceVBC := by
    rcases shape with ⟨-, info, -, rfl⟩ | ⟨-, rfl⟩ <;> rfl
  obtain ⟨midRoot, senderRoot, balances⟩ := RingLedger.transferXRP_moves_from balancesKept paid
  exact ⟨mid, configured, senderRoot, midRoot, balances⟩

/-- What a ring transaction pays into the mid account: a deposit its amount, a withdrawal or
a cancel the amount's opposite. -/
def ringInflow (tx : STTx) : Int :=
  if tx.txnType = .ttRING_DEPOSIT then tx.amount.xrp else -tx.amount.xrp

theorem ringDoApply_moves (applied : ringDoApply config crypto ctx view tx = some (tesSUCCESS, after)) :
    ∃ mid, config.midAccount = some mid ∧ view.balanceVBC tx.account ≠ none ∧ view.balanceVBC mid ≠ none ∧
      after.balanceVBC = view.moved tx.account mid (ringInflow tx) := by
  unfold ringDoApply at applied
  split at applied
  · rename_i deposit
    simpa [ringInflow, deposit] using RingDeposit.doApply_moves applied
  · rename_i withdraw
    obtain ⟨mid, configured, senderRoot, midRoot, balances⟩ := RingWithdraw.doApply_moves applied
    refine ⟨mid, configured, senderRoot, midRoot, ?_⟩
    rw [balances, ringInflow, if_neg (by simp [withdraw]), RingLedger.moved_neg]
  · rename_i cancel
    obtain ⟨mid, configured, senderRoot, midRoot, balances⟩ := RingCancel.doApply_moves applied
    refine ⟨mid, configured, senderRoot, midRoot, ?_⟩
    rw [balances, ringInflow, if_neg (by simp [cancel]), RingLedger.moved_neg]
  · exact absurd (result_code applied) (by decide)

/-- What `applyRing` does: a refused transaction leaves the ledger as it is; an applied one
passed its preflight, its preclaim unless the sender is the zero account, and its
`doApply`. -/
theorem applyRing_eq_some {ter : TER} (applied : applyRing config crypto ctx view tx = some (ter, after)) :
    (ter ≠ tesSUCCESS ∧ after = view) ∨
    (ter = tesSUCCESS ∧ ringPreflight config crypto tx = tesSUCCESS ∧
      (tx.account ≠ AccountID.zero → ringPreclaim crypto view tx = some tesSUCCESS) ∧
      ringDoApply config crypto ctx view tx = some (tesSUCCESS, after)) := by
  unfold applyRing at applied
  dsimp only at applied
  split_ifs at applied with refused
  · obtain ⟨rfl, rfl⟩ := Prod.mk.inj (Option.some.inj applied)
    exact .inl ⟨refused, rfl⟩
  obtain ⟨claimedTer, claimed, applied⟩ := Option.bind_eq_some_iff.mp applied
  split_ifs at applied with rejected
  · obtain ⟨rfl, rfl⟩ := Prod.mk.inj (Option.some.inj applied)
    exact .inl ⟨rejected, rfl⟩
  obtain ⟨⟨doneTer, done⟩, doApplied, result⟩ := Option.map_eq_some_iff.mp applied
  dsimp only at result
  split_ifs at result with succeeded
  · obtain ⟨rfl, rfl⟩ := Prod.mk.inj result
    refine .inr ⟨succeeded, not_not.mp refused, fun sender => ?_, succeeded ▸ doApplied⟩
    unfold ringInvokePreclaim at claimed
    rw [if_pos sender] at claimed
    split_ifs at claimed
    · cases claimed
      exact absurd (not_not.mp rejected) (by decide)
    · rw [claimed, not_not.mp rejected]
  · obtain ⟨rfl, rfl⟩ := Prod.mk.inj result
    exact .inl ⟨succeeded, rfl⟩

/-- The VBC balances after a ring transaction: moved by the transaction's inflow between the
sender and the mid account when it succeeded, unchanged otherwise. -/
theorem applyRing_balances {mid : AccountID} (configured : config.midAccount = some mid) {ter : TER}
    (applied : applyRing config crypto ctx view tx = some (ter, after)) :
    after.balanceVBC = if ter = tesSUCCESS then view.moved tx.account mid (ringInflow tx) else view.balanceVBC := by
  rcases applyRing_eq_some applied with ⟨refused, rfl⟩ | ⟨rfl, -, -, doApplied⟩
  · rw [if_neg refused]
  · obtain ⟨mid', configured', -, -, balances⟩ := ringDoApply_moves doApplied
    rw [configured, Option.some.injEq] at configured'
    subst configured'
    rw [if_pos rfl, balances]

/-- What one result moves into an account's VBC balance: a success moves the transaction's
inflow out of the sender and into the mid account. -/
def ringMoved (mid account : AccountID) (ter : TER) (tx : STTx) : Int :=
  if ter = tesSUCCESS then (if account = mid then ringInflow tx else 0) - (if account = tx.account then ringInflow tx else 0)
  else 0

/-- What a run moves into an account's VBC balance, over its results and transactions. -/
def ringMovedIn (mid account : AccountID) (ters : List TER) (run : List (RingContext × STTx)) : Int :=
  ((ters.zip run).map fun (ter, step) => ringMoved mid account ter step.2).sum

theorem moved_eq_ringMoved {mid : AccountID} {ter : TER} (account : AccountID) (succeeded : ter = tesSUCCESS) :
    view.moved tx.account mid (ringInflow tx) account =
      (view.balanceVBC account).map (· + ringMoved mid account ter tx) := by
  unfold RingLedger.moved ringMoved
  rw [if_pos succeeded]
  congr 1
  funext balance
  split_ifs <;> omega

theorem runRing_cons_eq_some {context : RingContext} {rest : List (RingContext × STTx)} {ters : List TER}
    {last : RingLedger} (ran : runRing config crypto view ((context, tx) :: rest) = some (ters, last)) :
    ∃ ter next later, applyRing config crypto context view tx = some (ter, next) ∧
      runRing config crypto next rest = some (later, last) ∧ ters = ter :: later := by
  simp only [runRing] at ran
  obtain ⟨⟨ter, next⟩, stepped, ran⟩ := Option.bind_eq_some_iff.mp ran
  obtain ⟨⟨later, last'⟩, ranRest, result⟩ := Option.bind_eq_some_iff.mp ran
  obtain ⟨rfl, rfl⟩ := Prod.mk.inj (Option.some.inj result)
  exact ⟨ter, next, later, stepped, ranRest, rfl⟩

/-- Custody of the mixer over a run: every account's VBC balance ends moved by exactly what
the run's successful ring transactions moved into it. -/
theorem runRing_balances {mid : AccountID} (configured : config.midAccount = some mid)
    {run : List (RingContext × STTx)} {ters : List TER} (ran : runRing config crypto view run = some (ters, after))
    (account : AccountID) :
    after.balanceVBC account = (view.balanceVBC account).map (· + ringMovedIn mid account ters run) := by
  -- induction on the run, the first transaction's move added to those of the rest
  induction run generalizing view ters with
  | nil =>
    obtain ⟨rfl, rfl⟩ := Prod.mk.inj (Option.some.inj ran)
    simp [ringMovedIn]
  | cons step rest ih =>
    obtain ⟨context, tx⟩ := step
    obtain ⟨ter, next, later, stepped, ranRest, rfl⟩ := runRing_cons_eq_some ran
    have nextBalance : next.balanceVBC account = (view.balanceVBC account).map (· + ringMoved mid account ter tx) := by
      rw [applyRing_balances configured stepped]
      split_ifs with succeeded
      · exact moved_eq_ringMoved account succeeded
      · simp [ringMoved, succeeded]
    rw [ih ranRest, nextBalance, Option.map_map]
    simp only [ringMovedIn, List.zip_cons_cons, List.map_cons, List.sum_cons]
    congr 1
    funext balance
    simp only [Function.comp_apply]
    omega

/-- A mixer whose account hash is the account's value, whose ring hash is constant and whose
curve test and ring verification accept. -/
def mixerCrypto : RingCrypto :=
  ⟨fun _ account _ _ => Uint256.ofNat account.val.val, fun _ _ _ => Uint256.ofNat 9, fun _ _ => true,
    fun _ _ _ _ _ _ => true⟩

/-- Rings of two participants, with account two as the mid account and five-drop deposits. -/
def mixerConfig : Config := ⟨some ⟨some (AccountID.ofNat 2), 2, 0, 10, [5]⟩⟩

/-- No ring yet, and accounts one to five funded. -/
def mixerRoots : RingLedger :=
  ⟨fun _ _ => none, fun account => if account.val.val ∈ [1, 2, 3, 4, 5] then some 100 else none⟩

/-- A five-drop ring transaction on ring one, whose key pair and key image are both `keys`. -/
def mixerTx (txnType : TxType) (account : Nat) (keys : List Uint256) : STTx :=
  { STTx.make txnType (AccountID.ofNat account) 1 10 with
    amount := STAmount.ofDrops true 5
    ringIndex := 1
    publicKeyPair := keys
    keyImage := keys
    signatures := [Uint256.zero, Uint256.zero] }

/-- Accounts one and three fill ring one, which closes, and account four withdraws from it. -/
def mixerRun : List (RingContext × STTx) :=
  [(⟨1, false⟩, mixerTx .ttRING_DEPOSIT 1 [Uint256.ofNat 3, Uint256.ofNat 4]),
   (⟨2, false⟩, mixerTx .ttRING_DEPOSIT 3 [Uint256.ofNat 5, Uint256.ofNat 6]),
   (⟨3, false⟩, mixerTx .ttRING_WITHDRAW 4 [Uint256.ofNat 11, Uint256.ofNat 12])]

/-- The ledger the run leaves: ring one closed, with one withdrawal recorded in it. -/
def mixerClosed : RingLedger :=
  ((runRing mixerConfig mixerCrypto mixerRoots mixerRun).map Prod.snd).getD mixerRoots

theorem runRing_balances_mixerRun :
    runRing mixerConfig mixerCrypto mixerRoots mixerRun = some ([tesSUCCESS, tesSUCCESS, tesSUCCESS], mixerClosed) ∧
      ∀ account, mixerClosed.balanceVBC account = (mixerRoots.balanceVBC account).map
        (· + ringMovedIn (AccountID.ofNat 2) account [tesSUCCESS, tesSUCCESS, tesSUCCESS] mixerRun) :=
  ⟨rfl, @runRing_balances mixerConfig mixerCrypto mixerRoots mixerClosed (AccountID.ofNat 2) rfl mixerRun _ rfl⟩

example : mixerClosed.balanceVBC (AccountID.ofNat 2) = some 105 := by decide

end RadardFormal.Tx
