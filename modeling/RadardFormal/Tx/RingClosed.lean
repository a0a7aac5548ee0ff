import RadardFormal.Tx.RingInvariant

/-!
# Closed rings

A ring closes when its hash is set, and its withdrawals are then verified against that hash
and its keys.  No ring transaction changes a closed ring other than by recording a
withdrawal in it: a deposit writes the ring-info entry, the ring it found open and entries it
found vacant; a cancel is confined to an open ring by its `preclaim`; a withdrawal appends its
hash and key image to the ring it pays out of, or erases it on its last withdrawal
(`applyRing_keeps_closed`).
-/

namespace RadardFormal.Tx

open RadardFormal.Protocol RadardFormal.Ledger TER

/-- What may become of a closed ring `r`: it keeps its hash, its keys and its deposit count
and may only gain accounts and key images, or it is erased by its last withdrawal. -/
def ClosedRingKept (r : Ring) : Option Ring → Prop
  | none => r.ringWithdrawed + 1 = r.ringDeposited
  | some kept => kept.ringHash = r.ringHash ∧ kept.publicKeys = r.publicKeys ∧ kept.ringDeposited = r.ringDeposited ∧
      r.accounts <+: kept.accounts ∧ r.keyImages <+: kept.keyImages

theorem ClosedRingKept.refl (r : Ring) : ClosedRingKept r (some r) :=
  ⟨rfl, rfl, rfl, List.prefix_refl _, List.prefix_refl _⟩

variable {config : Config} {crypto : RingCrypto} {ctx : RingContext} {view after : RingLedger} {tx : STTx}

theorem RingDeposit.createRing_ring {aCore : AccountID} {index : Nat}
    (created : RingDeposit.createRing config crypto ctx view tx aCore index = some (tesSUCCESS, after)) :
    view.ring (Denomination.of tx.amount) index = none ∧
      after.ring = (view.setRing (Denomination.of tx.amount) index (RingDeposit.newRing config crypto ctx tx index)).ring := by
  obtain ⟨inserted, insertedEq, transferred⟩ := Option.bind_eq_some_iff.mp created
  unfold RingLedger.insertRing at insertedEq
  split_ifs at insertedEq with vacant
  cases insertedEq
  exact ⟨vacant, RingLedger.ring_transferXRP transferred⟩

/-- A deposit leaves every closed ring as it was. -/
theorem RingDeposit.depositWith_keeps_closed {aCore : AccountID} {ringInfo : Ring} {denom : Denomination}
    {index : Nat} {r : Ring} (stored : view.ring denom index = some r) (nonzero : index ≠ 0)
    (closed : r.ringHash ≠ Uint256.zero)
    (applied : RingDeposit.depositWith config crypto ctx view tx aCore ringInfo = some (tesSUCCESS, after)) :
    after.ring denom index = some r := by
  unfold RingDeposit.depositWith at applied
  dsimp only at applied
  split_ifs at applied with stale
  · exact absurd (result_code applied) (by decide)
  -- the transaction writes the ring-info entry, entries it read as absent, and rings it read open
  have keptOfInfo : ∀ {written : RingLedger} (sle : Ring), written.ring denom index = some r →
      (written.setRing (Denomination.of tx.amount) 0 sle).ring denom index = some r := by
    intro written sle present
    rw [RingLedger.ring_setRing_of_ne _ _ (fun hit => nonzero hit.2), present]
  have keptOfVacant : ∀ {written : RingLedger} {i : Nat} (sle : Ring),
      written.ring (Denomination.of tx.amount) i = none → written.ring denom index = some r →
      (written.setRing (Denomination.of tx.amount) i sle).ring denom index = some r := by
    intro written i sle absent present
    refine (RingLedger.ring_setRing_of_ne _ _ ?_).trans present
    rintro ⟨rfl, rfl⟩
    rw [present] at absent
    cases absent
  have infoWritten := keptOfInfo ringInfo stored
  have apartOfOpen : ∀ {i : Nat} {ringSle : Ring},
      (view.setRing (Denomination.of tx.amount) 0 ringInfo).ring (Denomination.of tx.amount) i = some ringSle →
      ringSle.ringHash = Uint256.zero → ¬(denom = Denomination.of tx.amount ∧ index = i) := by
    rintro i ringSle read hashless ⟨rfl, rfl⟩
    rw [infoWritten, Option.some.injEq] at read
    subst read
    exact closed hashless
  have keptApart : ∀ {written : RingLedger} {i : Nat} (sle : Ring), ¬(denom = Denomination.of tx.amount ∧ index = i) →
      written.ring denom index = some r → (written.setRing (Denomination.of tx.amount) i sle).ring denom index = some r :=
    fun sle apart present => (RingLedger.ring_setRing_of_ne _ sle apart).trans present
  split at applied
  · obtain ⟨vacant, ringAfter⟩ := RingDeposit.createRing_ring applied
    rw [ringAfter]
    exact keptOfVacant _ vacant infoWritten
  rename_i ringSle read
  split_ifs at applied with accepting redundant closes hashless
  · exact absurd (result_code applied) (by decide)
  · rw [RingLedger.ring_transferXRP applied]
    exact keptApart _ (apartOfOpen read accepting.1) (keptOfInfo _ infoWritten)
  · rw [RingLedger.ring_transferXRP applied]
    exact keptApart _ (apartOfOpen read accepting.1) infoWritten
  -- the full ring read is closed here, unless it was closed before, and the next one opened
  · obtain ⟨vacant, ringAfter⟩ := RingDeposit.createRing_ring applied
    rw [ringAfter]
    exact keptOfVacant _ vacant (keptOfInfo _ (keptApart _ (apartOfOpen read hashless) infoWritten))
  · obtain ⟨vacant, ringAfter⟩ := RingDeposit.createRing_ring applied
    rw [ringAfter]
    exact keptOfVacant _ vacant (keptOfInfo _ infoWritten)

/-- A withdrawal keeps every closed ring, recording itself in its own. -/
theorem RingWithdraw.doApply_keeps_closed {denom : Denomination} {index : Nat} {r : Ring}
    (stored : view.ring denom index = some r) (nonzero : index ≠ 0)
    (applied : RingWithdraw.doApply config crypto ctx view tx = some (tesSUCCESS, after)) :
    ClosedRingKept r (after.ring denom index) := by
  obtain ⟨ringSle, imageX, recorded, mid, read, -, -, -, -, -, recordedEq, -, paid⟩ :=
    RingWithdraw.doApply_eq_success applied
  rw [RingLedger.ring_transferXRP paid]
  unfold RingWithdraw.recordWithdrawal at recordedEq
  dsimp only at recordedEq
  by_cases own : denom = Denomination.of tx.amount ∧ index = tx.ringIndex
  · obtain ⟨rfl, rfl⟩ := own
    rw [stored, Option.some.injEq] at read
    subst read
    split_ifs at recordedEq with last
    · obtain ⟨info, -, rfl⟩ := Option.map_eq_some_iff.mp recordedEq
      have erased : ((view.eraseRing (Denomination.of tx.amount) tx.ringIndex).ring (Denomination.of tx.amount)
          tx.ringIndex) = none := by simp [RingLedger.ring_eraseRing]
      split_ifs <;> simp only [RingLedger.ring_setRing_of_ne _ _ (fun hit => nonzero hit.2), erased] <;> exact last
    · cases recordedEq
      rw [RingLedger.ring_setRing, if_pos ⟨rfl, rfl⟩]
      exact ⟨rfl, rfl, rfl, List.prefix_append _ _, List.prefix_append _ _⟩
  · have unchanged : recorded.ring denom index = view.ring denom index := by
      split_ifs at recordedEq
      · obtain ⟨info, -, rfl⟩ := Option.map_eq_some_iff.mp recordedEq
        have erased : ((view.eraseRing (Denomination.of tx.amount) tx.ringIndex).ring denom index) =
            view.ring denom index := by rw [RingLedger.ring_eraseRing, if_neg own]
        split_ifs <;> simp only [RingLedger.ring_setRing_of_ne _ _ (fun hit => nonzero hit.2), erased]
      · cases recordedEq
        exact RingLedger.ring_setRing_of_ne _ _ own
    rw [unchanged, stored]
    exact ClosedRingKept.refl r

/-- A cancel, which `preclaim` confines to an open ring, leaves every closed ring as it was. -/
theorem RingCancel.doApply_keeps_closed {denom : Denomination} {index : Nat} {r : Ring}
    (stored : view.ring denom index = some r) (nonzero : index ≠ 0) (closed : r.ringHash ≠ Uint256.zero)
    (claimed : RingCancel.preclaim crypto view tx = some tesSUCCESS)
    (applied : RingCancel.doApply config crypto ctx view tx = some (tesSUCCESS, after)) :
    after.ring denom index = some r := by
  obtain ⟨ringSle, opened, hashless, -⟩ := RingCancel.preclaim_eq_success claimed
  have own : ¬(denom = Denomination.of tx.amount ∧ index = tx.ringIndex) := by
    rintro ⟨rfl, rfl⟩
    rw [stored, Option.some.injEq] at opened
    subst opened
    exact closed hashless
  obtain ⟨cancelled, kept, written, mid, -, -, -, shape, -, paid⟩ := RingCancel.doApply_eq_success applied
  rw [RingLedger.ring_transferXRP paid]
  rcases shape with ⟨-, info, -, rfl⟩ | ⟨-, rfl⟩
  · rw [RingLedger.ring_eraseRing, if_neg own, RingLedger.ring_setRing_of_ne _ _ (fun hit => nonzero hit.2), stored]
  · rw [RingLedger.ring_setRing_of_ne _ _ own, stored]

/-- Every ring transaction, from a ledger where the zero account has no root, keeps each
closed ring: a withdrawal may only record itself in it or, as its last one, erase it. -/
theorem applyRing_keeps_closed {ter : TER} {denom : Denomination} {index : Nat} {r : Ring}
    (zeroRoot : view.balanceVBC AccountID.zero = none)
    (stored : view.ring denom index = some r) (nonzero : index ≠ 0) (closed : r.ringHash ≠ Uint256.zero)
    (applied : applyRing config crypto ctx view tx = some (ter, after)) :
    ClosedRingKept r (after.ring denom index) := by
  rcases applyRing_eq_some applied with ⟨-, rfl⟩ | ⟨-, -, claimed, doApplied⟩
  · rw [stored]
    exact ClosedRingKept.refl r
  -- a success paid or debited the sender's root, so the cancel's preclaim was run
  obtain ⟨-, -, senderRoot, -, -⟩ := ringDoApply_moves doApplied
  have claimed := claimed fun zero => senderRoot (zero ▸ zeroRoot)
  unfold ringPreclaim at claimed
  unfold ringDoApply at doApplied
  split at doApplied
  · obtain ⟨aCore, -, -, deposited⟩ := RingDeposit.doApply_eq_depositWith doApplied
    rw [RingDeposit.depositWith_keeps_closed stored nonzero closed deposited]
    exact ClosedRingKept.refl r
  · exact RingWithdraw.doApply_keeps_closed stored nonzero doApplied
  · rename_i cancel
    simp only [cancel] at claimed
    rw [RingCancel.doApply_keeps_closed stored nonzero closed claimed doApplied]
    exact ClosedRingKept.refl r
  · exact absurd (result_code doApplied) (by decide)

theorem applyRing_keeps_closed_lastWithdrawal :
    ∃ r after, runRing mixerConfig mixerCrypto mixerRoots mixerRun = some ([tesSUCCESS, tesSUCCESS, tesSUCCESS], mixerClosed) ∧
      mixerClosed.ring (Denomination.of (STAmount.ofDrops true 5)) 1 = some r ∧ r.ringHash ≠ Uint256.zero ∧
      applyRing mixerConfig mixerCrypto ⟨4, false⟩ mixerClosed
        (mixerTx .ttRING_WITHDRAW 5 [Uint256.ofNat 13, Uint256.ofNat 14]) = some (tesSUCCESS, after) ∧
      ClosedRingKept r (after.ring (Denomination.of (STAmount.ofDrops true 5)) 1) :=
  ⟨_, _, rfl, rfl, by decide, rfl,
    @applyRing_keeps_closed mixerConfig mixerCrypto ⟨4, false⟩ mixerClosed _
      (mixerTx .ttRING_WITHDRAW 5 [Uint256.ofNat 13, Uint256.ofNat 14]) tesSUCCESS _ 1 _ rfl rfl (by decide) (by decide)
      rfl⟩

end RadardFormal.Tx
