import RadardFormal.Tx.RingCustody
import Mathlib.Data.List.InsertIdx

/-!
# What every ring transaction keeps

A ring of the mixer is well formed (`RingWF`) when the transactors can read its vectors as
they read them (key pairs and key images of two coordinates), its keys are apart as
`RingDeposit::preclaim` tests them, its key images are fresh as `RingWithdraw::doApply` tests
them, its accounts are the deposit hashes of its depositors, one for each key and in the
same order, followed by the withdrawal hashes of those who withdrew, and its counters agree
with its vectors: `sfRingDeposited` is the number of keys as a `uint32_t`,
`sfRingWithdrawed` the number of key images, and a ring that paid out is closed and has a
deposit left.

A ledger is well formed (`LedgerWF`) when its ring-info entries set only `sfRingIndex`, a
ring exists only beside its ring-info entry, every ring is well formed, and the zero account
has no root.  Every ring transaction keeps it (`applyRing_keeps_wf`), so it holds after every
run from a ledger with no rings (`ring_ledger_well_formed`).

The sender of a ring transaction is paid or debited through `transferXRP`, which
dereferences its root, so a transaction from the zero account, for which `invoke_preclaim`
runs no check, never succeeds: the preservation proofs may use what each `preclaim` tests.
-/

namespace RadardFormal.Tx

open RadardFormal.Protocol RadardFormal.Ledger TER

/-- Two key pairs of a ring as `RingDeposit::preclaim` keeps them apart: the first
coordinate of the earlier one is neither coordinate of the later one. -/
def KeysApart (earlier later : List Uint256) : Prop :=
  earlier[0]? ≠ later[0]? ∧ earlier[0]? ≠ later[1]?

/-- Two key images of a ring as `RingWithdraw::doApply` keeps them apart: the first
coordinate of the later one is neither coordinate of the earlier one. -/
def ImageFresh (earlier later : List Uint256) : Prop :=
  later[0]? ≠ earlier[0]? ∧ later[0]? ≠ earlier[1]?

theorem KeysApart.ne {earlier later : List Uint256} (apart : KeysApart earlier later) : earlier ≠ later := by
  rintro rfl
  exact apart.1 rfl

/-! ## The scans of the transactors -/

theorem RingDeposit.dupPublicKey_eq_some_false {newPk : List Uint256} {keys : List (List Uint256)}
    (clean : RingDeposit.dupPublicKey newPk keys = some false) : ∀ pk ∈ keys, KeysApart pk newPk := by
  induction keys with
  | nil => simp
  | cons pkPair rest ih =>
    intro pk member
    simp only [RingDeposit.dupPublicKey] at clean
    obtain ⟨pkx, first, clean⟩ := Option.bind_eq_some_iff.mp clean
    obtain ⟨x, newX, clean⟩ := Option.bind_eq_some_iff.mp clean
    by_cases sameX : pkx = x
    · simp [sameX] at clean
    rw [if_neg sameX] at clean
    obtain ⟨y, newY, clean⟩ := Option.bind_eq_some_iff.mp clean
    by_cases sameY : pkx = y
    · simp [sameY] at clean
    rw [if_neg sameY] at clean
    rcases List.mem_cons.mp member with rfl | later
    · refine ⟨?_, ?_⟩ <;> simp [first, newX, newY, sameX, sameY]
    · exact ih clean pk later

theorem RingWithdraw.spentImage_eq_some_false {imageX : Uint256} {images : List (List Uint256)}
    (clean : RingWithdraw.spentImage imageX images = some false) :
    ∀ image ∈ images, image[0]? ≠ some imageX ∧ image[1]? ≠ some imageX := by
  induction images with
  | nil => simp
  | cons imagePoint rest ih =>
    intro image member
    simp only [RingWithdraw.spentImage] at clean
    obtain ⟨first, firstRead, clean⟩ := Option.bind_eq_some_iff.mp clean
    by_cases sameFirst : imageX = first
    · simp [sameFirst] at clean
    rw [if_neg sameFirst] at clean
    obtain ⟨second, secondRead, clean⟩ := Option.bind_eq_some_iff.mp clean
    by_cases sameSecond : imageX = second
    · simp [sameSecond] at clean
    rw [if_neg sameSecond] at clean
    rcases List.mem_cons.mp member with rfl | later
    · refine ⟨?_, ?_⟩
      · rw [firstRead]
        exact fun same => sameFirst (Option.some_injective _ same).symm
      · rw [secondRead]
        exact fun same => sameSecond (Option.some_injective _ same).symm
    · exact ih clean image later

theorem RingCancel.samePair_of_length {keyPair pk : List Uint256} (pairRead : keyPair.length = 2)
    (pkRead : pk.length = 2) : RingCancel.samePair keyPair pk = some (decide (keyPair = pk)) := by
  match keyPair, pk, pairRead, pkRead with
  | [x, y], [px, py], _, _ =>
    by_cases sameX : x = px <;> by_cases sameY : y = py <;> simp [RingCancel.samePair, sameX, sameY]

/-- Over keys of two coordinates, `recallKeys` removes exactly the copies of the canceller's
key. -/
theorem RingCancel.recallKeys_of_length {pk : List Uint256} {keys : List (List Uint256)}
    (read : ∀ keyPair ∈ keys, keyPair.length = 2) (pkRead : pk.length = 2) :
    RingCancel.recallKeys pk keys = some (keys.filter (· != pk), decide (pk ∈ keys)) := by
  induction keys with
  | nil => rfl
  | cons keyPair rest ih =>
    have pairRead := read keyPair List.mem_cons_self
    have restRead := ih (fun other inRest => read other (List.mem_cons_of_mem _ inRest))
    have nonempty : keyPair.isEmpty = false := by
      cases keyPair with
      | nil => simp at pairRead
      | cons _ _ => rfl
    simp only [RingCancel.recallKeys, restRead, Option.bind_eq_bind, Option.bind_some, nonempty, Bool.false_eq_true, if_false,
      RingCancel.samePair_of_length pairRead pkRead]
    by_cases same : keyPair = pk
    · subst same
      simp
    · have ne : pk ≠ keyPair := Ne.symm same
      simp [same, ne]

/-- Over keys of two coordinates, the position `RingCancel::preclaim` finds is the index of
the canceller's key. -/
theorem RingCancel.position_of_length {pk : List Uint256} {keys : List (List Uint256)}
    (read : ∀ keyPair ∈ keys, keyPair.length = 2) (pkRead : pk.length = 2) :
    RingCancel.position pk keys = some (keys.idxOf pk) := by
  induction keys with
  | nil => rfl
  | cons keyPair rest ih =>
    have pairRead := read keyPair List.mem_cons_self
    have restRead := ih (fun other inRest => read other (List.mem_cons_of_mem _ inRest))
    have nonempty : keyPair.isEmpty = false := by
      cases keyPair with
      | nil => simp at pairRead
      | cons _ _ => rfl
    simp only [RingCancel.position, nonempty, Bool.false_eq_true, if_false,
      RingCancel.samePair_of_length pairRead pkRead]
    by_cases same : keyPair = pk
    · subst same
      simp [List.idxOf_cons_self]
    · simp [same, restRead]

/-! ## Well-formed rings and ledgers -/

/-- A ring-info entry: a ring entry that sets only `sfRingIndex`. -/
def IsRingInfo (r : Ring) : Prop := ∃ index, r = { Ring.blank with ringIndex := index }

/-- A well-formed ring of a denomination under an index. -/
structure RingWF (crypto : RingCrypto) (denom : Denomination) (index : Nat) (r : Ring) : Prop where
  keysRead : ∀ pk ∈ r.publicKeys, pk.length = 2
  imagesRead : ∀ image ∈ r.keyImages, image.length = 2
  keysApart : r.publicKeys.Pairwise KeysApart
  imagesFresh : r.keyImages.Pairwise ImageFresh
  keysNonempty : r.publicKeys ≠ []
  accountsNodup : r.accounts.Nodup
  layout : ∃ depositors withdrawers : List AccountID,
    depositors.length = r.publicKeys.length ∧ withdrawers.length = r.ringWithdrawed ∧
    r.accounts = depositors.map (fun account => crypto.accountHash "D" account denom.mantissa index) ++
      withdrawers.map (fun account => crypto.accountHash "W" account denom.mantissa index)
  deposited : r.ringDeposited = r.publicKeys.length % 2 ^ 32
  withdrawn : r.keyImages.length = r.ringWithdrawed
  closedOfWithdrawn : 0 < r.ringWithdrawed → r.ringHash ≠ Uint256.zero
  depositLeft : 0 < r.ringWithdrawed → r.ringWithdrawed < r.ringDeposited

/-- A well-formed ledger of rings. -/
structure LedgerWF (crypto : RingCrypto) (view : RingLedger) : Prop where
  info : ∀ denom r, view.ring denom 0 = some r → IsRingInfo r
  infoOfRing : ∀ denom index, view.ring denom index ≠ none → view.ring denom 0 ≠ none
  rings : ∀ denom index r, index ≠ 0 → view.ring denom index = some r → RingWF crypto denom index r
  zeroRoot : view.balanceVBC AccountID.zero = none

section Writes

variable {crypto : RingCrypto} {view : RingLedger} {denom : Denomination} {index : Nat}

theorem RingWF.keysNodup {r : Ring} (formed : RingWF crypto denom index r) : r.publicKeys.Nodup :=
  formed.keysApart.imp KeysApart.ne

theorem LedgerWF.setRing (wf : LedgerWF crypto view) {r : Ring} (nonzero : index ≠ 0)
    (formed : RingWF crypto denom index r) (infoPresent : view.ring denom 0 ≠ none) :
    LedgerWF crypto (view.setRing denom index r) where
  info d other read := by
    rw [RingLedger.ring_setRing, if_neg (fun hit => nonzero hit.2.symm)] at read
    exact wf.info d other read
  infoOfRing d i present := by
    rw [RingLedger.ring_setRing]
    by_cases same : d = denom
    · subst same
      rwa [if_neg (fun hit => nonzero hit.2.symm)]
    · rw [if_neg (fun hit => same hit.1)]
      exact wf.infoOfRing d i (by simpa [RingLedger.ring_setRing, same] using present)
  rings d i other nz read := by
    rw [RingLedger.ring_setRing] at read
    split_ifs at read with hit
    · obtain ⟨rfl, rfl⟩ := hit
      cases read
      exact formed
    · exact wf.rings d i other nz read
  zeroRoot := wf.zeroRoot

theorem IsRingInfo.withIndex {info : Ring} (shape : IsRingInfo info) (next : Nat) :
    IsRingInfo { info with ringIndex := next } := by
  obtain ⟨index, rfl⟩ := shape
  exact ⟨next, rfl⟩

theorem LedgerWF.setRingInfo (wf : LedgerWF crypto view) {info : Ring} (shape : IsRingInfo info) :
    LedgerWF crypto (view.setRing denom 0 info) where
  info d other read := by
    rw [RingLedger.ring_setRing] at read
    split_ifs at read with hit
    · cases read
      exact shape
    · exact wf.info d other read
  infoOfRing d i present := by
    rw [RingLedger.ring_setRing]
    by_cases same : d = denom
    · simp [same]
    · rw [if_neg (fun hit => same hit.1)]
      exact wf.infoOfRing d i (by simpa [RingLedger.ring_setRing, same] using present)
  rings d i other nz read := by
    rw [RingLedger.ring_setRing, if_neg (fun hit => nz hit.2)] at read
    exact wf.rings d i other nz read
  zeroRoot := wf.zeroRoot

theorem LedgerWF.eraseRing (wf : LedgerWF crypto view) (nonzero : index ≠ 0) :
    LedgerWF crypto (view.eraseRing denom index) where
  info d other read := by
    rw [RingLedger.ring_eraseRing, if_neg (fun hit => nonzero hit.2.symm)] at read
    exact wf.info d other read
  infoOfRing d i present := by
    rw [RingLedger.ring_eraseRing] at present ⊢
    split_ifs at present with hit
    · exact absurd rfl present
    · rw [if_neg (fun hit => nonzero hit.2.symm)]
      exact wf.infoOfRing d i present
  rings d i other nz read := by
    rw [RingLedger.ring_eraseRing] at read
    split_ifs at read
    exact wf.rings d i other nz read
  zeroRoot := wf.zeroRoot

theorem LedgerWF.transferXRP (wf : LedgerWF crypto view) {ctx : RingContext} {source target : AccountID}
    {amount : STAmount} {ter : TER} {after : RingLedger}
    (transferred : view.transferXRP ctx source target amount = some (ter, after)) : LedgerWF crypto after := by
  rcases RingLedger.transferXRP_eq_some transferred with ⟨-, -, -, rfl⟩ | ⟨-, rfl⟩
  · exact { wf with zeroRoot := by simp [RingLedger.moved, wf.zeroRoot] }
  · exact wf

end Writes

/-! ## The ring entries each transactor writes -/

section Entries

variable (config : Config) (crypto : RingCrypto) (ctx : RingContext)
variable {denom : Denomination} {index : Nat} {r : Ring}

theorem RingDeposit.newRing_wf {tx : STTx} (pkRead : tx.publicKeyPair.length = 2) (index : Nat) :
    RingWF crypto (Denomination.of tx.amount) index (RingDeposit.newRing config crypto ctx tx index) where
  keysRead := by simp [RingDeposit.newRing, pkRead]
  imagesRead := by simp [RingDeposit.newRing]
  keysApart := by simp [RingDeposit.newRing]
  imagesFresh := by simp [RingDeposit.newRing]
  keysNonempty := by simp [RingDeposit.newRing]
  accountsNodup := by simp [RingDeposit.newRing]
  layout := ⟨[tx.account], [], rfl, rfl, rfl⟩
  deposited := rfl
  withdrawn := rfl
  closedOfWithdrawn := by simp [RingDeposit.newRing]
  depositLeft := by simp [RingDeposit.newRing]

/-- A deposit into an open ring appends the depositor's hash and key and counts it; the hash
and the number of participants are whatever the ring closes with. -/
theorem RingDeposit.depositInto_fst (tx : STTx) (index : Nat) (ringSle : Ring) (delayed : Bool) :
    ∃ hash participants, (RingDeposit.depositInto config crypto tx index ringSle delayed).1 =
      { ringSle with
        accounts := ringSle.accounts ++ [RingDeposit.depositHash crypto tx index]
        ringDeposited := (ringSle.ringDeposited + 1) % 2 ^ 32
        publicKeys := ringSle.publicKeys ++ [tx.publicKeyPair]
        ringHash := hash
        participantsNum := participants } := by
  unfold RingDeposit.depositInto
  dsimp only
  split <;> exact ⟨_, _, rfl⟩

variable {crypto}

theorem RingWF.deposit (formed : RingWF crypto denom index r) (open_ : r.ringWithdrawed = 0)
    {account : AccountID} {newPk : List Uint256} (pkRead : newPk.length = 2)
    (apart : ∀ pk ∈ r.publicKeys, KeysApart pk newPk)
    (fresh : crypto.accountHash "D" account denom.mantissa index ∉ r.accounts) (hash : Uint256) (participants : Nat) :
    RingWF crypto denom index
      { r with
        accounts := r.accounts ++ [crypto.accountHash "D" account denom.mantissa index]
        ringDeposited := (r.ringDeposited + 1) % 2 ^ 32
        publicKeys := r.publicKeys ++ [newPk]
        ringHash := hash
        participantsNum := participants } where
  keysRead pk member := by
    rcases List.mem_append.mp member with old | new
    · exact formed.keysRead pk old
    · rw [List.mem_singleton.mp new]
      exact pkRead
  imagesRead := formed.imagesRead
  keysApart := List.pairwise_append.mpr ⟨formed.keysApart, List.pairwise_singleton _ _,
    fun pk old other new => (List.mem_singleton.mp new) ▸ apart pk old⟩
  imagesFresh := formed.imagesFresh
  keysNonempty := by simp
  accountsNodup := List.nodup_append.mpr ⟨formed.accountsNodup, List.nodup_singleton _,
    fun x old y new same => fresh (by rw [List.mem_singleton.mp new] at same; exact same ▸ old)⟩
  layout := by
    obtain ⟨depositors, withdrawers, depositorsLength, withdrawersLength, accounts⟩ := formed.layout
    have noWithdrawers : withdrawers = [] := List.length_eq_zero_iff.mp (withdrawersLength.trans open_)
    subst noWithdrawers
    refine ⟨depositors ++ [account], [], by simp [depositorsLength], by simp [open_], ?_⟩
    simp [accounts]
  deposited := by
    have counted := formed.deposited
    simp only [List.length_append, List.length_singleton]
    omega
  withdrawn := formed.withdrawn
  closedOfWithdrawn := by simp [open_]
  depositLeft := by simp [open_]

theorem RingWF.setHash (formed : RingWF crypto denom index r) (hash : Uint256)
    (kept : r.ringWithdrawed = 0 ∨ hash ≠ Uint256.zero) : RingWF crypto denom index { r with ringHash := hash } :=
  { formed with
    closedOfWithdrawn := fun withdrawn => kept.resolve_left (Nat.pos_iff_ne_zero.mp withdrawn) }

theorem RingWF.withdraw (formed : RingWF crypto denom index r) (closed : r.ringHash ≠ Uint256.zero)
    (left : r.ringWithdrawed + 1 < r.ringDeposited) {account : AccountID}
    (fresh : crypto.accountHash "W" account denom.mantissa index ∉ r.accounts) {image : List Uint256}
    (imageRead : image.length = 2) (unspent : ∀ old ∈ r.keyImages, ImageFresh old image) :
    RingWF crypto denom index
      { r with
        accounts := r.accounts ++ [crypto.accountHash "W" account denom.mantissa index]
        keyImages := r.keyImages ++ [image]
        ringWithdrawed := r.ringWithdrawed + 1 } where
  keysRead := formed.keysRead
  imagesRead old member := by
    rcases List.mem_append.mp member with recorded | new
    · exact formed.imagesRead old recorded
    · rw [List.mem_singleton.mp new]
      exact imageRead
  keysApart := formed.keysApart
  imagesFresh := List.pairwise_append.mpr ⟨formed.imagesFresh, List.pairwise_singleton _ _,
    fun old recorded other new => (List.mem_singleton.mp new) ▸ unspent old recorded⟩
  keysNonempty := formed.keysNonempty
  accountsNodup := List.nodup_append.mpr ⟨formed.accountsNodup, List.nodup_singleton _,
    fun x old y new same => fresh (by rw [List.mem_singleton.mp new] at same; exact same ▸ old)⟩
  layout := by
    obtain ⟨depositors, withdrawers, depositorsLength, withdrawersLength, accounts⟩ := formed.layout
    refine ⟨depositors, withdrawers ++ [account], depositorsLength, by simp [withdrawersLength], ?_⟩
    simp [accounts]
  deposited := formed.deposited
  withdrawn := by simp [formed.withdrawn]
  closedOfWithdrawn _ := closed
  depositLeft _ := left

/-- A cancel removes the canceller's key and, at the same position, its deposit hash. -/
theorem RingWF.cancel (formed : RingWF crypto denom index r) (open_ : r.ringWithdrawed = 0)
    {pk : List Uint256} (member : pk ∈ r.publicKeys) {account : AccountID}
    (matched : r.accounts[r.publicKeys.idxOf pk]? = some (crypto.accountHash "D" account denom.mantissa index))
    (remaining : r.publicKeys.filter (· != pk) ≠ []) :
    RingWF crypto denom index
      { r with
        accounts := r.accounts.erase (crypto.accountHash "D" account denom.mantissa index)
        publicKeys := r.publicKeys.filter (· != pk)
        ringDeposited := (r.ringDeposited + 2 ^ 32 - 1) % 2 ^ 32 } := by
  have keysNodup := formed.keysNodup
  have posBound : r.publicKeys.idxOf pk < r.publicKeys.length := List.idxOf_lt_length_of_mem member
  have keysErased : r.publicKeys.filter (· != pk) = r.publicKeys.eraseIdx (r.publicKeys.idxOf pk) := by
    rw [← keysNodup.erase_eq_filter, ← keysNodup.erase_getElem _ posBound, List.getElem_idxOf]
  have keptLength : (r.publicKeys.filter (· != pk)).length = r.publicKeys.length - 1 := by
    rw [keysErased, List.length_eraseIdx, if_pos posBound]
  obtain ⟨depositors, withdrawers, depositorsLength, withdrawersLength, accounts⟩ := formed.layout
  have noWithdrawers : withdrawers = [] := List.length_eq_zero_iff.mp (withdrawersLength.trans open_)
  subst noWithdrawers
  rw [List.map_nil, List.append_nil] at accounts
  -- the deposit hash sits at the key's position, and is the only copy of itself
  have accountsNodup := formed.accountsNodup
  rw [accounts] at matched accountsNodup
  have accountBound : r.publicKeys.idxOf pk < (depositors.map fun account =>
      crypto.accountHash "D" account denom.mantissa index).length := by
    rw [List.length_map, depositorsLength]
    exact posBound
  have accountAt := (List.getElem?_eq_some_iff.mp matched).2
  have accountsErased : r.accounts.erase (crypto.accountHash "D" account denom.mantissa index) =
      (depositors.eraseIdx (r.publicKeys.idxOf pk)).map fun account =>
        crypto.accountHash "D" account denom.mantissa index := by
    rw [accounts, ← accountAt, accountsNodup.erase_getElem _ accountBound, List.eraseIdx_map]
  exact {
    keysRead := fun key kept => formed.keysRead key (List.mem_of_mem_filter kept)
    imagesRead := formed.imagesRead
    keysApart := formed.keysApart.sublist List.filter_sublist
    imagesFresh := formed.imagesFresh
    keysNonempty := remaining
    accountsNodup := formed.accountsNodup.erase _
    layout := ⟨depositors.eraseIdx (r.publicKeys.idxOf pk), [],
      by rw [keptLength, List.length_eraseIdx, if_pos (depositorsLength ▸ posBound), depositorsLength],
      open_.symm, by rw [accountsErased, List.map_nil, List.append_nil]⟩
    deposited := by
      have counted := formed.deposited
      have positive := List.length_pos_of_mem member
      dsimp only
      rw [keptLength]
      omega
    withdrawn := formed.withdrawn
    closedOfWithdrawn := fun withdrawn => absurd open_ (Nat.pos_iff_ne_zero.mp withdrawn)
    depositLeft := fun withdrawn => absurd open_ (Nat.pos_iff_ne_zero.mp withdrawn) }

end Entries

/-! ## What each transactor keeps -/

section Transactors

variable {config : Config} {crypto : RingCrypto} {ctx : RingContext} {view after : RingLedger} {tx : STTx}

theorem RingDeposit.preflight_eq_success (passed : RingDeposit.preflight config crypto tx = tesSUCCESS) :
    tx.publicKeyPair.length = 2 := by
  unfold RingDeposit.preflight at passed
  rcases pair : tx.publicKeyPair with _ | ⟨pkx, _ | ⟨pky, _ | ⟨extra, rest⟩⟩⟩ <;> simp only [pair] at passed
  · split_ifs at passed <;> exact absurd passed (by decide)
  · split_ifs at passed <;> exact absurd passed (by decide)
  · rfl
  · split_ifs at passed <;> exact absurd passed (by decide)

theorem RingWithdraw.preflight_eq_success (passed : RingWithdraw.preflight tx = tesSUCCESS) :
    tx.keyImage.length = 2 := by
  unfold RingWithdraw.preflight at passed
  split_ifs at passed with notVBC malformed
  · exact absurd passed (by decide)
  · exact absurd passed (by decide)
  · exact not_not.mp malformed

theorem RingCancel.preflight_eq_success (passed : RingCancel.preflight config crypto tx = tesSUCCESS) :
    tx.publicKeyPair.length = 2 := by
  unfold RingCancel.preflight at passed
  rcases pair : tx.publicKeyPair with _ | ⟨pkx, _ | ⟨pky, _ | ⟨extra, rest⟩⟩⟩ <;> simp only [pair] at passed
  · split_ifs at passed <;> exact absurd passed (by decide)
  · split_ifs at passed <;> exact absurd passed (by decide)
  · rfl
  · split_ifs at passed <;> exact absurd passed (by decide)

theorem RingWithdraw.recordWithdrawal_keeps_wf (wf : LedgerWF crypto view) {ringSle : Ring}
    (stored : view.ring (Denomination.of tx.amount) tx.ringIndex = some ringSle) (closed : ringSle.ringHash ≠ Uint256.zero)
    (left : ringSle.ringWithdrawed < ringSle.ringDeposited) (fresh : RingWithdraw.withdrawHash crypto tx ∉ ringSle.accounts)
    (imageRead : tx.keyImage.length = 2) (unspent : ∀ old ∈ ringSle.keyImages, ImageFresh old tx.keyImage)
    (recorded : RingWithdraw.recordWithdrawal crypto view tx ringSle = some after) : LedgerWF crypto after := by
  -- the ring-info entry has no deposit, so the ring is not it
  have nonzero : tx.ringIndex ≠ 0 := by
    intro atInfo
    rw [atInfo] at stored
    obtain ⟨index, rfl⟩ := wf.info _ ringSle stored
    exact absurd left (by simp [Ring.blank])
  have formed := wf.rings _ _ ringSle nonzero stored
  unfold RingWithdraw.recordWithdrawal at recorded
  dsimp only at recorded
  split_ifs at recorded with last
  · obtain ⟨info, infoRead, rfl⟩ := Option.map_eq_some_iff.mp recorded
    have erased : LedgerWF crypto (view.eraseRing (Denomination.of tx.amount) tx.ringIndex) := wf.eraseRing nonzero
    split_ifs
    · exact erased.setRingInfo ((erased.info _ info infoRead).withIndex _)
    · exact erased
  · cases recorded
    exact wf.setRing nonzero (formed.withdraw closed (by omega) fresh imageRead unspent)
      (wf.infoOfRing _ tx.ringIndex (by simp [stored]))

theorem RingWithdraw.doApply_keeps_wf (wf : LedgerWF crypto view) (imageRead : tx.keyImage.length = 2)
    (applied : RingWithdraw.doApply config crypto ctx view tx = some (tesSUCCESS, after)) :
    LedgerWF crypto after := by
  obtain ⟨ringSle, imageX, recorded, mid, stored, left, closed, fresh, imageAt, scanned, recordedEq, -, paid⟩ :=
    RingWithdraw.doApply_eq_success applied
  have unspent : ∀ old ∈ ringSle.keyImages, ImageFresh old tx.keyImage := fun old recordedImage =>
    have apart := RingWithdraw.spentImage_eq_some_false scanned old recordedImage
    ⟨imageAt ▸ apart.1.symm, imageAt ▸ apart.2.symm⟩
  exact (RingWithdraw.recordWithdrawal_keeps_wf wf stored closed left fresh imageRead unspent recordedEq).transferXRP
    paid

theorem RingCancel.preclaim_eq_success (claimed : RingCancel.preclaim crypto view tx = some tesSUCCESS) :
    ∃ ringSle, view.ring (Denomination.of tx.amount) tx.ringIndex = some ringSle ∧ ringSle.ringHash = Uint256.zero ∧
      ringSle.ringWithdrawed = 0 ∧ ringSle.ringDeposited ≠ 0 ∧
      ∃ pos, RingCancel.position tx.publicKeyPair ringSle.publicKeys = some pos ∧
        ringSle.accounts[pos]? = some (RingDeposit.depositHash crypto tx tx.ringIndex) := by
  unfold RingCancel.preclaim at claimed
  rcases stored : view.ring (Denomination.of tx.amount) tx.ringIndex with _ | ringSle <;> rw [stored] at claimed
  · exact absurd (Option.some.inj claimed) (by decide)
  dsimp only at claimed
  split_ifs at claimed with closed withdrawn empty unsigned
  iterate 4 exact absurd (Option.some.inj claimed) (by decide)
  obtain ⟨pos, found, matched⟩ := Option.map_eq_some_iff.mp claimed
  refine ⟨ringSle, rfl, not_not.mp closed, by omega, empty, pos, found, ?_⟩
  rcases atPos : ringSle.accounts[pos]? with _ | depositHash <;> rw [atPos] at matched
  · dsimp only at matched
    exact absurd matched (by decide)
  · dsimp only at matched
    split_ifs at matched with differs
    · exact absurd matched (by decide)
    · rw [not_not] at differs
      rw [differs]

theorem RingCancel.doApply_keeps_wf (wf : LedgerWF crypto view) (pkRead : tx.publicKeyPair.length = 2)
    (claimed : RingCancel.preclaim crypto view tx = some tesSUCCESS)
    (applied : RingCancel.doApply config crypto ctx view tx = some (tesSUCCESS, after)) :
    LedgerWF crypto after := by
  obtain ⟨ringSle, stored, -, withdrawn, deposited, pos, found, matched⟩ := RingCancel.preclaim_eq_success claimed
  -- the ring-info entry has no deposit, so the ring is not it
  have nonzero : tx.ringIndex ≠ 0 := by
    intro atInfo
    rw [atInfo] at stored
    obtain ⟨index, rfl⟩ := wf.info _ ringSle stored
    exact deposited rfl
  have formed := wf.rings _ _ ringSle nonzero stored
  rw [RingCancel.position_of_length formed.keysRead pkRead] at found
  cases found
  obtain ⟨ringSle', kept, written, mid, stored', -, recalled, shape, -, paid⟩ := RingCancel.doApply_eq_success applied
  rw [stored, Option.some.injEq] at stored'
  subst stored'
  rw [RingCancel.recallKeys_of_length formed.keysRead pkRead] at recalled
  obtain ⟨rfl, member⟩ := Prod.mk.inj (Option.some.inj recalled)
  rcases shape with ⟨-, info, infoRead, rfl⟩ | ⟨remaining, rfl⟩
  · exact ((wf.setRingInfo ((wf.info _ info infoRead).withIndex _)).eraseRing nonzero).transferXRP paid
  · exact (wf.setRing nonzero (formed.cancel withdrawn (of_decide_eq_true member) matched remaining)
      (wf.infoOfRing _ tx.ringIndex (by simp [stored]))).transferXRP paid

theorem RingDeposit.preclaim_eq_success (claimed : RingDeposit.preclaim view tx = some tesSUCCESS) :
    tx.ringIndex ≠ 0 ∧ ∀ info, view.ring (Denomination.of tx.amount) 0 = some info →
      ∀ ringSle, view.ring (Denomination.of tx.amount) tx.ringIndex = some ringSle →
        RingDeposit.dupPublicKey tx.publicKeyPair ringSle.publicKeys = some false := by
  unfold RingDeposit.preclaim at claimed
  split at claimed
  · exact absurd (Option.some.inj claimed) (by decide)
  rename_i balance _
  by_cases unfunded : balance < tx.amount.xrp
  · rw [if_pos unfunded] at claimed
    exact absurd (Option.some.inj claimed) (by decide)
  rw [if_neg unfunded] at claimed
  by_cases unindexed : tx.ringIndex ≤ 0
  · rw [if_pos unindexed] at claimed
    exact absurd (Option.some.inj claimed) (by decide)
  rw [if_neg unindexed] at claimed
  refine ⟨by omega, fun info infoRead ringSle stored => ?_⟩
  rw [infoRead] at claimed
  dsimp only at claimed
  split_ifs at claimed with stale
  · exact absurd (Option.some.inj claimed) (by decide)
  rw [not_not] at stale
  rw [stale, stored] at claimed
  obtain ⟨dup, scanned, verdict⟩ := Option.map_eq_some_iff.mp claimed
  cases dup
  · exact scanned
  · exact absurd verdict (by decide)

theorem RingDeposit.createRing_keeps_wf (wf : LedgerWF crypto view) (pkRead : tx.publicKeyPair.length = 2)
    (infoPresent : view.ring (Denomination.of tx.amount) 0 ≠ none) {aCore : AccountID} {index : Nat}
    (created : RingDeposit.createRing config crypto ctx view tx aCore index = some (tesSUCCESS, after)) :
    LedgerWF crypto after := by
  obtain ⟨inserted, insertedEq, transferred⟩ := Option.bind_eq_some_iff.mp created
  unfold RingLedger.insertRing at insertedEq
  split_ifs at insertedEq with vacant
  cases insertedEq
  have nonzero : index ≠ 0 := by
    rintro rfl
    exact infoPresent vacant
  exact (wf.setRing nonzero (RingDeposit.newRing_wf config crypto ctx pkRead index) infoPresent).transferXRP transferred

theorem RingDeposit.depositWith_keeps_wf (wf : LedgerWF crypto view) (pkRead : tx.publicKeyPair.length = 2)
    (nonzero : tx.ringIndex ≠ 0)
    (apart : ∀ info, view.ring (Denomination.of tx.amount) 0 = some info →
      ∀ ringSle, view.ring (Denomination.of tx.amount) tx.ringIndex = some ringSle →
        RingDeposit.dupPublicKey tx.publicKeyPair ringSle.publicKeys = some false)
    {aCore : AccountID} {ringInfo : Ring} (shape : IsRingInfo ringInfo)
    (applied : RingDeposit.depositWith config crypto ctx view tx aCore ringInfo = some (tesSUCCESS, after)) :
    LedgerWF crypto after := by
  have infoWF : LedgerWF crypto (view.setRing (Denomination.of tx.amount) 0 ringInfo) := wf.setRingInfo shape
  unfold RingDeposit.depositWith at applied
  dsimp only at applied
  split_ifs at applied with stale
  · exact absurd (result_code applied) (by decide)
  rw [not_not] at stale
  rw [stale] at applied
  have ringRead : (view.setRing (Denomination.of tx.amount) 0 ringInfo).ring (Denomination.of tx.amount) tx.ringIndex =
      view.ring (Denomination.of tx.amount) tx.ringIndex := by
    rw [RingLedger.ring_setRing, if_neg (fun hit => nonzero hit.2)]
  have infoSet : (view.setRing (Denomination.of tx.amount) 0 ringInfo).ring (Denomination.of tx.amount) 0 ≠ none := by
    simp [RingLedger.ring_setRing]
  rw [ringRead] at applied
  rcases stored : view.ring (Denomination.of tx.amount) tx.ringIndex with _ | ringSle <;> rw [stored] at applied
  · exact RingDeposit.createRing_keeps_wf infoWF pkRead infoSet applied
  have formed := wf.rings _ _ ringSle nonzero stored
  have infoKept : ∀ next, ((view.setRing (Denomination.of tx.amount) 0 ringInfo).setRing (Denomination.of tx.amount) 0
      { ringInfo with ringIndex := next }).ring (Denomination.of tx.amount) 0 ≠ none := by
    simp [RingLedger.ring_setRing]
  -- a ring with no hash has paid nothing out
  have openOfHashless : ringSle.ringHash = Uint256.zero → ringSle.ringWithdrawed = 0 := fun hashless =>
    Nat.eq_zero_of_not_pos fun withdrawn => formed.closedOfWithdrawn withdrawn hashless
  have depositWF : ringSle.ringHash = Uint256.zero → RingDeposit.depositHash crypto tx tx.ringIndex ∉ ringSle.accounts →
      RingWF crypto (Denomination.of tx.amount) tx.ringIndex (RingDeposit.depositInto config crypto tx tx.ringIndex
        ringSle (RingDeposit.fastDelay config ctx ringSle.ledgerSequence)).1 := by
    intro hashless fresh
    obtain ⟨hash, participants, depositEq⟩ := RingDeposit.depositInto_fst config crypto tx tx.ringIndex ringSle
      (RingDeposit.fastDelay config ctx ringSle.ledgerSequence)
    obtain ⟨info, infoRead⟩ := Option.ne_none_iff_exists'.mp
      (wf.infoOfRing (Denomination.of tx.amount) tx.ringIndex (by simp [stored]))
    rw [depositEq]
    exact formed.deposit (openOfHashless hashless) pkRead
      (RingDeposit.dupPublicKey_eq_some_false (apart info infoRead ringSle stored)) fresh hash participants
  dsimp only at applied
  split_ifs at applied with accepting redundant closes hashless
  · exact absurd (result_code applied) (by decide)
  · exact ((infoWF.setRingInfo (shape.withIndex _)).setRing nonzero (depositWF accepting.1 redundant)
      (infoKept _)).transferXRP applied
  · exact (infoWF.setRing nonzero (depositWF accepting.1 redundant) infoSet).transferXRP applied
  · -- a full ring is closed with its hash before the next one is made
    have closedWF := infoWF.setRing nonzero
      (formed.setHash (crypto.createRingHash ringSle.publicKeys tx.amount.mantissa tx.ringIndex)
        (Or.inl (openOfHashless hashless))) infoSet
    exact RingDeposit.createRing_keeps_wf (closedWF.setRingInfo (shape.withIndex _)) pkRead
      (by simp [RingLedger.ring_setRing]) applied
  · exact RingDeposit.createRing_keeps_wf (infoWF.setRingInfo (shape.withIndex _)) pkRead (infoKept _) applied

theorem RingDeposit.doApply_keeps_wf (wf : LedgerWF crypto view) (pkRead : tx.publicKeyPair.length = 2)
    (nonzero : tx.ringIndex ≠ 0)
    (apart : ∀ info, view.ring (Denomination.of tx.amount) 0 = some info →
      ∀ ringSle, view.ring (Denomination.of tx.amount) tx.ringIndex = some ringSle →
        RingDeposit.dupPublicKey tx.publicKeyPair ringSle.publicKeys = some false)
    (applied : RingDeposit.doApply config crypto ctx view tx = some (tesSUCCESS, after)) :
    LedgerWF crypto after := by
  obtain ⟨aCore, -, -, deposited⟩ := RingDeposit.doApply_eq_depositWith applied
  refine RingDeposit.depositWith_keeps_wf wf pkRead nonzero apart ?_ deposited
  rcases infoRead : view.ring (Denomination.of tx.amount) 0 with _ | info
  · exact ⟨1, rfl⟩
  · exact wf.info _ info infoRead

/-! ## Runs -/

theorem applyRing_keeps_wf (wf : LedgerWF crypto view) {ter : TER}
    (applied : applyRing config crypto ctx view tx = some (ter, after)) : LedgerWF crypto after := by
  rcases applyRing_eq_some applied with ⟨-, rfl⟩ | ⟨-, passed, claimed, doApplied⟩
  · exact wf
  -- a success paid or debited the sender's root, so the sender is not the zero account
  obtain ⟨-, -, senderRoot, -, -⟩ := ringDoApply_moves doApplied
  have claimed := claimed fun zero => senderRoot (zero ▸ wf.zeroRoot)
  unfold ringPreflight at passed
  unfold ringPreclaim at claimed
  unfold ringDoApply at doApplied
  split at doApplied
  · rename_i deposit
    simp only [deposit] at passed claimed
    obtain ⟨nonzero, apart⟩ := RingDeposit.preclaim_eq_success claimed
    exact RingDeposit.doApply_keeps_wf wf (RingDeposit.preflight_eq_success passed) nonzero apart doApplied
  · rename_i withdraw
    simp only [withdraw] at passed
    exact RingWithdraw.doApply_keeps_wf wf (RingWithdraw.preflight_eq_success passed) doApplied
  · rename_i cancel
    simp only [cancel] at passed claimed
    exact RingCancel.doApply_keeps_wf wf (RingCancel.preflight_eq_success passed) claimed doApplied
  · exact absurd (result_code doApplied) (by decide)

theorem runRing_keeps_wf (wf : LedgerWF crypto view) {run : List (RingContext × STTx)} {ters : List TER}
    (ran : runRing config crypto view run = some (ters, after)) : LedgerWF crypto after := by
  -- induction on the run, each transaction keeping the invariant
  induction run generalizing view ters with
  | nil =>
    obtain ⟨rfl, rfl⟩ := Prod.mk.inj (Option.some.inj ran)
    exact wf
  | cons step rest ih =>
    obtain ⟨context, tx⟩ := step
    obtain ⟨ter, next, later, stepped, ranRest, rfl⟩ := runRing_cons_eq_some ran
    exact ih (applyRing_keeps_wf wf stepped) ranRest

theorem LedgerWF.of_noRings (empty : ∀ denom index, view.ring denom index = none)
    (zeroRoot : view.balanceVBC AccountID.zero = none) : LedgerWF crypto view where
  info denom r read := by
    rw [empty] at read
    cases read
  infoOfRing denom index present := absurd (empty denom index) present
  rings denom index r _ read := by
    rw [empty] at read
    cases read
  zeroRoot := zeroRoot

/-- Every ledger a run of ring transactions reaches from one with no rings, where the zero
account has no root, is well formed. -/
theorem ring_ledger_well_formed {initial : RingLedger} (empty : ∀ denom index, initial.ring denom index = none)
    (zeroRoot : initial.balanceVBC AccountID.zero = none) {run : List (RingContext × STTx)} {ters : List TER}
    {final : RingLedger} (ran : runRing config crypto initial run = some (ters, final)) : LedgerWF crypto final :=
  runRing_keeps_wf (LedgerWF.of_noRings empty zeroRoot) ran

theorem ring_ledger_well_formed_mixerRun :
    runRing mixerConfig mixerCrypto mixerRoots mixerRun = some ([tesSUCCESS, tesSUCCESS, tesSUCCESS], mixerClosed) ∧
      LedgerWF mixerCrypto mixerClosed :=
  ⟨rfl, @ring_ledger_well_formed mixerConfig mixerCrypto mixerRoots (fun _ _ => rfl) rfl mixerRun _ _ rfl⟩

end Transactors

end RadardFormal.Tx
