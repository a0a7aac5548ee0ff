import RadardFormal.Tx.Transactor

/-!
# The ring mixer

`RingDeposit` pays a fixed VBC amount into the mid account named by the `[secret_tx]`
section and adds the depositor's stealth key to the open ring of that denomination, under
the index the ring-info entry (index zero) holds.  A ring closes when it is full, unless it
was opened less than `fast_interval` ledgers ago, or when it reaches `max_participants`; its
hash is then fixed and the ring-info entry moves to the next index.  `RingWithdraw` pays the
amount out of the mid account against a ring signature over a closed ring and a key image
not seen before; `RingCancel` pays a depositor back out of an open ring and removes its key.

The model keeps of a ledger the ring entries, by denomination and index, and the VBC balance
of each account root.  The hashes, the curve test and the verification of a ring signature
are functions (`RingCrypto`); the reads `ringVerify` makes of its vectors are modelled, each
one bounded, so that a read out of bounds is a `none`, as is a null dereference.  A ring
index that wrapped round to zero would make a ring and the ring-info entry one entry; the
model keeps them apart.
-/

namespace RadardFormal.Tx

open RadardFormal.Protocol RadardFormal.Ledger TER

/-- A denomination of the mixer: the mantissa and issue of the amount, which with a ring
index make the key `keylet::ring (mantissa, issue, index)`. -/
structure Denomination where
  mantissa : Nat
  issue : Issue
  deriving DecidableEq, Repr

/-- The denomination of an amount; its sign plays no part. -/
def Denomination.of (amount : STAmount) : Denomination := ⟨amount.mantissa, amount.issue⟩

/-- `legal_values` of the `[secret_tx]` section, the mantissas it lists; an absent section
reads as none. -/
def Config.legalValues (config : Config) : List Nat :=
  (config.secretTx.map SecretTxConfig.legalValues).getD []

/-- `participants_number`; zero when the section is absent. -/
def Config.participantsNumber (config : Config) : Nat :=
  (config.secretTx.map SecretTxConfig.participantsNumber).getD 0

/-- `fast_interval`; zero when the section is absent. -/
def Config.fastInterval (config : Config) : Int :=
  (config.secretTx.map SecretTxConfig.fastInterval).getD 0

/-- `max_participants` as its comparison with a deposit count converts it, to a `uint32_t`. -/
def Config.maxParticipants (config : Config) : Nat :=
  ((config.secretTx.map SecretTxConfig.maxParticipants).getD 0 % 2 ^ 32).toNat

/-- The hashes and curve operations the mixer calls: `sha512Half` of a tag, an account, a
mantissa and a ring index; `createRingHash`; `altbn128::onCurve`; and what `ringVerify`
decides once its reads are in bounds, from the message (the ring hash of a withdrawal, and
the destination), `c0`, the key image, the key pairs and one signature per key. -/
structure RingCrypto where
  accountHash : String → AccountID → Nat → Nat → Uint256
  createRingHash : List (List Uint256) → Nat → Nat → Uint256
  onCurve : Uint256 → Uint256 → Bool
  verify : Option Uint256 → AccountID → Uint256 → Uint256 × Uint256 → List (Uint256 × Uint256) →
    List Uint256 → Bool

/-- What a ring transaction reads of the ledger it is applied to: `info ().seq` and
`open ()`. -/
structure RingContext where
  seq : Nat
  isOpen : Bool
  deriving DecidableEq, Repr

/-- The rings of a ledger, and the VBC balance of each account root. -/
structure RingLedger where
  ring : Denomination → Nat → Option Ring
  balanceVBC : AccountID → Option Int

namespace RingLedger

/-- Write a ring entry. -/
def setRing (view : RingLedger) (denom : Denomination) (index : Nat) (sle : Ring) : RingLedger :=
  { view with ring := fun d i => if d = denom ∧ i = index then some sle else view.ring d i }

/-- Erase a ring entry. -/
def eraseRing (view : RingLedger) (denom : Denomination) (index : Nat) : RingLedger :=
  { view with ring := fun d i => if d = denom ∧ i = index then none else view.ring d i }

/-- `view ().insert`: a key already taken is a `LogicError`. -/
def insertRing (view : RingLedger) (denom : Denomination) (index : Nat) (sle : Ring) : Option RingLedger :=
  if view.ring denom index = none then some (view.setRing denom index sle) else none

/-- Write an account's VBC balance. -/
def setBalance (view : RingLedger) (account : AccountID) (balance : Int) : RingLedger :=
  { view with balanceVBC := Function.update view.balanceVBC account (some balance) }

/-- `transferXRP` of a VBC amount: refused when the source holds less than the amount;
otherwise the source is debited, then the target, read afresh, credited.  A missing root is a
null pointer, dereferenced. -/
def transferXRP (ctx : RingContext) (view : RingLedger) (source target : AccountID) (amount : STAmount) :
    Option (TER × RingLedger) :=
  match view.balanceVBC source with
  | none => none
  | some sourceBalance =>
    if sourceBalance < amount.xrp then
      some (if ctx.isOpen then telFAILED_PROCESSING else tecFAILED_PROCESSING, view)
    else
      let view := view.setBalance source (sourceBalance - amount.xrp)
      (view.balanceVBC target).map fun targetBalance =>
        (tesSUCCESS, view.setBalance target (targetBalance + amount.xrp))

@[simp] theorem ring_setBalance (view : RingLedger) (account : AccountID) (balance : Int) :
    (view.setBalance account balance).ring = view.ring := rfl

@[simp] theorem balanceVBC_setRing (view : RingLedger) (denom : Denomination) (index : Nat) (sle : Ring) :
    (view.setRing denom index sle).balanceVBC = view.balanceVBC := rfl

@[simp] theorem balanceVBC_eraseRing (view : RingLedger) (denom : Denomination) (index : Nat) :
    (view.eraseRing denom index).balanceVBC = view.balanceVBC := rfl

theorem ring_setRing (view : RingLedger) (denom : Denomination) (index : Nat) (sle : Ring) (d : Denomination)
    (i : Nat) : (view.setRing denom index sle).ring d i = if d = denom ∧ i = index then some sle else view.ring d i :=
  rfl

theorem ring_eraseRing (view : RingLedger) (denom : Denomination) (index : Nat) (d : Denomination) (i : Nat) :
    (view.eraseRing denom index).ring d i = if d = denom ∧ i = index then none else view.ring d i :=
  rfl

theorem ring_setRing_of_ne (view : RingLedger) {denom d : Denomination} {index i : Nat} (sle : Ring)
    (apart : ¬(d = denom ∧ i = index)) : (view.setRing denom index sle).ring d i = view.ring d i := by
  rw [ring_setRing, if_neg apart]

/-- The VBC balances once `amount` has moved from `source` to `target`: every root keeps its
balance, less the amount at the source and plus it at the target. -/
def moved (view : RingLedger) (source target : AccountID) (amount : Int) : AccountID → Option Int :=
  fun account => (view.balanceVBC account).map fun balance =>
    balance - (if account = source then amount else 0) + (if account = target then amount else 0)

/-- What `transferXRP` does: it succeeds only between two roots, and then moves the amount;
otherwise nothing changes. -/
theorem transferXRP_eq_some {ctx : RingContext} {view after : RingLedger} {source target : AccountID}
    {amount : STAmount} {ter : TER} (transferred : view.transferXRP ctx source target amount = some (ter, after)) :
    (ter = tesSUCCESS ∧ view.balanceVBC source ≠ none ∧ view.balanceVBC target ≠ none ∧
      after = { view with balanceVBC := view.moved source target amount.xrp }) ∨
    (ter ≠ tesSUCCESS ∧ after = view) := by
  unfold transferXRP at transferred
  rcases sourceRead : view.balanceVBC source with _ | sourceBalance <;> rw [sourceRead] at transferred
  · simp at transferred
  dsimp only at transferred
  by_cases short : sourceBalance < amount.xrp
  · rw [if_pos short] at transferred
    right
    obtain ⟨rfl, rfl⟩ := Option.some.inj transferred |> Prod.mk.inj
    exact ⟨by cases ctx.isOpen <;> decide, rfl⟩
  · rw [if_neg short] at transferred
    left
    obtain ⟨targetBalance, targetRead, result⟩ := Option.map_eq_some_iff.mp transferred
    obtain ⟨rfl, rfl⟩ := Prod.mk.inj result
    refine ⟨rfl, by simp, ?_, ?_⟩
    · by_cases same : target = source
      · simp [same, sourceRead]
      · simp [setBalance, Function.update_of_ne same] at targetRead
        simp [targetRead]
    · simp only [setBalance]
      congr 1
      funext account
      simp only [moved]
      by_cases atTarget : account = target
      · subst atTarget
        by_cases same : account = source
        · subst same
          simp only [setBalance, Function.update_self] at targetRead ⊢
          cases targetRead
          simp [sourceRead]
        · simp only [setBalance, Function.update_of_ne same] at targetRead
          simp [targetRead, same]
      · by_cases atSource : account = source
        · subst atSource
          simp [sourceRead, atTarget]
        · simp [atTarget, atSource]

@[simp] theorem moved_setRing (view : RingLedger) (denom : Denomination) (index : Nat) (sle : Ring) :
    (view.setRing denom index sle).moved = view.moved := rfl

@[simp] theorem moved_eraseRing (view : RingLedger) (denom : Denomination) (index : Nat) :
    (view.eraseRing denom index).moved = view.moved := rfl

theorem moved_neg (view : RingLedger) (source target : AccountID) (amount : Int) :
    view.moved source target (-amount) = view.moved target source amount := by
  funext account
  unfold RingLedger.moved
  cases view.balanceVBC account with
  | none => rfl
  | some balance =>
    simp only [Option.map_some, Option.some.injEq]
    split_ifs <;> omega

theorem transferXRP_moves {ctx : RingContext} {view after : RingLedger} {source target : AccountID}
    {amount : STAmount} (transferred : view.transferXRP ctx source target amount = some (tesSUCCESS, after)) :
    view.balanceVBC source ≠ none ∧ view.balanceVBC target ≠ none ∧
      after.balanceVBC = view.moved source target amount.xrp := by
  rcases transferXRP_eq_some transferred with ⟨-, sourceRoot, targetRoot, rfl⟩ | ⟨failed, -⟩
  · exact ⟨sourceRoot, targetRoot, rfl⟩
  · exact absurd rfl failed

/-- A transfer made after writes that kept every balance moves the balances read before
them. -/
theorem transferXRP_moves_from {ctx : RingContext} {written view after : RingLedger} {source target : AccountID}
    {amount : STAmount} (balancesKept : written.balanceVBC = view.balanceVBC)
    (transferred : written.transferXRP ctx source target amount = some (tesSUCCESS, after)) :
    view.balanceVBC source ≠ none ∧ view.balanceVBC target ≠ none ∧
      after.balanceVBC = view.moved source target amount.xrp := by
  obtain ⟨sourceRoot, targetRoot, balances⟩ := transferXRP_moves transferred
  refine ⟨balancesKept ▸ sourceRoot, balancesKept ▸ targetRoot, ?_⟩
  rw [balances]
  unfold moved
  rw [balancesKept]

/-- A transfer writes balances only. -/
theorem ring_transferXRP {ctx : RingContext} {view after : RingLedger} {source target : AccountID}
    {amount : STAmount} {ter : TER} (transferred : view.transferXRP ctx source target amount = some (ter, after)) :
    after.ring = view.ring := by
  rcases transferXRP_eq_some transferred with ⟨-, -, -, rfl⟩ | ⟨-, rfl⟩ <;> rfl

end RingLedger

/-- The two coordinates of a key pair or key image, `v[0]` and `v[1]`. -/
def coordinates (v : List Uint256) : Option (Uint256 × Uint256) := do
  let x ← v[0]?
  let y ← v[1]?
  return (x, y)

/-- `altbn128::ringVerify`, as far as its reads go: both coordinates of every key pair (steps
one and two and the loop read them), both of the key image, and `sig[i]` for each ring
member; `z1` and `z2` are set only inside the loop.  A read out of bounds, or of `z1` for an
empty ring, is `none`; otherwise the verification decides. -/
def ringVerify (crypto : RingCrypto) (ringHash : Option Uint256) (dest : AccountID) (c0 : Uint256)
    (keyImage sig : List Uint256) (publicKeys : List (List Uint256)) : Option Bool := do
  let pairs ← publicKeys.mapM coordinates
  let image ← coordinates keyImage
  let sigs ← (List.range publicKeys.length).mapM fun i => sig[i]?
  if publicKeys.isEmpty then none
  else return crypto.verify ringHash dest c0 image pairs sigs

variable (config : Config) (crypto : RingCrypto) (ctx : RingContext)

namespace RingDeposit

/-- `RingDeposit::preflight`: a configured section, a legal mantissa, a VBC amount, and a
key pair on the curve.  The sign of the amount is not looked at. -/
def preflight (tx : STTx) : TER :=
  if config.secretTx.isNone then tefINTERNAL
  else if tx.amount.mantissa ∉ config.legalValues then temBAD_AMOUNT
  else if !tx.amount.isVBC then temBAD_AMOUNT
  else match tx.publicKeyPair with
    | [pkx, pky] => if crypto.onCurve pkx pky then tesSUCCESS else telBAD_PUBLIC_KEY
    | _ => telBAD_PUBLIC_KEY

/-- The duplicate test of `preclaim`: the first coordinate of each key of the ring against
either coordinate of the new key. -/
def dupPublicKey (newPk : List Uint256) : List (List Uint256) → Option Bool
  | [] => some false
  | pkPair :: rest => do
    let pkx ← pkPair[0]?
    let x ← newPk[0]?
    if pkx = x then return true
    let y ← newPk[1]?
    if pkx = y then return true
    dupPublicKey newPk rest

/-- `RingDeposit::preclaim`: the depositor's root and VBC balance, a ring index from one, the
current index of the ring-info entry, and a key new to the current ring. -/
def preclaim (view : RingLedger) (tx : STTx) : Option TER :=
  match view.balanceVBC tx.account with
  | none => some terNO_ACCOUNT
  | some balanceVBC =>
    if balanceVBC < tx.amount.xrp then some tecUNFUNDED_TRANSFER
    else if tx.ringIndex ≤ 0 then some tecNO_ENTRY
    else match view.ring (Denomination.of tx.amount) 0 with
      | none => some (if tx.ringIndex ≠ 1 then tecNO_ENTRY else tesSUCCESS)
      | some ringInfo =>
        if ringInfo.ringIndex ≠ tx.ringIndex then some tefRING_CLOSED
        else match view.ring (Denomination.of tx.amount) ringInfo.ringIndex with
          | some ringSle =>
            (dupPublicKey tx.publicKeyPair ringSle.publicKeys).map fun dup =>
              if dup then telBAD_PUBLIC_KEY else tesSUCCESS
          | none => some tesSUCCESS

/-- The hash `RingDeposit` records for a depositor in a ring. -/
def depositHash (tx : STTx) (index : Nat) : Uint256 :=
  crypto.accountHash "D" tx.account tx.amount.mantissa index

/-- A new ring under `index`: the depositor's hash and key, the amount, one deposit, and the
configured number of participants. -/
def newRing (tx : STTx) (index : Nat) : Ring where
  ledgerSequence := ctx.seq
  ringHash := Uint256.zero
  amount := some tx.amount
  ringDeposited := 1
  ringWithdrawed := 0
  accounts := [depositHash crypto tx index]
  publicKeys := [tx.publicKeyPair]
  keyImages := []
  ringIndex := index
  participantsNum := config.participantsNumber

/-- Insert a new ring under `index`, and pay the amount into the mid account. -/
def createRing (view : RingLedger) (tx : STTx) (aCore : AccountID) (index : Nat) : Option (TER × RingLedger) :=
  (view.insertRing (Denomination.of tx.amount) index (newRing config crypto ctx tx index)).bind fun view =>
    view.transferXRP ctx tx.account aCore tx.amount

/-- Whether a ring opened at `startSeq` is within the fast interval, which delays its close;
the difference of ledger sequences is a `uint32_t`. -/
def fastDelay (startSeq : Nat) : Bool :=
  decide (0 < config.fastInterval) && decide (((ctx.seq : Int) - startSeq) % 2 ^ 32 < config.fastInterval)

/-- A deposit into an open ring: the depositor's hash and key appended and the count raised
(a `uint32_t`); whether the ring closes, full and not delayed or at the maximum; and the
number of participants raised to the count when the count passes it. -/
def depositInto (tx : STTx) (index : Nat) (ringSle : Ring) (delayed : Bool) : Ring × Bool :=
  let next := (ringSle.ringDeposited + 1) % 2 ^ 32
  let ringPks := ringSle.publicKeys ++ [tx.publicKeyPair]
  let closes := (decide (next ≥ ringSle.participantsNum) && !delayed) || decide (next ≥ config.maxParticipants)
  let deposited := { ringSle with
    accounts := ringSle.accounts ++ [depositHash crypto tx index]
    ringDeposited := next
    publicKeys := ringPks
    ringHash := if closes then crypto.createRingHash ringPks tx.amount.mantissa index else ringSle.ringHash }
  (if next > ringSle.participantsNum then { deposited with participantsNum := next } else deposited, closes)

/-- The deposit once the ring-info entry is read, or made: the ring under its index takes
the deposit while it is open, and is closed when full, the deposit then opening the next
ring. -/
def depositWith (view : RingLedger) (tx : STTx) (aCore : AccountID) (ringInfo : Ring) : Option (TER × RingLedger) :=
  let denom := Denomination.of tx.amount
  let view := view.setRing denom 0 ringInfo
  let lastRingIndex := ringInfo.ringIndex
  if lastRingIndex ≠ tx.ringIndex then some (tefRING_CLOSED, view)
  else match view.ring denom lastRingIndex with
    | none => createRing config crypto ctx view tx aCore lastRingIndex
    | some ringSle =>
      let delayed := fastDelay config ctx ringSle.ledgerSequence
      if ringSle.ringHash = Uint256.zero ∧ (ringSle.ringDeposited ≤ ringSle.participantsNum ∨ delayed = true) then
        if depositHash crypto tx lastRingIndex ∈ ringSle.accounts then some (tefRING_REDUNDANT, view)
        else
          let (ringSle, closes) := depositInto config crypto tx lastRingIndex ringSle delayed
          let view := if closes then view.setRing denom 0 { ringInfo with ringIndex := (lastRingIndex + 1) % 2 ^ 32 } else view
          (view.setRing denom lastRingIndex ringSle).transferXRP ctx tx.account aCore tx.amount
      else
        -- a full ring is closed, and the deposit opens the next one
        let view := if ringSle.ringHash = Uint256.zero then
            view.setRing denom lastRingIndex
              { ringSle with ringHash := crypto.createRingHash ringSle.publicKeys tx.amount.mantissa lastRingIndex }
          else view
        let next := (lastRingIndex + 1) % 2 ^ 32
        createRing config crypto ctx (view.setRing denom 0 { ringInfo with ringIndex := next }) tx aCore next

/-- `RingDeposit::doApply`: the mid account must have a root; the ring-info entry is made on
first use, with index one. -/
def doApply (view : RingLedger) (tx : STTx) : Option (TER × RingLedger) :=
  match config.midAccount with
  | none => some (tefINTERNAL, view)
  | some aCore =>
    if view.balanceVBC aCore = none then some (tefINTERNAL, view)
    else depositWith config crypto ctx view tx aCore
      ((view.ring (Denomination.of tx.amount) 0).getD { Ring.blank with ringIndex := 1 })

end RingDeposit

namespace RingWithdraw

/-- `RingWithdraw::preflight`: a VBC amount and a key image of two elements.  The
signatures are not looked at. -/
def preflight (tx : STTx) : TER :=
  if !tx.amount.isVBC then temBAD_AMOUNT
  else if tx.keyImage.length ≠ 2 then temBAD_SIGNATURE
  else tesSUCCESS

/-- The hash `RingWithdraw` records for a withdrawing account. -/
def withdrawHash (tx : STTx) : Uint256 :=
  crypto.accountHash "W" tx.account tx.amount.mantissa tx.ringIndex

/-- The double-spend test: the key image's first element against both elements of each key
image the ring has seen. -/
def spentImage (imageX : Uint256) : List (List Uint256) → Option Bool
  | [] => some false
  | imagePoint :: rest => do
    let first ← imagePoint[0]?
    if imageX = first then return true
    let second ← imagePoint[1]?
    if imageX = second then return true
    spentImage imageX rest

/-- Record the withdrawal in a ring that has withdrawals left, or erase the ring on its last
one, moving the ring-info entry past it if it still names it. -/
def recordWithdrawal (view : RingLedger) (tx : STTx) (ringSle : Ring) : Option RingLedger :=
  let denom := Denomination.of tx.amount
  if ringSle.ringWithdrawed + 1 = ringSle.ringDeposited then
    let view := view.eraseRing denom tx.ringIndex
    (view.ring denom 0).map fun ringInfo =>
      if ringInfo.ringIndex = tx.ringIndex then
        view.setRing denom 0 { ringInfo with ringIndex := (tx.ringIndex + 1) % 2 ^ 32 }
      else view
  else
    some (view.setRing denom tx.ringIndex
      { ringSle with
        accounts := ringSle.accounts ++ [withdrawHash crypto tx]
        keyImages := ringSle.keyImages ++ [tx.keyImage]
        ringWithdrawed := ringSle.ringWithdrawed + 1 })

/-- `RingWithdraw::doApply`: a closed ring with withdrawals left, an account that has not
withdrawn from it, a ring signature, and a key image not spent; then the amount is paid out
of the mid account. -/
def doApply (view : RingLedger) (tx : STTx) : Option (TER × RingLedger) :=
  match view.ring (Denomination.of tx.amount) tx.ringIndex with
  | none => some (tecNO_ENTRY, view)
  | some ringSle =>
    if ringSle.ringDeposited ≠ ringSle.participantsNum then some (tefRING_NOT_CLOSED, view)
    else if ringSle.ringWithdrawed ≥ ringSle.ringDeposited then some (tefBAD_LEDGER, view)
    else if ringSle.ringHash = Uint256.zero then some (tefRING_NOT_CLOSED, view)
    else if withdrawHash crypto tx ∈ ringSle.accounts then some (tefRING_REDUNDANT, view)
    else do
      let verified ← ringVerify crypto (some ringSle.ringHash) tx.account tx.digest tx.keyImage tx.signatures
        ringSle.publicKeys
      if !verified then return (tefBAD_SIGNATURE, view)
      let imageX ← tx.keyImage[0]?
      let spent ← spentImage imageX ringSle.keyImages
      if spent then return (tefBAD_SIGNATURE, view)
      let view ← recordWithdrawal crypto view tx ringSle
      match config.midAccount with
      | none => return (tefINTERNAL, view)
      | some midAccount => view.transferXRP ctx midAccount tx.account tx.amount

end RingWithdraw

namespace RingCancel

/-- `RingCancel::preflight`: a mid account, a key pair on the curve, a VBC amount, and a key
image of two elements. -/
def preflight (tx : STTx) : TER :=
  if config.midAccount.isNone then tefINTERNAL
  else match tx.publicKeyPair with
    | [pkx, pky] =>
      if !crypto.onCurve pkx pky then telBAD_PUBLIC_KEY
      else if !tx.amount.isVBC then temBAD_AMOUNT
      else if tx.keyImage.length ≠ 2 then temBAD_SIGNATURE
      else tesSUCCESS
    | _ => telBAD_PUBLIC_KEY

/-- Whether a key pair of the ring is the canceller's, reading both coordinates of each. -/
def samePair (keyPair pk : List Uint256) : Option Bool := do
  let x ← keyPair[0]?
  let px ← pk[0]?
  if x ≠ px then return false
  let y ← keyPair[1]?
  let py ← pk[1]?
  return y = py

/-- The position `preclaim` finds: the number of non-empty key pairs before the canceller's. -/
def position (pk : List Uint256) : List (List Uint256) → Option Nat
  | [] => some 0
  | keyPair :: rest =>
    if keyPair.isEmpty then position pk rest
    else do
      if ← samePair keyPair pk then return 0
      return (← position pk rest) + 1

/-- `RingCancel::preclaim`: an open ring with deposits and no withdrawals, one signature per
key, and the canceller's deposit hash at the position of its key. -/
def preclaim (view : RingLedger) (tx : STTx) : Option TER :=
  match view.ring (Denomination.of tx.amount) tx.ringIndex with
  | none => some tecNO_ENTRY
  | some ringSle =>
    if ringSle.ringHash ≠ Uint256.zero then some tefRING_CLOSED
    else if ringSle.ringWithdrawed > 0 then some tefBAD_LEDGER
    else if ringSle.ringDeposited = 0 then some tecNO_TARGET
    else if tx.signatures.length ≠ ringSle.publicKeys.length then some temBAD_SIGNATURE
    else (position tx.publicKeyPair ringSle.publicKeys).map fun pos =>
      match ringSle.accounts[pos]? with
      | none => tecNO_TARGET
      | some depositHash =>
        if depositHash ≠ RingDeposit.depositHash crypto tx tx.ringIndex then tecNO_TARGET else tesSUCCESS

/-- The key pairs left once the canceller's is removed (every copy of it, and empty pairs),
and whether one was removed. -/
def recallKeys (pk : List Uint256) : List (List Uint256) → Option (List (List Uint256) × Bool)
  | [] => some ([], false)
  | keyPair :: rest => do
    let (kept, removed) ← recallKeys pk rest
    if keyPair.isEmpty then return (kept, removed)
    if ← samePair keyPair pk then return (kept, true)
    return (keyPair :: kept, removed)

/-- `RingCancel::doApply`: a ring signature, the canceller's deposit hash and key removed
(the ring erased, and the ring-info entry moved on, when no key is left), and the amount
paid back out of the mid account. -/
def doApply (view : RingLedger) (tx : STTx) : Option (TER × RingLedger) :=
  let denom := Denomination.of tx.amount
  match view.ring denom tx.ringIndex with
  | none => some (tecNO_ENTRY, view)
  | some ringSle => do
    let verified ← ringVerify crypto none tx.account tx.digest tx.keyImage tx.signatures ringSle.publicKeys
    if !verified then return (tefBAD_SIGNATURE, view)
    let acctHash := RingDeposit.depositHash crypto tx tx.ringIndex
    if acctHash ∉ ringSle.accounts then return (tecNO_TARGET, view)
    let (newPks, removed) ← recallKeys tx.publicKeyPair ringSle.publicKeys
    if !removed then return (tecNO_TARGET, view)
    let view ← if newPks.isEmpty then
        match view.ring denom 0 with
        | none => return (tefINTERNAL, view)
        | some ringInfo =>
          pure ((view.setRing denom 0 { ringInfo with ringIndex := (ringInfo.ringIndex + 1) % 2 ^ 32 }).eraseRing
            denom tx.ringIndex)
      else
        pure (view.setRing denom tx.ringIndex
          { ringSle with
            accounts := ringSle.accounts.erase acctHash
            publicKeys := newPks
            ringDeposited := (ringSle.ringDeposited + 2 ^ 32 - 1) % 2 ^ 32 })
    -- the mid account was parsed in preflight; it is dereferenced here without a test
    let midAccount ← config.midAccount
    view.transferXRP ctx midAccount tx.account tx.amount

end RingCancel

/-- The transaction's preflight. -/
def ringPreflight (tx : STTx) : TER :=
  match tx.txnType with
  | .ttRING_DEPOSIT => RingDeposit.preflight config crypto tx
  | .ttRING_WITHDRAW => RingWithdraw.preflight tx
  | .ttRING_CANCEL => RingCancel.preflight config crypto tx
  | _ => temUNKNOWN

/-- The transactor's own preclaim; `RingWithdraw` has none. -/
def ringPreclaim (view : RingLedger) (tx : STTx) : Option TER :=
  match tx.txnType with
  | .ttRING_DEPOSIT => RingDeposit.preclaim view tx
  | .ttRING_CANCEL => RingCancel.preclaim crypto view tx
  | _ => some tesSUCCESS

/-- The transactor's `doApply`. -/
def ringDoApply (view : RingLedger) (tx : STTx) : Option (TER × RingLedger) :=
  match tx.txnType with
  | .ttRING_DEPOSIT => RingDeposit.doApply config crypto ctx view tx
  | .ttRING_WITHDRAW => RingWithdraw.doApply config crypto ctx view tx
  | .ttRING_CANCEL => RingCancel.doApply config crypto ctx view tx
  | _ => some (temUNKNOWN, view)

/-- `invoke_preclaim` for a ring transaction: for a sender other than the zero account,
`checkSeq` refuses one with no root and the transactor's own preclaim runs; for the zero
account nothing runs. -/
def ringInvokePreclaim (view : RingLedger) (tx : STTx) : Option TER :=
  if tx.account ≠ AccountID.zero then
    if view.balanceVBC tx.account = none then some terNO_ACCOUNT else ringPreclaim crypto view tx
  else some tesSUCCESS

/-- `ripple::apply` on the rings and VBC balances.  Only a success changes the rings and
balances: a claimed fee is paid in VRP, which is not modelled. -/
def applyRing (view : RingLedger) (tx : STTx) : Option (TER × RingLedger) :=
  let ter := ringPreflight config crypto tx
  if ter ≠ tesSUCCESS then some (ter, view)
  else
    (ringInvokePreclaim crypto view tx).bind fun ter =>
      if ter ≠ tesSUCCESS then some (ter, view)
      else (ringDoApply config crypto ctx view tx).map fun (ter, after) =>
        if ter = tesSUCCESS then (ter, after) else (ter, view)

/-- A run of ring transactions, each applied in the context of its own ledger, with the
result of each; a crash of the server ends the run with `none`. -/
def runRing (view : RingLedger) : List (RingContext × STTx) → Option (List TER × RingLedger)
  | [] => some ([], view)
  | (context, tx) :: rest => do
    let (ter, next) ← applyRing config crypto context view tx
    let (ters, last) ← runRing next rest
    return (ter :: ters, last)

end RadardFormal.Tx
