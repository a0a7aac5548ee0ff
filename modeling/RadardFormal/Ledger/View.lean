import RadardFormal.Ledger.ApplyView

/-!
# Ledger modifiers of `View.cpp`

The helpers that transactors share to change the ledger through an `ApplyView`:
owner counts, removal from directories, offer deletion, native transfers, and the
referral link of `addRefer`.

An entry pointer the source obtains with `peek` is modelled by the value `peek`
returns; where the source writes twice through one pointer, the model reads the
entry again before the second write, so that both writes land on the current value.
A null pointer that the source dereferences is `failure`.
-/

namespace RadardFormal.Ledger

open RadardFormal.Protocol RadardFormal.Support TER

namespace AccountRoot

/-- The native balance `transferXRP` moves: `sfBalanceVBC` for VBC, else `sfBalance`. -/
def nativeBalance (root : AccountRoot) (isVBC : Bool) : Int :=
  if isVBC then root.balanceVBC else root.balance

/-- Set the native balance of one of the two currencies. -/
def setNativeBalance (root : AccountRoot) (isVBC : Bool) (balance : Int) :
    AccountRoot :=
  if isVBC then { root with balanceVBC := balance } else { root with balance := balance }

@[simp] theorem setNativeBalance_sequence (root : AccountRoot) (isVBC : Bool) (balance : Int) :
    (root.setNativeBalance isVBC balance).sequence = root.sequence := by
  unfold setNativeBalance
  split <;> rfl

@[simp] theorem setNativeBalance_referee (root : AccountRoot) (isVBC : Bool) (balance : Int) :
    (root.setNativeBalance isVBC balance).referee = root.referee := by
  unfold setNativeBalance
  split <;> rfl

end AccountRoot

/-- `dirIsEmpty` of a directory's root page: no root page, or one with no entries and no
page after it. -/
def dirIsEmpty (view : OpenView) (root : DirRoot) : Bool :=
  match (view.read (.page root 0)).bind SLE.directoryNode? with
  | none => true
  | some sleNode => sleNode.indexes.isEmpty && sleNode.indexNext == 0

namespace ViewM

/-- The owner count `adjustOwnerCount` stores: the 32-bit sum, pinned to the maximum
on overflow and to zero on underflow. -/
def adjustedOwnerCount (current : Nat) (amount : Int) : Nat :=
  let adjusted := ((current + amount) % 2 ^ 32).toNat
  if 0 < amount then (if adjusted < current then 2 ^ 32 - 1 else adjusted)
  else (if adjusted > current then 0 else adjusted)

/-- `adjustOwnerCount`. -/
def adjustOwnerCount (id : AccountID) (root : AccountRoot) (amount : Int) : ViewM Unit :=
  updateAccount id { root with ownerCount := adjustedOwnerCount root.ownerCount amount }

/-- The directory page under a key. -/
def peekDirectory (key : Key) : ViewM (Option DirectoryNode) := peekAs SLE.directoryNode? key

/-- Remove one entry from a page's `sfIndexes`: in place when `stable`, otherwise by
moving the last entry into its slot. -/
def removeIndex (indexes : List Key) (pos : Nat) (stable : Bool) : List Key :=
  if indexes.length > 1 then
    if stable then indexes.eraseIdx pos
    else match indexes.getLast? with
      | some last => (indexes.set pos last).dropLast
      | none => []
  else []

/-- The page cleanup of `dirDelete` once page `nodeCur` is empty. -/
def dirDeleteEmptied (keepRoot : Bool) (root : DirRoot) (nodeCur : Nat)
    (node : DirectoryNode) : ViewM TER := do
  let nodePrevious := node.indexPrevious
  let nodeNext := node.indexNext
  if nodeCur == 0 then
    -- Just emptied the root page.
    if nodePrevious == 0 then
      erase (.page root nodeCur)
    else if keepRoot then pure ()
    else if nodePrevious != nodeNext then pure ()
    else
      -- Only the root and one last page: both go once both are empty.
      let some last ← peekDirectory (.page root nodeNext) | failure
      if last.indexes.isEmpty then
        erase (.page root nodeCur)
        erase (.page root nodeNext)
    return tesSUCCESS
  else if nodeNext != 0 then
    -- A page in the middle of the chain: unlink it.
    let some previous ← peekDirectory (.page root nodePrevious) | return tefBAD_LEDGER
    let some _ ← peekDirectory (.page root nodeNext) | return tefBAD_LEDGER
    update (.page root nodePrevious) (.directoryNode { previous with indexNext := nodeNext })
    let some next ← peekDirectory (.page root nodeNext) | failure
    update (.page root nodeNext) (.directoryNode { next with indexPrevious := nodePrevious })
    erase (.page root nodeCur)
    return tesSUCCESS
  else if keepRoot || nodePrevious != 0 then
    return tesSUCCESS
  else
    -- The last page, with only the root before it.
    let some rootPage ← peekDirectory (.page root 0) | failure
    if rootPage.indexes.isEmpty then
      erase (.page root 0)
      erase (.page root nodeCur)
    return tesSUCCESS

/-- `dirDelete`: remove `ledgerIndex` from the directory rooted at `root`, starting at
page `nodeDir`.  A soft delete that misses tries the following pages up to page 20. -/
def dirDelete (keepRoot : Bool) (nodeDir : Nat) (root : DirRoot) (ledgerIndex : Key)
    (stable soft : Bool) : ViewM TER := do
  let nodeCur := nodeDir
  let retry : ViewM TER :=
    if !soft then pure tefBAD_LEDGER
    else if nodeDir < 20 then dirDelete keepRoot (nodeDir + 1) root ledgerIndex stable true
    else pure tefBAD_LEDGER
  match ← peekDirectory (.page root nodeCur) with
  | none => retry
  | some node =>
    match node.indexes.idxOf? ledgerIndex with
    | none => retry
    | some pos =>
      let indexes := removeIndex node.indexes pos stable
      let node := { node with indexes }
      update (.page root nodeCur) (.directoryNode node)
      if indexes.isEmpty then dirDeleteEmptied keepRoot root nodeCur node
      else return tesSUCCESS
termination_by 20 - nodeDir

/-- `DIR_NODE_MAX`: the entries one directory page holds. -/
def dirNodeMax : Nat := 32

/-- `dirAdd`: append `ledgerIndex` to the last page of the directory rooted at `root`,
opening a new page when that one is full; returns the page it went to.  `describe` is
`fDescriber`, which fills in a new page.  The source writes the new entries through page
pointers after `update`; the model stores each page's final value. -/
def dirAdd (root : DirRoot) (ledgerIndex : Key) (describe : DirectoryNode → DirectoryNode) :
    ViewM (TER × Nat) := do
  match ← peekDirectory (.page root 0) with
  | none =>
    -- No root page: make it.
    let page := describe ⟨root, [], 0, 0, none⟩
    insert (.page root 0) (.directoryNode { page with indexes := [ledgerIndex] })
    return (tesSUCCESS, 0)
  | some sleRoot =>
    let nodeDir := sleRoot.indexPrevious
    let some sleNode ← (if nodeDir != 0 then peekDirectory (.page root nodeDir)
      else pure (some sleRoot)) | failure
    if sleNode.indexes.length != dirNodeMax then
      update (.page root nodeDir)
        (.directoryNode { sleNode with indexes := sleNode.indexes ++ [ledgerIndex] })
      return (tesSUCCESS, nodeDir)
    else if (nodeDir + 1) % 2 ^ 64 == 0 then
      return (tecDIR_FULL, 0)
    else
      let newDir := nodeDir + 1
      update (.page root nodeDir) (.directoryNode { sleNode with indexNext := newDir })
      -- The last page may be the root itself: read the root again.
      let some sleRoot ← peekDirectory (.page root 0) | failure
      update (.page root 0) (.directoryNode { sleRoot with indexPrevious := newDir })
      let page := describe ⟨root, [], 0, if newDir != 1 then newDir - 1 else 0, none⟩
      insert (.page root newDir) (.directoryNode { page with indexes := [ledgerIndex] })
      return (tesSUCCESS, newDir)

/-- The describer of an owner directory: it records the owner. -/
def describeOwnerDir (owner : AccountID) (page : DirectoryNode) : DirectoryNode :=
  { page with owner := some owner }

/-- `trustCreate`: insert a trust line between two accounts, enter it in both owner
directories, and charge its reserve to the account being set. -/
def trustCreate (srcHigh : Bool) (srcAccountID dstAccountID : AccountID) (index : Key)
    (account : AccountID) (auth noRipple freeze : Bool) (balance limit : STAmount)
    (qualityIn qualityOut : Nat) : ViewM TER := do
  let lowAccountID := if !srcHigh then srcAccountID else dstAccountID
  let highAccountID := if srcHigh then srcAccountID else dstAccountID
  insert index (.rippleState (RippleState.blank balance.issue.currency))
  let (terResult, lowNode) ← dirAdd (.owner lowAccountID) index (describeOwnerDir lowAccountID)
  let (terResult, highNode) ← if terResult == tesSUCCESS then
      dirAdd (.owner highAccountID) index (describeOwnerDir highAccountID)
    else pure (terResult, 0)
  if terResult == tesSUCCESS then
    let setDst := limit.issue.account == dstAccountID
    let setHigh := srcHigh != setDst
    let _ ← peekAccount (if setHigh then lowAccountID else highAccountID)
    let isAsset := limit.issue.currency == Currency.assetCurrency
    let peerLimit := STAmount.zeroOf ⟨balance.issue.currency,
      if setDst then srcAccountID else dstAccountID⟩
    let flags := (if setHigh then lsfHighReserve else lsfLowReserve)
      ||| (if auth then (if setHigh then lsfHighAuth else lsfLowAuth) else 0)
      ||| (if noRipple || isAsset then (if setHigh then lsfHighNoRipple else lsfLowNoRipple)
        else 0)
      ||| (if freeze then (if !setHigh then lsfLowFreeze else lsfHighFreeze) else 0)
    -- Every field is written through the pointer of the inserted entry.
    poke index (.rippleState
      { balance := if setHigh then balance.negate else balance
        lowLimit := if setHigh then peerLimit else limit
        highLimit := if setHigh then limit else peerLimit
        lowNode := lowNode
        highNode := highNode
        lowQualityIn := if !setHigh then qualityIn else 0
        lowQualityOut := if !setHigh then qualityOut else 0
        highQualityIn := if setHigh then qualityIn else 0
        highQualityOut := if setHigh then qualityOut else 0
        flags := flags
        reserve := if isAsset then some (.zeroOf ⟨Currency.assetCurrency, noAccount⟩) else none })
    let some sleAccount ← peekAccount account | failure
    adjustOwnerCount account sleAccount 1
  return terResult

/-- `offerDelete`: take the offer out of its owner's directory and its book page, give
back its reserve, and erase it. -/
def offerDelete (offerIndex : Key) (offer : Offer) : ViewM TER := do
  let owner := offer.account
  let terResult ← dirDelete false (offer.ownerNode.getD 0) (.owner owner) offerIndex false
    offer.ownerNode.isNone
  let terResult2 ← dirDelete false offer.bookNode (.book offer.bookDirectory) offerIndex
    true false
  if terResult == tesSUCCESS then
    let some root ← peekAccount owner | failure
    adjustOwnerCount owner root (-1)
  erase offerIndex
  return if terResult == tesSUCCESS then terResult2 else terResult

/-- `transferXRP`: move a native amount from one account root to another. -/
def transferXRP (source target : AccountID) (amount : STAmount) : ViewM TER := do
  let some sender ← peekAccount source | failure
  let some _ ← peekAccount target | failure
  let isVBC := amount.isVBC
  let senderBalance := sender.nativeBalance isVBC
  if STAmount.lt (STAmount.ofDrops isVBC senderBalance) amount then
    return if ← isOpen then telFAILED_PROCESSING else tecFAILED_PROCESSING
  updateAccount source (sender.setNativeBalance isVBC (senderBalance - amount.xrp))
  let some receiver ← peekAccount target | failure
  updateAccount target (receiver.setNativeBalance isVBC
    (receiver.nativeBalance isVBC + amount.xrp))
  return tesSUCCESS

/-- The `Refer` entry of an account. -/
def peekRefer (id : AccountID) : ViewM (Option Refer) := peekAs SLE.refer? (.refer id)

/-- `addRefer`: record `refereeID` as the referee of `referenceID`, and `referenceID`
among the references of `refereeID`. -/
def addRefer (refereeID referenceID : AccountID) : ViewM TER := do
  if refereeID == referenceID then return temDST_IS_SRC
  let sleReferee ← peekAccount refereeID
  let sleReference ← peekAccount referenceID
  let sleRefereeRefer ← peekRefer refereeID
  let sleReferenceRefer ← readAs SLE.refer? (.refer referenceID)
  -- A reference may not itself have references.
  if (sleReferenceRefer.bind Refer.references).isSome then return tefREFERENCE_EXIST
  let some _ := sleReferee | return tecNO_DST
  let some reference := sleReference | return terNO_ACCOUNT
  if reference.referee.any (· != AccountID.zero) then return tefREFEREE_EXIST
  -- The source updates or inserts the refer entry first and then sets its
  -- references through the same pointer; the model stores the final entry.
  let mut references : List AccountID := []
  if let some refer := sleRefereeRefer then
    if let some existing := refer.references then
      if existing.length > 1024 then return tecDIR_FULL
      if existing.contains referenceID then return tefREFERENCE_EXIST
      references := existing
  let refer : Refer := ⟨refereeID, some (references ++ [referenceID])⟩
  match sleRefereeRefer with
  | some _ => update (.refer refereeID) (.refer refer)
  | none => insert (.refer refereeID) (.refer refer)
  updateAccount referenceID { reference with referee := some refereeID }
  return tesSUCCESS

end ViewM

end RadardFormal.Ledger
