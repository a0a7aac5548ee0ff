import RadardFormal.Protocol.STAmount
import Mathlib.Data.List.AList

/-!
# Ledger entries and the ledger they live in

The state map of a ledger holds serialized ledger entries (`SLE`s) under 256-bit
keys computed by the `keylet::` functions as hashes of what the entry is about.  A
key here is that preimage: `Key.account id` is `keylet::account (id)`, so two keys are
equal exactly when they are about the same thing.

Each entry type keeps the fields that the modelled code reads or writes; an optional
field that is absent reads as its default, as `STObject::getFieldByValue` returns it.
-/

namespace RadardFormal.Ledger

open RadardFormal.Protocol

/-- The root of a directory, the `uRootIndex` its pages are based on. -/
inductive DirRoot where
  /-- `getOwnerDirIndex (account)`. -/
  | owner (account : AccountID)
  /-- A book directory page zero, `getQualityIndex (bookBase, quality)`. -/
  | book (index : Uint256)
  deriving DecidableEq, Repr

/-- Ledger keys, by the keylet that computes them. -/
inductive Key where
  /-- `keylet::account`. -/
  | account (id : AccountID)
  /-- `keylet::page (root, index)`; page `0` is the root itself. -/
  | page (root : DirRoot) (index : Nat)
  /-- `keylet::signers`. -/
  | signers (id : AccountID)
  /-- `keylet::refer`. -/
  | refer (id : AccountID)
  /-- `keylet::offer (account, sequence)`. -/
  | offer (id : AccountID) (sequence : Nat)
  /-- `keylet::line`: the trust line of two accounts, low account first. -/
  | line (low high : AccountID) (currency : Currency)
  /-- `keylet::ring (mantissa, issue, index)`; index `0` is the ring-info entry. -/
  | ring (mantissa : Nat) (issue : Issue) (index : Nat)
  deriving DecidableEq, Repr

/-- `ltACCOUNT_ROOT`. -/
structure AccountRoot where
  account : AccountID
  balance : Int
  balanceVBC : Int
  sequence : Nat
  ownerCount : Nat
  flags : Nat
  regularKey : Option AccountID
  accountTxnID : Option Uint256
  referee : Option AccountID
  transferRate : Option Nat
  deriving DecidableEq, Repr

/-- One `sfSignerEntry` of a signer list. -/
structure SignerEntry where
  account : AccountID
  weight : Nat
  deriving DecidableEq, Repr

/-- `ltSIGNER_LIST`. -/
structure SignerList where
  signerQuorum : Nat
  signerListID : Nat
  signerEntries : List SignerEntry
  ownerNode : Nat
  deriving DecidableEq, Repr

/-- `ltREFER`: the accounts an account has referred. -/
structure Refer where
  account : AccountID
  references : Option (List AccountID)
  deriving DecidableEq, Repr

/-- `ltOFFER`. -/
structure Offer where
  account : AccountID
  takerPays : STAmount
  takerGets : STAmount
  bookDirectory : Uint256
  bookNode : Nat
  ownerNode : Option Nat
  deriving DecidableEq, Repr

/-- `ltDIR_NODE`: one page of a directory. -/
structure DirectoryNode where
  rootIndex : DirRoot
  indexes : List Key
  indexNext : Nat
  indexPrevious : Nat
  owner : Option AccountID
  deriving DecidableEq, Repr

/-- `ltRIPPLE_STATE`. -/
structure RippleState where
  balance : STAmount
  lowLimit : STAmount
  highLimit : STAmount
  lowNode : Nat
  highNode : Nat
  lowQualityIn : Nat
  lowQualityOut : Nat
  highQualityIn : Nat
  highQualityOut : Nat
  flags : Nat
  reserve : Option STAmount
  deriving DecidableEq, Repr

/-- A trust line with every field at its default, as `trustCreate` first inserts it. -/
def RippleState.blank (currency : Currency) : RippleState :=
  let zero := STAmount.zeroOf ⟨currency, noAccount⟩
  ⟨zero, zero, zero, 0, 0, 0, 0, 0, 0, 0, none⟩

/-- `ltRING`: a mixer ring, or with index `0` the ring-info entry, which only sets
`sfRingIndex`.  Each element of `publicKeys` and `keyImages` is one `sfRingHolder`'s
`STVector256`. -/
structure Ring where
  ledgerSequence : Nat
  ringHash : Uint256
  amount : Option STAmount
  ringDeposited : Nat
  ringWithdrawed : Nat
  accounts : List Uint256
  publicKeys : List (List Uint256)
  keyImages : List (List Uint256)
  ringIndex : Nat
  participantsNum : Nat
  deriving DecidableEq, Repr

/-- A ring entry with every field absent. -/
def Ring.blank : Ring :=
  ⟨0, Uint256.zero, none, 0, 0, [], [], [], 0, 0⟩

/-- A serialized ledger entry. -/
inductive SLE where
  | accountRoot (entry : AccountRoot)
  | directoryNode (entry : DirectoryNode)
  | signerList (entry : SignerList)
  | refer (entry : Refer)
  | offer (entry : Offer)
  | rippleState (entry : RippleState)
  | ring (entry : Ring)
  deriving DecidableEq, Repr

namespace SLE

def accountRoot? : SLE → Option AccountRoot
  | accountRoot entry => some entry
  | _ => none

def directoryNode? : SLE → Option DirectoryNode
  | directoryNode entry => some entry
  | _ => none

def signerList? : SLE → Option SignerList
  | signerList entry => some entry
  | _ => none

def refer? : SLE → Option Refer
  | refer entry => some entry
  | _ => none

def offer? : SLE → Option Offer
  | offer entry => some entry
  | _ => none

def rippleState? : SLE → Option RippleState
  | rippleState entry => some entry
  | _ => none

def ring? : SLE → Option Ring
  | ring entry => some entry
  | _ => none

end SLE

/-- The fee schedule of a ledger (`Fees`). -/
structure Fees where
  base : Nat
  units : Nat
  reserve : Nat
  increment : Nat
  deriving DecidableEq, Repr

/-- `Fees::accountReserve`: the base reserve and one increment per owned object. -/
def Fees.accountReserve (fees : Fees) (ownerCount : Nat) : Int :=
  fees.reserve + ownerCount * fees.increment

/-- The amendments the modelled code asks `Rules::enabled` about, each already
combined with the configured feature list. -/
structure Rules where
  multiSign : Bool
  deriving DecidableEq, Repr

/-- An open ledger as the transaction engine sees it (an `OpenView` over its parent
ledger): the state map, the header's coin totals, the transactions applied so far,
and what `ReadView` reports about the ledger. -/
structure OpenView where
  stateMap : AList (fun _ : Key => SLE)
  drops : Int
  dropsVBC : Int
  txs : List Uint256
  seq : Nat
  parentCloseTime : Nat
  isOpen : Bool
  fees : Fees
  rules : Rules

namespace OpenView

/-- `ReadView::read`: the entry under a key. -/
def read (ledger : OpenView) (key : Key) : Option SLE := ledger.stateMap.lookup key

/-- `ReadView::txExists`. -/
def txExists (ledger : OpenView) (txID : Uint256) : Bool := ledger.txs.contains txID

/-- The account root of an account. -/
def account? (ledger : OpenView) (id : AccountID) : Option AccountRoot :=
  (ledger.read (.account id)).bind SLE.accountRoot?

/-- The signer list of an account. -/
def signerList? (ledger : OpenView) (id : AccountID) : Option SignerList :=
  (ledger.read (.signers id)).bind SLE.signerList?

/-- The VRP the account roots hold, in drops. -/
def totalVRP (ledger : OpenView) : Int :=
  (ledger.stateMap.entries.map fun entry =>
    match entry.2 with
    | .accountRoot root => root.balance
    | _ => 0).sum

/-- The VBC the account roots hold, in drops. -/
def totalVBC (ledger : OpenView) : Int :=
  (ledger.stateMap.entries.map fun entry =>
    match entry.2 with
    | .accountRoot root => root.balanceVBC
    | _ => 0).sum

end OpenView

end RadardFormal.Ledger
