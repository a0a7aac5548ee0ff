import RadardFormal.Ledger.Entries
import RadardFormal.Support.Overlay

/-!
# The view a transaction is applied through

`ApplyViewImpl` is an `ApplyStateTable` of changes over the open ledger, together
with the apply flags.  Transactor code reads and writes the ledger only through it:
`ViewM` is that code, reading the open ledger and threading the table, and failing
where `ApplyStateTable` raises a `LogicError`.

`apply` performs the table on the open ledger (`ApplyStateTable::apply`), moving the
coin totals by the drops created and destroyed and recording the transaction.
Metadata and the threading of `sfPreviousTxnID` are not modelled.
-/

namespace RadardFormal.Ledger

open RadardFormal.Protocol RadardFormal.Support

/-- `ApplyViewImpl`: the table of changes of one transaction and its flags. -/
structure ApplyViewImpl where
  items : Overlay Key SLE
  dropsDestroyed : Int
  dropsCreated : Int
  dropsVBCCreated : Int
  flags : ApplyFlags

namespace ApplyViewImpl

/-- A view with no changes, as `ApplyContext` makes it and `discard` remakes it. -/
def fresh (flags : ApplyFlags) : ApplyViewImpl := ⟨Overlay.empty, 0, 0, 0, flags⟩

/-- `ApplyStateTable::apply (OpenView&, tx, ...)`: insert the transaction and perform
the recorded changes and coin movements on the open ledger. -/
def apply (view : ApplyViewImpl) (target : OpenView) (txID : Uint256) : OpenView :=
  { target with
    stateMap := view.items.applyTo target.stateMap
    drops := target.drops + view.dropsCreated - view.dropsDestroyed
    dropsVBC := target.dropsVBC + view.dropsVBCCreated
    txs := target.txs ++ [txID] }

/-- One change as `ApplyStateTable::visit` reports it: the key, whether it is an
erasure, the entry in the base before, and the recorded entry. -/
structure Visit where
  key : Key
  isDelete : Bool
  before : Option SLE
  after : SLE

/-- `ApplyStateTable::visit`: every recorded change that is not a mere `cache`. -/
def visit (view : ApplyViewImpl) (base : OpenView) : List Visit :=
  view.items.items.entries.filterMap fun entry =>
    match entry.2 with
    | (.cache, _) => none
    | (.erase, sle) => some ⟨entry.1, true, base.read entry.1, sle⟩
    | (.insert, sle) => some ⟨entry.1, false, none, sle⟩
    | (.modify, sle) => some ⟨entry.1, false, base.read entry.1, sle⟩

end ApplyViewImpl

/-- Code running against an `ApplyView` over an open ledger; `none` is a `LogicError`. -/
abbrev ViewM := ReaderT OpenView (StateT ApplyViewImpl Option)

namespace ViewM

/-- Run view code over an open ledger, starting from a table of changes. -/
def exec (code : ViewM α) (base : OpenView) (view : ApplyViewImpl) :
    Option (α × ApplyViewImpl) :=
  (code.run base).run view

/-- Lift a table operation that a `LogicError` may refuse. -/
def modifyItems (change : Overlay Key SLE → Option (Overlay Key SLE)) : ViewM Unit :=
  fun _ view => (change view.items).map fun items => ((), { view with items })

/-- `ApplyView::peek`. -/
def peek (key : Key) : ViewM (Option SLE) := fun base view =>
  let (found, items) := view.items.peek base.stateMap key
  some (found, { view with items })

/-- `ReadView::read` through the table. -/
def read (key : Key) : ViewM (Option SLE) := fun base view =>
  some (view.items.read base.stateMap key, view)

/-- `ApplyView::insert`. -/
def insert (key : Key) (sle : SLE) : ViewM Unit := modifyItems fun items => items.insert key sle

/-- `ApplyView::update` of an entry that was changed in place. -/
def update (key : Key) (sle : SLE) : ViewM Unit := modifyItems fun items => items.update key sle

/-- A write through an entry pointer obtained from `peek`, with no `update`. -/
def poke (key : Key) (sle : SLE) : ViewM Unit := modifyItems fun items => some (items.poke key sle)

/-- `ApplyView::erase`. -/
def erase (key : Key) : ViewM Unit := modifyItems fun items => items.erase key

/-- `RawView::rawDestroyXRP`. -/
def destroyXRP (fee : Int) : ViewM Unit := fun _ view =>
  some ((), { view with dropsDestroyed := view.dropsDestroyed + fee })

/-- `ApplyView::flags`. -/
def flags : ViewM ApplyFlags := fun _ view => some (view.flags, view)

/-- `ReadView::fees`. -/
def fees : ViewM Fees := fun base view => some (base.fees, view)

/-- `ReadView::open`: whether the ledger applied to is still open. -/
def isOpen : ViewM Bool := fun base view => some (base.isOpen, view)

/-- `ReadView::seq`. -/
def seq : ViewM Nat := fun base view => some (base.seq, view)

/-- `ReadView::rules`. -/
def rules : ViewM Rules := fun base view => some (base.rules, view)

/-- `ApplyView::peek` of a typed keylet. -/
def peekAs (select : SLE → Option α) (key : Key) : ViewM (Option α) := do
  return (← peek key).bind select

/-- `ReadView::read` of a typed keylet. -/
def readAs (select : SLE → Option α) (key : Key) : ViewM (Option α) := do
  return (← read key).bind select

/-- The account root under `keylet::account`. -/
def peekAccount (id : AccountID) : ViewM (Option AccountRoot) :=
  peekAs SLE.accountRoot? (.account id)

/-- Store a changed account root that is already in the table. -/
def updateAccount (id : AccountID) (entry : AccountRoot) : ViewM Unit :=
  update (.account id) (.accountRoot entry)

/-- Write an account root through the pointer `peek` gave out. -/
def pokeAccount (id : AccountID) (entry : AccountRoot) : ViewM Unit :=
  poke (.account id) (.accountRoot entry)

/-! ## Running view code

One equation per operation, so that a run of modelled code is computed by rewriting
with these and never by unfolding the monad. -/

section exec

variable (base : OpenView) (view : ApplyViewImpl)

@[simp] theorem exec_pure (a : α) : (pure a : ViewM α).exec base view = some (a, view) := rfl

@[simp] theorem exec_failure : (failure : ViewM α).exec base view = none := rfl

theorem exec_bind (code : ViewM α) (next : α → ViewM β) :
    (code >>= next).exec base view =
      (code.exec base view).bind fun result => (next result.1).exec base result.2 := rfl

@[simp] theorem exec_map (f : α → β) (code : ViewM α) :
    (f <$> code).exec base view = (code.exec base view).map fun result => (f result.1, result.2) := by
  change (code.exec base view).bind _ = _
  cases code.exec base view <;> rfl

@[simp] theorem exec_peek (key : Key) :
    (peek key).exec base view =
      some ((view.items.peek base.stateMap key).1,
        { view with items := (view.items.peek base.stateMap key).2 }) := rfl

@[simp] theorem exec_peekAs (select : SLE → Option α) (key : Key) :
    (peekAs select key).exec base view =
      some ((view.items.peek base.stateMap key).1.bind select,
        { view with items := (view.items.peek base.stateMap key).2 }) := rfl

@[simp] theorem exec_read (key : Key) :
    (read key).exec base view = some (view.items.read base.stateMap key, view) := rfl

@[simp] theorem exec_update (key : Key) (sle : SLE) :
    (update key sle).exec base view =
      (view.items.update key sle).map fun items => ((), { view with items }) := rfl

@[simp] theorem exec_poke (key : Key) (sle : SLE) :
    (poke key sle).exec base view = some ((), { view with items := view.items.poke key sle }) :=
  rfl

@[simp] theorem exec_insert (key : Key) (sle : SLE) :
    (insert key sle).exec base view =
      (view.items.insert key sle).map fun items => ((), { view with items }) := rfl

@[simp] theorem exec_erase (key : Key) :
    (erase key).exec base view =
      (view.items.erase key).map fun items => ((), { view with items }) := rfl

@[simp] theorem exec_destroyXRP (fee : Int) :
    (destroyXRP fee).exec base view =
      some ((), { view with dropsDestroyed := view.dropsDestroyed + fee }) := rfl

@[simp] theorem exec_isOpen : isOpen.exec base view = some (base.isOpen, view) := rfl

end exec

end ViewM

end RadardFormal.Ledger
