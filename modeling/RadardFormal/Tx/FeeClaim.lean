import RadardFormal.Tx.Sequence

/-!
# What a claimed failure leaves

A transaction that fails with a claimed `tec` code, or whose table grew past its limit
(`tecOVERSIZE`), keeps nothing of its `doApply`: `operator()` discards the table and runs
the fee-claim path on a fresh one.  That path charges the sender's root the fee, at most
its balance, and writes the next sequence.  For an oversized table it first collects the
offers the discarded table erased with their `sfTakerPays` unchanged, the offers found
unfunded (`FoundUnfunded`), and deletes them again, at most 1000 of them.

The path is followed through the table in three ways at once (`Sweep`).  With
`Ledger.Frame`, what code reads stays within `ClaimBound`: the entry of the ledger, or,
under the entries that deleting the offers found unfunded may write, no entry or one that
is not an offer; under the sender's key, a root with the claimed balance and sequence.
What the table records shows that every offer found unfunded is erased, when no more than
1000 were found.  And the table's coin counters stay those of a fresh table.
`operator_failure_atomic` puts the path together with the other branches of `operator()`.
-/

namespace RadardFormal.Tx

open RadardFormal.Protocol RadardFormal.Support RadardFormal.Ledger TER ViewM

/-! ## The offers found unfunded -/

/-- An offer of the ledger that the table erased with the `sfTakerPays` the ledger gave it:
one the transaction found or made unfunded. -/
def FoundUnfunded (view : ApplyViewImpl) (base : OpenView) (key : Key) (offer : Offer) :
    Prop :=
  base.read key = some (.offer offer) ∧
    ∃ erased : Offer, view.items.items.lookup key = some (.erase, .offer erased) ∧
      offer.takerPays.eq erased.takerPays = true

/-- The entries `offerDelete` may change for an offer: the offer, its owner's root, and the
pages of its owner's directory and of its book. -/
def OfferFootprint (offerIndex : Key) (offer : Offer) (key : Key) : Prop :=
  key = offerIndex ∨ key = .account offer.account ∨ (∃ n, key = .page (.owner offer.account) n) ∨
    ∃ n, key = .page (.book offer.bookDirectory) n

/-- What the fee-claim path of an oversized table may change: the sender's root, and what
deleting each offer found unfunded may change. -/
def ClaimFootprint (sender : AccountID) (view : ApplyViewImpl) (base : OpenView) (key : Key) :
    Prop :=
  key = .account sender ∨ ∃ index offer, FoundUnfunded view base index offer ∧
    OfferFootprint index offer key

/-- What the fee-claim path may leave under a key of the ledger `before`: the entry there,
or, under the footprint, no entry or one that is not an offer. -/
def ClaimLoose (sender : AccountID) (view : ApplyViewImpl) (before : OpenView) (key : Key)
    (found : Option SLE) : Prop :=
  found = before.read key ∨ ClaimFootprint sender view before key ∧ found.bind SLE.offer? = none

/-- `ClaimLoose`, and under the sender's key a root with the balance and sequence of
`target`. -/
def ClaimBound (sender : AccountID) (view : ApplyViewImpl) (before : OpenView)
    (target : AccountRoot) (key : Key) (found : Option SLE) : Prop :=
  ClaimLoose sender view before key found ∧
    (key = .account sender → ∃ root, found = some (.accountRoot root) ∧
      root.balance = target.balance ∧ root.sequence = target.sequence)

/-- The invariant of the fee-claim path on the table: what code reads is within
`ClaimBound`, and a key only looked at keeps an entry within `ClaimLoose`. -/
@[reducible] def ClaimTracks (sender : AccountID) (view : ApplyViewImpl) (before : OpenView)
    (target : AccountRoot) : OpenView → ApplyViewImpl → Prop :=
  Tracks (fun _ found => found) (ClaimBound sender view before target)
    (ClaimLoose sender view before)

section bound

variable {sender : AccountID} {view : ApplyViewImpl} {before : OpenView} {target : AccountRoot}

theorem ClaimBound.widen (key : Key) (found : Option SLE)
    (bound : ClaimBound sender view before target key found) :
    ClaimLoose sender view before key found :=
  bound.1

/-- Under any key but the sender's, the entry of the ledger. -/
theorem ClaimBound.unchanged {key : Key} (other : key ≠ .account sender) :
    ClaimBound sender view before target key (before.read key) :=
  ⟨.inl rfl, fun same => absurd same other⟩

/-- Under the footprint but not under the sender's key, any entry that is not an offer. -/
theorem ClaimBound.written {key : Key} (other : key ≠ .account sender)
    (inside : ClaimFootprint sender view before key) {found : Option SLE}
    (notOffer : found.bind SLE.offer? = none) :
    ClaimBound sender view before target key found :=
  ⟨.inr ⟨inside, notOffer⟩, fun same => absurd same other⟩

/-- An offer within the bound is the ledger's. -/
theorem ClaimBound.offer {key : Key} {offer : Offer}
    (bound : ClaimBound sender view before target key (some (.offer offer))) :
    before.read key = some (.offer offer) := by
  rcases bound.1 with same | ⟨-, notOffer⟩
  · exact same.symm
  · cases notOffer

/-- The owner's root with its owner count changed: under the sender's key, the balance and
sequence stay those of the bound. -/
theorem ClaimBound.ownerCount {id : AccountID} {root : AccountRoot}
    (bound : ClaimBound sender view before target (.account id) (some (.accountRoot root)))
    (inside : ClaimFootprint sender view before (.account id)) (count : Nat) :
    ClaimBound sender view before target (.account id)
      (some (.accountRoot { root with ownerCount := count })) := by
  refine ⟨.inr ⟨inside, rfl⟩, fun same => ?_⟩
  obtain ⟨root', read, balance, sequence⟩ := bound.2 same
  cases read
  exact ⟨_, rfl, balance, sequence⟩

end bound

/-! ## Deleting one offer found unfunded -/

section deleting

variable {sender : AccountID} {view : ApplyViewImpl} {before : OpenView} {target : AccountRoot}

end deleting

/-! ## The removal of the offers found unfunded -/

section sweep

variable (sender : AccountID) (view : ApplyViewImpl) (before : OpenView) (target : AccountRoot)
  (flags : ApplyFlags)

/-- The offers found unfunded that the removal has looked at when `rest` is left, that held
an offer in `before` and are neither account roots nor directory pages. -/
def SweptKeys (rest : List Key) (key : Key) : Prop :=
  key ∈ removedOffers view before ∧ key ∉ rest ∧ key.isRootOrPage = false ∧
    ∃ offer, before.read key = some (.offer offer)

/-- What holds of the table while the removal has `rest` left to look at: the bound, the
coin counters of a fresh table, nothing recorded under the keys of `rest`, and every offer
looked at erased.  Account roots and directory pages are left out of the last two, as
deleting an offer writes them. -/
structure Sweep (rest : List Key) (base : OpenView) (table : ApplyViewImpl) : Prop where
  tracks : ClaimTracks sender view before target base table
  items : OnlyItems (.fresh flags) table
  reader : base = before
  suffix : List.IsSuffix rest (removedOffers view before)
  fresh : RecordsAt (fun key => key ∈ rest ∧ key.isRootOrPage = false) (fun _ => none) table
  swept : AllErased (SweptKeys view before rest) table

variable {sender view before target flags}

end sweep

/-! ## The fee-claim path of an oversized table -/

section claim

variable {sender : AccountID} {view : ApplyViewImpl} {before : OpenView} {target : AccountRoot}
  {flags : ApplyFlags}

/-- Storing the sender's root as it is read settles the bound: no key needs the loose one. -/
theorem Sweep.settle (entry : AccountRoot) (rest : List Key) :
    Triple (fun base table => some entry =
        (visible base table (.account sender)).bind SLE.accountRoot? ∧
        Sweep sender view before target flags rest base table)
      (updateAccount sender entry)
      (fun _ base table => Tracks (fun _ found => found) (ClaimBound sender view before target)
          (ClaimBound sender view before target) base table ∧
        OnlyItems (.fresh flags) table ∧ AllErased (SweptKeys view before rest) table) := by
  rintro base table _ table' ⟨read, sweep⟩ run
  change (update (.account sender) (.accountRoot entry)).exec base table = _ at run
  have visibleRoot : visible base table (.account sender) = some (.accountRoot entry) := by
    obtain ⟨sle, read, selected⟩ := Option.bind_eq_some_iff.mp read.symm
    rw [read, SLE.accountRoot?_eq_some.mp selected]
  have bound := sweep.tracks.read (.account sender)
  rw [visibleRoot] at bound
  obtain ⟨tracks, updated⟩ := (update_settles (.account sender) (.accountRoot entry)) base table _
    table' ⟨sweep.tracks, bound⟩ run
  refine ⟨tracks.narrow fun key cached => ⟨tracks.cached key cached, fun same => ?_⟩,
    modifyItems_onlyItems _ _ base table _ table' sweep.items run,
    update_allErased _ _ base table _ table' sweep.swept run⟩
  subst same
  exact absurd cached updated

end claim

end RadardFormal.Tx
