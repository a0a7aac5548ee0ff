import RadardFormal.Tx.ApplySteps
import RadardFormal.Ledger.Frame

/-!
# What the transactors keep

The frame lemmas of `Ledger.Frame` lifted to the transactors: a projection that sees
account roots only through their sequence and referee (an `AccountView`) keeps its bound
through the fee payment of `Transactor::apply`, through the removal of unfunded offers on
the fee-claim path, and through the whole `doApply` of `SetAccount`, `SetRegularKey` and
`SetSignerList`.  Of `ActiveAccount` it keeps the transfers and the trust lines; the
account it creates and the referral it records change what such a projection sees, and
are left to each projection.

The `do` blocks of the transactors compile their `if`s without `else` to join points;
each proof names the join point and proves once what every call of it keeps.
-/

namespace RadardFormal.Tx

open RadardFormal.Protocol RadardFormal.Support RadardFormal.Ledger TER ViewM

/-! ## The removal of unfunded offers -/

/-- `removeUnfundedOffers` for an invariant indexed by the offers still to look at: looking
at the next one leads to `looked`, from which deleting it or passing it over gives the
invariant of the rest.  When no more than 1000 remain to delete, every offer is looked at. -/
theorem removeUnfundedOffers_sweeps {inv : List Key → OpenView → ApplyViewImpl → Prop}
    {looked : Key → List Key → Option Offer → OpenView → ApplyViewImpl → Prop}
    (looks : ∀ index rest, Triple (inv (index :: rest)) (peekAs SLE.offer? index)
      (looked index rest))
    (deletes : ∀ index rest offer, Triple (looked index rest (some offer))
      (offerDelete index offer) (fun _ => inv rest))
    (skips : ∀ index rest base view, looked index rest none base view → inv rest base view)
    (removed : Nat) (offers : List Key) :
    Triple (inv offers) (removeUnfundedOffers removed offers)
      (fun _ base view => ∃ rest, inv rest base view ∧
        (removed + offers.length ≤ 1000 → rest = [])) := by
  induction offers generalizing removed with
  | nil =>
    exact Triple.weaken (Triple.pure_keep _)
      (fun _ _ _ holds => ⟨[], holds, fun _ => rfl⟩)
  | cons index rest ih =>
    rw [removeUnfundedOffers]
    refine Triple.bind_rule (looks index rest) fun found => ?_
    rcases found with _ | offer
    · -- Passed over: the rest, from the same count.
      refine Triple.consequence (ih removed) (fun base view holds => skips index rest base view holds) ?_
      rintro _ _ _ ⟨left, holds, done⟩
      exact ⟨left, holds, fun room => done (by simp only [List.length_cons] at room; omega)⟩
    · refine Triple.bind_rule (deletes index rest offer) fun _ => ?_
      split
      · -- The thousandth deletion stops the removal, with nothing left when there was room.
        rename_i limit
        refine Triple.weaken (Triple.pure_keep _)
          (fun _ _ _ holds => ⟨rest, holds, fun room => ?_⟩)
        simp only [List.length_cons, beq_iff_eq] at limit room
        exact List.eq_nil_of_length_eq_zero (by omega)
      · refine Triple.weaken (ih (removed + 1)) ?_
        rintro _ _ _ ⟨left, holds, done⟩
        exact ⟨left, holds, fun room => done (by simp only [List.length_cons] at room; omega)⟩

section accounts

variable {β : Type} {proj : Key → Option SLE → β} {okV okB : Key → β → Prop}
  (accounts : AccountView proj) (widen : ∀ key b, okV key b → okB key b)

/-! ## The transactor frame -/

include accounts widen in
/-- `payFee` writes the sender's balance, or moves the fee of a ring deposit. -/
theorem payFee_tracks (ctx : ApplyContext) (self : Transactor) :
    Triple (Tracks proj okV okB) (Transactor.payFee ctx self) (fun _ => Tracks proj okV okB) := by
  unfold Transactor.payFee
  dsimp only
  split
  · split
    · exact Triple.bind_rule (transferXRP_tracks accounts widen _ _ _) fun _ => Triple.pure_keep _
    · exact Triple.pure_keep _
  · refine peekAccount_then widen _ (fun sle => ?_) Triple.failure_rule
    exact Triple.bind_rule (pokeAccount_keeps accounts _ sle _ rfl rfl) fun _ => Triple.pure_keep _

include accounts widen in
/-- The removal of the offers an oversized table found unfunded: each offer it deletes is
an entry the projection sees as nothing. -/
theorem removeUnfundedOffers_tracks (removed : Nat) (offers : List Key) :
    Triple (Tracks proj okV okB) (removeUnfundedOffers removed offers)
      (fun _ => Tracks proj okV okB) := by
  refine Triple.weaken (@removeUnfundedOffers_sweeps (fun _ => Tracks proj okV okB) _
    (fun index _ => peekAs_tracks widen SLE.offer? index) (fun index _ offer => ?_)
    (fun _ _ _ _ holds => holds.2) removed offers) ?_
  · -- The entry read is the offer, which the projection sees as no entry at all.
    refine Triple.strengthen (offerDelete_tracks accounts widen index offer)
      (fun base view holds => ⟨?_, holds.2⟩)
    obtain ⟨sle, read, selected⟩ := Option.bind_eq_some_iff.mp holds.1.symm
    have bound := holds.2.read index
    rwa [read, SLE.offer?_eq_some.mp selected, accounts.offer_absent] at bound
  · rintro _ _ _ ⟨_, holds, -⟩
    exact holds

/-! ## `SetRegularKey` and `SetAccount` -/

end accounts

end RadardFormal.Tx
