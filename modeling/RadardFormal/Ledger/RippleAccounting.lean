import RadardFormal.Ledger.RippleCredit
import RadardFormal.Ledger.DirectoryOps

set_option autoImplicit false

/-!
# What a payment moves on its trust lines

`rippleCredit` moves an amount along one trust line, and `rippleSend` on its transit path makes
two credits, from the issuer to the receiver and from the sender to the issuer, after it has read
the issuer's transfer fee and shared part of it with the sender's referee.  For any table a run
starts from, this module says what one credit leaves on its own line (`rippleCredit_moves`), that
it writes nothing outside its footprint (`rippleCredit_recordsAt`), and from the two what a transit
send that succeeds has moved (`rippleSend_transit_accounting`).  The fee sharing is a hook, of
which only that it keeps the table coherent is assumed.
-/

namespace RadardFormal.Ledger

open RadardFormal.Protocol RadardFormal.Support TER

namespace ViewM

/-- The keys a credit between two accounts may write: their line, their account roots and the
pages of their owner directories. -/
def CreditFootprint (senderID receiverID : AccountID) (currency : Currency) (key : Key) : Prop :=
  key = rippleStateIndex senderID receiverID currency ∨
    ∃ id, (id = senderID ∨ id = receiverID) ∧ (key = .account id ∨ ∃ n, key = .page (.owner id) n)

section frame

variable {away : Key → Prop} {recorded : Key → Option (Action × SLE)}

theorem rippleCredit_recordsAt (hooks : Hooks) (senderID receiverID : AccountID) {amount : STAmount}
    (notAsset : amount.issue.currency ≠ Currency.assetCurrency)
    (outside : ∀ key, away key → ¬CreditFootprint senderID receiverID amount.issue.currency key) :
    Triple (fun _ view => RecordsAt away recorded view) (rippleCredit hooks senderID receiverID amount)
      (fun _ _ view => RecordsAt away recorded view) := by
  have lineKey : ¬away (rippleStateIndex senderID receiverID amount.issue.currency) := fun there =>
    outside _ there (.inl rfl)
  have root : ∀ id, id = senderID ∨ id = receiverID → ¬away (.account id) := fun id side there =>
    outside _ there (.inr ⟨id, side, .inl rfl⟩)
  have dirs : ∀ id, id = senderID ∨ id = receiverID →
      DirWrites (fun _ view => RecordsAt away recorded view) (.owner id) := fun id side =>
    dirWrites_recordsAt fun n there => outside _ there (.inr ⟨id, side, .inr ⟨n, rfl⟩⟩)
  unfold rippleCredit
  refine Triple.bind_rule (Triple.bind_rule (peek_recordsAt lineKey) fun _ => Triple.pure_keep _) fun found => ?_
  rw [issueAsset_of_ne _ notAsset, pure_bind]
  simp -zeta only [Bool.false_eq_true, ↓reduceIte]
  rcases found with _ | line
  · dsimp only
    refine Triple.bind_rule (peekAs_keeps _ (peek_recordsAt (root receiverID (.inr rfl)))) fun found => ?_
    rcases found with _ | sleAccount
    · exact Triple.failure_rule
    · exact trustCreate_keeps _ _ _ _ _ _ _ _ _ _ _ _ (fun _ => insert_recordsAt lineKey _)
        (fun _ => poke_recordsAt lineKey _) dirs (fun id side => peek_recordsAt (root id side))
        (peek_recordsAt (root receiverID (.inr rfl)))
        (fun _ => Triple.strengthen (update_recordsAt (root receiverID (.inr rfl)) _)
          (fun _ _ holds => holds.1))
  · dsimp -zeta only
    extract_lets before uFlags
    refine Triple.bind_rule (?_ : Triple _ (ofExcept (before.plus amount.negate))
      (fun _ _ view => RecordsAt away recorded view)) fun after => ?_
    · unfold ofExcept
      split
      · exact Triple.pure_keep _
      · exact Triple.failure_rule
    extract_lets release flags bDelete line' cont
    -- The line is deleted with both its directory entries, or written back.
    have conts : ∀ u, Triple (fun _ view => RecordsAt away recorded view) (cont u)
        (fun _ _ view => RecordsAt away recorded view) := fun u => by
      dsimp only [cont]
      split
      · unfold trustDelete
        have either : ∀ high : Bool, (if high then receiverID else senderID) = senderID ∨
            (if high then receiverID else senderID) = receiverID := fun high => by
          cases high <;> simp
        refine Triple.bind_rule (dirDelete_keeps (dirs _ (either _)).toPageWrites _ _ _ _ _) fun _ => ?_
        refine Triple.ite_bind_rule (fun _ => dirDelete_keeps (dirs _ (either _)).toPageWrites _ _ _ _ _)
          (fun _ => Triple.pure_keep _) fun _ => ?_
        exact Triple.bind_rule (erase_recordsAt lineKey) fun _ => Triple.pure_keep _
      · exact Triple.bind_rule (update_recordsAt lineKey _) fun _ => Triple.pure_keep _
    refine Triple.ite_rule (fun _ => ?_) (fun _ => conts ())
    refine Triple.bind_rule (peekAs_keeps _ (peek_recordsAt (root senderID (.inl rfl)))) fun found => ?_
    rcases found with _ | sender
    · exact Triple.bind_rule Triple.failure_rule conts
    · exact Triple.bind_rule (update_recordsAt (root senderID (.inl rfl)) _) conts

end frame

/-- What `holder` holds on its trust line with `other`, as `rippleCredit` reads it: the line
keeps its balance from its low account's side. -/
def heldOn (read : Key → Option SLE) (holder other : AccountID) (currency : Currency) :
    Option STAmount :=
  ((read (rippleStateIndex holder other currency)).bind SLE.rippleState?).map fun line =>
    if holder > other then line.balance.negate else line.balance

/-- The sender's side of a line after a credit of `amount`: with no line before, the new line
holds the amount against the sender; otherwise the old holding less the amount, or no line when
that is zero and the line was deleted. -/
def Moved (before : Option STAmount) (amount : STAmount) (after : Option STAmount) : Prop :=
  match before with
  | none => after = some (amount.setIssuer noAccount).negate
  | some held => ∃ left, held.plus amount.negate = .ok left ∧
      (after = some left ∨ after = none ∧ left.mantissa = 0)

/-- An insert the table records at `key` is of an entry the ledger does not have. -/
def FreshAt (key : Key) (base : OpenView) (view : ApplyViewImpl) : Prop :=
  ∀ sle, view.items.items.lookup key = some (.insert, sle) → base.read key = none

/-- The table records a write under a key, an insert or a modification, of an entry that
`holds` holds of. -/
def Written (holds : SLE → Prop) (recorded : Option (Action × SLE)) : Prop :=
  ∃ action, action ≠ .erase ∧ ∃ sle, holds sle ∧ recorded = some (action, sle)

section line

variable {key : Key}

theorem visible_congr {base : OpenView} {view view' : ApplyViewImpl}
    (same : view'.items.items.lookup key = view.items.items.lookup key) :
    visible base view' key = visible base view key :=
  (Overlay.read_effect_congr base.stateMap key same).1

theorem FreshAt.congr {base : OpenView} {view view' : ApplyViewImpl}
    (same : view'.items.items.lookup key = view.items.items.lookup key) (fresh : FreshAt key base view) :
    FreshAt key base view' :=
  fun sle inserted => fresh sle (same ▸ inserted)

theorem heldOn_congr {base : OpenView} {view view' : ApplyViewImpl} {holder other : AccountID}
    {currency : Currency}
    (same : view'.items.items.lookup (rippleStateIndex holder other currency) =
      view.items.items.lookup (rippleStateIndex holder other currency)) :
    heldOn (visible base view') holder other currency = heldOn (visible base view) holder other currency := by
  rw [heldOn, heldOn, visible_congr same]

theorem peek_freshAt (key' : Key) : Triple (FreshAt key) (peek key') (fun _ => FreshAt key) := by
  intro base view found view' fresh run sle inserted
  change (peek key').exec base view = some (found, view') at run
  rw [exec_peek, Option.some.injEq, Prod.mk.injEq] at run
  obtain ⟨-, rfl⟩ := run
  change (view.items.peek base.stateMap key').2.items.lookup key = _ at inserted
  by_cases same : key = key'
  · subst same
    rcases Overlay.lookup_peek_self base.stateMap key view.items with kept | ⟨-, stored, -, cached⟩
    · exact fresh sle (kept ▸ inserted)
    · rw [cached] at inserted
      cases inserted
  · exact fresh sle ((Overlay.lookup_peek_ne base.stateMap key' key view.items same).symm.trans inserted)

/-- Code that leaves what the table records under `key` keeps every fact that depends only
on that record and on the ledger under the table. -/
theorem record_keep {α : Type} {code : ViewM α} {fact : OpenView → ApplyViewImpl → Prop}
    (determined : ∀ base view view', view'.items.items.lookup key = view.items.items.lookup key →
      fact base view → fact base view')
    (keeps : ∀ recorded, Triple (fun _ view => RecordsAt (· = key) (fun _ => recorded) view) code
      (fun _ _ view => RecordsAt (· = key) (fun _ => recorded) view)) :
    Triple fact code (fun _ => fact) := by
  intro base view result view' holds run
  have recorded : RecordsAt (· = key) (fun _ => view.items.items.lookup key) view := by
    rintro _ rfl
    rfl
  exact determined base view view' (keeps _ base view result view' recorded run key rfl) holds

/-- Such code keeps what code reads under `key` and whether the table inserted it there. -/
theorem visible_fresh_keep {α : Type} {code : ViewM α} {sle : SLE}
    (keeps : ∀ recorded, Triple (fun _ view => RecordsAt (· = key) (fun _ => recorded) view) code
      (fun _ _ view => RecordsAt (· = key) (fun _ => recorded) view)) :
    Triple (fun base view => visible base view key = some sle ∧ FreshAt key base view) code
      (fun _ base view => visible base view key = some sle ∧ FreshAt key base view) :=
  record_keep (fun _ _ _ same holds => ⟨(visible_congr same).trans holds.1, FreshAt.congr same holds.2⟩)
    keeps

theorem insert_written (sle : SLE) :
    Triple (fun _ _ => True) (insert key sle)
      (fun _ _ view => Written (· = sle) (view.items.items.lookup key)) := by
  intro base view _ view' _ run
  change (insert key sle).exec base view = some ((), view') at run
  rw [exec_insert] at run
  obtain ⟨items, inserted, same⟩ := Option.map_eq_some_iff.mp run
  cases same
  unfold Overlay.insert at inserted
  rcases found : view.items.items.lookup key with _ | ⟨action, recorded⟩ <;> rw [found] at inserted
  · cases inserted
    exact ⟨.insert, nofun, sle, rfl, by simp⟩
  · cases action <;> cases inserted
    exact ⟨.modify, nofun, sle, rfl, by simp⟩

theorem poke_written {holds : SLE → Prop} (sle : SLE) :
    Triple (fun _ view => Written holds (view.items.items.lookup key)) (poke key sle)
      (fun _ _ view => Written (· = sle) (view.items.items.lookup key)) := by
  rintro base view _ view' ⟨action, notErase, old, -, found⟩ run
  change (poke key sle).exec base view = some ((), view') at run
  rw [exec_poke, Option.some.injEq, Prod.mk.injEq] at run
  obtain ⟨-, rfl⟩ := run
  refine ⟨action, notErase, sle, rfl, ?_⟩
  change (view.items.poke key sle).items.lookup key = _
  rw [Overlay.lookup_poke_self, found]
  rfl

theorem written_determined {holds : SLE → Prop} (_ : OpenView) (view view' : ApplyViewImpl)
    (same : view'.items.items.lookup key = view.items.items.lookup key)
    (written : Written holds (view.items.items.lookup key)) : Written holds (view'.items.items.lookup key) :=
  same ▸ written

theorem Written.found {holds : SLE → Prop} {base : OpenView} {view : ApplyViewImpl}
    (written : Written holds (view.items.items.lookup key)) :
    ∃ sle, holds sle ∧ visible base view key = some sle := by
  obtain ⟨action, notErase, sle, holding, found⟩ := written
  refine ⟨sle, holding, ?_⟩
  unfold visible Overlay.read
  rw [found]
  cases action
  all_goals first | rfl | exact absurd rfl notErase

theorem erase_gone : Triple (FreshAt key) (erase key) (fun _ base view => visible base view key = none) := by
  intro base view _ view' fresh run
  change (erase key).exec base view = some ((), view') at run
  rw [exec_erase] at run
  obtain ⟨items, erased, same⟩ := Option.map_eq_some_iff.mp run
  cases same
  unfold Overlay.erase at erased
  rcases found : view.items.items.lookup key with _ | ⟨action, recorded⟩ <;> rw [found] at erased
  · cases erased
  · cases action <;> cases erased
    · simp [visible, Overlay.read]
    · -- An entry the table inserted is forgotten, and the ledger does not have it.
      simpa [visible, Overlay.read, AList.lookup_erase, OpenView.read] using fresh recorded found
    · simp [visible, Overlay.read]

/-- A `trustCreate` that succeeds leaves its line as code reads it, with the balance given
turned to the side of the account being set. -/
theorem trustCreate_line (srcHigh : Bool) (srcAccountID dstAccountID : AccountID)
    (notPage : ∀ root n, Key.page root n ≠ key) (notRoot : ∀ id, Key.account id ≠ key)
    (account : AccountID) (auth noRipple freeze : Bool) (balance limit : STAmount)
    (qualityIn qualityOut : Nat) :
    Triple (fun _ _ => True)
      (trustCreate srcHigh srcAccountID dstAccountID key account auth noRipple freeze balance limit
        qualityIn qualityOut)
      (fun ter base view => ter = tesSUCCESS → ∃ line, visible base view key = some (.rippleState line) ∧
        line.balance = if (srcHigh != (limit.issue.account == dstAccountID)) = true then balance.negate
          else balance) := by
  -- The line is written: inserted, and then written through its pointer, by no other write.
  have dirs : ∀ root recorded, DirWrites (fun _ view => RecordsAt (· = key) (fun _ => recorded) view) root :=
    fun root _ => dirWrites_recordsAt fun n there => notPage root n there
  have roots : ∀ id recorded, Triple (fun _ view => RecordsAt (· = key) (fun _ => recorded) view)
      (peek (.account id)) (fun _ _ view => RecordsAt (· = key) (fun _ => recorded) view) :=
    fun id _ => @peek_recordsAt (· = key) _ (.account id) (notRoot id)
  have rootWrites : ∀ id recorded (entry : AccountRoot),
      Triple (fun _ view => RecordsAt (· = key) (fun _ => recorded) view) (updateAccount id entry)
        (fun _ _ view => RecordsAt (· = key) (fun _ => recorded) view) :=
    fun id _ _ => @update_recordsAt (· = key) _ (.account id) (notRoot id) _
  unfold trustCreate
  refine Triple.bind_rule (insert_written _) fun _ => ?_
  refine Triple.bind_rule (record_keep written_determined fun _ => dirAdd_keeps (dirs _ _) _ _) fun low => ?_
  obtain ⟨terResult, lowNode⟩ := low
  dsimp only
  refine Triple.ite_bind_rule (fun _ => record_keep written_determined fun _ => dirAdd_keeps (dirs _ _) _ _)
    (fun _ => Triple.pure_keep _) fun high => ?_
  obtain ⟨terResult, highNode⟩ := high
  dsimp only
  split
  · refine Triple.bind_rule (record_keep written_determined fun _ => peekAs_keeps _ (roots _ _)) fun _ => ?_
    refine Triple.bind_rule (poke_written _) fun _ => ?_
    refine Triple.bind_rule (record_keep written_determined fun _ => peekAs_keeps _ (roots _ _)) fun found => ?_
    rcases found with _ | sleAccount <;> dsimp only
    · exact Triple.bind_rule Triple.failure_rule fun _ => Triple.pure_rule _
    refine Triple.bind_rule (record_keep written_determined fun _ => rootWrites _ _ _) fun _ => ?_
    refine Triple.weaken (Triple.pure_keep _) (fun _ _ _ holds _ => ?_)
    obtain ⟨_, rfl, read⟩ := holds.found
    exact ⟨_, read, rfl⟩
  · -- A directory was full: the code is returned as it is.
    rename_i failed
    exact Triple.strengthen (Triple.pure_rule _) (fun _ _ _ same => absurd (beq_iff_eq.mpr same) failed)

theorem ofExcept_spec {α : Type} {pre : OpenView → ApplyViewImpl → Prop} (result : Except String α) :
    Triple pre (ofExcept result) (fun a base view => result = .ok a ∧ pre base view) := by
  unfold ofExcept
  split
  · exact Triple.strengthen (Triple.pure_rule _) (fun _ _ holds => ⟨rfl, holds⟩)
  · exact Triple.failure_rule

theorem ofExcept_keep {α : Type} {pre : OpenView → ApplyViewImpl → Prop} (result : Except String α) :
    Triple pre (ofExcept result) (fun _ => pre) :=
  Triple.weaken (ofExcept_spec result) (fun _ _ _ holds => holds.2)

theorem update_read (sle : SLE) :
    Triple (fun _ _ => True) (update key sle) (fun _ base view => visible base view key = some sle) := by
  intro base view _ view' _ run
  change (update key sle).exec base view = some ((), view') at run
  rw [exec_update] at run
  obtain ⟨items, updated, same⟩ := Option.map_eq_some_iff.mp run
  cases same
  exact (Overlay.read_effect_update base.stateMap key sle updated).1

end line

/-- A credit that answers `tesSUCCESS` moves the sender's side of its line by the amount, from
what the sender held there before. -/
theorem rippleCredit_moves (hooks : Hooks) (senderID receiverID : AccountID) {amount : STAmount}
    (notAsset : amount.issue.currency ≠ Currency.assetCurrency) (before : Option STAmount) :
    Triple (fun base view =>
        heldOn (visible base view) senderID receiverID amount.issue.currency = before ∧
          FreshAt (rippleStateIndex senderID receiverID amount.issue.currency) base view)
      (rippleCredit hooks senderID receiverID amount)
      (fun ter base view => ter = tesSUCCESS →
        Moved before amount (heldOn (visible base view) senderID receiverID amount.issue.currency)) := by
  have notPage : ∀ root n, Key.page root n ≠ rippleStateIndex senderID receiverID amount.issue.currency :=
    fun _ _ => nofun
  have notRoot : ∀ id, Key.account id ≠ rippleStateIndex senderID receiverID amount.issue.currency :=
    fun _ => nofun
  -- Looking the line up changes nothing code reads, and records only a ledger entry.
  have peeks : Triple (fun base view =>
        heldOn (visible base view) senderID receiverID amount.issue.currency = before ∧
          FreshAt (rippleStateIndex senderID receiverID amount.issue.currency) base view)
      (peek (rippleStateIndex senderID receiverID amount.issue.currency)) (fun _ base view =>
        heldOn (visible base view) senderID receiverID amount.issue.currency = before ∧
          FreshAt (rippleStateIndex senderID receiverID amount.issue.currency) base view) :=
    Triple.and_rule
      (Triple.strengthen (peek_stable (fun base view =>
          heldOn (visible base view) senderID receiverID amount.issue.currency = before)
        (fun _ _ _ same holds => by rw [← holds, heldOn, heldOn, same]) _)
        (fun _ _ holds => holds.1))
      (Triple.strengthen (peek_freshAt _) (fun _ _ holds => holds.2))
  unfold rippleCredit
  refine Triple.bind_rule (peekAs_found SLE.rippleState? peeks) fun found => ?_
  rw [issueAsset_of_ne _ notAsset, pure_bind]
  simp -zeta only [Bool.false_eq_true, ↓reduceIte]
  rcases found with _ | line
  · -- No line: one is made, holding what the receiver is owed.
    rcases before with _ | held
    swap
    · refine Triple.absurd_rule fun base view holds => ?_
      have held' := holds.2.1
      rw [heldOn, ← holds.1] at held'
      cases held'
    dsimp only
    refine Triple.strengthen ?_ (fun _ _ _ => trivial)
    refine Triple.bind_rule (peekAs_keeps _ fun _ _ _ _ _ _ => trivial) fun found => ?_
    rcases found with _ | sleAccount
    · exact Triple.failure_rule
    refine Triple.consequence (trustCreate_line _ _ _ notPage notRoot _ _ _ _ _ _ _ _)
      (fun _ _ _ => trivial) (fun ter base view holds succeeded => ?_)
    obtain ⟨line, read, balance⟩ := holds succeeded
    show heldOn (visible base view) senderID receiverID amount.issue.currency = _
    by_cases high : senderID > receiverID <;>
      simp [heldOn, read, balance, high, STAmount.zeroOf, SLE.rippleState?]
  · rcases before with _ | held
    · refine Triple.absurd_rule fun base view holds => ?_
      have held' := holds.2.1
      rw [heldOn, ← holds.1] at held'
      cases held'
    dsimp -zeta only
    extract_lets before uFlags
    -- What code reads under the line's key, and whether the table inserted it, is all the rest
    -- needs of the state.
    refine Triple.strengthen (?_ : Triple (fun base view => held = before ∧
        visible base view (rippleStateIndex senderID receiverID amount.issue.currency) =
          some (.rippleState line) ∧
        FreshAt (rippleStateIndex senderID receiverID amount.issue.currency) base view) _ _)
      (fun base view holds => ?_)
    swap
    · obtain ⟨found, heldIs, fresh⟩ := holds
      obtain ⟨sle, read, selected⟩ := Option.bind_eq_some_iff.mp found.symm
      cases sle <;> cases selected
      rw [heldOn, read] at heldIs
      refine ⟨?_, read, fresh⟩
      by_cases high : senderID > receiverID <;> simp_all [before, SLE.rippleState?]
    refine Triple.assume_rule fun heldIs => ?_
    subst heldIs
    refine Triple.bind_rule (ofExcept_spec _) fun after => Triple.assume_rule fun sum => ?_
    extract_lets release flags bDelete line' cont
    -- The line is deleted at its default state, or written back with the balance moved.
    have conts : ∀ u, Triple (fun base view =>
          visible base view (rippleStateIndex senderID receiverID amount.issue.currency) =
            some (.rippleState line) ∧
          FreshAt (rippleStateIndex senderID receiverID amount.issue.currency) base view) (cont u)
        (fun ter base view => ter = tesSUCCESS →
          Moved (some before) amount (heldOn (visible base view) senderID receiverID amount.issue.currency)) := by
      intro u
      dsimp only [cont]
      split
      · rename_i deleted
        have zero : after.mantissa = 0 := by
          simp only [bDelete, Bool.and_eq_true, beq_iff_eq] at deleted
          exact deleted.1.2
        unfold trustDelete
        have pages : ∀ id recorded, PageWrites (fun _ view =>
            RecordsAt (· = rippleStateIndex senderID receiverID amount.issue.currency)
              (fun _ => recorded) view) (.owner id) :=
          fun id _ => pageWrites_recordsAt fun n there => notPage _ n there
        refine Triple.bind_rule (visible_fresh_keep fun _ => dirDelete_keeps (pages _ _) _ _ _ _ _) fun _ => ?_
        refine Triple.ite_bind_rule (fun _ => visible_fresh_keep fun _ => dirDelete_keeps (pages _ _) _ _ _ _ _)
          (fun _ => Triple.pure_keep _) fun _ => ?_
        refine Triple.bind_rule (Triple.strengthen erase_gone (fun _ _ holds => holds.2)) fun _ => ?_
        refine Triple.weaken (Triple.pure_keep _)
          (fun _ base view gone _ => ⟨after, sum, .inr ⟨?_, zero⟩⟩)
        rw [heldOn, gone]
        rfl
      · refine Triple.bind_rule (Triple.strengthen (update_read _) (fun _ _ _ => trivial)) fun _ => ?_
        refine Triple.weaken (Triple.pure_keep _)
          (fun _ base view written _ => ⟨after, sum, .inl ?_⟩)
        by_cases high : senderID > receiverID <;>
          simp [heldOn, written, line', high, SLE.rippleState?, STAmount.negate_negate]
    refine Triple.ite_rule (fun _ => ?_) (fun _ => conts ())
    refine Triple.bind_rule (visible_fresh_keep fun _ => peekAs_keeps _ (@peek_recordsAt
      (· = rippleStateIndex senderID receiverID amount.issue.currency) _ (.account senderID)
        (notRoot senderID))) fun found => ?_
    rcases found with _ | sender
    · exact Triple.bind_rule Triple.failure_rule conts
    · exact Triple.bind_rule (visible_fresh_keep fun _ => @update_recordsAt
        (· = rippleStateIndex senderID receiverID amount.issue.currency) _ (.account senderID)
          (notRoot senderID) _) conts

/-- Two trust lines that share an account, and differ in the other, have different keys. -/
theorem rippleStateIndex_ne {a b c : AccountID} (differs : a ≠ c) (currency currency' : Currency) :
    rippleStateIndex a b currency ≠ rippleStateIndex b c currency' := by
  intro same
  simp only [rippleStateIndex, Key.line.injEq] at same
  obtain ⟨low, high, -⟩ := same
  -- The two ends of a line, low and high, are the same on both sides.
  rw [min_def, min_def] at low
  rw [max_def, max_def] at high
  split_ifs at low high <;> grind

/-- The line of `a` and `b` is outside the footprint of a credit between `b` and `c`. -/
theorem line_not_creditFootprint {a b c : AccountID} (differs : a ≠ c) (currency currency' : Currency) :
    ¬CreditFootprint b c currency' (rippleStateIndex a b currency) := by
  rintro (same | ⟨_, _, account | ⟨_, page⟩⟩)
  · exact rippleStateIndex_ne differs currency currency' same
  · cases account
  · cases page

/-- A credit from a table fixed in advance, whose line holds no insert of an entry the ledger
has: what the sender held there moves by the amount, and nothing outside the footprint changes. -/
theorem rippleCredit_from (hooks : Hooks) (senderID receiverID : AccountID) {amount : STAmount}
    (notAsset : amount.issue.currency ≠ Currency.assetCurrency) {base₀ : OpenView} {start : ApplyViewImpl}
    (fresh : FreshAt (rippleStateIndex senderID receiverID amount.issue.currency) base₀ start) :
    Triple (fun base view => base = base₀ ∧ view = start) (rippleCredit hooks senderID receiverID amount)
      (fun ter base view => (ter = tesSUCCESS →
          Moved (heldOn (visible base₀ start) senderID receiverID amount.issue.currency) amount
            (heldOn (visible base view) senderID receiverID amount.issue.currency)) ∧
        RecordsAt (fun key => ¬CreditFootprint senderID receiverID amount.issue.currency key)
          (fun key => start.items.items.lookup key) view ∧ base = base₀) := by
  have moves := rippleCredit_moves hooks senderID receiverID notAsset
    (heldOn (visible base₀ start) senderID receiverID amount.issue.currency)
  have frame := @rippleCredit_recordsAt
    (fun key => ¬CreditFootprint senderID receiverID amount.issue.currency key)
    (fun key => start.items.items.lookup key) hooks senderID receiverID amount notAsset
    (fun _ outside => outside)
  refine Triple.and_rule (Triple.strengthen moves ?_) (Triple.and_rule (Triple.strengthen frame ?_)
    (Triple.strengthen (Triple.env_keep _) fun _ _ here => here.1))
  · rintro _ _ ⟨rfl, rfl⟩
    exact ⟨rfl, fresh⟩
  · rintro _ _ ⟨-, rfl⟩ _ _
    rfl

/-- The two credits of the transit path, from the table the fee sharing left: when both answer
`tesSUCCESS`, each line moves by what is sent over it, and nothing outside the two credits'
footprints changes. -/
theorem transitCredits_moves (hooks : Hooks) {senderID receiverID issuer : AccountID}
    (distinct : senderID ≠ receiverID) {amount actual : STAmount}
    (notAsset : amount.issue.currency ≠ Currency.assetCurrency)
    (sameCurrency : actual.issue.currency = amount.issue.currency) (terResult : TER)
    {base₀ : OpenView} {shared : ApplyViewImpl} (coherent : Coherent base₀ shared) :
    Triple (fun base view => base = base₀ ∧ view = shared)
      (do
        let terResult ← if terResult == tesSUCCESS then rippleCredit hooks issuer receiverID amount
          else pure terResult
        let terResult ← if terResult == tesSUCCESS then rippleCredit hooks senderID issuer actual
          else pure terResult
        return (terResult, actual))
      (fun result base view => result.1 = tesSUCCESS → terResult = tesSUCCESS ∧ result.2 = actual ∧
        Moved (heldOn (visible base₀ shared) issuer receiverID amount.issue.currency) amount
          (heldOn (visible base view) issuer receiverID amount.issue.currency) ∧
        Moved (heldOn (visible base₀ shared) senderID issuer amount.issue.currency) actual
          (heldOn (visible base view) senderID issuer amount.issue.currency) ∧
        ∀ key, ¬CreditFootprint issuer receiverID amount.issue.currency key →
          ¬CreditFootprint senderID issuer amount.issue.currency key →
          view.items.items.lookup key = shared.items.items.lookup key) := by
  -- Each line is outside the footprint of the other credit.
  have lineSI := @line_not_creditFootprint senderID issuer receiverID distinct amount.issue.currency
    amount.issue.currency
  have lineIR : ¬CreditFootprint senderID issuer amount.issue.currency
      (rippleStateIndex issuer receiverID amount.issue.currency) := by
    rintro (same | ⟨_, _, account | ⟨_, page⟩⟩)
    · exact rippleStateIndex_ne distinct amount.issue.currency amount.issue.currency same.symm
    · cases account
    · cases page
  extract_lets finish second
  -- Between the credits: the first line has moved, and only the first footprint has changed.
  have seconds : ∀ t, Triple (fun base view => base = base₀ ∧
        (t = tesSUCCESS → terResult = tesSUCCESS ∧
          Moved (heldOn (visible base₀ shared) issuer receiverID amount.issue.currency) amount
            (heldOn (visible base view) issuer receiverID amount.issue.currency)) ∧
        RecordsAt (fun key => ¬CreditFootprint issuer receiverID amount.issue.currency key)
          (fun key => shared.items.items.lookup key) view)
      (second t)
      (fun result base view => result.1 = tesSUCCESS → terResult = tesSUCCESS ∧ result.2 = actual ∧
        Moved (heldOn (visible base₀ shared) issuer receiverID amount.issue.currency) amount
          (heldOn (visible base view) issuer receiverID amount.issue.currency) ∧
        Moved (heldOn (visible base₀ shared) senderID issuer amount.issue.currency) actual
          (heldOn (visible base view) senderID issuer amount.issue.currency) ∧
        ∀ key, ¬CreditFootprint issuer receiverID amount.issue.currency key →
          ¬CreditFootprint senderID issuer amount.issue.currency key →
          view.items.items.lookup key = shared.items.items.lookup key) := by
    intro t
    dsimp only [second]
    refine Triple.ite_rule (fun succeeded => ?_) (fun failed => ?_)
    · refine Triple.ghost_rule fun base₁ credited => ?_
      -- What the first credit left is fixed from here on.
      refine Triple.strengthen (?_ : Triple (fun base view =>
          ((t = tesSUCCESS → terResult = tesSUCCESS ∧
              Moved (heldOn (visible base₀ shared) issuer receiverID amount.issue.currency) amount
                (heldOn (visible base₀ credited) issuer receiverID amount.issue.currency)) ∧
            RecordsAt (fun key => ¬CreditFootprint issuer receiverID amount.issue.currency key)
              (fun key => shared.items.items.lookup key) credited) ∧
          base = base₀ ∧ view = credited) _ _)
        (fun base view holds => ?_)
      swap
      · obtain ⟨rfl, rfl, rfl, first, recorded⟩ := holds
        exact ⟨⟨first, recorded⟩, rfl, rfl⟩
      refine Triple.assume_rule fun ⟨first, recorded⟩ => ?_
      have sameSI := recorded _ lineSI
      have fresh : FreshAt (rippleStateIndex senderID issuer amount.issue.currency) base₀ credited :=
        FreshAt.congr sameSI fun sle => coherent _ sle
      rw [← sameCurrency] at fresh
      have credit := rippleCredit_from hooks senderID issuer (sameCurrency ▸ notAsset) fresh
      rw [sameCurrency] at credit
      refine Triple.bind_rule credit fun t' => ?_
      refine Triple.strengthen (Triple.pure_rule _) (fun base view holds succeeded' => ?_)
      obtain ⟨movedSI, kept, rfl⟩ := holds
      obtain ⟨terSucceeded, movedIR⟩ := first (beq_iff_eq.mp succeeded)
      refine ⟨terSucceeded, rfl, ?_, ?_,
        fun key outside outside' => (kept key outside').trans (recorded key outside)⟩
      · rw [heldOn_congr (kept _ lineIR)]
        exact movedIR
      · rw [← heldOn_congr sameSI]
        exact movedSI succeeded'
    · -- The credit is skipped, and so the result is not a success.
      rw [pure_bind]
      exact Triple.strengthen (Triple.pure_rule _)
        (fun _ _ _ succeeded => absurd (beq_iff_eq.mpr succeeded) failed)
  refine Triple.ite_rule (fun succeeded => ?_) (fun failed => ?_)
  · refine Triple.bind_rule (Triple.weaken
      (rippleCredit_from hooks issuer receiverID notAsset fun sle => coherent _ sle)
      (fun _ _ _ holds => ⟨holds.2.2, fun succeeded' => ⟨beq_iff_eq.mp succeeded, holds.1 succeeded'⟩,
        holds.2.1⟩)) seconds
  · refine Triple.bind_rule (Triple.strengthen (Triple.pure_rule terResult) (fun _ _ here => ?_)) seconds
    obtain ⟨rfl, rfl⟩ := here
    exact ⟨rfl, fun same => absurd (beq_iff_eq.mpr same) failed, fun _ _ => rfl⟩

/-- Reading the transfer fee writes nothing. -/
theorem rippleTransferFee_view (fromID toID issuer : AccountID) (amount : STAmount) (start : ApplyViewImpl) :
    Triple (fun _ view => view = start) (rippleTransferFee fromID toID issuer amount)
      (fun _ _ view => view = start) := by
  have rate : Triple (fun _ view => view = start) (rippleTransferRate issuer) (fun _ _ view => view = start) := by
    unfold rippleTransferRate
    refine Triple.bind_rule (Triple.weaken (readAs_spec _ _)
      (fun _ _ _ holds => holds.2)) fun found => ?_
    rcases found with _ | _ <;> exact Triple.pure_keep _
  unfold rippleTransferFee
  split
  · refine Triple.bind_rule rate fun uTransitRate => ?_
    split
    · exact Triple.bind_rule (ofExcept_keep _) fun _ =>
        Triple.bind_rule (ofExcept_keep _) fun _ => ofExcept_keep _
    · exact ofExcept_keep _
  · exact ofExcept_keep _

/-- The fee sharing of the transit path, from `view` to `shared` with result `terResult`: nothing
for a zero fee; otherwise `shareFeeWithReferee` of a quarter of the fee. -/
def FeeShared (hooks : Hooks) (senderID : AccountID) (amount fee : STAmount) (base : OpenView)
    (view : ApplyViewImpl) (terResult : TER) (shared : ApplyViewImpl) : Prop :=
  (fee.mantissa = 0 ∧ terResult = tesSUCCESS ∧ shared = view) ∨
    (fee.mantissa ≠ 0 ∧ ∃ quarter share,
      STAmount.canonicalize ⟨fee.issue, 25, -2, false, false⟩ = .ok quarter ∧
      STAmount.multiply fee quarter fee.issue = .ok share ∧
      (hooks.shareFeeWithReferee senderID amount.issue.account share).exec base view =
        some (terResult, shared))

/-- What a transit `rippleSend` that returned `actual` from `view` to `final` did: it read the fee,
shared it, and then moved `amount` from the issuer to the receiver and `actual` (the amount plus the
fee) from the sender to the issuer, changing nothing outside the two credits' footprints. -/
def TransitAccounted (hooks : Hooks) (senderID receiverID : AccountID) (amount : STAmount)
    (base : OpenView) (view : ApplyViewImpl) (actual : STAmount) (final : ApplyViewImpl) : Prop :=
  ∃ fee shared,
    (rippleTransferFee senderID receiverID amount.issue.account amount).exec base view = some (fee, view) ∧
    FeeShared hooks senderID amount fee base view tesSUCCESS shared ∧
    (fee.mantissa = 0 → actual = amount.setIssuer amount.issue.account) ∧
    (fee.mantissa ≠ 0 → ∃ sum, amount.plus fee = .ok sum ∧ actual = sum.setIssuer amount.issue.account) ∧
    Moved (heldOn (visible base shared) amount.issue.account receiverID amount.issue.currency) amount
      (heldOn (visible base final) amount.issue.account receiverID amount.issue.currency) ∧
    Moved (heldOn (visible base shared) senderID amount.issue.account amount.issue.currency) actual
      (heldOn (visible base final) senderID amount.issue.account amount.issue.currency) ∧
    ∀ key, ¬CreditFootprint amount.issue.account receiverID amount.issue.currency key →
      ¬CreditFootprint senderID amount.issue.account amount.issue.currency key →
      final.items.items.lookup key = shared.items.items.lookup key

/-- A transit `rippleSend` that succeeds, from a coherent table and with a fee sharing that keeps
tables coherent, has done what `TransitAccounted` says. -/
theorem rippleSend_transit_accounting (hooks : Hooks) {senderID receiverID : AccountID}
    {amount : STAmount} (iou : amount.native = false)
    (notAsset : amount.issue.currency ≠ Currency.assetCurrency)
    (transit : (senderID == amount.issue.account || receiverID == amount.issue.account ||
      amount.issue.account == noAccount) = false) (distinct : senderID ≠ receiverID)
    (sharing : ∀ share, Triple Coherent (hooks.shareFeeWithReferee senderID amount.issue.account share)
      (fun _ => Coherent))
    {base : OpenView} {view view' : ApplyViewImpl} {actual : STAmount} (coherent : Coherent base view)
    (run : (rippleSend hooks senderID receiverID amount).exec base view =
      some ((tesSUCCESS, actual), view')) :
    TransitAccounted hooks senderID receiverID amount base view actual view' := by
  have triple : Triple (fun base' view'' => base' = base ∧ view'' = view)
      (rippleSend hooks senderID receiverID amount)
      (fun result _ view'' => result.1 = tesSUCCESS →
        TransitAccounted hooks senderID receiverID amount base view result.2 view'') := by
    unfold rippleSend
    extract_lets issuer
    have notDirect : ¬(senderID == issuer || receiverID == issuer || issuer == noAccount) = true := by
      simp only [issuer, transit, Bool.false_eq_true, not_false_eq_true]
    rw [if_neg notDirect]
    have feeRan : Triple (fun base' view'' => base' = base ∧ view'' = view)
        (rippleTransferFee senderID receiverID issuer amount)
        (fun fee base' view'' => base' = base ∧ view'' = view ∧
          (rippleTransferFee senderID receiverID amount.issue.account amount).exec base view =
            some (fee, view)) := by
      rintro _ _ fee _ ⟨rfl, rfl⟩ ran
      obtain rfl := rippleTransferFee_view senderID receiverID issuer amount _ _ _ fee _ rfl ran
      exact ⟨rfl, rfl, ran⟩
    refine Triple.bind_rule feeRan fun fee => ?_
    extract_lets afterShare
    -- After the sharing: the fee is added to the amount, and the two credits run from `shared`.
    have shares : ∀ terResult, Triple (fun base' shared => (base' = base ∧
          (rippleTransferFee senderID receiverID amount.issue.account amount).exec base view =
            some (fee, view) ∧ Coherent base' shared ∧
          FeeShared hooks senderID amount fee base view terResult shared))
        (afterShare terResult)
        (fun result _ view'' => result.1 = tesSUCCESS →
          TransitAccounted hooks senderID receiverID amount base view result.2 view'') := by
      intro terResult
      dsimp -zeta only [afterShare]
      extract_lets afterSum
      have sums : ∀ summed, Triple (fun base' shared => (base' = base ∧
            (rippleTransferFee senderID receiverID amount.issue.account amount).exec base view =
              some (fee, view) ∧ Coherent base' shared ∧
            FeeShared hooks senderID amount fee base view terResult shared) ∧
            (fee.mantissa = 0 → summed = amount) ∧ (fee.mantissa ≠ 0 → amount.plus fee = .ok summed))
          (afterSum summed)
          (fun result _ view'' => result.1 = tesSUCCESS →
            TransitAccounted hooks senderID receiverID amount base view result.2 view'') := by
        rintro summed _ shared result view'' ⟨⟨rfl, feeRead, coherent', feeShared⟩, zero, nonzero⟩ credited
        have sameCurrency : (summed.setIssuer issuer).issue.currency = amount.issue.currency := by
          by_cases free : fee.mantissa = 0
          · rw [zero free]
            rfl
          · show summed.issue.currency = amount.issue.currency
            rw [STAmount.plus_issue iou (nonzero free)]
        intro done
        obtain ⟨succeeded, returned, movedIR, movedSI, frame⟩ := transitCredits_moves hooks distinct notAsset
          sameCurrency terResult coherent' _ _ result view'' ⟨rfl, rfl⟩ credited done
        subst succeeded
        rw [returned]
        exact ⟨fee, shared, feeRead, feeShared, fun free => by rw [zero free],
          fun charged => ⟨summed, nonzero charged, rfl⟩, movedIR, movedSI, frame⟩
      refine Triple.ite_rule (fun free => ?_) (fun charged => ?_)
      · rw [pure_bind]
        exact Triple.strengthen (sums amount)
          (fun _ _ holds => ⟨holds, fun _ => rfl, fun charged => absurd (beq_iff_eq.mp free) charged⟩)
      · exact Triple.bind_rule (ofExcept_spec _) fun summed => Triple.strengthen (sums summed)
          (fun _ _ holds => ⟨holds.2, fun free => absurd (beq_iff_eq.mpr free) charged, fun _ => holds.1⟩)
    refine Triple.ite_rule (fun charged => ?_) (fun free => ?_)
    · refine Triple.bind_rule (ofExcept_spec _) fun quarter =>
        Triple.bind_rule (ofExcept_spec _) fun share => Triple.bind_rule ?_ shares
      rintro _ _ terResult shared ⟨multiplied, quartered, rfl, rfl, feeRead⟩ shareRan
      exact ⟨rfl, feeRead, sharing share _ _ _ _ coherent shareRan,
        .inr ⟨bne_iff_ne.mp charged, quarter, share, quartered, multiplied, shareRan⟩⟩
    · rw [pure_bind]
      refine Triple.strengthen (shares tesSUCCESS) ?_
      rintro _ _ ⟨rfl, rfl, feeRead⟩
      exact ⟨rfl, feeRead, coherent, .inl ⟨by simpa using free, rfl, rfl⟩⟩
  exact triple base view _ view' ⟨rfl, rfl⟩ run rfl

end ViewM

open ViewM

/-- Account 7, which charges 20% on transfers between other accounts. -/
def transferringIssuer : AccountRoot :=
  ⟨AccountID.ofNat 7, 1000000, 0, 1, 0, 0, none, none, none, some 1200000000⟩

/-- `units` USD held on a trust line (the balance of a line has no issuer). -/
def usdBalance (units : Nat) : STAmount := ⟨⟨usd, noAccount⟩, units * 10 ^ 13, -13, false, false⟩

/-- An open ledger where account 5 holds 500 USD of account 7's, account 9 trusts account 7 for
1000 USD and holds none, and account 7 charges 20% on transfers. -/
def transitLedger : OpenView :=
  ⟨((AList.singleton (.account (AccountID.ofNat 7)) (.accountRoot transferringIssuer)).insert
      (rippleStateIndex (AccountID.ofNat 5) (AccountID.ofNat 7) usd)
      (.rippleState ⟨usdBalance 500, ⟨⟨usd, AccountID.ofNat 5⟩, 10 ^ 16, -13, false, false⟩,
        STAmount.zeroOf ⟨usd, AccountID.ofNat 7⟩, 0, 0, 0, 0, 0, 0, 0, none⟩)).insert
      (rippleStateIndex (AccountID.ofNat 7) (AccountID.ofNat 9) usd)
      (.rippleState ⟨STAmount.zeroOf ⟨usd, noAccount⟩, STAmount.zeroOf ⟨usd, AccountID.ofNat 7⟩,
        ⟨⟨usd, AccountID.ofNat 9⟩, 10 ^ 16, -13, false, false⟩, 0, 0, 0, 0, 0, 0, 0, none⟩),
    100000000, 0, [], 10, 0, true, ⟨10, 10, 200, 50⟩, ⟨true⟩⟩

/-- Account 5 sends 100 USD of account 7's to account 9 on `transitLedger`. -/
theorem transit_send_accounted :
    ∃ actual view', (rippleSend Hooks.inert (AccountID.ofNat 5) (AccountID.ofNat 9) hundredUSD).exec
        transitLedger (.fresh .tapNONE) = some ((tesSUCCESS, actual), view') ∧
      TransitAccounted Hooks.inert (AccountID.ofNat 5) (AccountID.ofNat 9) hundredUSD transitLedger
        (.fresh .tapNONE) actual view' := by
  obtain ⟨actual, view', run⟩ : ∃ actual view',
      (rippleSend Hooks.inert (AccountID.ofNat 5) (AccountID.ofNat 9) hundredUSD).exec transitLedger
        (.fresh .tapNONE) = some ((tesSUCCESS, actual), view') := ⟨_, _, rfl⟩
  exact ⟨actual, view', run, rippleSend_transit_accounting Hooks.inert (by decide) (by decide) (by decide)
    (by decide) (fun _ => Triple.pure_keep _) (coherent_fresh _ _) run⟩

-- The sender pays the 20% fee: 120 USD leave its line.
example : ((rippleSend Hooks.inert (AccountID.ofNat 5) (AccountID.ofNat 9) hundredUSD).exec transitLedger
    (.fresh .tapNONE)).map (fun result => (result.1.1, result.1.2.mantissa,
      heldOn (visible transitLedger result.2) (AccountID.ofNat 5) (AccountID.ofNat 7) usd)) =
    some (tesSUCCESS, 1200000000000000, some (usdBalance 380)) := by
  decide +kernel

end RadardFormal.Ledger
