import RadardFormal.Ledger.View
import RadardFormal.Support.Triple

/-!
# What view code keeps

A projection of the ledger gives, for every key, a value computed from the entry under
it, such as the sequence number of an account root.  `Tracks proj okV okB` is the
invariant of a run that keeps a projection within bounds: the projection of every entry
as the code reads it satisfies `okV`, and at every key the table has only looked at, the
projection of the base entry, which applying the table keeps, satisfies `okB`.  The
second bound exists because a write through a looked-at pointer changes what later code
reads but not what `apply` stores.  Once every key that is still only looked at meets
the first bound, so does the ledger the table is applied to (`Tracks.bound_applied`).

Each primitive operation has a triple for the invariant.  The ledger helpers of
`View.cpp` keep it for every projection that sees account roots only through their
sequence and referee, sees refer entries, and sees nothing else (`AccountView`).
-/

namespace RadardFormal.Ledger

open RadardFormal.Protocol RadardFormal.Support TER

/-- The keys of account roots and refer entries. -/
def Key.holdsAccounts : Key → Bool
  | .account _ => true
  | .refer _ => true
  | _ => false

/-- The keys of account roots and directory pages: the entries that deleting an offer
writes besides the offer itself. -/
def Key.isRootOrPage : Key → Bool
  | .account _ => true
  | .page _ _ => true
  | _ => false

theorem SLE.accountRoot?_eq_some {sle : SLE} {root : AccountRoot} :
    sle.accountRoot? = some root ↔ sle = .accountRoot root := by
  cases sle <;> simp [SLE.accountRoot?]

theorem SLE.offer?_eq_some {sle : SLE} {offer : Offer} :
    sle.offer? = some offer ↔ sle = .offer offer := by
  cases sle <;> simp [SLE.offer?]

namespace ViewM

variable {α β : Type}

/-- The entry under a key as code reads it through the table. -/
def visible (base : OpenView) (view : ApplyViewImpl) (key : Key) : Option SLE :=
  view.items.read base.stateMap key

/-- The entry under a key once the table is applied. -/
def applied (base : OpenView) (view : ApplyViewImpl) (key : Key) : Option SLE :=
  view.items.effect base.stateMap key

theorem read_apply (view : ApplyViewImpl) (base : OpenView) (txID : Uint256) (key : Key) :
    (view.apply base txID).read key = applied base view key :=
  Overlay.lookup_applyTo view.items base.stateMap key

/-- The key has only been looked at. -/
def Cached (view : ApplyViewImpl) (key : Key) : Prop :=
  ∃ recorded, view.items.items.lookup key = some (.cache, recorded)

section tracks

variable (proj : Key → Option SLE → β)

/-- The projection of what code reads is within `okV`, that of the base entry under a
key only looked at is within `okB`, and erasing an entry the table inserted returns to a
base entry within `okV`. -/
structure Tracks (okV okB : Key → β → Prop) (base : OpenView) (view : ApplyViewImpl) :
    Prop where
  read : ∀ key, okV key (proj key (visible base view key))
  cached : ∀ key, Cached view key → okB key (proj key (base.read key))
  erasable : ∀ key, okV key (proj key none) → okV key (proj key (base.read key))

variable {proj} {okV okB : Key → β → Prop}

/-- The applied ledger is within the bound for reading, once no key that is only looked at
needs the wider one. -/
theorem Tracks.bound_applied {base : OpenView} {view : ApplyViewImpl}
    (tracks : Tracks proj okV okB base view)
    (settled : ∀ key, Cached view key → okV key (proj key (base.read key))) (key : Key) :
    okV key (proj key (applied base view key)) := by
  by_cases cached : Cached view key
  · obtain ⟨recorded, found⟩ := cached
    have base_read : applied base view key = base.read key := by
      simp [applied, Overlay.effect, found, Action.effect, OpenView.read]
    rw [base_read]
    exact settled key ⟨recorded, found⟩
  · have same : applied base view key = visible base view key :=
      Overlay.effect_of_not_cache base.stateMap key fun recorded found => cached ⟨recorded, found⟩
    rw [same]
    exact tracks.read key

/-- The invariant depends on the view only through its table. -/
theorem Tracks.of_items {base : OpenView} {view view' : ApplyViewImpl}
    (tracks : Tracks proj okV okB base view) (same : view'.items = view.items) :
    Tracks proj okV okB base view' := by
  obtain ⟨read, cached, erasable⟩ := tracks
  refine ⟨fun key => ?_, fun key => ?_, erasable⟩
  · simpa [visible, same] using read key
  · simpa [Cached, same] using cached key

/-- A table that changed only at `key` keeps the invariant once the entry there does. -/
theorem Tracks.change {base : OpenView} {view view' : ApplyViewImpl} (key : Key)
    (tracks : Tracks proj okV okB base view)
    (others : ∀ probe, probe ≠ key → view'.items.items.lookup probe = view.items.items.lookup probe)
    (readAt : okV key (proj key (visible base view' key)))
    (cachedAt : Cached view' key → okB key (proj key (base.read key))) :
    Tracks proj okV okB base view' := by
  refine ⟨fun probe => ?_, fun probe cached => ?_, tracks.erasable⟩
  · by_cases same : probe = key
    · subst same
      exact readAt
    · have unchanged := (Overlay.read_effect_congr base.stateMap probe (others probe same)).1
      simpa [visible, unchanged] using tracks.read probe
  · by_cases same : probe = key
    · subst same
      exact cachedAt cached
    · obtain ⟨recorded, found⟩ := cached
      exact tracks.cached probe ⟨recorded, (others probe same) ▸ found⟩

/-! ## The primitive operations -/

/-- `peek` returns what is read and keeps the invariant, provided a base entry within the
bound for reading is within the bound for looked-at keys. -/
theorem peek_tracks (widen : ∀ key b, okV key b → okB key b) (key : Key) :
    Triple (Tracks proj okV okB) (peek key)
      (fun found base view => found = visible base view key ∧ Tracks proj okV okB base view) := by
  intro base view found view' tracks run
  change (peek key).exec base view = some (found, view') at run
  rw [exec_peek, Option.some.injEq, Prod.mk.injEq] at run
  obtain ⟨rfl, rfl⟩ := run
  have same := fun probe => Overlay.read_effect_peek base.stateMap key probe view.items
  refine ⟨?_, tracks.change key (fun probe other => Overlay.lookup_peek_ne _ _ _ _ other) ?_ ?_⟩
  · rw [Overlay.peek_fst]
    exact (same key).1.symm
  · simpa [visible, (same key).1] using tracks.read key
  · rintro ⟨recorded, found⟩
    rcases Overlay.lookup_peek_self base.stateMap key view.items with kept | ⟨unrecorded, -, -⟩
    · exact tracks.cached key ⟨recorded, kept ▸ found⟩
    · have fromBase := Overlay.read_of_lookup_none base.stateMap key unrecorded
      exact widen key _ (by simpa [visible, fromBase, OpenView.read] using tracks.read key)

/-- `read` leaves the table alone: it keeps every invariant and returns what is read. -/
theorem read_spec {inv : OpenView → ApplyViewImpl → Prop} (key : Key) :
    Triple inv (ViewM.read key)
      (fun found base view => found = visible base view key ∧ inv base view) := by
  intro base view found view' holds run
  change (ViewM.read key).exec base view = some (found, view') at run
  rw [exec_read, Option.some.injEq, Prod.mk.injEq] at run
  obtain ⟨rfl, rfl⟩ := run
  exact ⟨rfl, holds⟩

theorem poke_tracks (key : Key) (sle : SLE) :
    Triple (fun base view => Tracks proj okV okB base view ∧ okV key (proj key (some sle)))
      (poke key sle) (fun _ => Tracks proj okV okB) := by
  rintro base view _ view' ⟨tracks, bound⟩ run
  change (poke key sle).exec base view = some ((), view') at run
  rw [exec_poke, Option.some.injEq, Prod.mk.injEq] at run
  obtain ⟨-, rfl⟩ := run
  refine tracks.change key (fun probe other => Overlay.lookup_poke_ne _ _ _ _ other) ?_ ?_
  · rcases Overlay.read_effect_poke base.stateMap key sle view.items with
      ⟨unchanged, -⟩ | ⟨written, -⟩ | ⟨written, -, -⟩
    · simpa [visible, unchanged] using tracks.read key
    · simpa [visible, written] using bound
    · simpa [visible, written] using bound
  · rintro ⟨recorded, found⟩
    change (view.items.poke key sle).items.lookup key = _ at found
    rw [Overlay.lookup_poke_self] at found
    obtain ⟨⟨action, old⟩, before, same⟩ := Option.map_eq_some_iff.mp found
    cases same
    exact tracks.cached key ⟨old, before⟩

/-- A key written by `update` is no longer only looked at. -/
theorem not_cached_of_update {view : ApplyViewImpl} {items : Overlay Key SLE} {key : Key}
    {sle : SLE} (updated : view.items.update key sle = some items) :
    ¬Cached { view with items } key := by
  rintro ⟨recorded, found⟩
  obtain ⟨action, notCache, stored⟩ := Overlay.lookup_update_self key sle updated
  change items.items.lookup key = _ at found
  rw [stored] at found
  cases found
  exact notCache rfl

theorem update_tracks (key : Key) (sle : SLE) :
    Triple (fun base view => Tracks proj okV okB base view ∧ okV key (proj key (some sle)))
      (update key sle) (fun _ => Tracks proj okV okB) := by
  rintro base view _ view' ⟨tracks, bound⟩ run
  change (update key sle).exec base view = some ((), view') at run
  rw [exec_update] at run
  obtain ⟨items, updated, same⟩ := Option.map_eq_some_iff.mp run
  cases same
  refine tracks.change key (fun probe other => Overlay.lookup_update_ne _ _ _ updated other) ?_ ?_
  · simpa [visible, (Overlay.read_effect_update base.stateMap key sle updated).1] using bound
  · exact fun cached => absurd cached (not_cached_of_update updated)

theorem update_not_cached {inv : OpenView → ApplyViewImpl → Prop} (key : Key) (sle : SLE) :
    Triple inv (update key sle) (fun _ _ view => ¬Cached view key) := by
  rintro base view _ view' - run
  change (update key sle).exec base view = some ((), view') at run
  rw [exec_update] at run
  obtain ⟨items, updated, same⟩ := Option.map_eq_some_iff.mp run
  cases same
  exact not_cached_of_update updated

theorem update_settles (key : Key) (sle : SLE) :
    Triple (fun base view => Tracks proj okV okB base view ∧ okV key (proj key (some sle)))
      (update key sle) (fun _ base view => Tracks proj okV okB base view ∧ ¬Cached view key) :=
  Triple.and_rule (update_tracks key sle) (update_not_cached key sle)

/-- Once no looked-at key needs the wider bound, the bound for reading serves for both. -/
theorem Tracks.narrow {base : OpenView} {view : ApplyViewImpl}
    (tracks : Tracks proj okV okB base view)
    (settled : ∀ key, Cached view key → okV key (proj key (base.read key))) :
    Tracks proj okV okV base view :=
  ⟨tracks.read, settled, tracks.erasable⟩

theorem erase_tracks (key : Key) :
    Triple (fun base view => Tracks proj okV okB base view ∧ okV key (proj key none))
      (erase key) (fun _ => Tracks proj okV okB) := by
  rintro base view _ view' ⟨tracks, bound⟩ run
  change (erase key).exec base view = some ((), view') at run
  rw [exec_erase] at run
  obtain ⟨items, erased, same⟩ := Option.map_eq_some_iff.mp run
  cases same
  refine tracks.change key (fun probe other => Overlay.lookup_erase_ne _ _ erased other) ?_ ?_
  · rcases Overlay.read_effect_erase base.stateMap key erased with ⟨gone, -⟩ | ⟨restored, -⟩
    · simpa [visible, gone] using bound
    · simpa [visible, restored, OpenView.read] using tracks.erasable key bound
  · rintro ⟨recorded, found⟩
    change items.items.lookup key = _ at found
    rcases Overlay.lookup_erase_self key erased with gone | ⟨old, marked⟩
    · rw [gone] at found
      cases found
    · rw [marked] at found
      cases found

/-- Code that leaves the table alone keeps every invariant and returns `value`. -/
theorem keep_of_exec {inv : OpenView → ApplyViewImpl → Prop} {code : ViewM α}
    (value : OpenView → ApplyViewImpl → α)
    (runs : ∀ base view, code.exec base view = some (value base view, view)) :
    Triple inv code (fun result base view => result = value base view ∧ inv base view) := by
  intro base view result view' holds run
  change code.exec base view = some (result, view') at run
  rw [runs, Option.some.injEq, Prod.mk.injEq] at run
  obtain ⟨rfl, rfl⟩ := run
  exact ⟨rfl, holds⟩

theorem isOpen_keep {inv : OpenView → ApplyViewImpl → Prop} : Triple inv isOpen (fun _ => inv) :=
  Triple.weaken (keep_of_exec (fun base _ => base.isOpen) fun base view => exec_isOpen base view) (fun _ _ _ holds => holds.2)

theorem destroyXRP_tracks (fee : Int) :
    Triple (Tracks proj okV okB) (destroyXRP fee) (fun _ => Tracks proj okV okB) := by
  intro base view _ view' tracks run
  change (destroyXRP fee).exec base view = some ((), view') at run
  rw [exec_destroyXRP, Option.some.injEq, Prod.mk.injEq] at run
  obtain ⟨-, rfl⟩ := run
  exact tracks.of_items rfl

/-! ## Typed reads and writes -/

theorem peekAs_tracks (widen : ∀ key b, okV key b → okB key b) {γ : Type}
    (select : SLE → Option γ) (key : Key) :
    Triple (Tracks proj okV okB) (peekAs select key)
      (fun found base view => found = (visible base view key).bind select ∧
        Tracks proj okV okB base view) := by
  unfold peekAs
  refine Triple.bind_rule (peek_tracks widen key) fun found => ?_
  refine Triple.strengthen (Triple.pure_rule _) (fun base view holds => ?_)
  obtain ⟨rfl, tracks⟩ := holds
  exact ⟨rfl, tracks⟩

theorem readAs_spec {inv : OpenView → ApplyViewImpl → Prop} {γ : Type} (select : SLE → Option γ)
    (key : Key) :
    Triple inv (readAs select key)
      (fun found base view => found = (visible base view key).bind select ∧ inv base view) := by
  unfold readAs
  refine Triple.bind_rule (read_spec key) fun found => ?_
  refine Triple.strengthen (Triple.pure_rule _) (fun base view holds => ?_)
  obtain ⟨rfl, holds⟩ := holds
  exact ⟨rfl, holds⟩

/-- `peekAccount` returns the root that is read. -/
theorem peekAccount_tracks (widen : ∀ key b, okV key b → okB key b) (id : AccountID) :
    Triple (Tracks proj okV okB) (peekAccount id)
      (fun found base view => (∀ root, found = some root →
          visible base view (.account id) = some (.accountRoot root)) ∧
        Tracks proj okV okB base view) := by
  refine Triple.weaken (peekAs_tracks widen SLE.accountRoot? (.account id))
    (fun found base view holds => ⟨fun root named => ?_, holds.2⟩)
  obtain ⟨sle, read, selected⟩ := Option.bind_eq_some_iff.mp (holds.1 ▸ named)
  rw [read, SLE.accountRoot?_eq_some.mp selected]

/-! ## Writes that keep what is read -/

theorem poke_keeps (key : Key) (sle : SLE) :
    Triple (fun base view => Tracks proj okV okB base view ∧
        proj key (some sle) = proj key (visible base view key))
      (poke key sle) (fun _ => Tracks proj okV okB) :=
  Triple.strengthen (poke_tracks key sle)
    (fun _ _ holds => ⟨holds.1, holds.2 ▸ holds.1.read key⟩)

theorem update_keeps (key : Key) (sle : SLE) :
    Triple (fun base view => Tracks proj okV okB base view ∧
        proj key (some sle) = proj key (visible base view key))
      (update key sle) (fun _ => Tracks proj okV okB) :=
  Triple.strengthen (update_tracks key sle)
    (fun _ _ holds => ⟨holds.1, holds.2 ▸ holds.1.read key⟩)

theorem erase_keeps (key : Key) :
    Triple (fun base view => Tracks proj okV okB base view ∧
        proj key none = proj key (visible base view key))
      (erase key) (fun _ => Tracks proj okV okB) :=
  Triple.strengthen (erase_tracks key)
    (fun _ _ holds => ⟨holds.1, holds.2 ▸ holds.1.read key⟩)

/-- Code that reads an account root and goes on with it: the continuation may use that
the root it is given is the one read. -/
theorem peekAccount_then (widen : ∀ key b, okV key b → okB key b) (id : AccountID)
    {γ : Type} {next : Option AccountRoot → ViewM γ} {post : γ → OpenView → ApplyViewImpl → Prop}
    (found : ∀ root, Triple (fun base view => Tracks proj okV okB base view ∧
        visible base view (.account id) = some (.accountRoot root)) (next (some root)) post)
    (missing : Triple (Tracks proj okV okB) (next none) post) :
    Triple (Tracks proj okV okB) (peekAccount id >>= next) post := by
  refine Triple.bind_rule (peekAccount_tracks widen id) fun result => ?_
  rcases result with _ | root
  · exact Triple.strengthen missing (fun _ _ holds => holds.2)
  · exact Triple.strengthen (found root) (fun _ _ holds => ⟨holds.2, holds.1 root rfl⟩)

/-- A `peek` leaves what is read under every key as it was, so it keeps any fact about
what is read. -/
theorem peek_stable (extra : OpenView → ApplyViewImpl → Prop)
    (stable : ∀ base view view', (∀ key, visible base view' key = visible base view key) →
      extra base view → extra base view') (key : Key) :
    Triple extra (peek key) (fun _ => extra) := by
  intro base view found view' holds run
  change (peek key).exec base view = some (found, view') at run
  rw [exec_peek, Option.some.injEq, Prod.mk.injEq] at run
  obtain ⟨-, rfl⟩ := run
  exact stable base view _
    (fun probe => (Overlay.read_effect_peek base.stateMap key probe view.items).1) holds

theorem peekAs_stable (extra : OpenView → ApplyViewImpl → Prop)
    (stable : ∀ base view view', (∀ key, visible base view' key = visible base view key) →
      extra base view → extra base view') {γ : Type} (select : SLE → Option γ) (key : Key) :
    Triple extra (peekAs select key) (fun _ => extra) :=
  Triple.bind_rule (peek_stable extra stable key) fun _ => Triple.pure_keep _

/-- A typed read keeps the invariant together with a fact about what is read under some
key. -/
theorem peekAs_pinned (widen : ∀ key b, okV key b → okB key b) {γ : Type}
    (select : SLE → Option γ) (key probe : Key) (value : Option SLE) :
    Triple (fun base view => Tracks proj okV okB base view ∧ visible base view probe = value)
      (peekAs select key)
      (fun _ base view => Tracks proj okV okB base view ∧ visible base view probe = value) :=
  Triple.and_rule
    (Triple.consequence (peekAs_tracks widen select key) (fun _ _ holds => holds.1)
      (fun _ _ _ holds => holds.2))
    (Triple.strengthen
      (peekAs_stable (fun base view => visible base view probe = value)
        (fun _ _ _ same holds => (same probe).trans holds) select key)
      (fun _ _ holds => holds.2))

theorem peekAccount_pinned (widen : ∀ key b, okV key b → okB key b) (id : AccountID)
    (probe : Key) (value : Option SLE) :
    Triple (fun base view => Tracks proj okV okB base view ∧ visible base view probe = value)
      (peekAccount id)
      (fun _ base view => Tracks proj okV okB base view ∧ visible base view probe = value) :=
  peekAs_pinned widen SLE.accountRoot? (.account id) probe value

end tracks

/-! ## What `dirDelete` and `offerDelete` keep

Both walks are proved once, for any invariant that their reads and their writes keep: the
projections that see only accounts below are one instance, the fee-claim path of
`operator()` another. -/

section walks

variable {inv : OpenView → ApplyViewImpl → Prop}

/-- `peek` returns what code reads. -/
theorem peek_visible (key : Key) :
    Triple inv (peek key) (fun found base view => found = visible base view key) := by
  intro base view found view' _ run
  change (peek key).exec base view = some (found, view') at run
  rw [exec_peek, Option.some.injEq, Prod.mk.injEq] at run
  obtain ⟨rfl, rfl⟩ := run
  rw [Overlay.peek_fst]
  exact (Overlay.read_effect_peek base.stateMap key key view.items).1.symm

/-- A typed read that keeps the invariant returns what code reads, as that type. -/
theorem peekAs_found {γ : Type} (select : SLE → Option γ) {key : Key}
    (peeks : Triple inv (peek key) (fun _ => inv)) :
    Triple inv (peekAs select key)
      (fun found base view => found = (visible base view key).bind select ∧ inv base view) := by
  unfold peekAs
  refine Triple.bind_rule (Triple.and_rule (peek_visible key) peeks) fun found => ?_
  refine Triple.strengthen (Triple.pure_rule _) (fun base view holds => ?_)
  obtain ⟨rfl, holds⟩ := holds
  exact ⟨rfl, holds⟩

theorem peekAs_keeps {γ : Type} (select : SLE → Option γ) {key : Key}
    (peeks : Triple inv (peek key) (fun _ => inv)) : Triple inv (peekAs select key) (fun _ => inv) :=
  Triple.weaken (peekAs_found select peeks) (fun _ _ _ holds => holds.2)

/-- The invariant is kept by what `dirDelete` does to the directory at `root`: a page read,
updated or erased. -/
structure PageWrites (inv : OpenView → ApplyViewImpl → Prop) (root : DirRoot) : Prop where
  peeks : ∀ n, Triple inv (peek (.page root n)) (fun _ => inv)
  updates : ∀ n node, Triple inv (update (.page root n) (.directoryNode node)) (fun _ => inv)
  erases : ∀ n, Triple inv (erase (.page root n)) (fun _ => inv)

theorem PageWrites.peekDirectory {root : DirRoot} (writes : PageWrites inv root) (n : Nat) :
    Triple inv (ViewM.peekDirectory (.page root n)) (fun _ => inv) :=
  peekAs_keeps _ (writes.peeks n)

theorem dirDeleteEmptied_keeps {root : DirRoot} (writes : PageWrites inv root) (keepRoot : Bool)
    (nodeCur : Nat) (node : DirectoryNode) :
    Triple inv (dirDeleteEmptied keepRoot root nodeCur node) (fun _ => inv) := by
  unfold dirDeleteEmptied
  dsimp only
  split
  · -- The root page: drop it, or drop it with the one page left after it.
    split
    · exact Triple.bind_rule (writes.erases _) fun _ => Triple.pure_keep _
    · split
      · exact Triple.pure_keep _
      · split
        · exact Triple.pure_keep _
        · refine Triple.bind_rule (writes.peekDirectory _) fun last => ?_
          rcases last with _ | last <;> dsimp only
          · exact Triple.bind_rule Triple.failure_rule fun _ => Triple.pure_keep _
          · split
            · exact Triple.bind_rule (writes.erases _) fun _ =>
                Triple.bind_rule (writes.erases _) fun _ => Triple.pure_keep _
            · exact Triple.pure_keep _
  · split
    · -- A page in the middle: unlink it from both neighbours.
      refine Triple.bind_rule (writes.peekDirectory _) fun previous => ?_
      rcases previous with _ | previous <;> dsimp only
      · exact Triple.pure_keep _
      · refine Triple.bind_rule (writes.peekDirectory _) fun found => ?_
        rcases found with _ | _ <;> dsimp only
        · exact Triple.pure_keep _
        · refine Triple.bind_rule (writes.updates _ _) fun _ => ?_
          refine Triple.bind_rule (writes.peekDirectory _) fun next => ?_
          rcases next with _ | next <;> dsimp only
          · exact Triple.failure_rule
          · exact Triple.bind_rule (writes.updates _ _) fun _ =>
              Triple.bind_rule (writes.erases _) fun _ => Triple.pure_keep _
    · split
      · exact Triple.pure_keep _
      · -- The last page, with only the root before it: drop both once the root is empty.
        refine Triple.bind_rule (writes.peekDirectory _) fun rootPage => ?_
        rcases rootPage with _ | rootPage <;> dsimp only
        · exact Triple.failure_rule
        · split
          · exact Triple.bind_rule (writes.erases _) fun _ =>
              Triple.bind_rule (writes.erases _) fun _ => Triple.pure_keep _
          · exact Triple.pure_keep _

theorem dirDelete_keeps {root : DirRoot} (writes : PageWrites inv root) (keepRoot : Bool)
    (nodeDir : Nat) (ledgerIndex : Key) (stable soft : Bool) :
    Triple inv (dirDelete keepRoot nodeDir root ledgerIndex stable soft) (fun _ => inv) := by
  rw [dirDelete]
  dsimp only
  -- A soft delete that misses moves on to the next page, up to page 20.
  have retry : Triple inv
      (if (!soft) = true then pure tefBAD_LEDGER
        else if nodeDir < 20 then dirDelete keepRoot (nodeDir + 1) root ledgerIndex stable true
        else pure tefBAD_LEDGER) (fun _ => inv) := by
    split
    · exact Triple.pure_keep _
    · split
      · exact dirDelete_keeps writes keepRoot (nodeDir + 1) ledgerIndex stable true
      · exact Triple.pure_keep _
  refine Triple.bind_rule (writes.peekDirectory _) fun found => ?_
  rcases found with _ | node <;> dsimp only
  · exact retry
  · split
    · exact retry
    · exact Triple.bind_rule (writes.updates _ _) fun _ => by
        split
        · exact dirDeleteEmptied_keeps writes keepRoot nodeDir _
        · exact Triple.pure_keep _
termination_by 20 - nodeDir

/-- `offerDelete` runs from `inv` to `post` when both directory walks keep `inv`, so do the
read and the write of the owner's root, and erasing the offer ends in `post`. -/
theorem offerDelete_keeps {post : OpenView → ApplyViewImpl → Prop} (offerIndex : Key)
    (offer : Offer) (owner : PageWrites inv (.owner offer.account))
    (book : PageWrites inv (.book offer.bookDirectory))
    (peeksOwner : Triple inv (peek (.account offer.account)) (fun _ => inv))
    (adjusts : ∀ root, Triple (fun base view => inv base view ∧
        visible base view (.account offer.account) = some (.accountRoot root))
      (adjustOwnerCount offer.account root (-1)) (fun _ => inv))
    (erased : Triple inv (erase offerIndex) (fun _ => post)) :
    Triple inv (offerDelete offerIndex offer) (fun _ => post) := by
  unfold offerDelete
  refine Triple.bind_rule (dirDelete_keeps owner _ _ _ _ _) fun terResult => ?_
  refine Triple.bind_rule (dirDelete_keeps book _ _ _ _ _) fun terResult2 => ?_
  dsimp only
  split
  · refine Triple.bind_rule (peekAs_found SLE.accountRoot? peeksOwner) fun found => ?_
    rcases found with _ | root <;> dsimp only
    · exact Triple.bind_rule Triple.failure_rule fun _ =>
        Triple.bind_rule erased fun _ => Triple.pure_keep _
    · -- The root handed to `adjustOwnerCount` is the one read.
      refine Triple.strengthen (Triple.bind_rule (adjusts root) fun _ =>
        Triple.bind_rule erased fun _ => Triple.pure_keep _) (fun base view holds => ⟨holds.2, ?_⟩)
      obtain ⟨sle, read, selected⟩ := Option.bind_eq_some_iff.mp holds.1.symm
      rw [read, SLE.accountRoot?_eq_some.mp selected]
  · exact Triple.bind_rule erased fun _ => Triple.pure_keep _

/-- The invariant is kept by what `dirAdd` does to the directory at `root` as well: a page
inserted. -/
structure DirWrites (inv : OpenView → ApplyViewImpl → Prop) (root : DirRoot) : Prop
    extends PageWrites inv root where
  inserts : ∀ n node, Triple inv (insert (.page root n) (.directoryNode node)) (fun _ => inv)

theorem dirAdd_keeps {root : DirRoot} (writes : DirWrites inv root) (ledgerIndex : Key)
    (describe : DirectoryNode → DirectoryNode) :
    Triple inv (dirAdd root ledgerIndex describe) (fun _ => inv) := by
  unfold dirAdd
  refine Triple.bind_rule (writes.peekDirectory _) fun found => ?_
  rcases found with _ | sleRoot <;> dsimp only
  · -- No directory yet: its root page is made.
    exact Triple.bind_rule (writes.inserts _ _) fun _ => Triple.pure_keep _
  · have last : Triple inv
        (if (sleRoot.indexPrevious != 0) = true then peekDirectory (.page root sleRoot.indexPrevious)
          else pure (some sleRoot)) (fun _ => inv) :=
      Triple.ite_rule (fun _ => writes.peekDirectory _) (fun _ => Triple.pure_keep _)
    refine Triple.bind_rule last fun sleNode => ?_
    rcases sleNode with _ | sleNode <;> dsimp only
    · exact Triple.failure_rule
    · split
      · exact Triple.bind_rule (writes.updates _ _) fun _ => Triple.pure_keep _
      · split
        · exact Triple.pure_keep _
        · -- The last page is full: link a new one after it.
          refine Triple.bind_rule (writes.updates _ _) fun _ => ?_
          refine Triple.bind_rule (writes.peekDirectory _) fun rootPage => ?_
          rcases rootPage with _ | rootPage <;> dsimp only
          · exact Triple.failure_rule
          · exact Triple.bind_rule (writes.updates _ _) fun _ =>
              Triple.bind_rule (writes.inserts _ _) fun _ => Triple.pure_keep _

/-- `trustCreate` keeps `inv` when its writes do: the line's insert and the write through its
pointer, the entries in both owner directories, the reads of the two roots and the owner
count of `account`. -/
theorem trustCreate_keeps (srcHigh : Bool) (srcAccountID dstAccountID : AccountID) (index : Key)
    (account : AccountID) (auth noRipple freeze : Bool) (balance limit : STAmount)
    (qualityIn qualityOut : Nat) (inserts : ∀ sle, Triple inv (insert index sle) (fun _ => inv))
    (pokes : ∀ sle, Triple inv (poke index sle) (fun _ => inv))
    (dirs : ∀ id, id = srcAccountID ∨ id = dstAccountID → DirWrites inv (.owner id))
    (peeks : ∀ id, id = srcAccountID ∨ id = dstAccountID → Triple inv (peek (.account id)) (fun _ => inv))
    (peeksAccount : Triple inv (peek (.account account)) (fun _ => inv))
    (adjusts : ∀ root, Triple (fun base view => inv base view ∧
        visible base view (.account account) = some (.accountRoot root))
      (adjustOwnerCount account root 1) (fun _ => inv)) :
    Triple inv
      (trustCreate srcHigh srcAccountID dstAccountID index account auth noRipple freeze balance
        limit qualityIn qualityOut)
      (fun _ => inv) := by
  -- Both accounts of the line, whichever of them is low.
  have either : ∀ high : Bool, (if high then srcAccountID else dstAccountID) = srcAccountID ∨
      (if high then srcAccountID else dstAccountID) = dstAccountID := fun high => by
    cases high <;> simp
  unfold trustCreate
  refine Triple.bind_rule (inserts _) fun _ => ?_
  refine Triple.bind_rule (dirAdd_keeps (dirs _ (either _)) _ _) fun low => ?_
  obtain ⟨terResult, lowNode⟩ := low
  dsimp only
  -- The high directory is entered only after the low one; both branches go on alike.
  refine Triple.ite_bind_rule (fun _ => dirAdd_keeps (dirs _ (either _)) _ _)
    (fun _ => Triple.pure_keep _) fun high => ?_
  obtain ⟨terResult, highNode⟩ := high
  dsimp only
  split
  · have peeksLine : ∀ high : Bool, Triple inv
        (peekAccount (if high then (if !srcHigh then srcAccountID else dstAccountID)
          else (if srcHigh then srcAccountID else dstAccountID))) (fun _ => inv) := fun high => by
      cases high <;> exact peekAs_keeps _ (peeks _ (either _))
    refine Triple.bind_rule (peeksLine _) fun _ => ?_
    refine Triple.bind_rule (pokes _) fun _ => ?_
    refine Triple.bind_rule (peekAs_found SLE.accountRoot? peeksAccount) fun found => ?_
    rcases found with _ | sleAccount <;> dsimp only
    · exact Triple.bind_rule Triple.failure_rule fun _ => Triple.pure_keep _
    · -- The root handed to `adjustOwnerCount` is the one read.
      refine Triple.strengthen (Triple.bind_rule (adjusts sleAccount) fun _ => Triple.pure_keep _)
        (fun base view holds => ⟨holds.2, ?_⟩)
      obtain ⟨sle, read, selected⟩ := Option.bind_eq_some_iff.mp holds.1.symm
      rw [read, SLE.accountRoot?_eq_some.mp selected]
  · exact Triple.pure_keep _

end walks

/-! ## What the table records under keys a run leaves alone

Some facts are about the table itself rather than what code reads through it: that a key
has not been looked at, that an entry is erased, or that only the recorded changes differ
from a given table. -/

section recorded

variable {away : Key → Prop} {recorded : Key → Option (Action × SLE)} {erased : Key → Prop}

/-- Under every key that `away` holds of, the table records what `recorded` gives. -/
def RecordsAt (away : Key → Prop) (recorded : Key → Option (Action × SLE))
    (view : ApplyViewImpl) : Prop :=
  ∀ key, away key → view.items.items.lookup key = recorded key

/-- The table has erased the entry under every key that `erased` holds of. -/
def AllErased (erased : Key → Prop) (view : ApplyViewImpl) : Prop :=
  ∀ key, erased key → ∃ sle, view.items.items.lookup key = some (.erase, sle)

/-- The table is `start` but for the changes it records. -/
def OnlyItems (start view : ApplyViewImpl) : Prop :=
  { view with items := start.items } = start

/-- A run of `modifyItems` that leaves what is recorded under `key'` as it was. -/
theorem modifyItems_lookup {change : Overlay Key SLE → Option (Overlay Key SLE)} {key' : Key}
    {base : OpenView} {view view' : ApplyViewImpl}
    (run : (modifyItems change).exec base view = some ((), view'))
    (keeps : ∀ items, change view.items = some items →
      items.items.lookup key' = view.items.items.lookup key') :
    view'.items.items.lookup key' = view.items.items.lookup key' := by
  obtain ⟨items, changed, same⟩ := Option.map_eq_some_iff.mp run
  cases same
  exact keeps items changed

theorem peek_recordsAt {key : Key} (other : ¬away key) :
    Triple (fun _ view => RecordsAt away recorded view) (peek key)
      (fun _ _ view => RecordsAt away recorded view) := by
  intro base view found view' holds run
  change (peek key).exec base view = some (found, view') at run
  rw [exec_peek, Option.some.injEq, Prod.mk.injEq] at run
  obtain ⟨-, rfl⟩ := run
  intro probe there
  rw [← holds probe there]
  exact Overlay.lookup_peek_ne base.stateMap key probe view.items fun same => other (same ▸ there)

theorem update_recordsAt {key : Key} (other : ¬away key) (sle : SLE) :
    Triple (fun _ view => RecordsAt away recorded view) (update key sle)
      (fun _ _ view => RecordsAt away recorded view) := by
  intro base view _ view' holds run probe there
  rw [← holds probe there]
  exact modifyItems_lookup run fun _ updated =>
    Overlay.lookup_update_ne _ _ _ updated fun same => other (same ▸ there)

theorem erase_recordsAt {key : Key} (other : ¬away key) :
    Triple (fun _ view => RecordsAt away recorded view) (erase key)
      (fun _ _ view => RecordsAt away recorded view) := by
  intro base view _ view' holds run probe there
  rw [← holds probe there]
  exact modifyItems_lookup run fun _ erasedRun =>
    Overlay.lookup_erase_ne _ _ erasedRun fun same => other (same ▸ there)

theorem insert_recordsAt {key : Key} (other : ¬away key) (sle : SLE) :
    Triple (fun _ view => RecordsAt away recorded view) (insert key sle)
      (fun _ _ view => RecordsAt away recorded view) := by
  intro base view _ view' holds run probe there
  rw [← holds probe there]
  exact modifyItems_lookup run fun _ inserted =>
    Overlay.lookup_insert_ne _ _ _ inserted fun same => other (same ▸ there)

theorem poke_recordsAt {key : Key} (other : ¬away key) (sle : SLE) :
    Triple (fun _ view => RecordsAt away recorded view) (poke key sle)
      (fun _ _ view => RecordsAt away recorded view) := by
  intro base view _ view' holds run probe there
  rw [← holds probe there]
  exact modifyItems_lookup run fun _ poked => by
    cases poked
    exact Overlay.lookup_poke_ne _ _ _ _ fun same => other (same ▸ there)

/-- The pages of a directory that holds none of the keys `away`. -/
theorem pageWrites_recordsAt {root : DirRoot} (pages : ∀ n, ¬away (.page root n)) :
    PageWrites (fun _ view => RecordsAt away recorded view) root :=
  ⟨fun n => peek_recordsAt (pages n), fun n _ => update_recordsAt (pages n) _,
    fun n => erase_recordsAt (pages n)⟩

theorem dirWrites_recordsAt {root : DirRoot} (pages : ∀ n, ¬away (.page root n)) :
    DirWrites (fun _ view => RecordsAt away recorded view) root :=
  ⟨pageWrites_recordsAt pages, fun n _ => insert_recordsAt (pages n) _⟩

/-- `update` refuses an erased key and leaves every other key as it was. -/
theorem update_allErased (key : Key) (sle : SLE) :
    Triple (fun _ view => AllErased erased view) (update key sle)
      (fun _ _ view => AllErased erased view) := by
  intro base view _ view' holds run probe marked
  obtain ⟨old, gone⟩ := holds probe marked
  change (update key sle).exec base view = some ((), view') at run
  rw [exec_update] at run
  obtain ⟨items, updated, same⟩ := Option.map_eq_some_iff.mp run
  cases same
  by_cases at_key : probe = key
  · subst at_key
    unfold Overlay.update at updated
    rw [gone] at updated
    cases updated
  · exact ⟨old, (Overlay.lookup_update_ne _ _ _ updated at_key).trans gone⟩

theorem modifyItems_onlyItems (start : ApplyViewImpl)
    (change : Overlay Key SLE → Option (Overlay Key SLE)) :
    Triple (fun _ view => OnlyItems start view) (modifyItems change)
      (fun _ _ view => OnlyItems start view) := by
  intro base view _ view' holds run
  obtain ⟨items, -, same⟩ := Option.map_eq_some_iff.mp run
  cases same
  exact holds

end recorded

/-! ## Projections that see only accounts -/

/-- A projection that sees account roots only through their sequence and referee, sees
nothing under a key that holds neither account roots nor refer entries, and sees an
entry of another type under such a key as an absent one. -/
structure AccountView (proj : Key → Option SLE → β) : Prop where
  blind : ∀ key o o', key.holdsAccounts = false → proj key o = proj key o'
  root : ∀ id (r r' : AccountRoot), r'.sequence = r.sequence → r'.referee = r.referee →
    proj (.account id) (some (.accountRoot r')) = proj (.account id) (some (.accountRoot r))
  notRoot : ∀ id (sle : SLE), sle.accountRoot? = none →
    proj (.account id) (some sle) = proj (.account id) none
  notRefer : ∀ id (sle : SLE), sle.refer? = none →
    proj (.refer id) (some sle) = proj (.refer id) none

section accounts

variable {proj : Key → Option SLE → β} {okV okB : Key → β → Prop}
  (accounts : AccountView proj) (widen : ∀ key b, okV key b → okB key b)

/-- Under any key, such a projection sees an offer as nothing. -/
theorem AccountView.offer_absent {proj : Key → Option SLE → β} (accounts : AccountView proj)
    (key : Key) (offer : Offer) : proj key (some (.offer offer)) = proj key none := by
  cases key with
  | account id => exact accounts.notRoot id _ rfl
  | refer id => exact accounts.notRefer id _ rfl
  | _ => exact accounts.blind _ _ _ rfl

include accounts in
theorem update_blind {key : Key} (blind : key.holdsAccounts = false) (sle : SLE) :
    Triple (Tracks proj okV okB) (update key sle) (fun _ => Tracks proj okV okB) :=
  Triple.strengthen (update_keeps key sle)
    (fun _ _ tracks => ⟨tracks, accounts.blind key _ _ blind⟩)

include accounts in
theorem erase_blind {key : Key} (blind : key.holdsAccounts = false) :
    Triple (Tracks proj okV okB) (erase key) (fun _ => Tracks proj okV okB) :=
  Triple.strengthen (erase_keeps key)
    (fun _ _ tracks => ⟨tracks, accounts.blind key _ _ blind⟩)

include widen in
theorem peekDirectory_tracks (key : Key) :
    Triple (Tracks proj okV okB) (peekDirectory key) (fun _ => Tracks proj okV okB) :=
  Triple.weaken (peekAs_tracks widen SLE.directoryNode? key)
    (fun _ _ _ holds => holds.2)

include accounts in
/-- Writing back an account root read through the table, changed in neither its sequence
nor its referee. -/
theorem updateAccount_keeps (id : AccountID) (root entry : AccountRoot)
    (sequence : entry.sequence = root.sequence) (referee : entry.referee = root.referee) :
    Triple (fun base view => Tracks proj okV okB base view ∧
        visible base view (.account id) = some (.accountRoot root))
      (updateAccount id entry) (fun _ => Tracks proj okV okB) :=
  Triple.strengthen (update_keeps (.account id) (.accountRoot entry))
    (fun _ _ holds => ⟨holds.1, by rw [holds.2, accounts.root id root entry sequence referee]⟩)

include accounts in
theorem pokeAccount_keeps (id : AccountID) (root entry : AccountRoot)
    (sequence : entry.sequence = root.sequence) (referee : entry.referee = root.referee) :
    Triple (fun base view => Tracks proj okV okB base view ∧
        visible base view (.account id) = some (.accountRoot root))
      (pokeAccount id entry) (fun _ => Tracks proj okV okB) :=
  Triple.strengthen (poke_keeps (.account id) (.accountRoot entry))
    (fun _ _ holds => ⟨holds.1, by rw [holds.2, accounts.root id root entry sequence referee]⟩)

include accounts in
theorem adjustOwnerCount_tracks (id : AccountID) (root : AccountRoot) (amount : Int) :
    Triple (fun base view => Tracks proj okV okB base view ∧
        visible base view (.account id) = some (.accountRoot root))
      (adjustOwnerCount id root amount) (fun _ => Tracks proj okV okB) :=
  updateAccount_keeps accounts id root _ rfl rfl

include accounts widen in
/-- The pages of any directory are blind to such a projection. -/
theorem pageWrites_tracks (root : DirRoot) : PageWrites (Tracks proj okV okB) root :=
  ⟨fun _ => Triple.weaken (peek_tracks widen _)
      (fun _ _ _ holds => holds.2),
    fun _ _ => update_blind accounts (by rfl) _, fun _ => erase_blind accounts (by rfl)⟩

include accounts widen in
theorem dirDeleteEmptied_tracks (keepRoot : Bool) (root : DirRoot) (nodeCur : Nat)
    (node : DirectoryNode) :
    Triple (Tracks proj okV okB) (dirDeleteEmptied keepRoot root nodeCur node)
      (fun _ => Tracks proj okV okB) :=
  dirDeleteEmptied_keeps (pageWrites_tracks accounts widen root) keepRoot nodeCur node

include accounts widen in
theorem transferXRP_tracks (source target : AccountID) (amount : STAmount) :
    Triple (Tracks proj okV okB) (transferXRP source target amount)
      (fun _ => Tracks proj okV okB) := by
  unfold transferXRP
  refine peekAccount_then widen source (fun sender => ?_) Triple.failure_rule
  -- The sender read first is the one debited: reading the target changes nothing read.
  refine Triple.bind_rule (peekAccount_pinned widen target _ _) fun found => ?_
  rcases found with _ | _ <;> dsimp only
  · exact Triple.failure_rule
  · split
    · exact Triple.strengthen (Triple.bind_rule isOpen_keep fun _ => Triple.pure_keep _)
        (fun _ _ holds => holds.1)
    · refine Triple.bind_rule (updateAccount_keeps accounts source sender _
        (AccountRoot.setNativeBalance_sequence _ _ _) (AccountRoot.setNativeBalance_referee _ _ _))
        fun _ => ?_
      refine peekAccount_then widen target (fun receiver => ?_) Triple.failure_rule
      exact Triple.bind_rule (updateAccount_keeps accounts target receiver _
        (AccountRoot.setNativeBalance_sequence _ _ _) (AccountRoot.setNativeBalance_referee _ _ _))
        fun _ => Triple.pure_keep _

include accounts widen in
/-- `offerDelete` of an entry that the projection sees as nothing, as it sees an offer. -/
theorem offerDelete_tracks (offerIndex : Key) (offer : Offer) :
    Triple (fun base view => okV offerIndex (proj offerIndex none) ∧ Tracks proj okV okB base view)
      (offerDelete offerIndex offer) (fun _ => Tracks proj okV okB) := by
  refine Triple.assume_rule fun absent => ?_
  refine offerDelete_keeps offerIndex offer (pageWrites_tracks accounts widen _)
    (pageWrites_tracks accounts widen _)
    (Triple.weaken (peek_tracks widen _) (fun _ _ _ holds => holds.2))
    (fun root => adjustOwnerCount_tracks accounts _ root _) ?_
  exact Triple.strengthen (erase_tracks offerIndex) (fun _ _ tracks => ⟨tracks, absent⟩)

end accounts

end ViewM

end RadardFormal.Ledger
