import Mathlib.Data.List.AList

/-!
# Overlays of changes on a finite map

An overlay records, for finitely many keys, how a base map is to be changed: a key
may only have been looked at (`cache`), or be erased, inserted or modified.  The
overlay is read through to the base, and applying it to the base performs the
recorded changes and ignores the looked-at keys.  Operations that the recording
discipline forbids (inserting a key that is already present, erasing one twice)
return `none`.

Nothing here depends on what the keys and values are.
-/

namespace RadardFormal.Support

/-- What an overlay records for one key. -/
inductive Action where
  | cache
  | erase
  | insert
  | modify
  deriving DecidableEq, Repr

/-- The effect of one recorded change on the value a base map holds at its key. -/
def Action.effect : Option (Action × V) → Option V → Option V
  | none, before => before
  | some (.cache, _), before => before
  | some (.erase, _), _ => none
  | some (.insert, value), _ => some value
  | some (.modify, value), _ => some value

/-- A finite map of recorded changes. -/
structure Overlay (K V : Type) [DecidableEq K] where
  items : AList (fun _ : K => Action × V)

namespace Overlay

variable {K V : Type} [DecidableEq K]

/-- The overlay that records nothing. -/
def empty : Overlay K V := ⟨∅⟩

/-- The overlay that records one change. -/
def single (key : K) (change : Action × V) : Overlay K V := ⟨AList.singleton key change⟩

/-- Perform one recorded change on a map. -/
def applyAction (key : K) : Action × V → AList (fun _ : K => V) → AList (fun _ : K => V)
  | (.cache, _), base => base
  | (.erase, _), base => base.erase key
  | (.insert, value), base => base.insert key value
  | (.modify, value), base => base.insert key value

/-- Perform a list of recorded changes in order. -/
def applyEntries :
    List (Sigma fun _ : K => Action × V) → AList (fun _ : K => V) → AList (fun _ : K => V)
  | [], base => base
  | ⟨key, change⟩ :: rest, base => applyEntries rest (applyAction key change base)

/-- Apply every recorded change to the base. -/
def applyTo (overlay : Overlay K V) (base : AList (fun _ : K => V)) : AList (fun _ : K => V) :=
  applyEntries overlay.items.entries base

/-- The value applying the overlay stores at a key. -/
def effect (base : AList (fun _ : K => V)) (overlay : Overlay K V) (key : K) : Option V :=
  Action.effect (overlay.items.lookup key) (base.lookup key)

/-- The value seen through the overlay: what is recorded for the key, or the base value
for a key with nothing recorded. -/
def read (base : AList (fun _ : K => V)) (overlay : Overlay K V) (key : K) : Option V :=
  match overlay.items.lookup key with
  | some (.erase, _) => none
  | some (_, value) => some value
  | none => base.lookup key

/-- Look a key up for writing: a base value is recorded as `cache`. -/
def peek (base : AList (fun _ : K => V)) (overlay : Overlay K V) (key : K) :
    Option V × Overlay K V :=
  match overlay.items.lookup key with
  | some (.erase, _) => (none, overlay)
  | some (_, value) => (some value, overlay)
  | none =>
      match base.lookup key with
      | none => (none, overlay)
      | some value => (some value, ⟨overlay.items.insert key (.cache, value)⟩)

/-- Record a new entry; refused for a key already looked at, inserted or modified. -/
def insert (overlay : Overlay K V) (key : K) (value : V) : Option (Overlay K V) :=
  match overlay.items.lookup key with
  | none => some ⟨overlay.items.insert key (.insert, value)⟩
  | some (.erase, _) => some ⟨overlay.items.insert key (.modify, value)⟩
  | some _ => none

/-- Record a new value for a key; refused for an erased key. -/
def replace (overlay : Overlay K V) (key : K) (value : V) : Option (Overlay K V) :=
  match overlay.items.lookup key with
  | none => some ⟨overlay.items.insert key (.modify, value)⟩
  | some (.erase, _) => none
  | some (.cache, _) => some ⟨overlay.items.insert key (.modify, value)⟩
  | some (action, _) => some ⟨overlay.items.insert key (action, value)⟩

/-- Store the new value of an entry that is already recorded, marking a looked-at entry
modified; refused for an unrecorded or erased key. -/
def update (overlay : Overlay K V) (key : K) (value : V) : Option (Overlay K V) :=
  match overlay.items.lookup key with
  | none => none
  | some (.erase, _) => none
  | some (.cache, _) => some ⟨overlay.items.insert key (.modify, value)⟩
  | some (action, _) => some ⟨overlay.items.insert key (action, value)⟩

/-- Change a recorded value in place, keeping what is recorded for the key; this is a
write through a pointer the overlay handed out, with no `update`. -/
def poke (overlay : Overlay K V) (key : K) (value : V) : Overlay K V :=
  match overlay.items.lookup key with
  | some (action, _) => ⟨overlay.items.insert key (action, value)⟩
  | none => overlay

/-- Erase a recorded entry: an inserted entry is forgotten, any other becomes `erase`;
refused for an unrecorded or already erased key. -/
def erase (overlay : Overlay K V) (key : K) : Option (Overlay K V) :=
  match overlay.items.lookup key with
  | none => none
  | some (.erase, _) => none
  | some (.insert, _) => some ⟨overlay.items.erase key⟩
  | some (_, value) => some ⟨overlay.items.insert key (.erase, value)⟩

/-- The number of keys with a recorded change (`ApplyStateTable::size`). -/
def size (overlay : Overlay K V) : Nat :=
  overlay.items.entries.countP fun entry => entry.2.1 != .cache

/-! ## Reading through an applied overlay -/

theorem applyAction_lookup (key probe : K) (change : Action × V)
    (base : AList (fun _ : K => V)) :
    (applyAction key change base).lookup probe =
      if probe = key then Action.effect (some change) (base.lookup probe)
      else base.lookup probe := by
  obtain ⟨action, value⟩ := change
  by_cases same : probe = key
  · subst same
    cases action <;> simp [applyAction, Action.effect, AList.lookup_insert, AList.lookup_erase]
  · cases action <;> simp [applyAction, same, AList.lookup_insert_ne, AList.lookup_erase_ne]

/-- Applying a duplicate-free list of changes changes each key by its own entry. -/
theorem applyEntries_lookup (probe : K) :
    ∀ (entries : List (Sigma fun _ : K => Action × V)), entries.NodupKeys →
      ∀ base : AList (fun _ : K => V),
        (applyEntries entries base).lookup probe =
          Action.effect (entries.dlookup probe) (base.lookup probe)
  | [], _, base => by simp [applyEntries, Action.effect]
  | ⟨key, change⟩ :: rest, nodup, base => by
      rw [List.nodupKeys_cons] at nodup
      rw [applyEntries, applyEntries_lookup probe rest nodup.2, applyAction_lookup]
      by_cases same : probe = key
      · subst same
        have absent : rest.dlookup probe = none := List.dlookup_eq_none.mpr nodup.1
        simp [absent, Action.effect]
      · simp [same]

/-- The applied overlay holds, at each key, what reading through the overlay would give,
except that a looked-at key keeps its base value. -/
theorem lookup_applyTo (overlay : Overlay K V) (base : AList (fun _ : K => V)) (probe : K) :
    (overlay.applyTo base).lookup probe = overlay.effect base probe :=
  applyEntries_lookup probe _ overlay.items.nodupKeys base

theorem applyTo_empty (base : AList (fun _ : K => V)) :
    (empty : Overlay K V).applyTo base = base := rfl

@[simp] theorem size_empty : (empty : Overlay K V).size = 0 := rfl

/-- What `peek` hands out is what reading through the overlay gives. -/
theorem peek_fst (base : AList (fun _ : K => V)) (overlay : Overlay K V) (key : K) :
    (overlay.peek base key).1 = overlay.read base key := by
  unfold peek read
  rcases overlay.items.lookup key with _ | ⟨action, value⟩
  · cases base.lookup key <;> rfl
  · cases action <;> rfl

/-! ## What each operation changes

Every operation changes what is recorded for its own key only.  At that key, reading
through the overlay and applying it give the values below; a `poke` of a looked-at key
changes what is read but not what is applied. -/

section operations

variable (base : AList (fun _ : K => V)) (key probe : K) (value : V)

/-- Reading and applying at a key depend only on what is recorded there. -/
theorem read_effect_congr {overlay overlay' : Overlay K V}
    (same : overlay'.items.lookup probe = overlay.items.lookup probe) :
    overlay'.read base probe = overlay.read base probe ∧
      overlay'.effect base probe = overlay.effect base probe := by
  unfold read effect
  rw [same]
  exact ⟨rfl, rfl⟩

theorem lookup_peek_ne (overlay : Overlay K V) (other : probe ≠ key) :
    (overlay.peek base key).2.items.lookup probe = overlay.items.lookup probe := by
  unfold peek
  rcases overlay.items.lookup key with _ | ⟨action, recorded⟩
  · cases base.lookup key <;> simp [AList.lookup_insert_ne other]
  · cases action <;> rfl

theorem lookup_poke_ne (overlay : Overlay K V) (other : probe ≠ key) :
    (overlay.poke key value).items.lookup probe = overlay.items.lookup probe := by
  unfold poke
  rcases overlay.items.lookup key with _ | ⟨action, recorded⟩
  · rfl
  · simp [AList.lookup_insert_ne other]

theorem lookup_update_ne {overlay overlay' : Overlay K V}
    (updated : overlay.update key value = some overlay') (other : probe ≠ key) :
    overlay'.items.lookup probe = overlay.items.lookup probe := by
  unfold update at updated
  rcases found : overlay.items.lookup key with _ | ⟨action, recorded⟩ <;> rw [found] at updated
  · cases updated
  · cases action <;> cases updated <;> simp [AList.lookup_insert_ne other]

theorem lookup_insert_ne {overlay overlay' : Overlay K V}
    (inserted : overlay.insert key value = some overlay') (other : probe ≠ key) :
    overlay'.items.lookup probe = overlay.items.lookup probe := by
  unfold insert at inserted
  rcases found : overlay.items.lookup key with _ | ⟨action, recorded⟩ <;> rw [found] at inserted
  · cases inserted
    simp [AList.lookup_insert_ne other]
  · cases action <;> cases inserted
    simp [AList.lookup_insert_ne other]

theorem lookup_erase_ne {overlay overlay' : Overlay K V}
    (erased : overlay.erase key = some overlay') (other : probe ≠ key) :
    overlay'.items.lookup probe = overlay.items.lookup probe := by
  unfold erase at erased
  rcases found : overlay.items.lookup key with _ | ⟨action, recorded⟩ <;> rw [found] at erased
  · cases erased
  · cases action <;> cases erased <;> simp [AList.lookup_erase_ne other, AList.lookup_insert_ne other]

/-- What is recorded for its own key after each operation: a `peek` records the base
value as looked at when nothing was recorded, a `poke` changes the recorded value and
keeps the action, an `update` or `insert` records the value as changed, an `erase`
records the key as erased or forgets an entry the overlay inserted. -/
theorem lookup_peek_self (overlay : Overlay K V) :
    (overlay.peek base key).2.items.lookup key = overlay.items.lookup key ∨
      (overlay.items.lookup key = none ∧
        ∃ stored, base.lookup key = some stored ∧
          (overlay.peek base key).2.items.lookup key = some (.cache, stored)) := by
  unfold peek
  rcases found : overlay.items.lookup key with _ | ⟨action, recorded⟩
  · rcases inBase : base.lookup key with _ | stored
    · simp [found]
    · simp
  · cases action <;> simp [found]

theorem lookup_poke_self (overlay : Overlay K V) :
    (overlay.poke key value).items.lookup key =
      (overlay.items.lookup key).map fun change => (change.1, value) := by
  unfold poke
  rcases found : overlay.items.lookup key with _ | ⟨action, recorded⟩ <;> simp [found]

theorem lookup_update_self {overlay overlay' : Overlay K V}
    (updated : overlay.update key value = some overlay') :
    ∃ action, action ≠ .cache ∧ overlay'.items.lookup key = some (action, value) := by
  unfold update at updated
  rcases found : overlay.items.lookup key with _ | ⟨action, recorded⟩ <;> rw [found] at updated
  · cases updated
  · cases action <;> cases updated <;> simp

theorem lookup_insert_self {overlay overlay' : Overlay K V}
    (inserted : overlay.insert key value = some overlay') :
    ∃ action, action ≠ .cache ∧ overlay'.items.lookup key = some (action, value) := by
  unfold insert at inserted
  rcases found : overlay.items.lookup key with _ | ⟨action, recorded⟩ <;> rw [found] at inserted
  · cases inserted
    simp
  · cases action <;> cases inserted
    simp

theorem lookup_erase_self {overlay overlay' : Overlay K V}
    (erased : overlay.erase key = some overlay') :
    overlay'.items.lookup key = none ∨ ∃ recorded, overlay'.items.lookup key = some (.erase, recorded) := by
  unfold erase at erased
  rcases found : overlay.items.lookup key with _ | ⟨action, recorded⟩ <;> rw [found] at erased
  · cases erased
  · cases action <;> cases erased <;> simp

/-- With nothing recorded for a key, reading gives the base value. -/
theorem read_of_lookup_none {overlay : Overlay K V} (unrecorded : overlay.items.lookup key = none) :
    overlay.read base key = base.lookup key := by
  unfold read
  rw [unrecorded]

/-- Applying stores what is read, except at a key that was only looked at. -/
theorem effect_of_not_cache {overlay : Overlay K V}
    (notCached : ∀ recorded, overlay.items.lookup key ≠ some (.cache, recorded)) :
    overlay.effect base key = overlay.read base key := by
  unfold effect read
  rcases found : overlay.items.lookup key with _ | ⟨action, recorded⟩
  · rfl
  · cases action
    · exact absurd found (notCached recorded)
    all_goals rfl

/-- A `peek` changes neither what is read nor what is applied. -/
theorem read_effect_peek (overlay : Overlay K V) :
    (overlay.peek base key).2.read base probe = overlay.read base probe ∧
      (overlay.peek base key).2.effect base probe = overlay.effect base probe := by
  by_cases same : probe = key
  · subst same
    unfold peek read effect
    rcases found : overlay.items.lookup probe with _ | ⟨action, recorded⟩
    · rcases inBase : base.lookup probe with _ | stored
      · simp [found]
      · simp [Action.effect]
    · cases action <;> simp [found]
  · exact read_effect_congr base probe (lookup_peek_ne base key probe overlay same)

/-- At its key a `poke` changes nothing, changes only what is read (a looked-at key), or
writes a value where reading and applying agreed before. -/
theorem read_effect_poke (overlay : Overlay K V) :
    ((overlay.poke key value).read base key = overlay.read base key ∧
        (overlay.poke key value).effect base key = overlay.effect base key) ∨
      ((overlay.poke key value).read base key = some value ∧
        (overlay.poke key value).effect base key = overlay.effect base key) ∨
      ((overlay.poke key value).read base key = some value ∧
        (overlay.poke key value).effect base key = some value ∧
        overlay.read base key = overlay.effect base key) := by
  unfold poke read effect
  rcases found : overlay.items.lookup key with _ | ⟨action, recorded⟩
  · simp [found]
  · cases action <;> simp [Action.effect]

/-- An `update` or an `insert` that succeeds stores its value: read and applied alike. -/
theorem read_effect_update {overlay overlay' : Overlay K V}
    (updated : overlay.update key value = some overlay') :
    overlay'.read base key = some value ∧ overlay'.effect base key = some value := by
  unfold update at updated
  rcases found : overlay.items.lookup key with _ | ⟨action, recorded⟩ <;> rw [found] at updated
  · cases updated
  · cases action <;> cases updated <;> simp [read, effect, Action.effect]

theorem read_effect_insert {overlay overlay' : Overlay K V}
    (inserted : overlay.insert key value = some overlay') :
    overlay'.read base key = some value ∧ overlay'.effect base key = some value := by
  unfold insert at inserted
  rcases found : overlay.items.lookup key with _ | ⟨action, recorded⟩ <;> rw [found] at inserted
  · cases inserted
    simp [read, effect, Action.effect]
  · cases action <;> cases inserted
    simp [read, effect, Action.effect]

/-- An `erase` that succeeds leaves the key absent, or, for an entry the overlay itself
inserted, as the base has it. -/
theorem read_effect_erase {overlay overlay' : Overlay K V}
    (erased : overlay.erase key = some overlay') :
    (overlay'.read base key = none ∧ overlay'.effect base key = none) ∨
      (overlay'.read base key = base.lookup key ∧ overlay'.effect base key = base.lookup key) := by
  unfold erase at erased
  rcases found : overlay.items.lookup key with _ | ⟨action, recorded⟩ <;> rw [found] at erased
  · cases erased
  · cases action <;> cases erased <;> simp [read, effect, Action.effect, AList.lookup_erase]

end operations

/-! ## Overlays of one change

A transaction that fails and claims its fee starts again from the empty overlay and
changes one entry; these lemmas compute such runs. -/

@[simp] theorem lookup_single (key probe : K) (change : Action × V) :
    (single key change).items.lookup probe = if probe = key then some change else none := by
  by_cases same : probe = key
  · subst same
    simp [single, AList.lookup, AList.singleton_entries]
  · simp [single, same, AList.lookup, AList.singleton_entries]

theorem peek_empty (base : AList (fun _ : K => V)) (key : K) :
    (empty : Overlay K V).peek base key =
      match base.lookup key with
      | none => (none, empty)
      | some value => (some value, single key (.cache, value)) := by
  simp only [peek, empty, AList.lookup_empty]
  rfl

/-- Looking again at the one recorded key returns what is recorded there. -/
theorem peek_single (base : AList (fun _ : K => V)) (key : K) (action : Action) (value : V)
    (live : action ≠ .erase) :
    (single key (action, value)).peek base key = (some value, single key (action, value)) := by
  cases action with
  | erase => exact absurd rfl live
  | _ => simp [peek]

theorem poke_single (key : K) (change : Action × V) (value : V) :
    (single key change).poke key value = single key (change.1, value) := by
  rw [poke, lookup_single, if_pos rfl]
  simp [single, AList.insert_singleton_eq]

end Overlay

end RadardFormal.Support
