import RadardFormal.Support.SortedMap

/-!
# `RawStateTable`: the changes an `OpenView` holds over its base

A `RawStateTable` records, for each key it changed, whether the entry under it was
erased, inserted or replaced, and with which entry.  It is read through to a base
`ReadView`: `read`, `exists` and `succ` consult the table first and the base for what
the table does not record; `sles` walks the table's items and the base's entries
together in key order; `apply` performs the recorded changes on a `RawView`.

The base is modelled by its contents, its entries in key order, with `read`, `exists`
and `succ` as `Ledger` computes them over its state map.  Keys are any linear order (a
`uint256` compares numerically) and an entry's key is the one it is stored under; a
keylet is a key with the type test of `Keylet::check`.  An iterator of the source is the
suffix of a list from its position on, and a null entry pointer is the end of that list.
A `LogicError` and the dereference of a null pointer are `none`.

`view` is the map the table and its base stand for.  Every operation a table accepts
changes `view` as the operation changes a map, and `read`, `exists`, `succ`, `sles` and
`apply` all answer from `view`.
-/

namespace RadardFormal.Ledger

open RadardFormal.Support

variable {K V : Type} [LinearOrder K]

/-- A `Keylet`: a key and the test `Keylet::check` makes of the entry found under it. -/
structure Keylet (K V : Type) where
  key : K
  check : V → Bool

namespace ReadView

/-- `Ledger::read`: the entry under the keylet's key, if it passes the keylet's check. -/
def read (base : SortedMap K V) (k : Keylet K V) : Option V :=
  (base.find? k.key).filter k.check

/-- `Ledger::exists`: whether some entry is under the key, of whatever type. -/
def «exists» (base : SortedMap K V) (k : Keylet K V) : Bool :=
  (base.find? k.key).isSome

/-- `Ledger::succ`: the first key above `key`, unless it is at or past `last`. -/
def succ (base : SortedMap K V) (key : K) (last : Option K) : Option K :=
  match (above base.entries key).head? with
  | none => none
  | some item => if last.any (· ≤ item.1) then none else some item.1

/-- The base's successor of `key` is the least key of the base above `key`, and below
`last`. -/
theorem succ_eq_some {base : SortedMap K V} {key n : K} {last : Option K}
    (found : succ base key last = some n) :
    key < n ∧ (∀ l ∈ last, n < l) ∧ base.find? n ≠ none ∧
      ∀ m, key < m → base.find? m ≠ none → n ≤ m := by
  unfold succ at found
  rw [head?_above base.increasing] at found
  cases first : base.entries.find? (fun entry => key < entry.1) with
  | none => simp only [first] at found; cases found
  | some item =>
    simp only [first] at found
    split_ifs at found with past
    cases found
    have member : item ∈ base.entries := List.mem_of_find?_eq_some first
    refine ⟨by simpa using List.find?_some first, fun l isLast => ?_, ?_, fun m higher present => ?_⟩
    · by_contra atLeast
      exact past ((Option.any_eq_true _ _).mpr ⟨l, isLast, decide_eq_true (not_lt.mp atLeast)⟩)
    · rw [(base.mem_entries_iff).mp member]
      exact Option.some_ne_none _
    · obtain ⟨value, recorded⟩ := Option.ne_none_iff_exists'.mp present
      exact le_of_find?_eq_some base.increasing first ⟨m, value⟩
        ((base.mem_entries_iff).mpr recorded) (by simpa using higher)

/-- No successor: the base has no key above `key` and below `last`. -/
theorem succ_eq_none {base : SortedMap K V} {key : K} {last : Option K}
    (found : succ base key last = none) (m : K) (higher : key < m) (below : ∀ l ∈ last, m < l) :
    base.find? m = none := by
  unfold succ at found
  rw [head?_above base.increasing] at found
  cases recorded : base.find? m with
  | none => rfl
  | some value =>
    have member : ⟨m, value⟩ ∈ base.entries := (base.mem_entries_iff).mpr recorded
    cases first : base.entries.find? (fun entry => key < entry.1) with
    | none =>
      exact absurd (by simpa using higher) (List.find?_eq_none.mp first _ member)
    | some item =>
      simp only [first] at found
      split_ifs at found with past
      · obtain ⟨l, isLast, atMost⟩ := (Option.any_eq_true _ _).mp past
        have least : item.1 ≤ m :=
          le_of_find?_eq_some base.increasing first _ member (by simpa using higher)
        exact absurd (below l isLast)
          (not_lt.mpr ((decide_eq_true_iff.mp atMost).trans least))

theorem length_above_succ_lt {base : SortedMap K V} {key n : K} {last : Option K}
    (found : succ base key last = some n) :
    (above base.entries n).length < (above base.entries key).length := by
  unfold succ at found
  cases first : (above base.entries key).head? with
  | none => simp only [first] at found; cases found
  | some item =>
    simp only [first] at found
    split_ifs at found
    cases found
    exact length_above_lt base.increasing first

end ReadView

namespace RawStateTable

/-- `RawStateTable::Action`. -/
inductive Action where
  | erase
  | insert
  | replace
  deriving DecidableEq, Repr

end RawStateTable

/-- `RawStateTable`: `items_`, each changed entry under its key with what was done to it,
and the drops destroyed and created. -/
structure RawStateTable (K V : Type) [LinearOrder K] where
  items : SortedMap K (RawStateTable.Action × V)
  dropsDestroyed : Int
  dropsCreated : Int
  dropsVBCCreated : Int

namespace RawStateTable

/-- A table with no changes. -/
def empty : RawStateTable K V := ⟨SortedMap.empty, 0, 0, 0⟩

/-- Record `item` under `key`, replacing what was recorded there. -/
def setItem (table : RawStateTable K V) (key : K) (item : Action × V) : RawStateTable K V :=
  { table with items := table.items.alter key fun _ => some item }

/-- Drop what was recorded under `key`: `items_.erase`. -/
def removeItem (table : RawStateTable K V) (key : K) : RawStateTable K V :=
  { table with items := table.items.alter key fun _ => none }

/-- `RawStateTable::erase`. -/
def erase (table : RawStateTable K V) (key : K) (sle : V) : Option (RawStateTable K V) :=
  match table.items.find? key with
  | none => some (table.setItem key (.erase, sle))
  | some (.erase, _) => none
  | some (.insert, _) => some (table.removeItem key)
  | some (.replace, _) => some (table.setItem key (.erase, sle))

/-- `RawStateTable::insert`. -/
def insert (table : RawStateTable K V) (key : K) (sle : V) : Option (RawStateTable K V) :=
  match table.items.find? key with
  | none => some (table.setItem key (.insert, sle))
  | some (.erase, _) => some (table.setItem key (.replace, sle))
  | some (.insert, _) => none
  | some (.replace, _) => none

/-- `RawStateTable::replace`. -/
def replace (table : RawStateTable K V) (key : K) (sle : V) : Option (RawStateTable K V) :=
  match table.items.find? key with
  | none => some (table.setItem key (.replace, sle))
  | some (.erase, _) => none
  | some (.insert, _) => some (table.setItem key (.insert, sle))
  | some (.replace, _) => some (table.setItem key (.replace, sle))

/-- `RawStateTable::destroyXRP`. -/
def destroyXRP (table : RawStateTable K V) (fee : Int) : RawStateTable K V :=
  { table with dropsDestroyed := table.dropsDestroyed + fee }

/-- `RawStateTable::createXRP`. -/
def createXRP (table : RawStateTable K V) (drops : Int) : RawStateTable K V :=
  { table with dropsCreated := table.dropsCreated + drops }

/-- `RawStateTable::createVBC`. -/
def createVBC (table : RawStateTable K V) (drops : Int) : RawStateTable K V :=
  { table with dropsVBCCreated := table.dropsVBCCreated + drops }

/-- `RawStateTable::read`. -/
def read (table : RawStateTable K V) (base : SortedMap K V) (k : Keylet K V) : Option V :=
  match table.items.find? k.key with
  | none => ReadView.read base k
  | some (.erase, _) => none
  | some (_, sle) => if k.check sle then some sle else none

/-- `RawStateTable::exists`. -/
def «exists» (table : RawStateTable K V) (base : SortedMap K V) (k : Keylet K V) : Bool :=
  match table.items.find? k.key with
  | none => ReadView.exists base k
  | some (.erase, _) => false
  | some (_, sle) => k.check sle

/-- The first loop of `RawStateTable::succ`: the base's successor of `next`, passing
those the table erased. -/
def succBase (table : RawStateTable K V) (base : SortedMap K V) (last : Option K)
    (next : K) : Option K :=
  match _found : ReadView.succ base next last with
  | none => none
  | some key =>
    match table.items.find? key with
    | some (.erase, _) => succBase table base last key
    | _ => some key
termination_by (above base.entries next).length
decreasing_by exact ReadView.length_above_succ_lt _found

/-- The second loop of `RawStateTable::succ`: the first key above `key` that the table
inserted or replaced. -/
def succItems (table : RawStateTable K V) (key : K) : Option K :=
  ((above table.items.entries key).find? fun item => item.2.1 != .erase).map (·.1)

/-- `if (! next || next > iter->first) next = iter->first`: the lower of two keys. -/
def lower (next found : Option K) : Option K :=
  match found with
  | some found => if next.all (found < ·) then some found else next
  | none => next

/-- `if (last && next >= last) return boost::none`. -/
def cutAt (last next : Option K) : Option K :=
  match last, next with
  | some last, some next => if last ≤ next then none else some next
  | _, _ => next

/-- `RawStateTable::succ`: the lower of the base's successor that the table did not erase
and the first key above `key` that the table inserted or replaced, unless it is at or past
`last`. -/
def succ (table : RawStateTable K V) (base : SortedMap K V) (key : K) (last : Option K) :
    Option K :=
  cutAt last (lower (table.succBase base last key) (table.succItems key))

/-! ## Iterating over the table and its base -/

/-- The state of `sles_iter_impl`: the table's items from `iter1_` on and the base's
entries from `iter0_` on, whose heads are `sle1_` and `sle0_`. -/
structure Cursor (K V : Type) where
  items : List (Σ _ : K, Action × V)
  base : List (Σ _ : K, V)

namespace Cursor

/-- `skip`: pass the erased items that stand at the base cursor's entry.  The loop's test
dereferences `sle0_`, which is null once the base is exhausted. -/
def skip : List (Σ _ : K, Action × V) → List (Σ _ : K, V) → Option (Cursor K V)
  | [], base => some ⟨[], base⟩
  | ⟨k₁, (action, sle₁)⟩ :: items, base =>
    if action = .erase then
      match base with
      | [] => none
      | ⟨k₀, sle₀⟩ :: rest =>
        if k₀ = k₁ then
          match rest with
          | [] => some ⟨items, []⟩
          | _ :: _ => skip items rest
        else some ⟨⟨k₁, (action, sle₁)⟩ :: items, ⟨k₀, sle₀⟩ :: rest⟩
    else some ⟨⟨k₁, (action, sle₁)⟩ :: items, base⟩

/-- `increment`. -/
def increment (cursor : Cursor K V) : Option (Cursor K V) :=
  match cursor.items, cursor.base with
  | [], [] => none
  | _ :: items, [] => some ⟨items, []⟩
  | [], _ :: base => some ⟨[], base⟩
  | ⟨k₁, item⟩ :: items, ⟨k₀, sle₀⟩ :: base =>
    if k₁ = k₀ then skip items base
    else if k₁ < k₀ then skip items (⟨k₀, sle₀⟩ :: base)
    else skip (⟨k₁, item⟩ :: items) base

/-- `dereference`: the entry of lower key, the table's on a tie. -/
def dereference (cursor : Cursor K V) : Option (Σ _ : K, V) :=
  match cursor.items, cursor.base with
  | [], base => base.head?
  | ⟨k₁, (_, sle₁)⟩ :: _, [] => some ⟨k₁, sle₁⟩
  | ⟨k₁, (_, sle₁)⟩ :: _, ⟨k₀, sle₀⟩ :: _ =>
    if k₁ ≤ k₀ then some ⟨k₁, sle₁⟩ else some ⟨k₀, sle₀⟩

/-- What is left to walk. -/
def size (cursor : Cursor K V) : Nat := cursor.items.length + cursor.base.length

theorem size_skip : ∀ {items : List (Σ _ : K, Action × V)} {base : List (Σ _ : K, V)}
    {cursor : Cursor K V}, skip items base = some cursor →
      cursor.size ≤ items.length + base.length
  | [], base, cursor, skipped => by
    cases skipped
    simp [size]
  | ⟨k₁, (action, sle₁)⟩ :: items, base, cursor, skipped => by
    unfold skip at skipped
    split at skipped
    · split at skipped
      · cases skipped
      · split at skipped
        · split at skipped
          · cases skipped
            simp only [size, List.length_cons, List.length_nil]
            omega
          · have shorter := size_skip skipped
            simp only [List.length_cons] at shorter ⊢
            omega
        · cases skipped
          simp [size]
    · cases skipped
      simp [size]

theorem size_increment {cursor next : Cursor K V} (stepped : cursor.increment = some next) :
    next.size < cursor.size := by
  rcases cursor with ⟨_ | ⟨⟨k₁, item⟩, items⟩, _ | ⟨⟨k₀, sle₀⟩, base⟩⟩
  · cases stepped
  · cases stepped
    simp [size]
  · cases stepped
    simp [size]
  · simp only [increment] at stepped
    have shorter : ∀ {items' base'}, skip items' base' = some next →
        items'.length + base'.length < items.length + 1 + (base.length + 1) →
        next.size < (Cursor.mk (⟨k₁, item⟩ :: items) (⟨k₀, sle₀⟩ :: base)).size :=
      fun skipped fewer => (size_skip skipped).trans_lt (by simpa [size] using fewer)
    split_ifs at stepped
    · exact shorter stepped (by omega)
    · exact shorter stepped (by simp)
    · exact shorter stepped (by simp)

/-- The range-for over `sles`: dereference and increment until the end. -/
def walk (cursor : Cursor K V) : Option (List (Σ _ : K, V)) :=
  if cursor.items.isEmpty && cursor.base.isEmpty then some []
  else
    match cursor.dereference, _stepped : cursor.increment with
    | some entry, some next => (walk next).map (entry :: ·)
    | _, _ => none
termination_by cursor.size
decreasing_by exact size_increment _stepped

end Cursor

/-- `slesBegin`: the iterator at the first items of both, past the erased items that
stand at the base's first entry. -/
def slesBegin (table : RawStateTable K V) (base : SortedMap K V) : Option (Cursor K V) :=
  Cursor.skip table.items.entries base.entries

/-- The entries `sles` visits, in order. -/
def sles (table : RawStateTable K V) (base : SortedMap K V) : Option (List (Σ _ : K, V)) :=
  (table.slesBegin base).bind Cursor.walk

end RawStateTable

/-- A `RawView` as the table applies to it: a ledger's state map and coin totals. -/
structure RawLedger (K V : Type) [LinearOrder K] where
  stateMap : SortedMap K V
  drops : Int
  dropsVBC : Int

namespace RawLedger

/-- `Ledger::rawErase`: a key that is not there is a `LogicError`. -/
def rawErase (target : RawLedger K V) (key : K) : Option (RawLedger K V) :=
  if (target.stateMap.find? key).isSome then
    some { target with stateMap := target.stateMap.alter key fun _ => none }
  else none

/-- `Ledger::rawInsert`: a key that is already there is a `LogicError`. -/
def rawInsert (target : RawLedger K V) (key : K) (sle : V) : Option (RawLedger K V) :=
  if (target.stateMap.find? key).isSome then none
  else some { target with stateMap := target.stateMap.alter key fun _ => some sle }

/-- `Ledger::rawReplace`: a key that is not there is a `LogicError`. -/
def rawReplace (target : RawLedger K V) (key : K) (sle : V) : Option (RawLedger K V) :=
  if (target.stateMap.find? key).isSome then
    some { target with stateMap := target.stateMap.alter key fun _ => some sle }
  else none

end RawLedger

namespace RawStateTable

/-- One step of the loop of `RawStateTable::apply`. -/
def applyItem (target : RawLedger K V) : (Σ _ : K, Action × V) → Option (RawLedger K V)
  | ⟨key, (.erase, _)⟩ => target.rawErase key
  | ⟨key, (.insert, sle)⟩ => target.rawInsert key sle
  | ⟨key, (.replace, sle)⟩ => target.rawReplace key sle

/-- `RawStateTable::apply`: the coin totals, then every item in key order. -/
def apply (table : RawStateTable K V) (target : RawLedger K V) : Option (RawLedger K V) :=
  let target := { target with
    drops := target.drops + table.dropsCreated - table.dropsDestroyed
    dropsVBC := target.dropsVBC + table.dropsVBCCreated }
  table.items.entries.foldlM applyItem target

/-- A call on the table: one of its modifiers, with the entry it is given. -/
inductive Op (K V : Type) where
  | erase (key : K) (sle : V)
  | insert (key : K) (sle : V)
  | replace (key : K) (sle : V)
  | destroyXRP (fee : Int)
  | createXRP (drops : Int)
  | createVBC (drops : Int)

/-- Make one call; `none` is a `LogicError`. -/
def step (table : RawStateTable K V) : Op K V → Option (RawStateTable K V)
  | .erase key sle => table.erase key sle
  | .insert key sle => table.insert key sle
  | .replace key sle => table.replace key sle
  | .destroyXRP fee => some (table.destroyXRP fee)
  | .createXRP drops => some (table.createXRP drops)
  | .createVBC drops => some (table.createVBC drops)

/-- Make the calls in order. -/
def run (table : RawStateTable K V) (ops : List (Op K V)) : Option (RawStateTable K V) :=
  ops.foldlM step table

/-! ## What a table stands for -/

/-- The map the table and its base stand for: the table's entry where it recorded one, the
base's elsewhere. -/
def view (table : RawStateTable K V) (base : SortedMap K V) (key : K) : Option V :=
  match table.items.find? key with
  | none => base.find? key
  | some (.erase, _) => none
  | some (_, sle) => some sle

/-- The change an item makes: an erasure removes the key, anything else sets it. -/
def change (item : Action × V) : Option V := if item.1 = .erase then none else some item.2

/-- The table's items as changes. -/
def changes (items : List (Σ _ : K, Action × V)) : List (Σ _ : K, Option V) :=
  items.map (Sigma.map id fun _ => change)

/-- The table agrees with its base about what was there: it erased or replaced only keys
of the base, and inserted only keys that are not. -/
def Coherent (table : RawStateTable K V) (base : SortedMap K V) : Prop :=
  ∀ key item, table.items.find? key = some item → (item.1 = .insert ↔ base.find? key = none)

end RawStateTable

namespace RawStateTable.Op

/-- What a call does to the map the table stands for. -/
def applyTo (map : K → Option V) : Op K V → K → Option V
  | .erase key _ => Function.update map key none
  | .insert key sle => Function.update map key (some sle)
  | .replace key sle => Function.update map key (some sle)
  | _ => map

/-- What the table accepts: erasing or replacing a key that is there, inserting one that
is not. -/
def Accepted (map : K → Option V) : Op K V → Prop
  | .erase key _ => map key ≠ none
  | .insert key _ => map key = none
  | .replace key _ => map key ≠ none
  | _ => True

/-- A sequence of calls, each accepted by the map the calls before it leave. -/
def AllAccepted (map : K → Option V) : List (Op K V) → Prop
  | [] => True
  | op :: ops => Accepted map op ∧ AllAccepted (applyTo map op) ops

/-- The map a sequence of calls leaves. -/
def applyAll (map : K → Option V) (ops : List (Op K V)) : K → Option V :=
  ops.foldl applyTo map

end RawStateTable.Op

namespace RawStateTable

/-! ## Each accepted call changes the map as it says -/

section calls

variable (table : RawStateTable K V) (base : SortedMap K V)

theorem find?_setItem (key : K) (item : Action × V) (probe : K) :
    (table.setItem key item).items.find? probe =
      if probe = key then some item else table.items.find? probe := by
  simp [setItem, SortedMap.find?_alter]

theorem find?_removeItem (key probe : K) :
    (table.removeItem key).items.find? probe =
      if probe = key then none else table.items.find? probe := by
  simp [removeItem, SortedMap.find?_alter]

theorem view_setItem (key : K) (item : Action × V) :
    (table.setItem key item).view base =
      Function.update (table.view base) key (if item.1 = .erase then none else some item.2) := by
  funext probe
  unfold view
  rw [find?_setItem, Function.update_apply]
  by_cases here : probe = key
  · rcases item with ⟨_ | _ | _, sle⟩ <;> simp [here]
  · simp [here]

theorem view_removeItem (key : K) :
    (table.removeItem key).view base = Function.update (table.view base) key (base.find? key) := by
  funext probe
  unfold view
  rw [find?_removeItem, Function.update_apply]
  by_cases here : probe = key
  · simp [here]
  · simp [here]

end calls

namespace Coherent

variable {table : RawStateTable K V} {base : SortedMap K V}

theorem setItem (coherent : table.Coherent base) {key : K} {item : Action × V}
    (agrees : item.1 = .insert ↔ base.find? key = none) : (table.setItem key item).Coherent base := by
  intro probe recorded found
  rw [find?_setItem] at found
  by_cases here : probe = key
  · subst here
    rw [if_pos rfl, Option.some.injEq] at found
    subst found
    exact agrees
  · rw [if_neg here] at found
    exact coherent probe recorded found

theorem removeItem (coherent : table.Coherent base) (key : K) :
    (table.removeItem key).Coherent base := by
  intro probe recorded found
  rw [find?_removeItem] at found
  by_cases here : probe = key
  · rw [if_pos here] at found
    cases found
  · rw [if_neg here] at found
    exact coherent probe recorded found

end Coherent

section calls

variable {table : RawStateTable K V} {base : SortedMap K V}

theorem erase_accepted (coherent : table.Coherent base) {key : K} (sle : V)
    (present : table.view base key ≠ none) :
    ∃ next, table.erase key sle = some next ∧ next.Coherent base ∧
      next.view base = Function.update (table.view base) key none := by
  unfold erase
  cases recorded : table.items.find? key with
  | none =>
    have inBase : base.find? key ≠ none := by simpa [view, recorded] using present
    exact ⟨_, rfl, coherent.setItem (by simpa using inBase), by simp [view_setItem]⟩
  | some item =>
    rcases item with ⟨action, old⟩
    cases action with
    | erase => simp [view, recorded] at present
    | insert =>
      have absent : base.find? key = none := (coherent key _ recorded).mp rfl
      exact ⟨_, rfl, coherent.removeItem key, by rw [view_removeItem, absent]⟩
    | replace =>
      have inBase : base.find? key ≠ none := fun absent => by
        simpa using (coherent key _ recorded).mpr absent
      exact ⟨_, rfl, coherent.setItem (by simpa using inBase), by simp [view_setItem]⟩

theorem insert_accepted (coherent : table.Coherent base) {key : K} (sle : V)
    (absent : table.view base key = none) :
    ∃ next, table.insert key sle = some next ∧ next.Coherent base ∧
      next.view base = Function.update (table.view base) key (some sle) := by
  unfold insert
  cases recorded : table.items.find? key with
  | none =>
    have notInBase : base.find? key = none := by simpa [view, recorded] using absent
    exact ⟨_, rfl, coherent.setItem (by simpa using notInBase), by simp [view_setItem]⟩
  | some item =>
    rcases item with ⟨action, old⟩
    cases action with
    | erase =>
      have inBase : base.find? key ≠ none := fun missing => by
        simpa using (coherent key _ recorded).mpr missing
      exact ⟨_, rfl, coherent.setItem (by simpa using inBase), by simp [view_setItem]⟩
    | insert => simp [view, recorded] at absent
    | replace => simp [view, recorded] at absent

theorem replace_accepted (coherent : table.Coherent base) {key : K} (sle : V)
    (present : table.view base key ≠ none) :
    ∃ next, table.replace key sle = some next ∧ next.Coherent base ∧
      next.view base = Function.update (table.view base) key (some sle) := by
  unfold replace
  cases recorded : table.items.find? key with
  | none =>
    have inBase : base.find? key ≠ none := by simpa [view, recorded] using present
    exact ⟨_, rfl, coherent.setItem (by simpa using inBase), by simp [view_setItem]⟩
  | some item =>
    rcases item with ⟨action, old⟩
    cases action with
    | erase => simp [view, recorded] at present
    | insert =>
      have absent : base.find? key = none := (coherent key _ recorded).mp rfl
      exact ⟨_, rfl, coherent.setItem (by simpa using absent), by simp [view_setItem]⟩
    | replace =>
      have inBase : base.find? key ≠ none := fun missing => by
        simpa using (coherent key _ recorded).mpr missing
      exact ⟨_, rfl, coherent.setItem (by simpa using inBase), by simp [view_setItem]⟩

/-- One call the map accepts: the table accepts it too, stays coherent, and stands for the
map the call leaves. -/
theorem step_accepted (coherent : table.Coherent base) {op : Op K V}
    (accepted : op.Accepted (table.view base)) :
    ∃ next, table.step op = some next ∧ next.Coherent base ∧
      next.view base = op.applyTo (table.view base) := by
  cases op with
  | erase key sle => exact erase_accepted coherent sle accepted
  | insert key sle => exact insert_accepted coherent sle accepted
  | replace key sle => exact replace_accepted coherent sle accepted
  | destroyXRP fee => exact ⟨_, rfl, coherent, rfl⟩
  | createXRP drops => exact ⟨_, rfl, coherent, rfl⟩
  | createVBC drops => exact ⟨_, rfl, coherent, rfl⟩

/-- A sequence of calls the map accepts, by induction on the calls. -/
theorem run_accepted (coherent : table.Coherent base) {ops : List (Op K V)}
    (accepted : Op.AllAccepted (table.view base) ops) :
    ∃ final, table.run ops = some final ∧ final.Coherent base ∧
      final.view base = Op.applyAll (table.view base) ops := by
  induction ops generalizing table with
  | nil => exact ⟨table, rfl, coherent, rfl⟩
  | cons op ops ih =>
    obtain ⟨acceptedOp, acceptedRest⟩ := accepted
    obtain ⟨next, stepped, coherentNext, viewNext⟩ := step_accepted coherent acceptedOp
    rw [← viewNext] at acceptedRest
    obtain ⟨final, ran, coherentFinal, viewFinal⟩ := ih coherentNext acceptedRest
    refine ⟨final, ?_, coherentFinal, ?_⟩
    · simp only [run, List.foldlM_cons, stepped, Option.bind_eq_bind, Option.bind_some]
      exact ran
    · rw [viewFinal, viewNext]
      rfl

end calls

theorem coherent_empty (base : SortedMap K V) : (empty : RawStateTable K V).Coherent base := by
  intro key item found
  cases found

theorem view_empty (base : SortedMap K V) : (empty : RawStateTable K V).view base = base.find? :=
  rfl

end RawStateTable

namespace RawStateTable

/-! ## Reading through the table -/

section reads

variable (table : RawStateTable K V) (base : SortedMap K V)

/-- `read` is the map's entry under the keylet's key, if it passes the keylet's check. -/
theorem read_eq_view (k : Keylet K V) :
    table.read base k = (table.view base k.key).filter k.check := by
  unfold read view
  cases recorded : table.items.find? k.key with
  | none => rfl
  | some item =>
    rcases item with ⟨_ | _ | _, sle⟩
    · rfl
    · simp [Option.filter]
    · simp [Option.filter]

/-- `exists` is whether the map has an entry under the key, for a keylet whose check
passes every entry the map holds there.  The base answers without the check, the table
with it. -/
theorem exists_eq_view (k : Keylet K V)
    (typed : ∀ sle, table.view base k.key = some sle → k.check sle = true) :
    table.exists base k = (table.view base k.key).isSome := by
  unfold «exists» at *
  unfold view at typed ⊢
  cases recorded : table.items.find? k.key with
  | none => rfl
  | some item =>
    rcases item with ⟨_ | _ | _, sle⟩
    · rfl
    · simpa [recorded] using typed sle
    · simpa [recorded] using typed sle

end reads

end RawStateTable

/-- The keys of a map above `key`, and below `last` when it is given: where `succ` looks. -/
def keysBetween (map : K → Option V) (key : K) (last : Option K) : Set K :=
  {m | key < m ∧ (∀ l ∈ last, m < l) ∧ map m ≠ none}

namespace RawStateTable

/-! ## The successor of a key -/

/-- The keys of the base above `key` and below `last` that the table did not erase. -/
def baseBetween (table : RawStateTable K V) (base : SortedMap K V) (key : K)
    (last : Option K) : Set K :=
  {m | key < m ∧ (∀ l ∈ last, m < l) ∧ base.find? m ≠ none ∧ table.view base m ≠ none}

/-- The keys above `key` that the table inserted or replaced. -/
def setAbove (table : RawStateTable K V) (key : K) : Set K :=
  {m | key < m ∧ ∃ item, table.items.find? m = some item ∧ item.1 ≠ .erase}

section successor

variable (table : RawStateTable K V) (base : SortedMap K V)

theorem view_of_erased {key : K} {sle : V} (erased : table.items.find? key = some (.erase, sle)) :
    table.view base key = none := by
  simp [view, erased]

theorem view_ne_none {key : K} (inBase : base.find? key ≠ none)
    (kept : ∀ sle, table.items.find? key ≠ some (.erase, sle)) : table.view base key ≠ none := by
  unfold view
  cases recorded : table.items.find? key with
  | none => exact inBase
  | some item =>
    rcases item with ⟨_ | _ | _, sle⟩
    · exact absurd recorded (kept sle)
    · simp
    · simp

/-- Where the base's successor was erased, the loop looks on from it. -/
theorem baseBetween_of_erased {next key : K} {last : Option K} {sle : V}
    (found : ReadView.succ base next last = some key)
    (erased : table.items.find? key = some (.erase, sle)) :
    table.baseBetween base next last = table.baseBetween base key last := by
  obtain ⟨above, -, -, least⟩ := ReadView.succ_eq_some found
  ext m
  constructor
  · rintro ⟨higher, below, inBase, present⟩
    have atLeast : key ≤ m := least m higher inBase
    have other : key ≠ m := fun same => present (same ▸ view_of_erased table base erased)
    exact ⟨lt_of_le_of_ne atLeast other, below, inBase, present⟩
  · rintro ⟨higher, below, inBase, present⟩
    exact ⟨above.trans higher, below, inBase, present⟩

/-- The first loop finds the least key of the base above `next` and below `last` that the
table did not erase, by induction on the loop. -/
theorem succBase_spec (last : Option K) (next : K) :
    (∀ n, table.succBase base last next = some n → IsLeast (table.baseBetween base next last) n) ∧
    (table.succBase base last next = none → table.baseBetween base next last = ∅) := by
  fun_induction table.succBase base last next with
  | case1 next found =>
    constructor
    · intro n nothing
      cases nothing
    intro _
    ext m
    simp only [Set.mem_empty_iff_false, iff_false]
    rintro ⟨higher, below, inBase, -⟩
    exact inBase (ReadView.succ_eq_none found m higher below)
  | case2 next key found sle erased ih =>
    rw [baseBetween_of_erased table base found erased]
    exact ih
  | case3 next key found kept =>
    constructor
    swap
    · intro nothing
      cases nothing
    intro n same
    cases same
    obtain ⟨above, below, inBase, least⟩ := ReadView.succ_eq_some found
    exact ⟨⟨above, below, inBase, view_ne_none table base inBase fun sle => kept sle⟩,
      fun m ⟨higher, _, present, _⟩ => least m higher present⟩

/-- The second loop finds the least key above `key` that the table inserted or replaced. -/
theorem succItems_spec (key : K) : LeastOf (table.setAbove key) (table.succItems key) := by
  unfold succItems
  have increase := table.items.increasing.above key
  cases first : (above table.items.entries key).find? (fun item => item.2.1 != .erase) with
  | none =>
    constructor
    · intro n nothing
      cases nothing
    intro _
    ext m
    simp only [Set.mem_empty_iff_false, iff_false]
    rintro ⟨higher, item, recorded, kept⟩
    have member : ⟨m, item⟩ ∈ above table.items.entries key :=
      (mem_above table.items.increasing).mpr ⟨(table.items.mem_entries_iff).mpr recorded, higher⟩
    exact List.find?_eq_none.mp first _ member (by simpa using kept)
  | some found =>
    constructor
    swap
    · intro nothing
      cases nothing
    intro n same
    simp only [Option.map_some, Option.some.injEq] at same
    subst same
    rcases found with ⟨k, item⟩
    obtain ⟨member, higher⟩ := (mem_above table.items.increasing).mp (List.mem_of_find?_eq_some first)
    have kept : item.1 ≠ .erase := by simpa using List.find?_some first
    refine ⟨⟨higher, item, (table.items.mem_entries_iff).mp member, kept⟩, ?_⟩
    rintro m ⟨above, other, recorded, otherKept⟩
    exact le_of_find?_eq_some increase first ⟨m, other⟩
      ((mem_above table.items.increasing).mpr ⟨(table.items.mem_entries_iff).mpr recorded, above⟩)
      (by simpa using otherKept)

/-- Where `succ` looks: the base's keys the table kept, and the keys the table set. -/
theorem keysBetween_view (key : K) (last : Option K) :
    keysBetween (table.view base) key last =
      (table.baseBetween base key last ∪ table.setAbove key) ∩ {m | ∀ l ∈ last, m < l} := by
  ext m
  constructor
  · rintro ⟨higher, below, present⟩
    refine ⟨?_, below⟩
    cases recorded : table.items.find? m with
    | none =>
      have inBase : base.find? m ≠ none := by simpa [view, recorded] using present
      exact .inl ⟨higher, below, inBase, present⟩
    | some item =>
      rcases item with ⟨_ | _ | _, sle⟩
      · exact absurd (view_of_erased table base recorded) present
      · exact .inr ⟨higher, _, recorded, by simp⟩
      · exact .inr ⟨higher, _, recorded, by simp⟩
  · rintro ⟨kept | ⟨higher, item, recorded, setHere⟩, below⟩
    · exact ⟨kept.1, below, kept.2.2.2⟩
    · refine ⟨higher, below, ?_⟩
      rcases item with ⟨_ | _ | _, sle⟩
      · exact absurd rfl setHere
      · simp [view, recorded]
      · simp [view, recorded]

end successor

/-- `lower` picks the least element of the union of two sets from theirs. -/
theorem lower_spec {first second : Set K} {next found : Option K} (leastFirst : LeastOf first next)
    (leastSecond : LeastOf second found) : LeastOf (first ∪ second) (lower next found) := by
  cases found with
  | none =>
    rw [leastSecond.2 rfl, Set.union_empty]
    exact leastFirst
  | some f =>
    have leastF := leastSecond.1 f rfl
    cases next with
    | none =>
      rw [leastFirst.2 rfl, Set.empty_union]
      refine ⟨fun n same => ?_, fun nothing => by cases nothing⟩
      cases same
      exact leastF
    | some b =>
      have union := (leastFirst.1 b rfl).union leastF
      unfold lower
      by_cases earlier : f < b
      · rw [min_eq_right earlier.le] at union
        refine ⟨fun n same => ?_, fun nothing => by simp [earlier] at nothing⟩
        simp only [Option.all_some, decide_eq_true earlier, if_true, Option.some.injEq] at same
        exact same ▸ union
      · rw [min_eq_left (not_lt.mp earlier)] at union
        refine ⟨fun n same => ?_, fun nothing => by simp [earlier] at nothing⟩
        simp only [Option.all_some, decide_eq_false earlier, Bool.false_eq_true, if_false,
          Option.some.injEq] at same
        exact same ▸ union

/-- `cutAt` cuts the least element at `last`. -/
theorem cutAt_spec {keys : Set K} {next : Option K} (least : LeastOf keys next) (last : Option K) :
    LeastOf (keys ∩ {m | ∀ l ∈ last, m < l}) (cutAt last next) := by
  have lowerSet : ∀ m n : K, m ≤ n → n ∈ {m : K | ∀ l ∈ last, m < l} →
      m ∈ {m : K | ∀ l ∈ last, m < l} :=
    fun _ _ atMost below l isLast => lt_of_le_of_lt atMost (below l isLast)
  cases next with
  | none =>
    have cut : cutAt last none = none := by cases last <;> rfl
    rw [cut, least.2 rfl, Set.empty_inter]
    constructor
    · intro n nothing
      cases nothing
    · intro _
      rfl
  | some v =>
    obtain ⟨inside, outside⟩ := isLeast_inter_of_lower (least.1 v rfl) lowerSet
    cases last with
    | none =>
      refine ⟨fun n same => ?_, fun nothing => by cases nothing⟩
      cases same
      exact inside fun _ isLast => by cases isLast
    | some l =>
      have cut : cutAt (some l) (some v) = if l ≤ v then none else some v := rfl
      rw [cut]
      by_cases late : l ≤ v
      · rw [if_pos late]
        refine ⟨fun _ nothing => (by cases nothing), fun _ => outside fun below => ?_⟩
        exact absurd (below l rfl) (not_lt.mpr late)
      · rw [if_neg late]
        refine ⟨fun n same => ?_, fun nothing => by cases nothing⟩
        cases same
        exact inside fun _ isLast => by
          cases isLast
          exact not_le.mp late

/-- `succ` is the least key of the map above `key` and below `last`, or nothing when there
is none. -/
theorem succ_spec (table : RawStateTable K V) (base : SortedMap K V) (key : K)
    (last : Option K) : LeastOf (keysBetween (table.view base) key last) (table.succ base key last) := by
  rw [keysBetween_view]
  exact cutAt_spec (lower_spec (succBase_spec table base last key) (succItems_spec table key)) last

end RawStateTable

namespace RawStateTable

/-! ## The walk over the table and its base

The walk visits what is left of the base with what is left of the table laid over it.
Each `increment` moves past the entry `dereference` gave, and `skip` passes the erased
items that stand at the base cursor, neither changing what is left to visit. -/

omit [LinearOrder K] in
@[simp] theorem changes_nil : changes ([] : List (Σ _ : K, Action × V)) = [] := rfl

omit [LinearOrder K] in
@[simp] theorem changes_cons (k : K) (item : Action × V) (items : List (Σ _ : K, Action × V)) :
    changes (⟨k, item⟩ :: items) = ⟨k, change item⟩ :: changes items := rfl

omit [LinearOrder K] in
@[simp] theorem change_erase (sle : V) : change (.erase, sle) = none := rfl

omit [LinearOrder K] in
theorem change_of_ne {item : Action × V} (kept : item.1 ≠ .erase) : change item = some item.2 := by
  simp [change, kept]

theorem changes_increasing {items : List (Σ _ : K, Action × V)} (increase : KeysIncrease items) :
    KeysIncrease (changes items) :=
  List.pairwise_map.mpr increase

theorem dlookup_changes (items : List (Σ _ : K, Action × V)) (key : K) :
    (changes items).dlookup key = (items.dlookup key).map change :=
  List.dlookup_map₂ key

/-- The map is the base with the table's changes laid over it, key by key. -/
theorem view_eq_getD (table : RawStateTable K V) (base : SortedMap K V) (key : K) :
    table.view base key = ((changes table.items.entries).dlookup key).getD (base.find? key) := by
  rw [dlookup_changes]
  unfold view
  change _ = ((table.items.find? key).map change).getD (base.find? key)
  cases table.items.find? key with
  | none => rfl
  | some item =>
    rcases item with ⟨_ | _ | _, sle⟩ <;> rfl

/-- The map is the base's entries with the table's items laid over them. -/
theorem view_eq_dlookup_overlay (table : RawStateTable K V) (base : SortedMap K V) (key : K) :
    table.view base key = (overlay base.entries (changes table.items.entries)).dlookup key := by
  rw [dlookup_overlay base.increasing (changes_increasing table.items.increasing), view_eq_getD]
  rfl

namespace Cursor

/-- What is left to visit. -/
def rest (cursor : Cursor K V) : List (Σ _ : K, V) := overlay cursor.base (changes cursor.items)

/-- The walk's invariant: both lists in key order, and every erased item ahead of the
base cursor under a key of the base. -/
structure Inv (cursor : Cursor K V) : Prop where
  itemsIncrease : KeysIncrease cursor.items
  baseIncrease : KeysIncrease cursor.base
  erasedInBase : ∀ item ∈ cursor.items, item.2.1 = .erase → item.1 ∈ cursor.base.keys

/-- No erased item stands at the base cursor's entry. -/
def Settled (cursor : Cursor K V) : Prop :=
  ∀ k sle items, cursor.items = ⟨k, (.erase, sle)⟩ :: items →
    ∀ entry ∈ cursor.base.head?, entry.1 ≠ k

/-- The erased items after the one at the base cursor lie ahead of the base cursor's next
entry. -/
theorem erasedInBase_tail {k : K} {item : Action × V} {items : List (Σ _ : K, Action × V)}
    {sle : V} {base : List (Σ _ : K, V)} (inv : Inv ⟨⟨k, item⟩ :: items, ⟨k, sle⟩ :: base⟩) :
    ∀ later ∈ items, later.2.1 = .erase → later.1 ∈ base.keys := by
  intro later member erased
  have above : k < later.1 := inv.itemsIncrease.lt_of_mem member
  rcases List.mem_cons.mp (inv.erasedInBase later (List.mem_cons_of_mem _ member) erased) with
    same | rest
  · exact absurd same (ne_of_gt above)
  · exact rest

theorem skip_spec : ∀ (items : List (Σ _ : K, Action × V)) (base : List (Σ _ : K, V)),
    Inv ⟨items, base⟩ → ∃ cursor, skip items base = some cursor ∧ Inv cursor ∧ Settled cursor ∧
      cursor.rest = rest ⟨items, base⟩
  | [], base, inv => ⟨_, rfl, inv, fun _ _ _ nonempty => (by cases nonempty), rfl⟩
  | ⟨k₁, (action, sle₁)⟩ :: items, base, inv => by
    by_cases erased : action = .erase
    · subst erased
      have inBase : k₁ ∈ base.keys := inv.erasedInBase _ List.mem_cons_self rfl
      match base, inv, inBase with
      | ⟨k₀, sle₀⟩ :: rest, inv, _ =>
        by_cases same : k₀ = k₁
        · subst same
          have later := erasedInBase_tail inv
          have passed : Cursor.rest ⟨⟨k₀, (.erase, sle₁)⟩ :: items, ⟨k₀, sle₀⟩ :: rest⟩ =
              Cursor.rest ⟨items, rest⟩ := by
            simp [Cursor.rest, overlay_cons_cons]
          rw [passed]
          match rest, inv, later with
          | [], inv, later =>
            refine ⟨⟨items, []⟩, by simp [skip], ⟨inv.itemsIncrease.of_cons, List.Pairwise.nil,
              later⟩, fun _ _ _ _ _ nothing => (by cases nothing), rfl⟩
          | entry :: rest, inv, later =>
            obtain ⟨cursor, skipped, invNext, settled, same⟩ :=
              skip_spec items (entry :: rest)
                ⟨inv.itemsIncrease.of_cons, inv.baseIncrease.of_cons, later⟩
            exact ⟨cursor, by simpa [skip] using skipped, invNext, settled, same⟩
        · refine ⟨_, by simp [skip, same], inv, ?_, rfl⟩
          intro k sle items' heads entry first
          simp only [List.cons.injEq, Sigma.mk.injEq] at heads
          obtain ⟨⟨rfl, -⟩, -⟩ := heads
          simp only [List.head?_cons, Option.mem_def, Option.some.injEq] at first
          subst first
          exact same
    · refine ⟨_, by simp [skip, erased], inv, ?_, rfl⟩
      intro k sle items' heads
      simp only [List.cons.injEq, Sigma.mk.injEq, heq_eq_eq, Prod.mk.injEq] at heads
      exact absurd heads.1.2.1 erased

/-- An erased item is under a key of the base, so it never stands below the base cursor. -/
theorem kept_of_below {k₁ k₀ : K} {action : Action} {sle₁ sle₀ : V}
    {items : List (Σ _ : K, Action × V)} {base : List (Σ _ : K, V)}
    (inv : Inv ⟨⟨k₁, (action, sle₁)⟩ :: items, ⟨k₀, sle₀⟩ :: base⟩) (below : k₁ < k₀) :
    action ≠ .erase := by
  intro erased
  have inBase := inv.erasedInBase _ List.mem_cons_self erased
  rcases List.mem_cons.mp inBase with same | later
  · exact absurd same (ne_of_lt below)
  · obtain ⟨value, member⟩ := List.mem_keys.mp later
    exact absurd (inv.baseIncrease.lt_of_mem member) (not_lt.mpr below.le)

theorem increment_spec {cursor : Cursor K V} (inv : Inv cursor) (settled : Settled cursor)
    (running : ¬(cursor.items = [] ∧ cursor.base = [])) :
    ∃ entry next, cursor.dereference = some entry ∧ cursor.increment = some next ∧ Inv next ∧
      Settled next ∧ cursor.rest = entry :: next.rest := by
  rcases cursor with ⟨_ | ⟨⟨k₁, ⟨action, sle₁⟩⟩, items⟩, _ | ⟨⟨k₀, sle₀⟩, base⟩⟩
  · exact absurd ⟨rfl, rfl⟩ running
  · refine ⟨⟨k₀, sle₀⟩, ⟨[], base⟩, rfl, rfl, ⟨List.Pairwise.nil, inv.baseIncrease.of_cons,
      fun _ nothing => (by cases nothing)⟩, fun _ _ _ nothing => (by cases nothing), ?_⟩
    simp [rest]
  · have kept : action ≠ .erase := fun erased => by
      simpa using inv.erasedInBase _ List.mem_cons_self erased
    refine ⟨⟨k₁, sle₁⟩, ⟨items, []⟩, rfl, rfl, ⟨inv.itemsIncrease.of_cons, List.Pairwise.nil,
      fun item member => inv.erasedInBase item (List.mem_cons_of_mem _ member)⟩,
      fun _ _ _ _ _ nothing => (by cases nothing), ?_⟩
    rw [rest, changes_cons, change_of_ne kept, overlay_nil_cons]
    rfl
  · by_cases same : k₁ = k₀
    · subst same
      have kept : action ≠ .erase := fun erased => by
        subst erased
        exact settled _ _ _ rfl ⟨k₁, sle₀⟩ rfl rfl
      obtain ⟨next, skipped, invNext, settledNext, restNext⟩ :=
        skip_spec items base
          ⟨inv.itemsIncrease.of_cons, inv.baseIncrease.of_cons, erasedInBase_tail inv⟩
      refine ⟨⟨k₁, sle₁⟩, next, by simp [dereference], by simpa [increment] using skipped,
        invNext, settledNext, ?_⟩
      rw [restNext, rest, changes_cons, change_of_ne kept, overlay_cons_cons]
      simp [rest]
    by_cases below : k₁ < k₀
    · have kept := kept_of_below inv below
      obtain ⟨next, skipped, invNext, settledNext, restNext⟩ :=
        skip_spec items (⟨k₀, sle₀⟩ :: base)
          ⟨inv.itemsIncrease.of_cons, inv.baseIncrease,
            fun item member => inv.erasedInBase item (List.mem_cons_of_mem _ member)⟩
      refine ⟨⟨k₁, sle₁⟩, next, by simp [dereference, below.le],
        by simpa [increment, same, below] using skipped, invNext, settledNext, ?_⟩
      rw [restNext, rest, changes_cons, change_of_ne kept, overlay_cons_cons, if_pos below]
      rfl
    · have above : k₀ < k₁ := lt_of_le_of_ne (not_lt.mp below) (Ne.symm same)
      have ahead : ∀ item ∈ (⟨k₁, (action, sle₁)⟩ :: items : List (Σ _ : K, Action × V)),
          item.2.1 = .erase → item.1 ∈ base.keys := by
        intro item member erased
        have higher : k₀ < item.1 := inv.itemsIncrease.lt_of_mem_cons above member
        rcases List.mem_cons.mp (inv.erasedInBase item member erased) with here | later
        · exact absurd here (ne_of_gt higher)
        · exact later
      obtain ⟨next, skipped, invNext, settledNext, restNext⟩ :=
        skip_spec (⟨k₁, (action, sle₁)⟩ :: items) base
          ⟨inv.itemsIncrease, inv.baseIncrease.of_cons, ahead⟩
      refine ⟨⟨k₀, sle₀⟩, next, by simp [dereference, not_le.mpr above],
        by simpa [increment, same, below] using skipped, invNext, settledNext, ?_⟩
      rw [restNext, rest, changes_cons, overlay_cons_cons, if_neg below, if_pos above]
      rfl

/-- The walk visits what is left to visit, by induction on the walk. -/
theorem walk_spec {cursor : Cursor K V} (inv : Inv cursor) (settled : Settled cursor) :
    cursor.walk = some cursor.rest := by
  fun_induction walk cursor with
  | case1 cursor atEnd =>
    obtain ⟨noItems, noBase⟩ : cursor.items = [] ∧ cursor.base = [] := by simpa using atEnd
    simp [rest, noItems, noBase]
  | case2 cursor running entry next stepped found ih =>
    have running : ¬(cursor.items = [] ∧ cursor.base = []) := by simpa using running
    obtain ⟨entry', next', found', stepped', invNext, settledNext, restEq⟩ :=
      increment_spec inv settled running
    rw [found] at found'
    rw [stepped] at stepped'
    cases found'
    cases stepped'
    rw [ih invNext settledNext, restEq]
    rfl
  | case3 cursor running other =>
    have running : ¬(cursor.items = [] ∧ cursor.base = []) := by simpa using running
    obtain ⟨entry, next, found, stepped, -⟩ := increment_spec inv settled running
    exact absurd stepped (fun stepped => other entry next found stepped)

end Cursor

/-- `sles` visits the base with the table laid over it, when the table is coherent with
its base. -/
theorem sles_spec {table : RawStateTable K V} {base : SortedMap K V}
    (coherent : table.Coherent base) :
    table.sles base = some (overlay base.entries (changes table.items.entries)) := by
  have erasedInBase : ∀ item ∈ table.items.entries, item.2.1 = .erase →
      item.1 ∈ base.entries.keys := by
    rintro ⟨key, action, sle⟩ member erased
    have recorded := (table.items.mem_entries_iff).mp member
    have present : base.find? key ≠ none := fun absent => by
      have := (coherent key _ recorded).mpr absent
      simp only at erased this
      rw [erased] at this
      cases this
    obtain ⟨value, found⟩ := Option.ne_none_iff_exists'.mp present
    exact List.mem_keys.mpr ⟨value, (base.mem_entries_iff).mpr found⟩
  obtain ⟨cursor, skipped, inv, settled, restEq⟩ := Cursor.skip_spec table.items.entries
    base.entries ⟨table.items.increasing, base.increasing, erasedInBase⟩
  rw [sles, slesBegin, skipped, Option.bind_some, Cursor.walk_spec inv settled, restEq]
  rfl

/-! ## Applying the table -/

/-- What the three raw calls do to a target's map: one key set to one value. -/
theorem find?_setState (target : RawLedger K V) (key : K) (value : Option V) (probe : K) :
    ({ target with stateMap := target.stateMap.alter key fun _ => value } : RawLedger K V).stateMap.find?
        probe = if probe = key then value else target.stateMap.find? probe :=
  SortedMap.find?_alter _ _ _ _

/-- One item, on a target that has the key exactly when the item is not an insertion. -/
theorem applyItem_spec {target : RawLedger K V} {key : K} {item : Action × V}
    (agrees : item.1 = .insert ↔ target.stateMap.find? key = none) :
    ∃ next, applyItem target ⟨key, item⟩ = some next ∧ next.drops = target.drops ∧
      next.dropsVBC = target.dropsVBC ∧
      ∀ probe, next.stateMap.find? probe =
        if probe = key then change item else target.stateMap.find? probe := by
  rcases item with ⟨action, sle⟩
  refine ⟨{ target with stateMap := target.stateMap.alter key fun _ => change (action, sle) }, ?_,
    rfl, rfl, find?_setState target key _⟩
  cases action with
  | erase =>
    have present : (target.stateMap.find? key).isSome = true := by
      simpa [Option.isSome_iff_ne_none] using agrees
    simp [applyItem, RawLedger.rawErase, present]
  | insert =>
    have absent : (target.stateMap.find? key).isSome = false := by simpa using agrees
    simp [applyItem, RawLedger.rawInsert, absent, change]
  | replace =>
    have present : (target.stateMap.find? key).isSome = true := by
      simpa [Option.isSome_iff_ne_none] using agrees
    simp [applyItem, RawLedger.rawReplace, present, change]

/-- The loop of `apply`, by induction on the items: each key is touched once, so each
item finds the target as the base left it. -/
theorem foldlM_applyItem : ∀ {items : List (Σ _ : K, Action × V)}, KeysIncrease items →
    ∀ (target : RawLedger K V),
      (∀ item ∈ items, item.2.1 = .insert ↔ target.stateMap.find? item.1 = none) →
      ∃ final, items.foldlM applyItem target = some final ∧ final.drops = target.drops ∧
        final.dropsVBC = target.dropsVBC ∧
        ∀ probe, final.stateMap.find? probe =
          ((changes items).dlookup probe).getD (target.stateMap.find? probe)
  | [], _, target, _ => ⟨target, rfl, rfl, rfl, fun _ => rfl⟩
  | ⟨key, item⟩ :: items, increase, target, agrees => by
    obtain ⟨next, applied, drops, dropsVBC, found⟩ := applyItem_spec (agrees _ List.mem_cons_self)
    have untouched : ∀ later ∈ items, next.stateMap.find? later.1 = target.stateMap.find? later.1 :=
      fun later member => by rw [found, if_neg (ne_of_gt (increase.lt_of_mem member))]
    obtain ⟨final, rest, dropsFinal, dropsVBCFinal, foundFinal⟩ :=
      foldlM_applyItem increase.of_cons next fun later member => by
        rw [untouched later member]
        exact agrees later (List.mem_cons_of_mem _ member)
    refine ⟨final, ?_, dropsFinal.trans drops, dropsVBCFinal.trans dropsVBC, fun probe => ?_⟩
    · simp only [List.foldlM_cons, applied, Option.bind_eq_bind, Option.bind_some]
      exact rest
    · rw [foundFinal, found, changes_cons]
      by_cases here : probe = key
      · subst here
        have absent : (changes items).dlookup probe = none :=
          dlookup_eq_none_of_lt fun _ member =>
            (changes_increasing increase).lt_of_mem member
        rw [absent, if_pos rfl, List.dlookup_cons_eq]
        rfl
      · rw [if_neg here, dlookup_cons_of_ne here]

/-- `apply` on a target holding the base performs the table: the target then holds the map,
and its coin totals move by the drops the table recorded. -/
theorem apply_spec {table : RawStateTable K V} {base : SortedMap K V}
    (coherent : table.Coherent base) {target : RawLedger K V} (contents : target.stateMap = base) :
    ∃ final, table.apply target = some final ∧
      (∀ key, final.stateMap.find? key = table.view base key) ∧
      final.drops = target.drops + table.dropsCreated - table.dropsDestroyed ∧
      final.dropsVBC = target.dropsVBC + table.dropsVBCCreated := by
  subst contents
  obtain ⟨final, applied, drops, dropsVBC, found⟩ :=
    foldlM_applyItem table.items.increasing
      { target with
        drops := target.drops + table.dropsCreated - table.dropsDestroyed
        dropsVBC := target.dropsVBC + table.dropsVBCCreated }
      fun item member => coherent item.1 item.2 ((table.items.mem_entries_iff).mp member)
  exact ⟨final, applied, fun key => (found key).trans (view_eq_getD table _ key).symm, drops,
    dropsVBC⟩

/-! ## The table over its base is the map -/

/-- What the table's calls say when, over `base`, it stands for `map`: `read` and `exists`
answer from the map, `succ` finds the map's next key, the iteration lists the map in key
order, and `apply` writes the map into a ledger holding the base.  `exists` is asked only of
keylets whose check passes the map's entry under their key. -/
structure Realizes (table : RawStateTable K V) (base : SortedMap K V) (map : K → Option V) :
    Prop where
  read : ∀ k, table.read base k = (map k.key).filter k.check
  «exists» : ∀ k : Keylet K V, (∀ sle, map k.key = some sle → k.check sle = true) →
    table.exists base k = (map k.key).isSome
  succ : ∀ key last, LeastOf (keysBetween map key last) (table.succ base key last)
  sles : ∃ entries, table.sles base = some entries ∧ KeysIncrease entries ∧
    ∀ key sle, (⟨key, sle⟩ : Σ _ : K, V) ∈ entries ↔ map key = some sle
  apply : ∀ target : RawLedger K V, target.stateMap = base →
    ∃ final, table.apply target = some final ∧ (∀ key, final.stateMap.find? key = map key) ∧
      final.drops = target.drops + table.dropsCreated - table.dropsDestroyed ∧
      final.dropsVBC = target.dropsVBC + table.dropsVBCCreated

/-- The iteration lists exactly the map, in key order. -/
theorem sles_realizes {table : RawStateTable K V} {base : SortedMap K V}
    (coherent : table.Coherent base) :
    ∃ entries, table.sles base = some entries ∧ KeysIncrease entries ∧
      ∀ key sle, (⟨key, sle⟩ : Σ _ : K, V) ∈ entries ↔ table.view base key = some sle := by
  have increase := overlay_increasing base.increasing (changes_increasing table.items.increasing)
  refine ⟨_, sles_spec coherent, increase, fun key sle => ?_⟩
  rw [view_eq_dlookup_overlay, mem_iff_dlookup increase]

/-- A coherent table stands for its view. -/
theorem Coherent.realizes {table : RawStateTable K V} {base : SortedMap K V}
    (coherent : table.Coherent base) : table.Realizes base (table.view base) where
  read := read_eq_view table base
  «exists» := exists_eq_view table base
  succ := succ_spec table base
  sles := sles_realizes coherent
  apply := fun _ contents => apply_spec coherent contents

/-- A fresh table that has accepted a sequence of calls over `base` stands for the map the
calls make of the base's. -/
theorem run_realizes_applyAll (base : SortedMap K V) {ops : List (Op K V)}
    (accepted : Op.AllAccepted base.find? ops) :
    ∃ table, (empty : RawStateTable K V).run ops = some table ∧
      table.Realizes base (Op.applyAll base.find? ops) := by
  rw [← view_empty base] at accepted ⊢
  obtain ⟨table, ran, coherent, viewEq⟩ := run_accepted (coherent_empty base) accepted
  exact ⟨table, ran, viewEq ▸ coherent.realizes⟩

/-- A base with one entry. -/
def oneEntry : SortedMap Nat Nat := SortedMap.empty.alter 1 fun _ => some 10

theorem run_realizes_applyAll_oneEntry :
    Op.AllAccepted oneEntry.find? [.erase 1 10, .insert 2 20, .insert 1 11, .createXRP 5] ∧
      ∃ table, (empty : RawStateTable Nat Nat).run
          [.erase 1 10, .insert 2 20, .insert 1 11, .createXRP 5] = some table ∧
        table.Realizes oneEntry
          (Op.applyAll oneEntry.find? [.erase 1 10, .insert 2 20, .insert 1 11, .createXRP 5]) := by
  have accepted : Op.AllAccepted oneEntry.find?
      [.erase 1 10, .insert 2 20, .insert 1 11, .createXRP 5] := by
    simp [Op.AllAccepted, Op.Accepted, Op.applyTo, oneEntry, SortedMap.find?_alter,
      SortedMap.find?_empty]
  exact ⟨accepted, run_realizes_applyAll oneEntry accepted⟩

/-- `exists` does not answer from the map alone: the base answers without the keylet's
check, the table with it.  Both runs below stand for the map holding `0` under `1`. -/
theorem exists_depends_on_holder :
    let k : Keylet Nat Nat := ⟨1, fun _ => false⟩
    let stored : SortedMap Nat Nat := SortedMap.empty.alter 1 fun _ => some 0
    (Op.AllAccepted (SortedMap.empty : SortedMap Nat Nat).find? [.insert 1 0] ∧
        Op.applyAll (SortedMap.empty : SortedMap Nat Nat).find? [.insert 1 0] 1 = some 0 ∧
        ((empty : RawStateTable Nat Nat).run [.insert 1 0]).map
          (fun table => table.exists SortedMap.empty k) = some false) ∧
      (Op.applyAll stored.find? [] 1 = some 0 ∧
        ((empty : RawStateTable Nat Nat).run []).map (fun table => table.exists stored k) =
          some true) := by
  refine ⟨⟨⟨rfl, trivial⟩, ?_, ?_⟩, ?_, ?_⟩
  · simp [Op.applyAll, Op.applyTo]
  · decide
  · decide
  · decide

end RawStateTable

end RadardFormal.Ledger
