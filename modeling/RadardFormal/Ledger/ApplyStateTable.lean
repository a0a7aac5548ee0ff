import RadardFormal.Ledger.RawStateTable
import RadardFormal.Support.Overlay

/-!
# `ApplyStateTable`: the changes an `ApplyView` holds over its base

An `ApplyStateTable` records, for each key a transaction looked at or changed, what was
done to the entry under it: looked at (`cache`, with a copy of the base's entry), erased,
inserted or modified.  It is read through to a base `ReadView` as a `RawStateTable` is, and
`apply` hands the changes to a `RawView`, one call per item that is not a mere `cache`.

The base is modelled as for `RawStateTable`, by its contents in key order.  An entry
pointer the table hands out is the entry it records, so `update` and `erase` name the key of
the entry they are given and `update` gives its new contents.  A `RawView` is any target of
the calls `apply` makes; a `LogicError` is `none`.

`asRaw` reads a table as the `RawStateTable` with the same answers: a looked-at or modified
item is a replacement.  Every answer of the table is then an answer of that table, and all
that is known of `RawStateTable` applies.
-/

set_option autoImplicit false

namespace RadardFormal.Ledger

open RadardFormal.Support

variable {K V : Type} [LinearOrder K]

/-- `ApplyStateTable`: `items_`, the keys looked at or changed with what was done to each,
and the drops destroyed and created. -/
structure ApplyStateTable (K V : Type) [LinearOrder K] where
  items : SortedMap K (Action × V)
  dropsDestroyed : Int
  dropsCreated : Int
  dropsVBCCreated : Int

namespace ApplyStateTable

/-- A table with nothing recorded. -/
def empty : ApplyStateTable K V := ⟨SortedMap.empty, 0, 0, 0⟩

/-- Record `item` under `key`, replacing what was recorded there. -/
def setItem (table : ApplyStateTable K V) (key : K) (item : Action × V) : ApplyStateTable K V :=
  { table with items := table.items.alter key fun _ => some item }

/-- Drop what was recorded under `key`: `items_.erase`. -/
def removeItem (table : ApplyStateTable K V) (key : K) : ApplyStateTable K V :=
  { table with items := table.items.alter key fun _ => none }

/-- `ApplyStateTable::exists`. -/
def «exists» (table : ApplyStateTable K V) (base : SortedMap K V) (k : Keylet K V) : Bool :=
  match table.items.find? k.key with
  | none => ReadView.exists base k
  | some (.erase, _) => false
  | some (_, sle) => k.check sle

/-- `ApplyStateTable::read`. -/
def read (table : ApplyStateTable K V) (base : SortedMap K V) (k : Keylet K V) : Option V :=
  match table.items.find? k.key with
  | none => ReadView.read base k
  | some (.erase, _) => none
  | some (_, sle) => if k.check sle then some sle else none

/-- `ApplyStateTable::peek`: an entry of the base is copied into the table as looked at. -/
def peek (table : ApplyStateTable K V) (base : SortedMap K V) (k : Keylet K V) :
    Option V × ApplyStateTable K V :=
  match table.items.find? k.key with
  | none =>
    match ReadView.read base k with
    | none => (none, table)
    | some sle => (some sle, table.setItem k.key (.cache, sle))
  | some (.erase, _) => (none, table)
  | some (_, sle) => (if k.check sle then some sle else none, table)

/-- `ApplyStateTable::erase` of the entry the table handed out for `key`. -/
def erase (table : ApplyStateTable K V) (key : K) : Option (ApplyStateTable K V) :=
  match table.items.find? key with
  | none => none
  | some (.erase, _) => none
  | some (.insert, _) => some (table.removeItem key)
  | some (_, sle) => some (table.setItem key (.erase, sle))

/-- `ApplyStateTable::rawErase`: unlike `erase`, also of a key the table has not seen. -/
def rawErase (table : ApplyStateTable K V) (key : K) (sle : V) : Option (ApplyStateTable K V) :=
  match table.items.find? key with
  | none => some (table.setItem key (.erase, sle))
  | some (.erase, _) => none
  | some (.insert, _) => some (table.removeItem key)
  | some _ => some (table.setItem key (.erase, sle))

/-- `ApplyStateTable::insert`. -/
def insert (table : ApplyStateTable K V) (key : K) (sle : V) : Option (ApplyStateTable K V) :=
  match table.items.find? key with
  | none => some (table.setItem key (.insert, sle))
  | some (.erase, _) => some (table.setItem key (.modify, sle))
  | some _ => none

/-- `ApplyStateTable::replace`. -/
def replace (table : ApplyStateTable K V) (key : K) (sle : V) : Option (ApplyStateTable K V) :=
  match table.items.find? key with
  | none => some (table.setItem key (.modify, sle))
  | some (.erase, _) => none
  | some (.cache, _) => some (table.setItem key (.modify, sle))
  | some (action, _) => some (table.setItem key (action, sle))

/-- `ApplyStateTable::update` of the entry the table handed out for `key`, whose contents
are now `sle`. -/
def update (table : ApplyStateTable K V) (key : K) (sle : V) : Option (ApplyStateTable K V) :=
  match table.items.find? key with
  | none => none
  | some (.erase, _) => none
  | some (.cache, _) => some (table.setItem key (.modify, sle))
  | some (action, _) => some (table.setItem key (action, sle))

/-- `ApplyStateTable::destroyXRP`. -/
def destroyXRP (table : ApplyStateTable K V) (fee : Int) : ApplyStateTable K V :=
  { table with dropsDestroyed := table.dropsDestroyed + fee }

/-- `ApplyStateTable::createXRP`. -/
def createXRP (table : ApplyStateTable K V) (drops : Int) : ApplyStateTable K V :=
  { table with dropsCreated := table.dropsCreated + drops }

/-- `ApplyStateTable::createVBC`. -/
def createVBC (table : ApplyStateTable K V) (drops : Int) : ApplyStateTable K V :=
  { table with dropsVBCCreated := table.dropsVBCCreated + drops }

/-- The first loop of `ApplyStateTable::succ`: the base's successor of `next`, passing
those the table erased. -/
def succBase (table : ApplyStateTable K V) (base : SortedMap K V) (last : Option K)
    (next : K) : Option K :=
  match _found : ReadView.succ base next last with
  | none => none
  | some key =>
    match table.items.find? key with
    | some (.erase, _) => succBase table base last key
    | _ => some key
termination_by (above base.entries next).length
decreasing_by exact ReadView.length_above_succ_lt _found

/-- The second loop of `ApplyStateTable::succ`: the first key above `key` that the table
did not erase. -/
def succItems (table : ApplyStateTable K V) (key : K) : Option K :=
  ((above table.items.entries key).find? fun item => item.2.1 != .erase).map (·.1)

/-- `ApplyStateTable::succ`: the lower of the two, unless it is at or past `last`. -/
def succ (table : ApplyStateTable K V) (base : SortedMap K V) (key : K) (last : Option K) :
    Option K :=
  RawStateTable.cutAt last (RawStateTable.lower (table.succBase base last key)
    (table.succItems key))

end ApplyStateTable

/-- A `RawView`: the target of `ApplyStateTable::apply`, through the calls it makes. -/
structure RawView (K V σ : Type) where
  rawErase : σ → K → V → Option σ
  rawInsert : σ → K → V → Option σ
  rawReplace : σ → K → V → Option σ
  rawDestroyXRP : σ → Int → σ
  rawCreateXRP : σ → Int → σ
  rawCreateVBC : σ → Int → σ

/-- A ledger as a `RawView`: `Ledger::rawErase`, `rawInsert`, `rawReplace` and the coin
totals. -/
def RawLedger.rawView : RawView K V (RawLedger K V) where
  rawErase target key _ := target.rawErase key
  rawInsert target key sle := target.rawInsert key sle
  rawReplace target key sle := target.rawReplace key sle
  rawDestroyXRP target fee := { target with drops := target.drops - fee }
  rawCreateXRP target drops := { target with drops := target.drops + drops }
  rawCreateVBC target drops := { target with dropsVBC := target.dropsVBC + drops }

/-- One call on a `RawView`. -/
inductive RawCall (K V : Type) where
  | erase (key : K) (sle : V)
  | insert (key : K) (sle : V)
  | replace (key : K) (sle : V)
  | destroyXRP (fee : Int)
  | createXRP (drops : Int)
  | createVBC (drops : Int)

/-- The `RawView` that records the calls made of it, in order. -/
def RawCall.log : RawView K V (List (RawCall K V)) where
  rawErase calls key sle := some (calls ++ [.erase key sle])
  rawInsert calls key sle := some (calls ++ [.insert key sle])
  rawReplace calls key sle := some (calls ++ [.replace key sle])
  rawDestroyXRP calls fee := calls ++ [.destroyXRP fee]
  rawCreateXRP calls drops := calls ++ [.createXRP drops]
  rawCreateVBC calls drops := calls ++ [.createVBC drops]

namespace ApplyStateTable

/-- One step of the loop of `ApplyStateTable::apply`: a `cache` item makes no call. -/
def applyItem {σ : Type} (view : RawView K V σ) (target : σ) :
    (Σ _ : K, Action × V) → Option σ
  | ⟨_, (.cache, _)⟩ => some target
  | ⟨key, (.erase, sle)⟩ => view.rawErase target key sle
  | ⟨key, (.insert, sle)⟩ => view.rawInsert target key sle
  | ⟨key, (.modify, sle)⟩ => view.rawReplace target key sle

/-- `ApplyStateTable::apply (RawView&)`: the coin totals, then every item in key order. -/
def apply {σ : Type} (table : ApplyStateTable K V) (view : RawView K V σ) (target : σ) :
    Option σ :=
  table.items.entries.foldlM (applyItem view)
    (view.rawDestroyXRP (view.rawCreateVBC (view.rawCreateXRP target table.dropsCreated)
      table.dropsVBCCreated) table.dropsDestroyed)

/-- A call on the table, with the entry it is given. -/
inductive Op (K V : Type) where
  | peek (k : Keylet K V)
  | insert (key : K) (sle : V)
  | replace (key : K) (sle : V)
  | update (key : K) (sle : V)
  | erase (key : K)
  | rawErase (key : K) (sle : V)
  | destroyXRP (fee : Int)
  | createXRP (drops : Int)
  | createVBC (drops : Int)

/-- Make one call over `base`; `none` is a `LogicError`. -/
def step (base : SortedMap K V) (table : ApplyStateTable K V) : Op K V → Option (ApplyStateTable K V)
  | .peek k => some (table.peek base k).2
  | .insert key sle => table.insert key sle
  | .replace key sle => table.replace key sle
  | .update key sle => table.update key sle
  | .erase key => table.erase key
  | .rawErase key sle => table.rawErase key sle
  | .destroyXRP fee => some (table.destroyXRP fee)
  | .createXRP drops => some (table.createXRP drops)
  | .createVBC drops => some (table.createVBC drops)

/-- Make the calls in order. -/
def run (base : SortedMap K V) (table : ApplyStateTable K V) (ops : List (Op K V)) :
    Option (ApplyStateTable K V) :=
  ops.foldlM (step base) table

end ApplyStateTable

namespace ApplyStateTable

/-! ## What a table stands for -/

/-- The map the table and its base stand for: the table's entry where it recorded one, the
base's elsewhere. -/
def view (table : ApplyStateTable K V) (base : SortedMap K V) (key : K) : Option V :=
  match table.items.find? key with
  | none => base.find? key
  | some (.erase, _) => none
  | some (_, sle) => some sle

/-- What an item says of the base at its key: a looked-at entry is the base's, an inserted
key is new to the base, an erased or modified one is in it. -/
def Agrees (base : SortedMap K V) (key : K) : Action × V → Prop
  | (.cache, sle) => base.find? key = some sle
  | (.insert, _) => base.find? key = none
  | _ => base.find? key ≠ none

/-- What an item says of the base depends only on the base's entry at its key. -/
theorem Agrees.congr {base base' : SortedMap K V} {key : K} {item : Action × V}
    (agrees : Agrees base key item) (same : base'.find? key = base.find? key) :
    Agrees base' key item := by
  rcases item with ⟨_ | _ | _ | _, sle⟩ <;> simpa [Agrees, same] using agrees

/-- The table agrees with its base at every key it recorded. -/
def Coherent (table : ApplyStateTable K V) (base : SortedMap K V) : Prop :=
  ∀ key item, table.items.find? key = some item → Agrees base key item

/-- The action a `RawStateTable` records for the same answers: a looked-at or modified item
is a replacement. -/
def rawAction : Action → RawStateTable.Action
  | .cache => .replace
  | .erase => .erase
  | .insert => .insert
  | .modify => .replace

/-- The table as a `RawStateTable`. -/
def asRaw (table : ApplyStateTable K V) : RawStateTable K V :=
  ⟨table.items.mapValues fun item => (rawAction item.1, item.2), table.dropsDestroyed,
    table.dropsCreated, table.dropsVBCCreated⟩

section asRaw

variable (table : ApplyStateTable K V) (base : SortedMap K V)

@[simp] theorem find?_asRaw (key : K) :
    (asRaw table).items.find? key =
      (table.items.find? key).map fun item => (rawAction item.1, item.2) :=
  SortedMap.find?_mapValues _ _ key

theorem read_asRaw (k : Keylet K V) : (asRaw table).read base k = table.read base k := by
  unfold read RawStateTable.read
  rw [find?_asRaw]
  rcases table.items.find? k.key with _ | ⟨_ | _ | _ | _, sle⟩ <;> rfl

theorem exists_asRaw (k : Keylet K V) : (asRaw table).exists base k = table.exists base k := by
  unfold «exists» RawStateTable.exists
  rw [find?_asRaw]
  rcases table.items.find? k.key with _ | ⟨_ | _ | _ | _, sle⟩ <;> rfl

theorem view_asRaw : (asRaw table).view base = table.view base := by
  funext key
  unfold view RawStateTable.view
  rw [find?_asRaw]
  rcases table.items.find? key with _ | ⟨_ | _ | _ | _, sle⟩ <;> rfl

/-- Both loops over the base pass the same erased keys. -/
theorem succBase_asRaw (last : Option K) (next : K) :
    (asRaw table).succBase base last next = table.succBase base last next := by
  fun_induction table.succBase base last next with
  | case1 next none =>
    rw [RawStateTable.succBase]
    split
    · rfl
    · simp_all
  | case2 next key found sle erased same =>
    rw [RawStateTable.succBase]
    split
    · simp_all
    · rename_i key' found'
      obtain rfl : key' = key := Option.some.inj (found'.symm.trans found)
      simp [erased, rawAction, same]
  | case3 next key found other =>
    rw [RawStateTable.succBase]
    split
    · simp_all
    · rename_i key' found'
      obtain rfl : key' = key := Option.some.inj (found'.symm.trans found)
      rw [find?_asRaw]
      rcases recorded : table.items.find? key' with _ | ⟨_ | _ | _ | _, sle⟩
      case some.erase => exact (other sle recorded).elim
      all_goals rfl

/-- Both loops over the items find the same key: an item is erased in one table exactly when
it is in the other. -/
theorem succItems_asRaw (key : K) : (asRaw table).succItems key = table.succItems key := by
  unfold succItems RawStateTable.succItems
  simp only [asRaw, SortedMap.mapValues, above, List.dropWhile_map, List.find?_map,
    Option.map_map]
  -- The translation keeps keys, and is an erasure exactly on erasures.
  have keys : ((fun entry : Σ _ : K, RawStateTable.Action × V => decide (entry.fst ≤ key)) ∘
      Sigma.map id fun _ (item : Action × V) => (rawAction item.1, item.2)) =
      fun entry => decide (entry.fst ≤ key) := rfl
  have first : ((fun entry : Σ _ : K, RawStateTable.Action × V => entry.fst) ∘
      Sigma.map id fun _ (item : Action × V) => (rawAction item.1, item.2)) =
      fun entry => entry.fst := rfl
  have kept : ((fun item : Σ _ : K, RawStateTable.Action × V => item.snd.1 != .erase) ∘
      Sigma.map id fun _ (item : Action × V) => (rawAction item.1, item.2)) =
      fun item => item.snd.1 != Action.erase := by
    funext ⟨_, action, _⟩
    cases action <;> rfl
  rw [keys, first, kept]

theorem succ_asRaw (key : K) (last : Option K) :
    (asRaw table).succ base key last = table.succ base key last := by
  unfold succ RawStateTable.succ
  rw [succBase_asRaw, succItems_asRaw]

theorem Coherent.asRaw {table : ApplyStateTable K V} {base : SortedMap K V}
    (coherent : table.Coherent base) : (ApplyStateTable.asRaw table).Coherent base := by
  intro key item recorded
  rw [find?_asRaw] at recorded
  obtain ⟨⟨action, sle⟩, found, rfl⟩ := Option.map_eq_some_iff.mp recorded
  have agrees := coherent key _ found
  cases action <;> simp_all [Agrees, rawAction]

end asRaw

end ApplyStateTable

namespace ApplyStateTable.Op

/-- What a call does to the map the table stands for. -/
def applyTo (map : K → Option V) : Op K V → K → Option V
  | .insert key sle => Function.update map key (some sle)
  | .replace key sle => Function.update map key (some sle)
  | .update key sle => Function.update map key (some sle)
  | .erase key => Function.update map key none
  | .rawErase key _ => Function.update map key none
  | _ => map

/-- A call that fits the map: an insertion of a key it lacks, a replacement or raw erasure
of one it has.  The table itself refuses an update or erasure of a key it did not hand out. -/
def Respects (map : K → Option V) : Op K V → Prop
  | .insert key _ => map key = none
  | .replace key _ => map key ≠ none
  | .rawErase key _ => map key ≠ none
  | _ => True

/-- A sequence of calls, each fitting the map the calls before it leave. -/
def AllRespect (map : K → Option V) : List (Op K V) → Prop
  | [] => True
  | op :: ops => Respects map op ∧ AllRespect (applyTo map op) ops

/-- The map a sequence of calls leaves. -/
def applyAll (map : K → Option V) (ops : List (Op K V)) : K → Option V :=
  ops.foldl applyTo map

/-- The key a call writes under: an insertion, replacement, update or erasure. -/
def writes : Op K V → Option K
  | .insert key _ => some key
  | .replace key _ => some key
  | .update key _ => some key
  | .erase key => some key
  | .rawErase key _ => some key
  | _ => none

/-- The key a call stores an entry under: an insertion, replacement or update. -/
def stores : Op K V → Option K
  | .insert key _ => some key
  | .replace key _ => some key
  | .update key _ => some key
  | _ => none

end ApplyStateTable.Op

namespace ApplyStateTable

/-- What an item leaves under its key. -/
def itemValue : Action × V → Option V
  | (.erase, _) => none
  | (_, sle) => some sle

section items

variable (table : ApplyStateTable K V) (base : SortedMap K V)

theorem find?_setItem (key : K) (item : Action × V) (probe : K) :
    (table.setItem key item).items.find? probe =
      if probe = key then some item else table.items.find? probe := by
  simp [setItem, SortedMap.find?_alter]

theorem find?_removeItem (key probe : K) :
    (table.removeItem key).items.find? probe =
      if probe = key then none else table.items.find? probe := by
  simp [removeItem, SortedMap.find?_alter]

theorem view_eq (key : K) :
    table.view base key = ((table.items.find? key).map itemValue).getD (base.find? key) := by
  unfold view
  rcases table.items.find? key with _ | ⟨_ | _ | _ | _, sle⟩ <;> rfl

theorem view_setItem (key : K) (item : Action × V) :
    (table.setItem key item).view base = Function.update (table.view base) key (itemValue item) := by
  funext probe
  by_cases same : probe = key
  · subst same
    simp [view_eq, find?_setItem]
  · simp [view_eq, find?_setItem, same]

theorem view_removeItem (key : K) :
    (table.removeItem key).view base = Function.update (table.view base) key (base.find? key) := by
  funext probe
  by_cases same : probe = key
  · subst same
    simp [view_eq, find?_removeItem]
  · simp [view_eq, find?_removeItem, same]

end items

namespace Coherent

variable {table : ApplyStateTable K V} {base : SortedMap K V}

theorem setItem (coherent : table.Coherent base) {key : K} {item : Action × V}
    (agrees : Agrees base key item) : (table.setItem key item).Coherent base := by
  intro probe recorded found
  rw [find?_setItem] at found
  split_ifs at found with same
  · cases found
    exact same ▸ agrees
  · exact coherent probe recorded found

theorem removeItem (coherent : table.Coherent base) (key : K) :
    (table.removeItem key).Coherent base := by
  intro probe recorded found
  rw [find?_removeItem] at found
  split_ifs at found
  exact coherent probe recorded found

end Coherent

end ApplyStateTable

namespace ApplyStateTable

/-! ## One call at a time -/

/-- What `next`, after the calls `ops`, records that `table` did not: only looked-at
entries, or items under keys the calls write, modifications only under keys they store. -/
structure Tracks (table next : ApplyStateTable K V) (ops : List (Op K V)) : Prop where
  written : ∀ key item, next.items.find? key = some item → item.1 ≠ .cache →
    table.items.find? key = some item ∨ ∃ op ∈ ops, op.writes = some key
  stored : ∀ key sle, next.items.find? key = some (.modify, sle) →
    (∃ sle', table.items.find? key = some (.modify, sle')) ∨ ∃ op ∈ ops, op.stores = some key

namespace Tracks

variable {table : ApplyStateTable K V} {ops : List (Op K V)}

theorem of_items {next : ApplyStateTable K V} (same : next.items = table.items) :
    Tracks table next ops :=
  ⟨fun _ _ found _ => .inl (by rwa [same] at found),
    fun _ sle found => .inl ⟨sle, by rwa [same] at found⟩⟩

theorem setItem {key : K} {item : Action × V} (writes : ∃ op ∈ ops, op.writes = some key)
    (stores : item.1 = .modify → ∃ op ∈ ops, op.stores = some key) :
    Tracks table (table.setItem key item) ops := by
  constructor
  · intro probe recorded found _
    rw [find?_setItem] at found
    split_ifs at found with same
    · exact .inr (same ▸ writes)
    · exact .inl found
  · intro probe sle found
    rw [find?_setItem] at found
    split_ifs at found with same
    · cases found
      exact .inr (same ▸ stores rfl)
    · exact .inl ⟨sle, found⟩

theorem removeItem (key : K) : Tracks table (table.removeItem key) ops := by
  constructor
  · intro probe recorded found _
    rw [find?_removeItem] at found
    split_ifs at found
    exact .inl found
  · intro probe sle found
    rw [find?_removeItem] at found
    split_ifs at found
    exact .inl ⟨sle, found⟩

/-- One call that writes an item under its key. -/
theorem setItem_single {op : Op K V} {key : K} {item : Action × V} (writes : op.writes = some key)
    (stores : item.1 = .modify → op.stores = some key) :
    Tracks table (table.setItem key item) [op] :=
  setItem ⟨op, List.mem_singleton_self op, writes⟩
    fun modified => ⟨op, List.mem_singleton_self op, stores modified⟩

/-- A looked-at entry is no change. -/
theorem cache (key : K) (sle : V) : Tracks table (table.setItem key (.cache, sle)) ops := by
  constructor
  · intro probe recorded found notCache
    rw [find?_setItem] at found
    split_ifs at found with same
    · cases found
      exact absurd rfl notCache
    · exact .inl found
  · intro probe sle' found
    rw [find?_setItem] at found
    split_ifs at found
    · simp at found
    · exact .inl ⟨sle', found⟩

/-- Calls made one after the other. -/
theorem trans {middle next : ApplyStateTable K V} {ops' : List (Op K V)}
    (first : Tracks table middle ops) (second : Tracks middle next ops') :
    Tracks table next (ops ++ ops') := by
  constructor
  · intro key item found notCache
    rcases second.written key item found notCache with earlier | ⟨op, member, writes⟩
    · rcases first.written key item earlier notCache with kept | ⟨op, member, writes⟩
      · exact .inl kept
      · exact .inr ⟨op, List.mem_append_left _ member, writes⟩
    · exact .inr ⟨op, List.mem_append_right _ member, writes⟩
  · intro key sle found
    rcases second.stored key sle found with ⟨sle', earlier⟩ | ⟨op, member, stores⟩
    · rcases first.stored key sle' earlier with kept | ⟨op, member, stores⟩
      · exact .inl kept
      · exact .inr ⟨op, List.mem_append_left _ member, stores⟩
    · exact .inr ⟨op, List.mem_append_right _ member, stores⟩

end Tracks

section step

variable {table : ApplyStateTable K V} {base : SortedMap K V}

/-- The map is the base where the table recorded nothing. -/
theorem view_of_none {key : K} (unrecorded : table.items.find? key = none) :
    table.view base key = base.find? key := by
  simp [view, unrecorded]

/-- One call the table takes, fitting the map: the table stays coherent, stands for the map
the call leaves, and records no more than the call says. -/
theorem step_spec (coherent : table.Coherent base) {op : Op K V} {next : ApplyStateTable K V}
    (stepped : step base table op = some next) (respects : op.Respects (table.view base)) :
    next.Coherent base ∧ next.view base = op.applyTo (table.view base) ∧
      Tracks table next [op] := by
  cases op with
  | peek k =>
    simp only [step, Option.some.injEq] at stepped
    subst stepped
    unfold peek
    rcases recorded : table.items.find? k.key with _ | ⟨action, sle⟩
    · rcases found : ReadView.read base k with _ | sle
      · exact ⟨coherent, rfl, Tracks.of_items rfl⟩
      · -- A looked-at entry copies the base's, which the map already has.
        have inBase : base.find? k.key = some sle := (Option.filter_eq_some_iff.mp found).1
        refine ⟨coherent.setItem inBase, ?_, Tracks.cache _ _⟩
        rw [view_setItem]
        exact Function.update_eq_self_iff.mpr (by rw [view_of_none recorded, inBase]; rfl)
    · cases action <;> exact ⟨coherent, rfl, Tracks.of_items rfl⟩
  | insert key sle =>
    simp only [Op.Respects] at respects
    simp only [step, insert] at stepped
    rcases recorded : table.items.find? key with _ | ⟨_ | _ | _ | _, old⟩ <;>
      simp only [recorded, Option.some.injEq, reduceCtorEq] at stepped
    · subst stepped
      refine ⟨coherent.setItem ?_, by rw [view_setItem]; rfl, Tracks.setItem_single rfl nofun⟩
      rwa [view_of_none recorded] at respects
    · subst stepped
      exact ⟨coherent.setItem (coherent key _ recorded :), by rw [view_setItem]; rfl,
        Tracks.setItem_single rfl fun _ => rfl⟩
  | replace key sle =>
    simp only [Op.Respects] at respects
    simp only [step, replace] at stepped
    rcases recorded : table.items.find? key with _ | ⟨_ | _ | _ | _, old⟩ <;>
      simp only [recorded, Option.some.injEq, reduceCtorEq] at stepped <;> subst stepped
    · refine ⟨coherent.setItem ?_, by rw [view_setItem]; rfl,
        Tracks.setItem_single rfl fun _ => rfl⟩
      rwa [view_of_none recorded] at respects
    · have inBase : base.find? key = some old := coherent key _ recorded
      exact ⟨coherent.setItem (by simp [Agrees, inBase]), by rw [view_setItem]; rfl,
        Tracks.setItem_single rfl fun _ => rfl⟩
    · exact ⟨coherent.setItem (coherent key _ recorded :), by rw [view_setItem]; rfl,
        Tracks.setItem_single rfl nofun⟩
    · exact ⟨coherent.setItem (coherent key _ recorded :), by rw [view_setItem]; rfl,
        Tracks.setItem_single rfl fun _ => rfl⟩
  | update key sle =>
    simp only [step, update] at stepped
    rcases recorded : table.items.find? key with _ | ⟨_ | _ | _ | _, old⟩ <;>
      simp only [recorded, Option.some.injEq, reduceCtorEq] at stepped <;> subst stepped
    · have inBase : base.find? key = some old := coherent key _ recorded
      exact ⟨coherent.setItem (by simp [Agrees, inBase]), by rw [view_setItem]; rfl,
        Tracks.setItem_single rfl fun _ => rfl⟩
    · exact ⟨coherent.setItem (coherent key _ recorded :), by rw [view_setItem]; rfl,
        Tracks.setItem_single rfl nofun⟩
    · exact ⟨coherent.setItem (coherent key _ recorded :), by rw [view_setItem]; rfl,
        Tracks.setItem_single rfl fun _ => rfl⟩
  | erase key =>
    simp only [step, erase] at stepped
    rcases recorded : table.items.find? key with _ | ⟨_ | _ | _ | _, old⟩ <;>
      simp only [recorded, Option.some.injEq, reduceCtorEq] at stepped <;> subst stepped
    · have inBase : base.find? key = some old := coherent key _ recorded
      exact ⟨coherent.setItem (by simp [Agrees, inBase]), by rw [view_setItem]; rfl,
        Tracks.setItem_single rfl nofun⟩
    · -- Erasing what the table inserted leaves the base, which lacks the key.
      have absent : base.find? key = none := coherent key _ recorded
      exact ⟨coherent.removeItem key, by rw [view_removeItem, absent]; rfl,
        Tracks.removeItem key⟩
    · exact ⟨coherent.setItem (coherent key _ recorded :), by rw [view_setItem]; rfl,
        Tracks.setItem_single rfl nofun⟩
  | rawErase key sle =>
    simp only [Op.Respects] at respects
    simp only [step, rawErase] at stepped
    rcases recorded : table.items.find? key with _ | ⟨_ | _ | _ | _, old⟩ <;>
      simp only [recorded, Option.some.injEq, reduceCtorEq] at stepped <;> subst stepped
    · refine ⟨coherent.setItem ?_, by rw [view_setItem]; rfl, Tracks.setItem_single rfl nofun⟩
      rwa [view_of_none recorded] at respects
    · have inBase : base.find? key = some old := coherent key _ recorded
      exact ⟨coherent.setItem (by simp [Agrees, inBase]), by rw [view_setItem]; rfl,
        Tracks.setItem_single rfl nofun⟩
    · have absent : base.find? key = none := coherent key _ recorded
      exact ⟨coherent.removeItem key, by rw [view_removeItem, absent]; rfl,
        Tracks.removeItem key⟩
    · exact ⟨coherent.setItem (coherent key _ recorded :), by rw [view_setItem]; rfl,
        Tracks.setItem_single rfl nofun⟩
  | destroyXRP fee =>
    simp only [step, Option.some.injEq] at stepped
    subst stepped
    exact ⟨coherent, rfl, Tracks.of_items rfl⟩
  | createXRP drops =>
    simp only [step, Option.some.injEq] at stepped
    subst stepped
    exact ⟨coherent, rfl, Tracks.of_items rfl⟩
  | createVBC drops =>
    simp only [step, Option.some.injEq] at stepped
    subst stepped
    exact ⟨coherent, rfl, Tracks.of_items rfl⟩

end step

end ApplyStateTable

namespace ApplyStateTable

/-! ## A run of calls -/

section run

variable {base : SortedMap K V}

/-- A run of calls the table takes, each fitting the map: the table stays coherent, stands
for the map the calls leave, and records no more than the calls say; by induction on the
calls, with `step_spec` at each. -/
theorem run_spec : ∀ {table : ApplyStateTable K V} {ops : List (Op K V)}
    {final : ApplyStateTable K V}, table.Coherent base → run base table ops = some final →
    Op.AllRespect (table.view base) ops →
    final.Coherent base ∧ final.view base = Op.applyAll (table.view base) ops ∧
      Tracks table final ops
  | table, [], final, coherent, ran, _ => by
    cases ran
    exact ⟨coherent, rfl, Tracks.of_items rfl⟩
  | table, op :: ops, final, coherent, ran, ⟨respects, rest⟩ => by
    obtain ⟨next, stepped, ran⟩ : ∃ next, step base table op = some next ∧
        run base next ops = some final := by
      simpa [run, List.foldlM_cons, Option.bind_eq_some_iff] using ran
    obtain ⟨coherentNext, viewNext, tracksNext⟩ := step_spec coherent stepped respects
    rw [← viewNext] at rest
    obtain ⟨coherentFinal, viewFinal, tracksFinal⟩ := run_spec coherentNext ran rest
    refine ⟨coherentFinal, by rw [viewFinal, viewNext]; rfl, ?_⟩
    simpa using tracksNext.trans tracksFinal

theorem coherent_empty (base : SortedMap K V) : (empty : ApplyStateTable K V).Coherent base :=
  fun _ _ found => by simp [empty] at found

theorem view_empty (base : SortedMap K V) : (empty : ApplyStateTable K V).view base = base.find? :=
  funext fun key => view_of_none (by simp [empty])

end run

end ApplyStateTable

/-- The key a call on a `RawView` is about. -/
def RawCall.key? : RawCall K V → Option K
  | .erase key _ => some key
  | .insert key _ => some key
  | .replace key _ => some key
  | _ => none

namespace ApplyStateTable

/-! ## Reading and applying -/

section answers

variable (table : ApplyStateTable K V) (base : SortedMap K V)

/-- `peek` answers as `read` does. -/
theorem peek_fst (k : Keylet K V) : (table.peek base k).1 = table.read base k := by
  unfold peek read
  rcases table.items.find? k.key with _ | ⟨_ | _ | _ | _, sle⟩
  · rcases ReadView.read base k with _ | sle <;> rfl
  all_goals rfl

/-- The call an item makes of a `RawView`: none for a looked-at entry. -/
def callOf : (Σ _ : K, Action × V) → Option (RawCall K V)
  | ⟨_, (.cache, _)⟩ => none
  | ⟨key, (.erase, sle)⟩ => some (.erase key sle)
  | ⟨key, (.insert, sle)⟩ => some (.insert key sle)
  | ⟨key, (.modify, sle)⟩ => some (.replace key sle)

omit [LinearOrder K] in
/-- On the recording `RawView`, the loop of `apply` makes each item's call in turn. -/
theorem foldlM_log : ∀ (items : List (Σ _ : K, Action × V)) (calls : List (RawCall K V)),
    items.foldlM (applyItem RawCall.log) calls = some (calls ++ items.filterMap callOf)
  | [], calls => by simp
  | ⟨key, (action, sle)⟩ :: items, calls => by
    have made : applyItem RawCall.log calls ⟨key, (action, sle)⟩ =
        some (calls ++ (callOf ⟨key, (action, sle)⟩).toList) := by
      cases action <;> simp [applyItem, callOf, RawCall.log]
    rw [List.foldlM_cons, made, Option.bind_eq_bind, Option.bind_some, foldlM_log items]
    cases action <;> simp [callOf, List.filterMap_cons]

/-- The calls `apply` makes: the coin totals, then one call per item that is not a mere
`cache`, in key order. -/
theorem apply_log : table.apply RawCall.log [] =
    some ([.createXRP table.dropsCreated, .createVBC table.dropsVBCCreated,
      .destroyXRP table.dropsDestroyed] ++ table.items.entries.filterMap callOf) := by
  rw [apply, foldlM_log]
  rfl

end answers

/-- One item on a ledger: a looked-at entry changes nothing, any other is the
`RawStateTable` item of its action. -/
theorem applyItem_rawView {target : RawLedger K V} {key : K} {action : Action} {sle : V}
    (notCache : action ≠ .cache) :
    applyItem RawLedger.rawView target ⟨key, (action, sle)⟩ =
      RawStateTable.applyItem target ⟨key, (rawAction action, sle)⟩ := by
  cases action
  · exact absurd rfl notCache
  all_goals rfl

/-- The loop of `apply` on a ledger, by induction on the items: each key is touched once, so
each item finds the ledger as the base left it. -/
theorem foldlM_applyItem : ∀ {items : List (Σ _ : K, Action × V)}, KeysIncrease items →
    ∀ (target : RawLedger K V), (∀ item ∈ items, Agrees target.stateMap item.1 item.2) →
      ∃ final, items.foldlM (applyItem RawLedger.rawView) target = some final ∧
        final.drops = target.drops ∧ final.dropsVBC = target.dropsVBC ∧
        ∀ probe, final.stateMap.find? probe =
          ((items.dlookup probe).map itemValue).getD (target.stateMap.find? probe)
  | [], _, target, _ => ⟨target, rfl, rfl, rfl, fun _ => rfl⟩
  | ⟨key, (action, sle)⟩ :: items, increase, target, agrees => by
    have fresh : items.dlookup key = none :=
      dlookup_eq_none_of_lt fun _ member => increase.lt_of_mem member
    have here := agrees _ List.mem_cons_self
    by_cases looked : action = .cache
    · -- A looked-at entry: the ledger already holds it.
      subst looked
      obtain ⟨final, rest, drops, dropsVBC, found⟩ := foldlM_applyItem increase.of_cons target
        fun later member => agrees later (List.mem_cons_of_mem _ member)
      refine ⟨final, by simpa [applyItem] using rest, drops, dropsVBC, fun probe => ?_⟩
      by_cases same : probe = key
      · subst same
        rw [found, fresh, List.dlookup_cons_eq]
        exact here
      · rw [found, dlookup_cons_of_ne same]
    · have agreesRaw : rawAction action = .insert ↔ target.stateMap.find? key = none := by
        cases action <;> simp_all [Agrees, rawAction]
      obtain ⟨next, applied, drops, dropsVBC, changed⟩ :=
        @RawStateTable.applyItem_spec K V _ target key (rawAction action, sle) agreesRaw
      have untouched : ∀ later ∈ items,
          next.stateMap.find? later.1 = target.stateMap.find? later.1 :=
        fun later member => by rw [changed, if_neg (ne_of_gt (increase.lt_of_mem member))]
      obtain ⟨final, rest, dropsFinal, dropsVBCFinal, found⟩ :=
        foldlM_applyItem increase.of_cons next fun later member =>
          (agrees later (List.mem_cons_of_mem _ member)).congr (untouched later member)
      refine ⟨final, ?_, dropsFinal.trans drops, dropsVBCFinal.trans dropsVBC, fun probe => ?_⟩
      · simp only [List.foldlM_cons, applyItem_rawView looked, applied, Option.bind_eq_bind,
          Option.bind_some]
        exact rest
      · rw [found, changed]
        by_cases same : probe = key
        · subst same
          rw [fresh, if_pos rfl, List.dlookup_cons_eq]
          cases action <;> first | exact absurd rfl looked | rfl
        · rw [if_neg same, dlookup_cons_of_ne same]

section answers

variable {table : ApplyStateTable K V} {base : SortedMap K V}

/-- `apply` on a ledger holding the base writes the map into it, and moves its coin totals
by the drops the table recorded. -/
theorem apply_spec (coherent : table.Coherent base) {target : RawLedger K V}
    (contents : target.stateMap = base) :
    ∃ final, table.apply RawLedger.rawView target = some final ∧
      (∀ key, final.stateMap.find? key = table.view base key) ∧
      final.drops = target.drops + table.dropsCreated - table.dropsDestroyed ∧
      final.dropsVBC = target.dropsVBC + table.dropsVBCCreated := by
  subst contents
  obtain ⟨final, applied, drops, dropsVBC, found⟩ :=
    foldlM_applyItem table.items.increasing
      { target with
        drops := target.drops + table.dropsCreated - table.dropsDestroyed
        dropsVBC := target.dropsVBC + table.dropsVBCCreated }
      fun item member => coherent item.1 item.2 ((table.items.mem_entries_iff).mp member)
  exact ⟨final, applied, fun key => (found key).trans (view_eq table _ key).symm, drops, dropsVBC⟩

end answers

end ApplyStateTable

namespace ApplyStateTable

/-! ## The table over its base is the map -/

/-- What the table's calls say when, over `base`, it stands for `map`: `read`, `exists` and
`peek` answer from the map and `peek` leaves it as it is, `succ` finds the map's next key,
and `apply` writes the map into a ledger holding the base.  `exists` is asked only of
keylets whose check passes the map's entry under their key. -/
structure Realizes (table : ApplyStateTable K V) (base : SortedMap K V) (map : K → Option V) :
    Prop where
  read : ∀ k, table.read base k = (map k.key).filter k.check
  «exists» : ∀ k : Keylet K V, (∀ sle, map k.key = some sle → k.check sle = true) →
    table.exists base k = (map k.key).isSome
  peek : ∀ k, (table.peek base k).1 = (map k.key).filter k.check ∧
    (table.peek base k).2.view base = map
  succ : ∀ key last, LeastOf (keysBetween map key last) (table.succ base key last)
  apply : ∀ target : RawLedger K V, target.stateMap = base →
    ∃ final, table.apply RawLedger.rawView target = some final ∧
      (∀ key, final.stateMap.find? key = map key) ∧
      final.drops = target.drops + table.dropsCreated - table.dropsDestroyed ∧
      final.dropsVBC = target.dropsVBC + table.dropsVBCCreated

/-- A coherent table stands for its view: through `asRaw`, every answer is one of a
`RawStateTable`. -/
theorem Coherent.realizes {table : ApplyStateTable K V} {base : SortedMap K V}
    (coherent : table.Coherent base) : table.Realizes base (table.view base) where
  read k := by
    rw [← read_asRaw, ← view_asRaw]
    exact RawStateTable.read_eq_view _ base k
  «exists» k typed := by
    rw [← view_asRaw] at typed ⊢
    rw [← exists_asRaw]
    exact RawStateTable.exists_eq_view _ base k typed
  peek k := by
    refine ⟨?_, (step_spec coherent
      (rfl : step base table (.peek k) = some (table.peek base k).2) trivial).2.1⟩
    rw [peek_fst, ← read_asRaw, ← view_asRaw]
    exact RawStateTable.read_eq_view _ base k
  succ key last := by
    rw [← succ_asRaw, ← view_asRaw]
    exact RawStateTable.succ_spec _ base key last
  apply _ contents := apply_spec coherent contents

/-- A fresh table that has taken a sequence of calls over `base`, each fitting the map the
calls before it leave, stands for the map the calls make of the base; and `apply` calls a
`RawView` only for keys some call wrote, with a `rawReplace` only of a key some call
inserted, replaced or updated and of the map's entry there. -/
theorem applyStateTable_run_realizes (base : SortedMap K V) {ops : List (Op K V)}
    {table : ApplyStateTable K V} (ran : run base empty ops = some table)
    (respects : Op.AllRespect base.find? ops) :
    table.Realizes base (Op.applyAll base.find? ops) ∧
      ∃ calls, table.apply RawCall.log [] = some calls ∧
        (∀ call ∈ calls, ∀ key, call.key? = some key → ∃ op ∈ ops, op.writes = some key) ∧
        (∀ key sle, RawCall.replace key sle ∈ calls →
          Op.applyAll base.find? ops key = some sle ∧ ∃ op ∈ ops, op.stores = some key) := by
  rw [← view_empty base] at respects ⊢
  obtain ⟨coherent, viewFinal, tracks⟩ := run_spec (coherent_empty base) ran respects
  rw [← viewFinal]
  refine ⟨coherent.realizes, _, apply_log table, fun call member key about => ?_,
    fun key sle member => ?_⟩
  · -- A call is about the key of an item that is not a mere `cache`.
    simp only [List.mem_append, List.mem_cons, List.not_mem_nil, or_false,
      List.mem_filterMap] at member
    rcases member with (rfl | rfl | rfl) | ⟨⟨probe, action, sle⟩, item, made⟩
    · cases about
    · cases about
    · cases about
    have found := (table.items.mem_entries_iff).mp item
    have notCache : action ≠ .cache := by rintro rfl; cases made
    have sameKey : probe = key := by
      cases action <;> cases made <;> simpa [RawCall.key?] using about
    subst sameKey
    rcases tracks.written probe _ found notCache with before | written
    · simp [empty] at before
    · exact written
  · simp only [List.mem_append, List.mem_cons, List.not_mem_nil, or_false,
      List.mem_filterMap] at member
    rcases member with (made | made | made) | ⟨⟨probe, action, stored⟩, item, made⟩
    · cases made
    · cases made
    · cases made
    have found := (table.items.mem_entries_iff).mp item
    obtain ⟨rfl, rfl, rfl⟩ : action = .modify ∧ probe = key ∧ stored = sle := by
      cases action <;> cases made
      exact ⟨rfl, rfl, rfl⟩
    refine ⟨by simp [view, found], ?_⟩
    rcases tracks.stored probe stored found with ⟨_, before⟩ | storedBy
    · simp [empty] at before
    · exact storedBy

end ApplyStateTable

namespace ApplyStateTable

/-- A peek at key 1, its update, and an insertion at key 2 over a base holding key 1. -/
def peekUpdateInsert : List (Op Nat Nat) :=
  [.peek ⟨1, fun _ => true⟩, .update 1 7, .insert 2 9]

/-- The base of `peekUpdateInsert`: key 1 holds 5. -/
def baseOne : SortedMap Nat Nat := (SortedMap.empty.alter 1 fun _ => some 5)

theorem applyStateTable_run_realizes_peekUpdateInsert :
    ∃ table, run baseOne empty peekUpdateInsert = some table ∧
      Op.AllRespect baseOne.find? peekUpdateInsert ∧
      table.Realizes baseOne (Op.applyAll baseOne.find? peekUpdateInsert) ∧
      ∃ calls, table.apply RawCall.log [] = some calls ∧
        (∀ call ∈ calls, ∀ key, call.key? = some key →
          ∃ op ∈ peekUpdateInsert, op.writes = some key) ∧
        (∀ key sle, RawCall.replace key sle ∈ calls →
          Op.applyAll baseOne.find? peekUpdateInsert key = some sle ∧
            ∃ op ∈ peekUpdateInsert, op.stores = some key) := by
  have respects : Op.AllRespect baseOne.find? peekUpdateInsert := ⟨trivial, trivial, rfl, trivial⟩
  obtain ⟨table, ran⟩ : ∃ table, run baseOne empty peekUpdateInsert = some table := ⟨_, rfl⟩
  exact ⟨table, ran, respects, applyStateTable_run_realizes baseOne ran respects⟩

/-- A replacement of a key that neither the table nor its base holds: the table takes it,
and applying it to a ledger holding the base is a `LogicError` of `Ledger::rawReplace`. -/
theorem replace_absent_key_breaks_apply :
    ∃ table, run (SortedMap.empty : SortedMap Nat Nat) empty [.replace 1 5] = some table ∧
      table.apply RawLedger.rawView ⟨SortedMap.empty, 0, 0⟩ = none :=
  ⟨_, rfl, rfl⟩

end ApplyStateTable

end RadardFormal.Ledger
