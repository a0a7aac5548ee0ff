import RadardFormal.Shamap.Canonical

/-!
# A SHAMap is a finite map with a history-independent hash

What a SHAMap is for: an ordinary map from keys to data (`KeyMap`).  `addGiveItem` adds an
item under a key that is absent, `delItem` takes away the item of a key that is present and
`updateGiveItem` replaces it; each returns whether it did.  A run of these calls on a map that
starts empty, with one leaf type throughout, returns what the same calls return on the
reference map, and leaves a tree that

* shows the reference map: `fetch` and `hasItem` find its bindings, the range loop from
  `begin ()` lists them in strictly increasing key order, and `upper_bound` finds the least key
  above any key (`Agrees`);
* is the canonical tree of the reference map (`CanonicalFor`), and so the same tree, with the
  same hash, whatever the run that led to the same map.

The one step is `apply_simulates`; `run_simulates` carries it along a run.
-/

namespace RadardFormal.Shamap

open RadardFormal.Protocol SHAMapAbstractNode

attribute [ext] SHAMapItem

/-! ## The reference map -/

/-- An ordinary map from keys to data. -/
@[ext] structure KeyMap where
  find : Uint256 → Option (List UInt8)

/-- A call on a map: `addGiveItem`, `delItem` or `updateGiveItem`. -/
inductive MapOp where
  | add (item : SHAMapItem)
  | del (id : Uint256)
  | update (item : SHAMapItem)
  deriving DecidableEq, Repr

namespace KeyMap

/-- The map with no key. -/
def empty : KeyMap := ⟨fun _ => none⟩

/-- The map with `key` bound to `value`, or unbound for `none`. -/
def set (m : KeyMap) (key : Uint256) (value : Option (List UInt8)) : KeyMap :=
  ⟨Function.update m.find key value⟩

@[simp] theorem find_empty (key : Uint256) : empty.find key = none := rfl

@[simp] theorem find_set (m : KeyMap) (key : Uint256) (value : Option (List UInt8)) (other : Uint256) :
    (m.set key value).find other = if other = key then value else m.find other := by
  simp [set, Function.update_apply]

/-- A call on the reference map, and whether it took effect: an item is added under an absent
key, a present key is unbound, a present key's data is replaced. -/
def apply (m : KeyMap) : MapOp → Bool × KeyMap
  | .add item => if (m.find item.key).isSome then (false, m) else (true, m.set item.key (some item.data))
  | .del id => if (m.find id).isSome then (true, m.set id none) else (false, m)
  | .update item =>
    if (m.find item.key).isSome then (true, m.set item.key (some item.data)) else (false, m)

/-- A run of calls: what each returned, and the map at the end. -/
def run (m : KeyMap) : List MapOp → List Bool × KeyMap
  | [] => ([], m)
  | op :: ops => ((m.apply op).1 :: ((m.apply op).2.run ops).1, ((m.apply op).2.run ops).2)

/-- Two different keys of `m` take the branches of `path` from the root. -/
def InnerAt (m : KeyMap) (path : List (Fin 16)) : Prop :=
  ∃ a b, a ≠ b ∧ (m.find a).isSome ∧ (m.find b).isSome ∧ keyPath a 0 path.length = path ∧
    keyPath b 0 path.length = path

/-- `depth` is the shallowest depth, of at least `shallowest`, at which no other key of `m`
shares the prefix of `key`. -/
def LeafDepth (m : KeyMap) (shallowest : Nat) (key : Uint256) (depth : Nat) : Prop :=
  shallowest ≤ depth ∧
    (∀ other, (m.find other).isSome → other ≠ key → keyPath other 0 depth ≠ keyPath key 0 depth) ∧
    ∀ n, shallowest ≤ n → n < depth →
      ∃ other, (m.find other).isSome ∧ other ≠ key ∧ keyPath other 0 n = keyPath key 0 n

end KeyMap

/-! ## Runs on a SHAMap -/

namespace SHAMap

/-- One call on the map, its leaves of the type given by `isTransaction` and `hasMeta`. -/
def apply (isTransaction hasMeta : Bool) (map : SHAMap) : MapOp → Option (Bool × SHAMap)
  | .add item => map.addGiveItem item isTransaction hasMeta
  | .del id => map.delItem id
  | .update item => map.updateGiveItem item isTransaction hasMeta

/-- A run of calls with one leaf type: what each returned, and the map at the end; none once a
call throws. -/
def run (isTransaction hasMeta : Bool) (map : SHAMap) : List MapOp → Option (List Bool × SHAMap)
  | [] => some ([], map)
  | op :: ops =>
    match map.apply isTransaction hasMeta op with
    | none => none
    | some (done, next) => (next.run isTransaction hasMeta ops).map fun ran => (done :: ran.1, ran.2)

end SHAMap

/-! ## The items of a map and the reference map -/

/-- The items of `map` are the bindings of `m`. -/
def Binds (m : KeyMap) (map : SHAMap) : Prop :=
  ∀ item, item ∈ entries map.root ↔ m.find item.key = some item.data

theorem binds_empty : Binds KeyMap.empty SHAMap.empty := fun item => by
  simp [SHAMap.empty, emptyInner]

section binds

variable {type : TNType} {m : KeyMap} {map map' : SHAMap}

/-- A key of a canonical map holds one item. -/
theorem SHAMap.Canonical.eq_of_key_eq (canonical : map.Canonical type) {a b : SHAMapItem}
    (aMem : a ∈ entries map.root) (bMem : b ∈ entries map.root) (same : a.key = b.key) : a = b := by
  -- `fetch` finds each of them under the key
  have fetched := fetch_of_mem canonical aMem
  rw [same, fetch_of_mem canonical bMem] at fetched
  exact (Option.some.inj fetched).symm

/-- `fetch` on a canonical map finds the item of a key. -/
theorem SHAMap.fetch_eq_some_iff (canonical : map.Canonical type) {id : Uint256} {item : SHAMapItem} :
    map.fetch id = some item ↔ item ∈ entries map.root ∧ item.key = id := by
  constructor
  · intro found
    obtain ⟨leafType, ends, sameKey⟩ := fetch_eq_some found
    have atEnd : item ∈ entries (walkEnd id map.root 0).1 := by
      rw [ends]
      exact List.mem_singleton_self item
    exact ⟨mem_entries_walkEnd atEnd, sameKey⟩
  · rintro ⟨member, rfl⟩
    exact fetch_of_mem canonical member

namespace Binds

/-- Two items of the map under one key are one item. -/
theorem eq_of_key_eq (binds : Binds m map) {a b : SHAMapItem} (aMem : a ∈ entries map.root)
    (bMem : b ∈ entries map.root) (same : a.key = b.key) : a = b := by
  have aData := (binds a).mp aMem
  rw [same, (binds b).mp bMem, Option.some.injEq] at aData
  exact SHAMapItem.ext same aData.symm

/-- Each key bound in `m` has its item in the map. -/
theorem exists_mem (binds : Binds m map) {key : Uint256} (bound : (m.find key).isSome) :
    ∃ item ∈ entries map.root, item.key = key := by
  obtain ⟨data, found⟩ := Option.isSome_iff_exists.mp bound
  exact ⟨⟨key, data⟩, (binds ⟨key, data⟩).mpr found, rfl⟩

theorem isSome_of_mem (binds : Binds m map) {item : SHAMapItem} (member : item ∈ entries map.root) :
    (m.find item.key).isSome := by
  rw [(binds item).mp member]
  rfl

theorem fetch_eq (canonical : map.Canonical type) (binds : Binds m map) (id : Uint256) :
    map.fetch id = (m.find id).map (SHAMapItem.mk id) := by
  cases bound : m.find id with
  | none =>
    cases found : map.fetch id with
    | none => rfl
    | some item =>
      obtain ⟨member, rfl⟩ := (SHAMap.fetch_eq_some_iff canonical).mp found
      rw [(binds item).mp member] at bound
      cases bound
  | some data => exact (SHAMap.fetch_eq_some_iff canonical).mpr ⟨(binds ⟨id, data⟩).mpr bound, rfl⟩

theorem find_eq_none (canonical : map.Canonical type) (binds : Binds m map) {id : Uint256}
    (absent : map.fetch id = none) : m.find id = none := by
  rwa [binds.fetch_eq canonical, Option.map_eq_none_iff] at absent

theorem isSome_find (canonical : map.Canonical type) (binds : Binds m map) {id : Uint256} {item : SHAMapItem}
    (found : map.fetch id = some item) : (m.find id).isSome := by
  have fetched := congrArg Option.isSome found
  rwa [binds.fetch_eq canonical, Option.isSome_map] at fetched

/-- Adding an item under an absent key binds the key to its data. -/
theorem add (binds : Binds m map) {item : SHAMapItem} (absent : m.find item.key = none)
    (grown : (entries map'.root).Perm (entries map.root ++ [item])) :
    Binds (m.set item.key (some item.data)) map' := by
  intro x
  rw [grown.mem_iff, List.mem_append, List.mem_singleton, binds x, KeyMap.find_set]
  by_cases sameKey : x.key = item.key
  · -- the key was unbound, so the only item under it is the new one
    rw [if_pos sameKey, sameKey, absent]
    constructor
    · rintro (bound | rfl)
      · cases bound
      · rfl
    · intro data
      exact .inr (SHAMapItem.ext sameKey (Option.some.inj data).symm)
  · rw [if_neg sameKey]
    exact or_iff_left fun same => sameKey (congrArg SHAMapItem.key same)

/-- Deleting the item of a key unbinds the key. -/
theorem del (canonical : map.Canonical type) (binds : Binds m map) {old : SHAMapItem}
    (shrunk : (entries map'.root ++ [old]).Perm (entries map.root)) : Binds (m.set old.key none) map' := by
  have oldMem : old ∈ entries map.root := shrunk.subset (by simp)
  have nodup := shrunk.nodup_iff.mpr (nodup_entries canonical.placed)
  have oldGone : old ∉ entries map'.root := (List.nodup_cons.mp (List.nodup_append_comm.mp nodup)).1
  intro x
  rw [KeyMap.find_set]
  by_cases sameKey : x.key = old.key
  · -- the old item was the only one under its key, and it has gone
    rw [if_pos sameKey]
    refine iff_of_false (fun member => ?_) (by simp)
    have inMap : x ∈ entries map.root := shrunk.subset (List.mem_append_left _ member)
    rw [binds.eq_of_key_eq inMap oldMem sameKey] at member
    exact oldGone member
  · rw [if_neg sameKey, ← binds x]
    constructor
    · intro member
      exact shrunk.subset (List.mem_append_left _ member)
    · intro member
      rcases List.mem_append.mp (shrunk.symm.subset member) with inNew | isOld
      · exact inNew
      · exact absurd (congrArg SHAMapItem.key (List.mem_singleton.mp isOld)) sameKey

/-- Replacing the item of a key binds the key to the new data. -/
theorem update (canonical' : map'.Canonical type) (binds : Binds m map) {old item : SHAMapItem}
    (oldMem : old ∈ entries map.root) (sameKey : old.key = item.key)
    (replaced : (entries map'.root ++ [old]).Perm (entries map.root ++ [item])) :
    Binds (m.set item.key (some item.data)) map' := by
  -- the new item is in the new map: in place of the old one, or the old one itself
  have itemMem : item ∈ entries map'.root := by
    by_cases same : item = old
    · subst same
      exact ((List.perm_append_right_iff _).mp replaced).symm.subset oldMem
    · rcases List.mem_append.mp (replaced.symm.subset (List.mem_append_right _ (List.mem_singleton_self item)))
        with inNew | isOld
      · exact inNew
      · exact absurd (List.mem_singleton.mp isOld) same
  intro x
  rw [KeyMap.find_set]
  by_cases xKey : x.key = item.key
  · rw [if_pos xKey]
    constructor
    · intro member
      rw [canonical'.eq_of_key_eq member itemMem xKey]
    · intro data
      rw [SHAMapItem.ext xKey (Option.some.inj data).symm]
      exact itemMem
  · rw [if_neg xKey, ← binds x]
    constructor
    · intro member
      rcases List.mem_append.mp (replaced.subset (List.mem_append_left _ member)) with inOld | isItem
      · exact inOld
      · exact absurd (congrArg SHAMapItem.key (List.mem_singleton.mp isItem)) xKey
    · intro member
      rcases List.mem_append.mp (replaced.symm.subset (List.mem_append_left _ member)) with inNew | isOld
      · exact inNew
      · exact absurd ((congrArg SHAMapItem.key (List.mem_singleton.mp isOld)).trans sameKey) xKey

end Binds

end binds

/-! ## Simulation -/

namespace SHAMap

variable {type : TNType} {m : KeyMap} {map : SHAMap} {isTransaction hasMeta : Bool}

/-- One call on a canonical map returns what the call returns on the reference map, and leaves a
canonical map whose items are the new reference map's bindings. -/
theorem apply_simulates (canonical : map.Canonical type) (typed : leafType isTransaction hasMeta = type)
    (binds : Binds m map) (op : MapOp) :
    ∃ map', map.apply isTransaction hasMeta op = some ((m.apply op).1, map') ∧ map'.Canonical type ∧
      Binds (m.apply op).2 map' := by
  cases op with
  | add item =>
    cases found : map.fetch item.key with
    | none =>
      have absent := binds.find_eq_none canonical found
      obtain ⟨map', added, canonical', grown⟩ := addGiveItem_absent canonical typed found
      refine ⟨map', ?_, canonical', ?_⟩
      · simp [apply, KeyMap.apply, absent, added]
      · simpa [KeyMap.apply, absent] using binds.add absent grown
    | some old =>
      have present := binds.isSome_find canonical found
      refine ⟨map, ?_, canonical, ?_⟩
      · simp [apply, KeyMap.apply, present, addGiveItem_present canonical isTransaction hasMeta found]
      · simpa [KeyMap.apply, present] using binds
  | del id =>
    cases found : map.fetch id with
    | none =>
      have absent := binds.find_eq_none canonical found
      refine ⟨map, ?_, canonical, ?_⟩
      · simp [apply, KeyMap.apply, absent, delItem_absent canonical found]
      · simpa [KeyMap.apply, absent] using binds
    | some old =>
      have present := binds.isSome_find canonical found
      obtain ⟨-, sameKey⟩ := (fetch_eq_some_iff canonical).mp found
      obtain ⟨map', deleted, canonical', shrunk⟩ := delItem_present canonical found
      refine ⟨map', ?_, canonical', ?_⟩
      · simp [apply, KeyMap.apply, present, deleted]
      · have unbound := binds.del canonical shrunk
        rw [sameKey] at unbound
        simpa [KeyMap.apply, present] using unbound
  | update item =>
    cases found : map.fetch item.key with
    | none =>
      have absent := binds.find_eq_none canonical found
      refine ⟨map, ?_, canonical, ?_⟩
      · simp [apply, KeyMap.apply, absent, updateGiveItem_absent canonical isTransaction hasMeta found]
      · simpa [KeyMap.apply, absent] using binds
    | some old =>
      have present := binds.isSome_find canonical found
      obtain ⟨oldMem, sameKey⟩ := (fetch_eq_some_iff canonical).mp found
      obtain ⟨map', replaced, canonical', moved⟩ := updateGiveItem_present canonical typed found
      refine ⟨map', ?_, canonical', ?_⟩
      · simp [apply, KeyMap.apply, present, replaced]
      · simpa [KeyMap.apply, present] using binds.update canonical' oldMem sameKey moved

/-- A run of calls on a canonical map returns what the run returns on the reference map, and
ends at a canonical map whose items are the final reference map's bindings. -/
theorem run_simulates (canonical : map.Canonical type) (typed : leafType isTransaction hasMeta = type)
    (binds : Binds m map) (ops : List MapOp) :
    ∃ final, map.run isTransaction hasMeta ops = some ((m.run ops).1, final) ∧ final.Canonical type ∧
      Binds (m.run ops).2 final := by
  induction ops generalizing map m with
  | nil => exact ⟨map, rfl, canonical, binds⟩
  | cons op ops ih =>
    obtain ⟨next, stepped, canonicalNext, bindsNext⟩ := apply_simulates canonical typed binds op
    obtain ⟨final, ran, canonicalFinal, bindsFinal⟩ := ih canonicalNext bindsNext
    refine ⟨final, ?_, canonicalFinal, bindsFinal⟩
    rw [run, stepped]
    simp [ran, KeyMap.run]

end SHAMap

/-! ## What the map shows of its items -/

/-- What a SHAMap shows agrees with the reference map `m`: `fetch` and `hasItem` find its
bindings, the range loop from `begin ()` lists them once each in strictly increasing key order,
and `upper_bound (id)` finds the least key of `m` above `id`, or `end ()` when there is none. -/
structure Agrees (m : KeyMap) (map : SHAMap) : Prop where
  fetch : ∀ id, map.fetch id = (m.find id).map (SHAMapItem.mk id)
  hasItem : ∀ id, map.hasItem id = (m.find id).isSome
  visit : ∃ items, (∀ fuel, items.length ≤ fuel → map.visit fuel = some items) ∧
    items.Pairwise (fun a b => a.key < b.key) ∧ ∀ item, item ∈ items ↔ m.find item.key = some item.data
  upperBound : ∀ id,
    (∃ next, m.find next.key = some next.data ∧ id < next.key ∧
      (∀ other, (m.find other).isSome → id < other → next.key ≤ other) ∧
      ∃ stack, map.upperBound id = some (some (next, stack))) ∨
    ((∀ other, (m.find other).isSome → ¬id < other) ∧ map.upperBound id = some none)

/-- The tree of `map` is the canonical tree of `m`: the root is an inner node; below it, an inner
node sits exactly where two keys share a prefix, and the leaf of each key at the shallowest depth
of at least one branch at which no other key shares its prefix. -/
structure CanonicalFor (m : KeyMap) (map : SHAMap) : Prop where
  root : ∃ children, map.root = .inner children
  inner : ∀ path, path ≠ [] → ((∃ children, nodeAt map.root path = some (.inner children)) ↔ m.InnerAt path)
  leaf : ∀ path item, (∃ type, nodeAt map.root path = some (.leaf item type)) ↔
    m.find item.key = some item.data ∧ keyPath item.key 0 path.length = path ∧ m.LeafDepth 1 item.key path.length

section shows

variable {type : TNType} {m : KeyMap} {map : SHAMap}

namespace Binds

theorem upperBound (canonical : map.Canonical type) (binds : Binds m map) (id : Uint256) :
    (∃ next, m.find next.key = some next.data ∧ id < next.key ∧
      (∀ other, (m.find other).isSome → id < other → next.key ≤ other) ∧
      ∃ stack, map.upperBound id = some (some (next, stack))) ∨
    ((∀ other, (m.find other).isSome → ¬id < other) ∧ map.upperBound id = some none) := by
  rcases SHAMap.upperBound_eq canonical id with ⟨next, ⟨nextMem, above, least⟩, found⟩ | ⟨passed, found⟩
  · refine .inl ⟨next, (binds next).mp nextMem, above, fun other bound otherAbove => ?_, _, found⟩
    obtain ⟨item, member, rfl⟩ := binds.exists_mem bound
    exact least item member otherAbove
  · refine .inr ⟨fun other bound => ?_, found⟩
    obtain ⟨item, member, rfl⟩ := binds.exists_mem bound
    exact passed item member

theorem agrees (canonical : map.Canonical type) (binds : Binds m map) : Agrees m map where
  fetch := binds.fetch_eq canonical
  hasItem id := by
    rw [SHAMap.hasItem, ← SHAMap.fetch, binds.fetch_eq canonical, Option.isSome_map]
  visit := ⟨entries map.root, fun _ enough => SHAMap.visit_eq canonical enough,
    sorted_entries canonical.placed (shared_zero _), binds⟩
  upperBound := binds.upperBound canonical

theorem innerPlace_iff (binds : Binds m map) {path : List (Fin 16)} :
    InnerPlace (entries map.root) 0 path ↔ m.InnerAt path := by
  constructor
  · rintro ⟨a, aMem, b, bMem, differs, aPath, bPath⟩
    refine ⟨a.key, b.key, fun same => differs (binds.eq_of_key_eq aMem bMem same), binds.isSome_of_mem aMem,
      binds.isSome_of_mem bMem, aPath, bPath⟩
  · rintro ⟨a, b, differs, aBound, bBound, aPath, bPath⟩
    obtain ⟨x, xMem, rfl⟩ := binds.exists_mem aBound
    obtain ⟨y, yMem, rfl⟩ := binds.exists_mem bBound
    exact ⟨x, xMem, y, yMem, fun same => differs (congrArg SHAMapItem.key same), aPath, bPath⟩

theorem leafPlace_iff (binds : Binds m map) {shallowest : Nat} {item : SHAMapItem} {path : List (Fin 16)} :
    LeafPlace (entries map.root) 0 shallowest item path ↔
      m.find item.key = some item.data ∧ keyPath item.key 0 path.length = path ∧
        m.LeafDepth shallowest item.key path.length := by
  constructor
  · rintro ⟨mem, deep, onPath, alone, shared⟩
    refine ⟨(binds item).mp mem, onPath, deep, fun other bound differs sharedPath => ?_, fun n atLeast below => ?_⟩
    · obtain ⟨x, xMem, rfl⟩ := binds.exists_mem bound
      exact alone x xMem (fun same => differs (congrArg SHAMapItem.key same)) (sharedPath.trans onPath)
    · obtain ⟨x, xMem, differs, sharedPath⟩ := shared n atLeast below
      exact ⟨x.key, binds.isSome_of_mem xMem, fun same => differs (binds.eq_of_key_eq xMem mem same), sharedPath⟩
  · rintro ⟨found, onPath, deep, alone, shared⟩
    have mem := (binds item).mpr found
    refine ⟨mem, deep, onPath, fun other otherMem differs otherPath => ?_, fun n atLeast below => ?_⟩
    · exact alone other.key (binds.isSome_of_mem otherMem)
        (fun same => differs (binds.eq_of_key_eq otherMem mem same)) (otherPath.trans onPath.symm)
    · obtain ⟨key, bound, differs, sharedPath⟩ := shared n atLeast below
      obtain ⟨x, xMem, rfl⟩ := binds.exists_mem bound
      exact ⟨x, xMem, fun same => differs (congrArg SHAMapItem.key same), sharedPath⟩

theorem canonicalFor (canonical : map.Canonical type) (binds : Binds m map) : CanonicalFor m map where
  root := canonical.exists_root
  inner _ belowRoot := (SHAMap.innerAt_iff canonical belowRoot).trans binds.innerPlace_iff
  leaf path item := (SHAMap.leafAt_iff canonical item path).trans binds.leafPlace_iff

/-- Two canonical maps of one leaf type with the items of one reference map are the same map. -/
theorem eq (canonical : map.Canonical type) (binds : Binds m map) {map' : SHAMap}
    (canonical' : map'.Canonical type) (binds' : Binds m map') : map = map' := by
  refine canonical.eq_of_perm canonical' ((List.perm_ext_iff_of_nodup (nodup_entries canonical.placed)
    (nodup_entries canonical'.placed)).mpr fun item => ?_)
  rw [binds item, binds' item]

end Binds

end shows

/-! ## History independence -/

/-- Every run of `addGiveItem`, `delItem` and `updateGiveItem` on an empty SHAMap, with one leaf
type throughout, returns what the same calls return on an ordinary map, and ends at the
canonical tree of the final map, which shows that map through `fetch`, `hasItem`, the range
loop and `upper_bound`; any other run that ends at the same map ends at the same hash. -/
theorem history_independent (isTransaction hasMeta : Bool) (ops : List MapOp) :
    ∃ map, SHAMap.empty.run isTransaction hasMeta ops = some ((KeyMap.empty.run ops).1, map) ∧
      Agrees (KeyMap.empty.run ops).2 map ∧ CanonicalFor (KeyMap.empty.run ops).2 map ∧
      ∀ (sha512Half : List UInt8 → Uint256) (ops' : List MapOp),
        (KeyMap.empty.run ops').2 = (KeyMap.empty.run ops).2 →
        (SHAMap.empty.run isTransaction hasMeta ops').map (fun ran => ran.2.getHash sha512Half) =
          some (map.getHash sha512Half) := by
  have start := SHAMap.canonical_empty (leafType isTransaction hasMeta)
  obtain ⟨map, ran, canonical, binds⟩ := SHAMap.run_simulates start rfl binds_empty ops
  refine ⟨map, ran, binds.agrees canonical, binds.canonicalFor canonical, fun sha512Half ops' sameMap => ?_⟩
  obtain ⟨map', ran', canonical', binds'⟩ := SHAMap.run_simulates start rfl binds_empty ops'
  rw [sameMap] at binds'
  have sameTree : map' = map := binds'.eq canonical' canonical binds
  rw [ran', sameTree]
  rfl

/-- Adding a key and deleting it again leaves the hash of the empty map. -/
theorem add_then_del_hash :
    (SHAMap.empty.run false false [.add ⟨Uint256.zero, [1]⟩, .del Uint256.zero]).map
        (fun ran => ran.2.getHash fun bytes => Uint256.ofNat bytes.length) =
      some (SHAMap.empty.getHash fun bytes => Uint256.ofNat bytes.length) := by
  obtain ⟨map, ran, -, -, sameHash⟩ := history_independent false false []
  have emptied : (KeyMap.empty.run [.add ⟨Uint256.zero, [1]⟩, .del Uint256.zero]).2 = (KeyMap.empty.run []).2 := by
    ext key
    by_cases same : key = Uint256.zero <;> simp [KeyMap.run, KeyMap.apply, same]
  -- the run of no call ends at the empty map itself
  have start : map = SHAMap.empty := (Prod.ext_iff.mp (Option.some.inj ran.symm)).2
  rw [sameHash _ _ emptied, start]

/-- The root is an inner node whatever the map holds, so the leaf of a lone key sits one branch
down, not at the root, although at the root no other key shares its (empty) prefix. -/
theorem lone_leaf_below_root :
    ∃ map, SHAMap.empty.run false false [.add ⟨Uint256.zero, []⟩] = some ([true], map) ∧
      (KeyMap.empty.run [.add ⟨Uint256.zero, []⟩]).2.LeafDepth 0 Uint256.zero 0 ∧
      (¬∃ type, nodeAt map.root (keyPath Uint256.zero 0 0) = some (.leaf ⟨Uint256.zero, []⟩ type)) ∧
      ∃ type, nodeAt map.root (keyPath Uint256.zero 0 1) = some (.leaf ⟨Uint256.zero, []⟩ type) := by
  obtain ⟨map, ran, canonical, binds⟩ :=
    SHAMap.run_simulates (SHAMap.canonical_empty (leafType false false)) rfl binds_empty [.add ⟨Uint256.zero, []⟩]
  obtain ⟨children, root⟩ := canonical.exists_root
  -- the only key of the map is the one added
  have lone : ∀ other, ((KeyMap.empty.run [.add ⟨Uint256.zero, []⟩]).2.find other).isSome → other = Uint256.zero := by
    intro other bound
    by_contra differs
    simp [KeyMap.run, KeyMap.apply, differs] at bound
  refine ⟨map, ran, ⟨le_rfl, fun other bound differs => absurd (lone other bound) differs,
    fun n _ below => absurd below (Nat.not_lt_zero n)⟩, ?_, ?_⟩
  · rintro ⟨type, found⟩
    rw [root] at found
    simp [keyPath] at found
  · refine ((binds.canonicalFor canonical).leaf _ _).mpr ⟨by simp [KeyMap.run, KeyMap.apply], by simp, ?_⟩
    exact ⟨le_rfl, fun other bound differs => absurd (lone other bound) differs,
      fun n atLeast below => by
        rw [length_keyPath] at below
        omega⟩

end RadardFormal.Shamap
