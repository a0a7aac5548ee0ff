import Mathlib.Data.List.Sigma
import Mathlib.Order.Bounds.Basic

/-!
# Finite maps as sorted entry lists

A `std::map` holds a finite map and iterates its entries in increasing key order.
`SortedMap` is that list of entries, with the strict increase of its keys as a field.
An iterator into the map is the suffix of the entries from its position on, so that
`upper_bound` is `above` and a walk over the map is a recursion on the list.

`alterEntries` changes the entry of one key in a single pass; `overlay` lays a sorted
list of changes over sorted entries, a change being the key's new value or `none` for
a removal.  Both keep the keys increasing, and each has one lookup lemma.  Along
increasing keys the first entry that passes a test has the least key of those that
pass it (`le_of_find?_eq_some`).

Nothing here depends on what the keys and values are.
-/

namespace RadardFormal.Support

open List

variable {K V : Type}

/-- The entries a key has under an optional value: none, or one. -/
def entryOf (key : K) : Option V → List (Σ _ : K, V)
  | none => []
  | some value => [⟨key, value⟩]

@[simp] theorem entryOf_none (key : K) : entryOf key (none : Option V) = [] := rfl

@[simp] theorem entryOf_some (key : K) (value : V) : entryOf key (some value) = [⟨key, value⟩] :=
  rfl

theorem mem_entryOf {key : K} {value : Option V} {entry : Σ _ : K, V}
    (member : entry ∈ entryOf key value) : entry.1 = key ∧ value = some entry.2 := by
  cases value with
  | none => simp at member
  | some value =>
    simp only [entryOf_some, List.mem_singleton] at member
    subst member
    exact ⟨rfl, rfl⟩

variable [LinearOrder K]

/-- Keys strictly increase along a list of entries. -/
def KeysIncrease (entries : List (Σ _ : K, V)) : Prop :=
  entries.Pairwise fun a b => a.1 < b.1

namespace KeysIncrease

variable {entry : Σ _ : K, V} {entries : List (Σ _ : K, V)}

theorem nodupKeys (increase : KeysIncrease entries) : entries.NodupKeys :=
  nodupKeys_iff_pairwise.mpr (increase.imp ne_of_lt)

theorem of_cons (increase : KeysIncrease (entry :: entries)) : KeysIncrease entries :=
  Pairwise.of_cons increase

theorem lt_of_mem (increase : KeysIncrease (entry :: entries)) {other : Σ _ : K, V}
    (member : other ∈ entries) : entry.1 < other.1 :=
  rel_of_pairwise_cons increase member

theorem cons (increase : KeysIncrease entries) (below : ∀ other ∈ entries, entry.1 < other.1) :
    KeysIncrease (entry :: entries) :=
  Pairwise.cons below increase

theorem lt_of_mem_cons (increase : KeysIncrease (entry :: entries)) {key : K}
    (below : key < entry.1) {other : Σ _ : K, V} (member : other ∈ entry :: entries) :
    key < other.1 := by
  rcases mem_cons.mp member with rfl | later
  · exact below
  · exact below.trans (increase.lt_of_mem later)

theorem entryOf_append {key : K} {value : Option V} (increase : KeysIncrease entries)
    (below : ∀ other ∈ entries, key < other.1) : KeysIncrease (entryOf key value ++ entries) := by
  cases value with
  | none => exact increase
  | some value => exact increase.cons below

/-- Along increasing keys a monotone function of the key is monotone, so an entry between two
entries with the same image has that image too. -/
theorem eq_of_between {W : Type} [PartialOrder W] {g : K → W} (mono : ∀ x y : K, x < y → g x ≤ g y)
    (increase : KeysIncrease entries) {a b c : Σ _ : K, V} (between : [a, b, c].Sublist entries)
    (same : g a.1 = g c.1) : g b.1 = g a.1 := by
  have ordered := (increase.sublist between)
  simp only [List.pairwise_cons, List.mem_cons, List.not_mem_nil, or_false,
    forall_eq_or_imp, forall_eq, List.Pairwise.nil, and_true, IsEmpty.forall_iff, implies_true] at ordered
  obtain ⟨⟨ab, -⟩, bc⟩ := ordered
  exact le_antisymm (same ▸ mono _ _ bc) (mono _ _ ab)

end KeysIncrease

theorem dlookup_cons_of_ne {probe key : K} (other : probe ≠ key) (value : V)
    (entries : List (Σ _ : K, V)) :
    (⟨key, value⟩ :: entries : List (Σ _ : K, V)).dlookup probe = entries.dlookup probe :=
  dlookup_cons_ne entries ⟨key, value⟩ other

/-- A key below every key of a list has no entry there. -/
theorem dlookup_eq_none_of_lt {entries : List (Σ _ : K, V)} {probe : K}
    (below : ∀ entry ∈ entries, probe < entry.1) : entries.dlookup probe = none := by
  rw [dlookup_eq_none]
  intro member
  obtain ⟨value, member⟩ := mem_keys.mp member
  exact lt_irrefl probe (below _ member)

theorem mem_iff_dlookup {entries : List (Σ _ : K, V)} (increase : KeysIncrease entries)
    {key : K} {value : V} : ⟨key, value⟩ ∈ entries ↔ entries.dlookup key = some value :=
  (mem_dlookup_iff increase.nodupKeys).symm

/-- Two lists of increasing keys with the same lookups are equal. -/
theorem eq_of_dlookup_eq {entries entries' : List (Σ _ : K, V)} (increase : KeysIncrease entries)
    (increase' : KeysIncrease entries') (same : ∀ key, entries.dlookup key = entries'.dlookup key) :
    entries = entries' :=
  Perm.eq_of_pairwise (fun _ _ _ _ below above => absurd below (not_lt.mpr above.le))
    increase increase' (lookup_ext increase.nodupKeys increase'.nodupKeys fun key _ => by
      rw [same key])

@[simp] theorem dlookup_entryOf_append_self (key : K) (value : Option V)
    (entries : List (Σ _ : K, V)) :
    (entryOf key value ++ entries).dlookup key =
      if value.isSome then value else entries.dlookup key := by
  cases value <;> simp

@[simp] theorem dlookup_entryOf_append_ne {key probe : K} (other : probe ≠ key) (value : Option V)
    (entries : List (Σ _ : K, V)) :
    (entryOf key value ++ entries).dlookup probe = entries.dlookup probe := by
  cases value <;> simp [dlookup_cons_of_ne other]

/-! ## Changing one key -/

/-- Change the entry of one key in a single pass: `change` maps the value there, if any,
to the value to be there, `none` removing the key. -/
def alterEntries (key : K) (change : Option V → Option V) :
    List (Σ _ : K, V) → List (Σ _ : K, V)
  | [] => entryOf key (change none)
  | ⟨k, value⟩ :: rest =>
    if key < k then entryOf key (change none) ++ ⟨k, value⟩ :: rest
    else if key = k then entryOf key (change (some value)) ++ rest
    else ⟨k, value⟩ :: alterEntries key change rest

theorem mem_alterEntries {key : K} {change : Option V → Option V} :
    ∀ {entries : List (Σ _ : K, V)} {entry : Σ _ : K, V},
      entry ∈ alterEntries key change entries → entry.1 = key ∨ entry ∈ entries
  | [], _, member => .inl (mem_entryOf member).1
  | ⟨k, value⟩ :: rest, entry, member => by
    unfold alterEntries at member
    split_ifs at member with below same
    · rcases mem_append.mp member with fresh | kept
      · exact .inl (mem_entryOf fresh).1
      · exact .inr kept
    · rcases mem_append.mp member with fresh | kept
      · exact .inl (mem_entryOf fresh).1
      · exact .inr (mem_cons_of_mem _ kept)
    · rcases mem_cons.mp member with rfl | later
      · exact .inr mem_cons_self
      · exact (mem_alterEntries later).imp_right (mem_cons_of_mem _)

theorem alterEntries_increasing (key : K) (change : Option V → Option V) :
    ∀ {entries : List (Σ _ : K, V)}, KeysIncrease entries →
      KeysIncrease (alterEntries key change entries)
  | [], _ => by
    unfold alterEntries
    cases change none with
    | none => exact Pairwise.nil
    | some value => exact pairwise_singleton _ _
  | ⟨k, value⟩ :: rest, increase => by
    unfold alterEntries
    split_ifs with below same
    · refine increase.entryOf_append fun other member => ?_
      rcases mem_cons.mp member with rfl | later
      · exact below
      · exact below.trans (increase.lt_of_mem later)
    · subst same
      exact increase.of_cons.entryOf_append fun _ member => increase.lt_of_mem member
    · refine (alterEntries_increasing key change increase.of_cons).cons fun other member => ?_
      rcases mem_alterEntries member with rfl | kept
      · exact lt_of_le_of_ne (not_lt.mp below) (Ne.symm same)
      · exact increase.lt_of_mem kept

theorem dlookup_alterEntries (key : K) (change : Option V → Option V) (probe : K) :
    ∀ {entries : List (Σ _ : K, V)}, KeysIncrease entries →
      (alterEntries key change entries).dlookup probe =
        if probe = key then change (entries.dlookup key) else entries.dlookup probe
  | [], _ => by
    unfold alterEntries
    by_cases here : probe = key
    · subst here
      rw [if_pos rfl, dlookup_nil]
      cases change none <;> simp
    · rw [if_neg here, dlookup_nil]
      cases change none <;> simp [dlookup_cons_of_ne here]
  | ⟨k, value⟩ :: rest, increase => by
    unfold alterEntries
    by_cases below : key < k
    · rw [if_pos below]
      have absent : (⟨k, value⟩ :: rest : List (Σ _ : K, V)).dlookup key = none :=
        dlookup_eq_none_of_lt fun other member => by
          rcases mem_cons.mp member with rfl | later
          · exact below
          · exact below.trans (increase.lt_of_mem later)
      by_cases here : probe = key
      · subst here
        rw [if_pos rfl, absent]
        cases change none <;> simp [absent]
      · rw [if_neg here, dlookup_entryOf_append_ne here]
    by_cases same : key = k
    · subst same
      rw [if_neg below, if_pos rfl, dlookup_cons_eq]
      have absent : rest.dlookup key = none :=
        dlookup_eq_none_of_lt fun _ member => increase.lt_of_mem member
      by_cases here : probe = key
      · subst here
        rw [if_pos rfl]
        cases change (some value) <;> simp [absent]
      · rw [if_neg here, dlookup_entryOf_append_ne here, dlookup_cons_of_ne here]
    rw [if_neg below, if_neg same]
    by_cases old : probe = k
    · subst old
      have other : probe ≠ key := Ne.symm same
      rw [if_neg other, dlookup_cons_eq, dlookup_cons_eq]
    · rw [dlookup_cons_of_ne old, dlookup_alterEntries key change probe increase.of_cons,
        dlookup_cons_of_ne same, dlookup_cons_of_ne old]

/-- A finite map kept as its entries in increasing key order. -/
structure SortedMap (K V : Type) [LinearOrder K] where
  entries : List (Σ _ : K, V)
  increasing : KeysIncrease entries

namespace SortedMap

/-- The map with no entries. -/
def empty : SortedMap K V := ⟨[], Pairwise.nil⟩

/-- `find`: the value of a key. -/
def find? (map : SortedMap K V) (key : K) : Option V := map.entries.dlookup key

/-- Change the entry of one key. -/
def alter (map : SortedMap K V) (key : K) (change : Option V → Option V) : SortedMap K V :=
  ⟨alterEntries key change map.entries, alterEntries_increasing key change map.increasing⟩

@[simp] theorem find?_empty (key : K) : (empty : SortedMap K V).find? key = none := rfl

theorem find?_alter (map : SortedMap K V) (key : K) (change : Option V → Option V) (probe : K) :
    (map.alter key change).find? probe =
      if probe = key then change (map.find? key) else map.find? probe :=
  dlookup_alterEntries key change probe map.increasing

theorem mem_entries_iff (map : SortedMap K V) {key : K} {value : V} :
    ⟨key, value⟩ ∈ map.entries ↔ map.find? key = some value :=
  mem_iff_dlookup map.increasing

/-- Maps with the same lookups are equal. -/
theorem ext_find? {map map' : SortedMap K V} (same : ∀ key, map.find? key = map'.find? key) :
    map = map' := by
  cases map
  cases map'
  congr
  exact eq_of_dlookup_eq ‹_› ‹_› same

/-- The map with every value changed by `f`. -/
def mapValues {W : Type} (f : V → W) (map : SortedMap K V) : SortedMap K W :=
  ⟨map.entries.map (Sigma.map id fun _ => f), List.pairwise_map.mpr map.increasing⟩

@[simp] theorem find?_mapValues {W : Type} (f : V → W) (map : SortedMap K V) (key : K) :
    (map.mapValues f).find? key = (map.find? key).map f :=
  List.dlookup_map₂ key

/-! ## Inserting -/

/-- `insert`: an entry for a key that has none; a key already there keeps its value. -/
def insert (map : SortedMap K V) (key : K) (value : V) : SortedMap K V :=
  map.alter key fun old => old.or (some value)

/-- Insert entries in order. -/
def insertAll (map : SortedMap K V) (entries : List (K × V)) : SortedMap K V :=
  entries.foldl (fun map entry => map.insert entry.1 entry.2) map

theorem find?_insert (map : SortedMap K V) (key : K) (value : V) (probe : K) :
    (map.insert key value).find? probe =
      if probe = key then (map.find? key).or (some value) else map.find? probe :=
  find?_alter map key _ probe

/-- A key that had no entry adds one. -/
theorem length_alterEntries_of_absent (key : K) {change : Option V → Option V} {value : V}
    (made : change none = some value) :
    ∀ {entries : List (Σ _ : K, V)}, entries.dlookup key = none →
      (alterEntries key change entries).length = entries.length + 1
  | [], _ => by simp [alterEntries, made]
  | ⟨k, old⟩ :: rest, absent => by
    unfold alterEntries
    split_ifs with below same
    · simp [made]
    · subst same
      simp at absent
    · rw [dlookup_cons_of_ne same] at absent
      rw [length_cons, length_cons, length_alterEntries_of_absent key made absent]

theorem length_insert_of_absent {map : SortedMap K V} {key : K} (absent : map.find? key = none)
    (value : V) : (map.insert key value).entries.length = map.entries.length + 1 :=
  length_alterEntries_of_absent key rfl absent

/-- Entries with distinct keys that `map` lacks, inserted: each is found, and the rest of
`map` is kept. -/
theorem find?_insertAll {entries : List (K × V)} (nodup : (entries.map Prod.fst).Nodup)
    {map : SortedMap K V} (fresh : ∀ entry ∈ entries, map.find? entry.1 = none) (key : K)
    (value : V) :
    (map.insertAll entries).find? key = some value ↔ (key, value) ∈ entries ∨ map.find? key = some value := by
  induction entries generalizing map with
  | nil => simp [insertAll]
  | cons entry rest ih =>
    obtain ⟨k, v⟩ := entry
    obtain ⟨outside, restNodup⟩ := List.nodup_cons.mp nodup
    have notLater : ∀ w, (k, w) ∉ rest := fun w member => outside (List.mem_map.mpr ⟨_, member, rfl⟩)
    have restFresh : ∀ later ∈ rest, (map.insert k v).find? later.1 = none := by
      intro later member
      have differs : later.1 ≠ k := fun same => notLater later.2 (same ▸ member)
      rw [find?_insert, if_neg differs]
      exact fresh later (List.mem_cons_of_mem _ member)
    have headFresh : map.find? k = none := fresh (k, v) List.mem_cons_self
    rw [insertAll, List.foldl_cons, ← insertAll, ih restNodup restFresh, find?_insert]
    by_cases here : key = k
    · subst here
      rw [if_pos rfl, headFresh, Option.none_or, List.mem_cons, Prod.mk.injEq]
      simp only [notLater value, or_false, true_and, Option.some.injEq, reduceCtorEq, false_or]
      exact eq_comm
    · rw [if_neg here]
      simp [here]

theorem length_insertAll {entries : List (K × V)} (nodup : (entries.map Prod.fst).Nodup)
    {map : SortedMap K V} (fresh : ∀ entry ∈ entries, map.find? entry.1 = none) :
    (map.insertAll entries).entries.length = map.entries.length + entries.length := by
  induction entries generalizing map with
  | nil => simp [insertAll]
  | cons entry rest ih =>
    obtain ⟨k, v⟩ := entry
    obtain ⟨outside, restNodup⟩ := List.nodup_cons.mp nodup
    have restFresh : ∀ later ∈ rest, (map.insert k v).find? later.1 = none := by
      intro later member
      have differs : later.1 ≠ k := fun same => outside (List.mem_map.mpr ⟨_, member, same⟩)
      rw [find?_insert, if_neg differs]
      exact fresh later (List.mem_cons_of_mem _ member)
    rw [insertAll, List.foldl_cons, ← insertAll, ih restNodup restFresh,
      length_insert_of_absent (fresh (k, v) List.mem_cons_self), List.length_cons]
    omega

/-! ## Filtering -/

/-- The entries whose key and value pass a test, in order. -/
def filter (map : SortedMap K V) (keep : K → V → Bool) : SortedMap K V :=
  ⟨map.entries.filter fun entry => keep entry.1 entry.2, map.increasing.sublist List.filter_sublist⟩

theorem find?_filter (map : SortedMap K V) (keep : K → V → Bool) (key : K) :
    (map.filter keep).find? key = (map.find? key).filter (keep key) := by
  cases found : (map.filter keep).find? key with
  | none =>
    cases original : map.find? key with
    | none => rfl
    | some value =>
      -- an entry that passes would still be found
      have kept : keep key value = false := by
        by_contra passes
        have member := (map.mem_entries_iff).mpr original
        have filtered : ⟨key, value⟩ ∈ (map.filter keep).entries :=
          List.mem_filter.mpr ⟨member, by simpa using passes⟩
        rw [(mem_entries_iff _).mp filtered] at found
        cases found
      rw [Option.filter_some, kept]
      rfl
  | some value =>
    obtain ⟨member, passes⟩ := List.mem_filter.mp ((mem_entries_iff _).mpr found)
    rw [(map.mem_entries_iff).mp member, Option.filter_some, passes]
    rfl

/-! ## Erasing -/

/-- `erase`: the map without the entry of a key. -/
def erase (map : SortedMap K V) (key : K) : SortedMap K V :=
  map.alter key fun _ => none

theorem find?_erase (map : SortedMap K V) (key probe : K) :
    (map.erase key).find? probe = if probe = key then none else map.find? probe :=
  find?_alter map key _ probe

/-- What is left once a key is erased is the map's other entries. -/
theorem mem_erase {map : SortedMap K V} {key : K} {entry : Σ _ : K, V}
    (member : entry ∈ (map.erase key).entries) : entry.1 ≠ key ∧ entry ∈ map.entries := by
  obtain ⟨k, v⟩ := entry
  have found := (mem_entries_iff _).mp member
  rw [find?_erase] at found
  by_cases here : k = key
  · rw [if_pos here] at found
    cases found
  · rw [if_neg here] at found
    exact ⟨here, (mem_entries_iff _).mpr found⟩

/-- Erasing the key of an entry takes out that entry and keeps the others in place. -/
theorem erase_entries_of_split {map : SortedMap K V} {before after : List (Σ _ : K, V)}
    {entry : Σ _ : K, V} (split : map.entries = before ++ entry :: after) :
    (map.erase entry.1).entries = before ++ after := by
  have whole : KeysIncrease (before ++ entry :: after) := split ▸ map.increasing
  have rest : KeysIncrease (before ++ after) :=
    whole.sublist ((List.sublist_cons_self entry after).append_left before)
  obtain ⟨-, later, cross⟩ := List.pairwise_append.mp whole
  refine eq_of_dlookup_eq (map.erase entry.1).increasing rest fun key => ?_
  have found := find?_erase map entry.1 key
  unfold find? at found
  rw [found, split, dlookup_append, dlookup_append]
  by_cases here : key = entry.1
  · -- no other entry has the key: those before have smaller keys, those after larger ones
    subst here
    have notBefore : before.dlookup entry.1 = none := by
      rw [dlookup_eq_none]
      intro member
      obtain ⟨value, mem⟩ := List.mem_keys.mp member
      exact absurd (cross _ mem entry List.mem_cons_self) (lt_irrefl _)
    have notAfter : after.dlookup entry.1 = none :=
      dlookup_eq_none_of_lt fun other member => (List.pairwise_cons.mp later).1 other member
    rw [if_pos rfl, notBefore, notAfter]
    rfl
  · rw [if_neg here, dlookup_cons_ne _ _ here]

/-- An entry after an insertion was there before, or is the one inserted. -/
theorem mem_insert {map : SortedMap K V} {key : K} {value : V} {entry : Σ _ : K, V}
    (member : entry ∈ (map.insert key value).entries) :
    entry ∈ map.entries ∨ entry = ⟨key, value⟩ := by
  obtain ⟨k, v⟩ := entry
  have found := (mem_entries_iff _).mp member
  rw [find?_insert] at found
  split_ifs at found with here
  · subst here
    cases old : map.find? k with
    | none =>
      rw [old, Option.none_or, Option.some.injEq] at found
      exact .inr (by rw [found])
    | some w =>
      rw [old, Option.some_or, Option.some.injEq] at found
      exact .inl ((mem_entries_iff _).mpr (by rw [old, found]))
  · exact .inl ((mem_entries_iff _).mpr found)

/-! ## Inserting in any order -/

/-- After inserting entries, a key has the value it had, or else the value of the first
entry inserted under it. -/
theorem find?_insertAll_or (map : SortedMap K V) (entries : List (K × V)) (key : K) :
    (map.insertAll entries).find? key =
      (map.find? key).or ((entries.find? fun entry => decide (entry.1 = key)).map Prod.snd) := by
  induction entries generalizing map with
  | nil => simp [insertAll]
  | cons entry rest ih =>
    rw [insertAll, List.foldl_cons, ← insertAll, ih, find?_insert, List.find?_cons]
    by_cases here : entry.1 = key
    · subst here
      cases map.find? entry.1 <;> simp
    · simp [here, Ne.symm here]

/-- The value found for a key in two lists of entries that agree on every key and hold the
same entries. -/
theorem find?_map_snd_eq {entries entries' : List (K × V)} (perm : entries.Perm entries')
    (agree : ∀ a ∈ entries, ∀ b ∈ entries, a.1 = b.1 → a.2 = b.2) (key : K) :
    (entries.find? fun entry => decide (entry.1 = key)).map Prod.snd =
      (entries'.find? fun entry => decide (entry.1 = key)).map Prod.snd := by
  cases first : entries.find? fun entry => decide (entry.1 = key) with
  | none =>
    -- no entry has the key, in either order
    have none' : entries'.find? (fun entry => decide (entry.1 = key)) = none := by
      rw [List.find?_eq_none] at first ⊢
      exact fun entry member => first entry (perm.mem_iff.mpr member)
    rw [none']
  | some a =>
    obtain ⟨b, found'⟩ : ∃ b, entries'.find? (fun entry => decide (entry.1 = key)) = some b := by
      cases other : entries'.find? fun entry => decide (entry.1 = key) with
      | some b => exact ⟨b, rfl⟩
      | none =>
        rw [List.find?_eq_none] at other
        exact absurd (List.find?_some first) (other a (perm.mem_iff.mp (List.mem_of_find?_eq_some first)))
    have aKey : a.1 = key := by simpa using List.find?_some first
    have bKey : b.1 = key := by simpa using List.find?_some found'
    rw [found', Option.map_some, Option.map_some,
      agree a (List.mem_of_find?_eq_some first) b
        (perm.mem_iff.mpr (List.mem_of_find?_eq_some found')) (aKey.trans bKey.symm)]

/-- Entries that agree on every key they share are inserted, in any order, into the same
map. -/
theorem insertAll_perm (map : SortedMap K V) {entries entries' : List (K × V)}
    (perm : entries.Perm entries') (agree : ∀ a ∈ entries, ∀ b ∈ entries, a.1 = b.1 → a.2 = b.2) :
    map.insertAll entries = map.insertAll entries' := by
  apply ext_find?
  intro key
  rw [find?_insertAll_or, find?_insertAll_or, find?_map_snd_eq perm agree]

end SortedMap

/-! ## Laying changes over entries -/

/-- Lay a list of changes, in increasing key order, over entries in increasing key order:
a change is the key's new value, or `none` to remove it. -/
def overlay (entries : List (Σ _ : K, V)) (changes : List (Σ _ : K, Option V)) :
    List (Σ _ : K, V) :=
  match entries, changes with
  | entries, [] => entries
  | [], ⟨k, change⟩ :: changes => entryOf k change ++ overlay [] changes
  | ⟨k₀, value⟩ :: entries, ⟨k₁, change⟩ :: changes =>
    if k₁ < k₀ then entryOf k₁ change ++ overlay (⟨k₀, value⟩ :: entries) changes
    else if k₀ < k₁ then ⟨k₀, value⟩ :: overlay entries (⟨k₁, change⟩ :: changes)
    else entryOf k₁ change ++ overlay entries changes
termination_by entries.length + changes.length

@[simp] theorem overlay_nil_changes (entries : List (Σ _ : K, V)) : overlay entries [] = entries := by
  unfold overlay
  rfl

theorem overlay_nil_cons (k : K) (change : Option V) (changes : List (Σ _ : K, Option V)) :
    overlay [] (⟨k, change⟩ :: changes) = entryOf k change ++ overlay [] changes := by
  rw [overlay]

theorem overlay_cons_cons (k₀ : K) (value : V) (entries : List (Σ _ : K, V)) (k₁ : K)
    (change : Option V) (changes : List (Σ _ : K, Option V)) :
    overlay (⟨k₀, value⟩ :: entries) (⟨k₁, change⟩ :: changes) =
      if k₁ < k₀ then entryOf k₁ change ++ overlay (⟨k₀, value⟩ :: entries) changes
      else if k₀ < k₁ then ⟨k₀, value⟩ :: overlay entries (⟨k₁, change⟩ :: changes)
      else entryOf k₁ change ++ overlay entries changes := by
  rw [overlay]

theorem mem_overlay {entries : List (Σ _ : K, V)} {changes : List (Σ _ : K, Option V)}
    {entry : Σ _ : K, V} (member : entry ∈ overlay entries changes) :
    entry ∈ entries ∨ ⟨entry.1, some entry.2⟩ ∈ changes := by
  fun_induction overlay entries changes with
  | case1 entries => exact .inl member
  | case2 k change changes ih =>
    rcases mem_append.mp member with fresh | later
    · obtain ⟨rfl, rfl⟩ := mem_entryOf fresh
      exact .inr mem_cons_self
    · exact (ih later).imp_right (mem_cons_of_mem _)
  | case3 k₀ value entries k₁ change changes below ih =>
    rcases mem_append.mp member with fresh | later
    · obtain ⟨rfl, rfl⟩ := mem_entryOf fresh
      exact .inr mem_cons_self
    · exact (ih later).imp_right (mem_cons_of_mem _)
  | case4 k₀ value entries k₁ change changes _ above ih =>
    rcases mem_cons.mp member with rfl | later
    · exact .inl mem_cons_self
    · exact (ih later).imp_left (mem_cons_of_mem _)
  | case5 k₀ value entries k₁ change changes _ _ ih =>
    rcases mem_append.mp member with fresh | later
    · obtain ⟨rfl, rfl⟩ := mem_entryOf fresh
      exact .inr mem_cons_self
    · exact (ih later).imp (mem_cons_of_mem _) (mem_cons_of_mem _)

theorem lt_of_mem_overlay {entries : List (Σ _ : K, V)} {changes : List (Σ _ : K, Option V)}
    {key : K} (belowEntries : ∀ entry ∈ entries, key < entry.1)
    (belowChanges : ∀ change ∈ changes, key < change.1) {entry : Σ _ : K, V}
    (member : entry ∈ overlay entries changes) : key < entry.1 :=
  (mem_overlay member).elim (belowEntries _) (belowChanges _)

theorem overlay_increasing {entries : List (Σ _ : K, V)} {changes : List (Σ _ : K, Option V)}
    (increase : KeysIncrease entries) (increaseChanges : KeysIncrease changes) :
    KeysIncrease (overlay entries changes) := by
  fun_induction overlay entries changes with
  | case1 entries => exact increase
  | case2 k change changes ih =>
    exact (ih increase increaseChanges.of_cons).entryOf_append fun _ member =>
      lt_of_mem_overlay (fun _ absent => by simp at absent)
        (fun _ later => increaseChanges.lt_of_mem later) member
  | case3 k₀ value entries k₁ change changes below ih =>
    exact (ih increase increaseChanges.of_cons).entryOf_append fun _ member =>
      lt_of_mem_overlay (fun _ kept => increase.lt_of_mem_cons below kept)
        (fun _ later => increaseChanges.lt_of_mem later) member
  | case4 k₀ value entries k₁ change changes _ above ih =>
    exact (ih increase.of_cons increaseChanges).cons fun _ member =>
      lt_of_mem_overlay (fun _ later => increase.lt_of_mem later)
        (fun _ pending => increaseChanges.lt_of_mem_cons above pending) member
  | case5 k₀ value entries k₁ change changes notBelow notAbove ih =>
    have same : k₀ = k₁ := le_antisymm (not_lt.mp notBelow) (not_lt.mp notAbove)
    subst same
    exact (ih increase.of_cons increaseChanges.of_cons).entryOf_append fun _ member =>
      lt_of_mem_overlay (fun _ later => increase.lt_of_mem later)
        (fun _ pending => increaseChanges.lt_of_mem pending) member

/-- A key of the changes takes its change; any other key keeps its entry. -/
theorem dlookup_overlay {entries : List (Σ _ : K, V)} {changes : List (Σ _ : K, Option V)}
    (increase : KeysIncrease entries) (increaseChanges : KeysIncrease changes) (probe : K) :
    (overlay entries changes).dlookup probe =
      (changes.dlookup probe).getD (entries.dlookup probe) := by
  fun_induction overlay entries changes with
  | case1 entries => simp
  | case2 k change changes ih =>
    by_cases here : probe = k
    · subst here
      have absent : changes.dlookup probe = none :=
        dlookup_eq_none_of_lt fun _ member => increaseChanges.lt_of_mem member
      cases change <;> simp [ih increase increaseChanges.of_cons, absent]
    · rw [dlookup_entryOf_append_ne here, ih increase increaseChanges.of_cons,
        dlookup_cons_of_ne here]
  | case3 k₀ value entries k₁ change changes below ih =>
    by_cases here : probe = k₁
    · subst here
      have absent : changes.dlookup probe = none :=
        dlookup_eq_none_of_lt fun _ member => increaseChanges.lt_of_mem member
      have absentEntries : (⟨k₀, value⟩ :: entries : List (Σ _ : K, V)).dlookup probe = none :=
        dlookup_eq_none_of_lt fun _ member => increase.lt_of_mem_cons below member
      cases change <;> simp [ih increase increaseChanges.of_cons, absent, absentEntries]
    · rw [dlookup_entryOf_append_ne here, ih increase increaseChanges.of_cons,
        dlookup_cons_of_ne here]
  | case4 k₀ value entries k₁ change changes _ above ih =>
    by_cases here : probe = k₀
    · subst here
      have absent : (⟨k₁, change⟩ :: changes : List (Σ _ : K, Option V)).dlookup probe = none :=
        dlookup_eq_none_of_lt fun _ member => increaseChanges.lt_of_mem_cons above member
      rw [dlookup_cons_eq, absent, dlookup_cons_eq]
      rfl
    · rw [dlookup_cons_of_ne here, ih increase.of_cons increaseChanges, dlookup_cons_of_ne here]
  | case5 k₀ value entries k₁ change changes notBelow notAbove ih =>
    have same : k₀ = k₁ := le_antisymm (not_lt.mp notBelow) (not_lt.mp notAbove)
    subst same
    by_cases here : probe = k₀
    · subst here
      have absent : changes.dlookup probe = none :=
        dlookup_eq_none_of_lt fun _ member => increaseChanges.lt_of_mem member
      have absentEntries : entries.dlookup probe = none :=
        dlookup_eq_none_of_lt fun _ member => increase.lt_of_mem member
      cases change <;> simp [ih increase.of_cons increaseChanges.of_cons, absent, absentEntries]
    · rw [dlookup_entryOf_append_ne here, ih increase.of_cons increaseChanges.of_cons,
        dlookup_cons_of_ne here, dlookup_cons_of_ne here]

/-! ## Searching in key order -/

/-- `upper_bound`: the entries from the first one whose key is above `key` on. -/
def above (entries : List (Σ _ : K, V)) (key : K) : List (Σ _ : K, V) :=
  entries.dropWhile fun entry => entry.1 ≤ key

/-- Along increasing keys, the entries from `upper_bound` on are those above the key. -/
theorem above_eq_filter {entries : List (Σ _ : K, V)} (increase : KeysIncrease entries)
    (key : K) : above entries key = entries.filter fun entry => key < entry.1 := by
  induction entries with
  | nil => rfl
  | cons entry rest ih =>
    unfold above
    rw [dropWhile_cons]
    by_cases atMost : entry.1 ≤ key
    · rw [if_pos (decide_eq_true atMost), filter_cons_of_neg (by simpa using atMost)]
      exact ih increase.of_cons
    · have below : key < entry.1 := not_le.mp atMost
      rw [if_neg (by simpa using atMost), filter_cons_of_pos (by simpa using below),
        filter_eq_self.mpr fun other member => by simpa using below.trans (increase.lt_of_mem member)]

theorem head?_above {entries : List (Σ _ : K, V)} (increase : KeysIncrease entries) (key : K) :
    (above entries key).head? = entries.find? fun entry => key < entry.1 := by
  rw [above_eq_filter increase, head?_filter]

/-- Moving `upper_bound` past the first entry above a key shortens what is left. -/
theorem length_above_lt {entries : List (Σ _ : K, V)} (increase : KeysIncrease entries)
    {key : K} {entry : Σ _ : K, V} (first : (above entries key).head? = some entry) :
    (above entries entry.1).length < (above entries key).length := by
  rw [above_eq_filter increase] at first ⊢
  rw [above_eq_filter increase]
  have member : entry ∈ entries.filter fun other => key < other.1 := mem_of_mem_head? first
  have below : key < entry.1 := by simpa using (mem_filter.mp member).2
  have sub : (entries.filter fun other => entry.1 < other.1).Sublist
      (entries.filter fun other => key < other.1) :=
    monotone_filter_right entries fun other passes => by
      simp only [decide_eq_true_eq] at passes ⊢
      exact below.trans passes
  have absent : entry ∉ entries.filter fun other => entry.1 < other.1 := by simp
  exact lt_of_le_of_ne sub.length_le fun same => absent ((sub.eq_of_length same) ▸ member)

theorem mem_above {entries : List (Σ _ : K, V)} (increase : KeysIncrease entries) {key : K}
    {entry : Σ _ : K, V} : entry ∈ above entries key ↔ entry ∈ entries ∧ key < entry.1 := by
  rw [above_eq_filter increase, mem_filter, decide_eq_true_iff]

theorem KeysIncrease.above {entries : List (Σ _ : K, V)} (increase : KeysIncrease entries)
    (key : K) : KeysIncrease (RadardFormal.Support.above entries key) :=
  increase.sublist (dropWhile_sublist _)

/-- Along increasing keys, the first entry that passes a test has the least key among
those that pass it. -/
theorem le_of_find?_eq_some {test : (Σ _ : K, V) → Bool} {found : Σ _ : K, V} :
    ∀ {entries : List (Σ _ : K, V)}, KeysIncrease entries → entries.find? test = some found →
      ∀ other ∈ entries, test other = true → found.1 ≤ other.1
  | [], _, first, _, _, _ => by simp at first
  | entry :: rest, increase, first, other, member, passes => by
    rw [find?_cons] at first
    cases testEntry : test entry with
    | true =>
      rw [testEntry] at first
      obtain rfl := Option.some.inj first
      rcases mem_cons.mp member with rfl | later
      · exact le_refl _
      · exact (increase.lt_of_mem later).le
    | false =>
      rw [testEntry] at first
      rcases mem_cons.mp member with rfl | later
      · rw [testEntry] at passes
        cases passes
      · exact le_of_find?_eq_some increase.of_cons first other later passes

/-! ## Optional least elements -/

/-- `answer` is the least element of `keys`, or nothing when `keys` is empty. -/
def LeastOf (keys : Set K) (answer : Option K) : Prop :=
  (∀ n, answer = some n → IsLeast keys n) ∧ (answer = none → keys = ∅)

/-- Cutting a set at a lower set keeps its least element if that is in the lower set, and
nothing otherwise. -/
theorem isLeast_inter_of_lower {keys below : Set K} {least : K} (isLeast : IsLeast keys least)
    (lower : ∀ m n, m ≤ n → n ∈ below → m ∈ below) :
    (least ∈ below → IsLeast (keys ∩ below) least) ∧ (least ∉ below → keys ∩ below = ∅) := by
  constructor
  · intro inside
    exact ⟨⟨isLeast.1, inside⟩, fun _ member => isLeast.2 member.1⟩
  · intro outside
    ext m
    simp only [Set.mem_inter_iff, Set.mem_empty_iff_false, iff_false, not_and]
    intro member inside
    exact outside (lower _ _ (isLeast.2 member) inside)

end RadardFormal.Support
