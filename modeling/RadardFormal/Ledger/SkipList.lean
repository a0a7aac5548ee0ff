import Mathlib.Data.List.Basic
import RadardFormal.Protocol.Basics

/-!
# Skip lists of ledger hashes

A ledger keeps the hashes of earlier ledgers in `ltLEDGER_HASHES` entries of two kinds:
`keylet::skip ()` rolls the hashes of the last 256 ledgers, and `keylet::skip (seq)`, one entry
per block of 65536 sequence numbers, collects the hash of every ledger of the block whose
sequence is a multiple of 256.  `Ledger::updateSkipList` pushes the parent's hash when a ledger
is built on its parent, and `hashOfSeq` reads an ancestor's hash back by counting from the end
of a list.

A ledger here is its sequence number, its hash and parent hash, and its skip-list entries:
nothing else of its state is read or written by the two functions.  A key is the preimage of its
hash, as in `Ledger.Entries`.  `LedgerIndex` is a 32-bit unsigned number; sequences are `Nat`s
here, with the two subtractions that may wrap written as such (`sub32`).

Along any chain of ledgers each built on the one before, `hashOfSeq` returns an ancestor's hash
exactly when the ancestor is at most 256 back or its sequence is a multiple of 256, and nothing
otherwise (`hashOfSeq_chain`).  The proof carries what the lists hold of the chain (`Records`),
which needs nothing of the first ledger; the shape of the lists (`SkipShape`) is kept from a
first ledger that has it, as the genesis ledger, with no lists, does.
-/

namespace RadardFormal.Ledger.SkipList

open RadardFormal.Protocol

/-- The keys of skip-list entries. -/
inductive SkipKey where
  /-- `keylet::skip ()`, `getLedgerHashIndex ()`. -/
  | rolling
  /-- `keylet::skip (ledger)`, `getLedgerHashIndex (ledger)`, hashed from `ledger >> 16`. -/
  | block (index : Nat)
  deriving DecidableEq, Repr

/-- `keylet::skip (ledger)`. -/
def skipKey (ledger : Nat) : SkipKey := .block (ledger >>> 16)

/-- An `ltLEDGER_HASHES` entry: `sfHashes` and `sfLastLedgerSequence`. -/
structure LedgerHashes where
  hashes : List Uint256
  lastLedgerSequence : Nat

/-- The skip-list entries of a ledger's state. -/
abbrev Skips := SkipKey → Option LedgerHashes

/-- A ledger: the fields of its `LedgerInfo` the two functions read, and its skip-list entries. -/
structure LedgerInfo where
  seq : Nat
  hash : Uint256
  parentHash : Uint256
  skips : Skips

/-- `rawInsert` or `rawReplace` of `entry` under `key`. -/
def setSkip (skips : Skips) (key : SkipKey) (entry : LedgerHashes) : Skips :=
  fun k => if k = key then some entry else skips k

/-- The `sfHashes` of the entry `peek` returns; a new `SLE` starts with none. -/
def hashesOf : Option LedgerHashes → List Uint256
  | some entry => entry.hashes
  | none => []

/-- The rolling list before a hash is pushed: its oldest hash erased when it holds 256. -/
def trimRolling (hashes : List Uint256) : List Uint256 :=
  if hashes.length = 256 then hashes.drop 1 else hashes

/-- The first block of `updateSkipList`: the record of every 256th ledger. -/
def recordBlock (skips : Skips) (prevIndex : Nat) (parentHash : Uint256) : Skips :=
  if prevIndex &&& 0xff = 0 then
    let k := skipKey prevIndex
    setSkip skips k ⟨hashesOf (skips k) ++ [parentHash], prevIndex⟩
  else skips

/-- The second block of `updateSkipList`: the record of the past 256 ledgers. -/
def recordRolling (skips : Skips) (prevIndex : Nat) (parentHash : Uint256) : Skips :=
  setSkip skips .rolling ⟨trimRolling (hashesOf (skips .rolling)) ++ [parentHash], prevIndex⟩

/-- `Ledger::updateSkipList`. -/
def updateSkipList (ledger : LedgerInfo) : LedgerInfo :=
  -- genesis ledger has no previous ledger
  if ledger.seq = 0 then ledger
  else
    let prevIndex := ledger.seq - 1
    { ledger with
      skips := recordRolling (recordBlock ledger.skips prevIndex ledger.parentHash) prevIndex
        ledger.parentHash }

/-- `a - b` of two `std::uint32_t`s. -/
def sub32 (a b : Nat) : Nat := (a + 2 ^ 32 - b % 2 ^ 32) % 2 ^ 32

/-- A `std::uint32_t` converted to `int`. -/
def toInt32 (value : Nat) : Int :=
  if value % 2 ^ 32 < 2 ^ 31 then ((value % 2 ^ 32 : Nat) : Int) else ((value % 2 ^ 32 : Nat) : Int) - 2 ^ 32

/-- The `Within 256...` block of `hashOfSeq`: the hash it returns from `keylet::skip ()`. -/
def recentHash (ledger : LedgerInfo) (seq : Nat) : Option Uint256 :=
  let diff := toInt32 (sub32 ledger.seq seq)
  if diff ≤ 256 then
    match ledger.skips .rolling with
    | some entry =>
      -- `vec.size () >= diff` converts a negative `diff` to a `size_t` above any size
      if 0 ≤ diff ∧ diff.toNat ≤ entry.hashes.length then
        entry.hashes[entry.hashes.length - diff.toNat]?
      else none
    | none => none
  else none

/-- The `in skiplist` part of `hashOfSeq`: the hash it returns from `keylet::skip (seq)`. -/
def blockHash (ledger : LedgerInfo) (seq : Nat) : Option Uint256 :=
  match ledger.skips (skipKey seq) with
  | some entry =>
    let diff := sub32 entry.lastLedgerSequence seq >>> 8
    if entry.hashes.length > diff then entry.hashes[entry.hashes.length - diff - 1]? else none
  | none => none

/-- `hashOfSeq (ledger, seq, journal)`. -/
def hashOfSeq (ledger : LedgerInfo) (seq : Nat) : Option Uint256 :=
  -- Easy cases...
  if seq > ledger.seq then none
  else if seq = ledger.seq then some ledger.hash
  else if seq = sub32 ledger.seq 1 then some ledger.parentHash
  else
    match recentHash ledger seq with
    | some hash => some hash
    | none => if seq &&& 0xff ≠ 0 then none else blockHash ledger seq

/-! ## Chains of ledgers -/

/-- `child` is built on `parent`: the next sequence number, the parent's hash as its parent
hash, and the parent's state with one `updateSkipList`; its own hash is that of its state. -/
def Derived (parent child : LedgerInfo) : Prop :=
  child = updateSkipList ⟨parent.seq + 1, child.hash, parent.hash, parent.skips⟩

/-- Ledgers `L g, L (g + 1), …, L n`, each built on the one before it. -/
structure Chain (L : Nat → LedgerInfo) (g n : Nat) : Prop where
  seq_first : (L g).seq = g
  derived : ∀ k, g ≤ k → k < n → Derived (L k) (L (k + 1))

/-! ## The operations, one lemma each -/

theorem and_0xff (n : Nat) : n &&& 0xff = n % 256 := Nat.and_two_pow_sub_one_eq_mod n 8

theorem skipKey_eq (n : Nat) : skipKey n = .block (n / 65536) := by
  rw [skipKey, Nat.shiftRight_eq_div_pow]

theorem sub32_of_le {a b : Nat} (le : b ≤ a) (small : a < 2 ^ 32) : sub32 a b = a - b := by
  unfold sub32
  omega

theorem toInt32_of_lt {value : Nat} (small : value < 2 ^ 31) : toInt32 value = value := by
  unfold toInt32
  split <;> omega

/-- A difference above 256 is either still above 256 as an `int`, or negative. -/
theorem toInt32_far {value : Nat} (far : 256 < value) (small : value < 2 ^ 32) :
    256 < toInt32 value ∨ toInt32 value < 0 := by
  unfold toInt32
  split <;> omega

@[simp] theorem setSkip_same (skips : Skips) (key : SkipKey) (entry : LedgerHashes) :
    setSkip skips key entry key = some entry := by
  simp [setSkip]

@[simp] theorem setSkip_other (skips : Skips) {key k : SkipKey} (entry : LedgerHashes) (other : k ≠ key) :
    setSkip skips key entry k = skips k := by
  simp [setSkip, other]

@[simp] theorem recordBlock_rolling (skips : Skips) (prevIndex : Nat) (parentHash : Uint256) :
    recordBlock skips prevIndex parentHash .rolling = skips .rolling := by
  unfold recordBlock
  split
  · exact setSkip_other _ _ (by simp [skipKey])
  · rfl

theorem recordBlock_block (skips : Skips) (prevIndex : Nat) (parentHash : Uint256) (index : Nat) :
    recordBlock skips prevIndex parentHash (.block index) =
      if prevIndex % 256 = 0 ∧ index = prevIndex / 65536 then
        some ⟨hashesOf (skips (.block index)) ++ [parentHash], prevIndex⟩
      else skips (.block index) := by
  unfold recordBlock
  rw [and_0xff, skipKey_eq]
  by_cases multiple : prevIndex % 256 = 0
  · by_cases same : index = prevIndex / 65536
    · subst same
      simp [multiple]
    · simp [multiple, same]
  · simp [multiple]

@[simp] theorem recordRolling_rolling (skips : Skips) (prevIndex : Nat) (parentHash : Uint256) :
    recordRolling skips prevIndex parentHash .rolling =
      some ⟨trimRolling (hashesOf (skips .rolling)) ++ [parentHash], prevIndex⟩ := by
  simp [recordRolling]

@[simp] theorem recordRolling_block (skips : Skips) (prevIndex : Nat) (parentHash : Uint256) (index : Nat) :
    recordRolling skips prevIndex parentHash (.block index) = skips (.block index) := by
  simp [recordRolling]

@[simp] theorem hash_updateSkipList (ledger : LedgerInfo) : (updateSkipList ledger).hash = ledger.hash := by
  unfold updateSkipList
  split <;> rfl

/-- What a step of a chain does: the child's sequence, parent hash and skip lists. -/
theorem Derived.eq {parent child : LedgerInfo} (derived : Derived parent child) :
    child.seq = parent.seq + 1 ∧ child.parentHash = parent.hash ∧
      child.skips = recordRolling (recordBlock parent.skips parent.seq parent.hash) parent.seq parent.hash := by
  rw [derived]
  simp [updateSkipList]

theorem Chain.seq_eq {L : Nat → LedgerInfo} {g n : Nat} (chain : Chain L g n) :
    ∀ k, g ≤ k → k ≤ n → (L k).seq = k := by
  intro k lower
  induction k, lower using Nat.le_induction with
  | base => exact fun _ => chain.seq_first
  | succ k lower ih =>
    intro upper
    rw [(chain.derived k lower (by omega)).eq.1, ih (by omega)]

/-! ## Lists of hashes -/

section Lists

variable (hashOf : Nat → Uint256)

/-- `hashes` ends with the hashes of the `count` ledgers before `seq`, the nearest last. -/
def EndsWith (seq count : Nat) (hashes : List Uint256) : Prop :=
  count ≤ hashes.length ∧
    ∀ back, 1 ≤ back → back ≤ count → hashes[hashes.length - back]? = some (hashOf (seq - back))

/-- `hashes`, last recorded at `last`, holds the hash of `k` as many places before its end as
there are multiples of 256 after `k` up to `last`. -/
def HoldsAt (k last : Nat) (hashes : List Uint256) : Prop :=
  (last - k) / 256 < hashes.length ∧ hashes[hashes.length - (last - k) / 256 - 1]? = some (hashOf k)

theorem getElem?_trimRolling {hashes : List Uint256} {back : Nat}
    (inside : back ≤ (trimRolling hashes).length) :
    (trimRolling hashes)[(trimRolling hashes).length - back]? = hashes[hashes.length - back]? := by
  unfold trimRolling at inside ⊢
  split
  · rename_i full
    rw [if_pos full, List.length_drop] at inside
    rw [List.length_drop, List.getElem?_drop]
    congr 1
    omega
  · rfl

theorem length_trimRolling (hashes : List Uint256) :
    (trimRolling hashes).length = if hashes.length = 256 then 255 else hashes.length := by
  unfold trimRolling
  split <;> simp [*]

/-- Pushing the hash of ledger `q` keeps a rolling list the record of the ledgers before. -/
theorem endsWith_push {g q : Nat} (above : g ≤ q) (old : List Uint256)
    (before : g < q → EndsWith hashOf q (min (q - g) 256) old) :
    EndsWith hashOf (q + 1) (min (q + 1 - g) 256) (trimRolling old ++ [hashOf q]) := by
  have kept := length_trimRolling old
  constructor
  · rw [List.length_append, List.length_singleton]
    by_cases earlier : g < q
    · have := (before earlier).1
      split at kept <;> omega
    · omega
  · intro back first within
    rw [List.length_append, List.length_singleton]
    by_cases last : back = 1
    · subst last
      rw [Nat.add_sub_cancel, List.getElem?_concat_length, Nat.add_sub_cancel]
    · -- an older hash: it stands in the parent's list `back - 1` places from its end
      have earlier : g < q := by omega
      obtain ⟨long, holds⟩ := before earlier
      have shift : (trimRolling old).length + 1 - back = (trimRolling old).length - (back - 1) := by omega
      have inside : back - 1 ≤ (trimRolling old).length := by split at kept <;> omega
      rw [shift, List.getElem?_append_left (by omega), getElem?_trimRolling inside,
        holds (back - 1) (by omega) (by omega)]
      congr 2
      omega

theorem holdsAt_push_self (q : Nat) (old : List Uint256) : HoldsAt hashOf q q (old ++ [hashOf q]) := by
  constructor
  · simp
  · simp only [Nat.sub_self, Nat.zero_div, List.length_append, List.length_singleton]
    rw [Nat.sub_zero, Nat.add_sub_cancel, List.getElem?_concat_length]

/-- Pushing the next multiple of 256 moves every earlier one a place further from the end. -/
theorem holdsAt_push {k q : Nat} {old : List Uint256} (h : Uint256) (earlier : k + 256 ≤ q)
    (holds : HoldsAt hashOf k (q - 256) old) : HoldsAt hashOf k q (old ++ [h]) := by
  obtain ⟨inside, found⟩ := holds
  have shift : (q - k) / 256 = (q - 256 - k) / 256 + 1 := by omega
  constructor
  · rw [List.length_append, List.length_singleton, shift]
    omega
  · rw [List.length_append, List.length_singleton, shift,
      show old.length + 1 - ((q - 256 - k) / 256 + 1) - 1 = old.length - (q - 256 - k) / 256 - 1 by omega,
      List.getElem?_append_left (by omega), found]

end Lists

/-- `last` is a multiple of 256 in the block of `k`, at least `k`, and the last multiple of 256
of the block below `seq`. -/
def LastInBlock (seq k last : Nat) : Prop :=
  last % 256 = 0 ∧ last / 65536 = k / 65536 ∧ k ≤ last ∧ last < seq ∧
    ∀ m, m % 256 = 0 → m / 65536 = k / 65536 → m < seq → m ≤ last

theorem lastInBlock_self {q : Nat} (multiple : q % 256 = 0) : LastInBlock (q + 1) q q :=
  ⟨multiple, rfl, Nat.le_refl q, Nat.lt_succ_self q, fun _ _ _ below => Nat.le_of_lt_succ below⟩

/-- Recording `q` in the block of an earlier `k`: the last multiple before was `q - 256`. -/
theorem lastInBlock_push {q k last : Nat} (last_in : LastInBlock q k last) (multiple : q % 256 = 0)
    (same : k / 65536 = q / 65536) (earlier : k < q) :
    last = q - 256 ∧ k + 256 ≤ q ∧ LastInBlock (q + 1) k q := by
  obtain ⟨lastMultiple, lastSame, atLeast, below, greatest⟩ := last_in
  have previous := greatest (q - 256) (by omega) (by omega) (by omega)
  refine ⟨by omega, by omega, multiple, same.symm, by omega, Nat.lt_succ_self q, ?_⟩
  intro m _ _ below'
  omega

/-- A step that records nothing in the block of `k` keeps its last multiple. -/
theorem lastInBlock_keep {q k last : Nat} (last_in : LastInBlock q k last)
    (elsewhere : ¬(q % 256 = 0 ∧ k / 65536 = q / 65536)) : LastInBlock (q + 1) k last := by
  obtain ⟨lastMultiple, lastSame, atLeast, below, greatest⟩ := last_in
  refine ⟨lastMultiple, lastSame, atLeast, by omega, fun m multiple sameBlock below' => ?_⟩
  -- `q` itself is not a multiple of 256 of the block, so `m` is below it
  have notQ : m ≠ q := by
    rintro rfl
    exact elsewhere ⟨multiple, sameBlock.symm⟩
  exact greatest m multiple sameBlock (by omega)

/-! ## What the lists hold of a chain -/

section Records

variable (g : Nat) (hashOf : Nat → Uint256)

/-- What the skip lists of `ledger` hold of the ledgers `g, g + 1, …` before it, whose hashes
are `hashOf`. -/
structure Records (ledger : LedgerInfo) : Prop where
  /-- The rolling list ends with the hashes of the last `min (seq - g) 256` of them. -/
  rolling : g < ledger.seq → ∃ entry, ledger.skips .rolling = some entry ∧
    EndsWith hashOf ledger.seq (min (ledger.seq - g) 256) entry.hashes
  /-- The list of the block of each multiple of 256 among them holds its hash. -/
  block : ∀ k, k % 256 = 0 → g ≤ k → k < ledger.seq → ∃ entry,
    ledger.skips (.block (k / 65536)) = some entry ∧ LastInBlock ledger.seq k entry.lastLedgerSequence ∧
      HoldsAt hashOf k entry.lastLedgerSequence entry.hashes

variable {g hashOf}

theorem records_first {ledger : LedgerInfo} (first : ledger.seq = g) : Records g hashOf ledger :=
  ⟨fun later => absurd later (by omega), fun _ _ lower below => absurd below (by omega)⟩

/-- One `updateSkipList` keeps the record, the parent's hash now in it. -/
theorem Records.step {parent child : LedgerInfo} (records : Records g hashOf parent)
    (above : g ≤ parent.seq) (hash : parent.hash = hashOf parent.seq) (derived : Derived parent child) :
    Records g hashOf child := by
  obtain ⟨seq, -, skips⟩ := derived.eq
  constructor
  · intro _
    refine ⟨_, by rw [skips, recordRolling_rolling], ?_⟩
    rw [seq, recordBlock_rolling, hash]
    refine endsWith_push hashOf above _ fun earlier => ?_
    obtain ⟨entry, found, ends⟩ := records.rolling earlier
    rwa [found, hashesOf]
  · intro k multiple lower below
    rw [seq] at below ⊢
    rw [skips, recordRolling_block, recordBlock_block]
    split_ifs with recorded
    · by_cases same : k = parent.seq
      · -- the parent is the multiple of 256 just recorded
        subst same
        exact ⟨_, rfl, lastInBlock_self multiple, hash ▸ holdsAt_push_self hashOf parent.seq _⟩
      · obtain ⟨entry, found, lastIn, holds⟩ := records.block k multiple lower (by omega)
        obtain ⟨previous, earlier, lastIn'⟩ :=
          lastInBlock_push lastIn recorded.1 recorded.2 (by omega)
        rw [found, hashesOf]
        exact ⟨_, rfl, lastIn', holdsAt_push hashOf parent.hash earlier (previous ▸ holds)⟩
    · -- nothing is recorded in the block of `k`, and `k` is not the parent
      have notParent : k ≠ parent.seq := by
        rintro rfl
        exact recorded ⟨multiple, rfl⟩
      obtain ⟨entry, found, lastIn, holds⟩ := records.block k multiple lower (by omega)
      exact ⟨entry, found, lastInBlock_keep lastIn fun both => recorded ⟨both.1, both.2⟩, holds⟩

end Records

/-- Every ledger of a chain holds the record of the chain before it. -/
theorem Chain.records {L : Nat → LedgerInfo} {g n : Nat} (chain : Chain L g n) :
    ∀ k, g ≤ k → k ≤ n → Records g (fun j => (L j).hash) (L k) := by
  intro k lower
  induction k, lower using Nat.le_induction with
  | base => exact fun _ => records_first chain.seq_first
  | succ k lower ih =>
    intro upper
    have seq := chain.seq_eq k lower (by omega)
    exact (ih (by omega)).step (by omega) (by rw [seq]) (chain.derived k lower (by omega))

/-! ## Reading the record back -/

section Lookup

variable {g : Nat} {hashOf : Nat → Uint256} {ledger : LedgerInfo} {s : Nat}

/-- The rolling list gives the hash of every ledger of the record at most 256 back, and nothing
further back. -/
theorem recentHash_of_records (records : Records g hashOf ledger) (bounded : ledger.seq < 2 ^ 32)
    (lower : g ≤ s) (below : s < ledger.seq) :
    recentHash ledger s = if ledger.seq - s ≤ 256 then some (hashOf s) else none := by
  unfold recentHash
  rw [sub32_of_le (by omega) bounded]
  by_cases near : ledger.seq - s ≤ 256
  · obtain ⟨entry, found, long, holds⟩ := records.rolling (by omega)
    rw [if_pos near, toInt32_of_lt (by omega), if_pos (by omega), found]
    simp only [Int.toNat_natCast]
    rw [if_pos ⟨by omega, by omega⟩, holds (ledger.seq - s) (by omega) (by omega)]
    congr 2
    omega
  · rw [if_neg near]
    rcases toInt32_far (by omega) (by omega : ledger.seq - s < 2 ^ 32) with above | negative
    · rw [if_neg (by omega)]
    · -- a negative difference passes `diff <= 256` and fails the size test
      rw [if_pos (by omega)]
      split
      · rw [if_neg (by omega)]
      · rfl

theorem blockHash_of_records (records : Records g hashOf ledger) (bounded : ledger.seq < 2 ^ 32)
    (multiple : s % 256 = 0) (lower : g ≤ s) (below : s < ledger.seq) :
    blockHash ledger s = some (hashOf s) := by
  obtain ⟨entry, found, ⟨-, -, atLeast, lastBelow, -⟩, inside, holds⟩ := records.block s multiple lower below
  have diff : sub32 entry.lastLedgerSequence s >>> 8 = (entry.lastLedgerSequence - s) / 256 := by
    rw [sub32_of_le atLeast (by omega), Nat.shiftRight_eq_div_pow]
  unfold blockHash
  rw [skipKey_eq, found]
  simp only
  rw [diff, if_pos inside, holds]

/-- `hashOfSeq` over a ledger that holds the record of the ledgers from `g` on: the hash of each
of them at most 256 back or at a multiple of 256, and nothing for the others. -/
theorem hashOfSeq_of_records (records : Records g hashOf ledger) (bounded : ledger.seq < 2 ^ 32)
    (hash : ledger.hash = hashOf ledger.seq)
    (parent : g < ledger.seq → ledger.parentHash = hashOf (ledger.seq - 1))
    (lower : g ≤ s) (upper : s ≤ ledger.seq) :
    hashOfSeq ledger s = if ledger.seq - s ≤ 256 ∨ s % 256 = 0 then some (hashOf s) else none := by
  unfold hashOfSeq
  rw [if_neg (by omega)]
  by_cases top : s = ledger.seq
  · subst top
    rw [if_pos rfl, if_pos (Or.inl (by omega)), hash]
  rw [if_neg top, sub32_of_le (by omega) bounded]
  by_cases previous : s = ledger.seq - 1
  · rw [if_pos previous, if_pos (Or.inl (by omega)), parent (by omega), previous]
  rw [if_neg previous, recentHash_of_records records bounded lower (by omega)]
  by_cases near : ledger.seq - s ≤ 256
  · rw [if_pos near, if_pos (Or.inl near)]
  · rw [if_neg near, and_0xff]
    simp only
    by_cases multiple : s % 256 = 0
    · rw [if_neg (by omega), blockHash_of_records records bounded multiple lower (by omega),
        if_pos (Or.inr multiple)]
    · rw [if_pos multiple, if_neg (by omega)]

end Lookup

/-! ## The shape of the lists -/

/-- The shape `updateSkipList` keeps the lists in, as `hashOfSeq` asserts it.  The rolling list
holds at most 256 hashes, the last the parent's, and was recorded at the parent's sequence.  The
list of a block was last recorded at the last multiple of 256 of the block below the ledger, and
holds at most one hash per multiple of 256 of the block up to that one. -/
structure SkipShape (ledger : LedgerInfo) : Prop where
  rolling : ∀ entry, ledger.skips .rolling = some entry →
    entry.hashes.length ≤ 256 ∧ entry.hashes.getLast? = some ledger.parentHash ∧
      entry.lastLedgerSequence + 1 = ledger.seq
  block : ∀ index entry, ledger.skips (.block index) = some entry →
    entry.lastLedgerSequence % 256 = 0 ∧ entry.lastLedgerSequence / 65536 = index ∧
      entry.lastLedgerSequence < ledger.seq ∧
      (∀ m, m % 256 = 0 → m / 65536 = index → m < ledger.seq → m ≤ entry.lastLedgerSequence) ∧
      entry.hashes.length ≤ entry.lastLedgerSequence % 65536 / 256 + 1

/-- A ledger without skip lists, as the genesis ledger, has the shape. -/
theorem skipShape_of_empty {ledger : LedgerInfo} (empty : ∀ key, ledger.skips key = none) :
    SkipShape ledger :=
  ⟨fun entry found => by simp [empty] at found, fun index entry found => by simp [empty] at found⟩

/-- Every list of a block holds at most 256 hashes. -/
theorem SkipShape.length_block_le {ledger : LedgerInfo} (shape : SkipShape ledger) {index : Nat}
    {entry : LedgerHashes} (found : ledger.skips (.block index) = some entry) : entry.hashes.length ≤ 256 := by
  have := (shape.block index entry found).2.2.2.2
  omega

theorem SkipShape.step {parent child : LedgerInfo} (shape : SkipShape parent) (derived : Derived parent child) :
    SkipShape child := by
  obtain ⟨seq, parentHash, skips⟩ := derived.eq
  constructor
  · intro entry found
    rw [skips, recordRolling_rolling, recordBlock_rolling, Option.some.injEq] at found
    subst found
    -- the rolling list of the parent held at most 256 hashes, so at most 255 are kept
    have short : (hashesOf (parent.skips .rolling)).length ≤ 256 := by
      cases old : parent.skips .rolling with
      | none => simp [hashesOf]
      | some entry => exact (shape.rolling entry old).1
    have kept := length_trimRolling (hashesOf (parent.skips .rolling))
    refine ⟨?_, by simp [parentHash], seq.symm⟩
    rw [List.length_append, List.length_singleton]
    split at kept <;> omega
  · intro index entry found
    rw [skips, recordRolling_block, recordBlock_block] at found
    split_ifs at found with recorded
    · rw [Option.some.injEq] at found
      subst found
      simp only [seq]
      refine ⟨recorded.1, recorded.2.symm, by omega, fun m _ _ below => by omega, ?_⟩
      -- the block's list was last recorded at an earlier multiple of 256 of the block
      cases old : parent.skips (.block index) with
      | none => simp [hashesOf]
      | some previous =>
        obtain ⟨multiple, same, below, -, length⟩ := shape.block index previous old
        simp only [hashesOf, List.length_append, List.length_singleton]
        omega
    · obtain ⟨multiple, same, below, greatest, length⟩ := shape.block index entry found
      rw [seq]
      refine ⟨multiple, same, by omega, fun m multiple' same' below' => ?_, length⟩
      have notParent : m ≠ parent.seq := by
        rintro rfl
        exact recorded ⟨multiple', same'.symm⟩
      exact greatest m multiple' same' (by omega)

/-- A chain whose first ledger has the shape keeps it. -/
theorem Chain.shape {L : Nat → LedgerInfo} {g n : Nat} (chain : Chain L g n) (start : SkipShape (L g)) :
    ∀ k, g ≤ k → k ≤ n → SkipShape (L k) := by
  intro k lower
  induction k, lower using Nat.le_induction with
  | base => exact fun _ => start
  | succ k lower ih =>
    intro upper
    exact (ih (by omega)).step (chain.derived k lower (by omega))

/-! ## Ancestors along a chain -/

/-- Along a chain of ledgers each built on the one before with one `updateSkipList`, `hashOfSeq`
of the last ledger gives the hash of every ledger of the chain at most 256 back or at a multiple
of 256, and nothing for the others; and the skip lists keep their shape from a first ledger that
has it. -/
theorem hashOfSeq_chain {L : Nat → LedgerInfo} {g n : Nat} (chain : Chain L g n) (bounded : n < 2 ^ 32) :
    (∀ s, g ≤ s → s ≤ n →
      hashOfSeq (L n) s = if n - s ≤ 256 ∨ s % 256 = 0 then some (L s).hash else none) ∧
    (SkipShape (L g) → ∀ k, g ≤ k → k ≤ n → SkipShape (L k)) := by
  refine ⟨fun s lower upper => ?_, chain.shape⟩
  have seq := chain.seq_eq n (by omega) (Nat.le_refl n)
  -- the last ledger's parent hash is the hash of the ledger before it
  have parent : g < (L n).seq → (L n).parentHash = (L ((L n).seq - 1)).hash := by
    intro later
    rw [seq] at later ⊢
    obtain ⟨previous, rfl⟩ : ∃ previous, n = previous + 1 := ⟨n - 1, by omega⟩
    rw [(chain.derived previous (by omega) (by omega)).eq.2.1, Nat.add_sub_cancel]
  have lookup := hashOfSeq_of_records (chain.records n (by omega) (Nat.le_refl n))
    (by rw [seq]; exact bounded) (by rw [seq]) parent lower (by rw [seq]; exact upper)
  rwa [seq] at lookup

/-- The chain built from `first`, ledger `k` with hash `hashOf k`. -/
def buildChain (first : LedgerInfo) (hashOf : Nat → Uint256) : Nat → LedgerInfo
  | 0 => first
  | k + 1 =>
    let parent := buildChain first hashOf k
    updateSkipList ⟨parent.seq + 1, hashOf (k + 1), parent.hash, parent.skips⟩

theorem chain_buildChain {first : LedgerInfo} (start : first.seq = 0) (hashOf : Nat → Uint256) (n : Nat) :
    Chain (buildChain first hashOf) 0 n := by
  refine ⟨start, fun k _ _ => ?_⟩
  have hash : (buildChain first hashOf (k + 1)).hash = hashOf (k + 1) := hash_updateSkipList _
  unfold Derived
  rw [hash]
  rfl

/-- A ledger at sequence zero with no skip lists. -/
def origin : LedgerInfo := ⟨0, Uint256.zero, Uint256.zero, fun _ => none⟩

theorem hashOfSeq_chain_from_origin :
    Chain (buildChain origin Uint256.ofNat) 0 70000 ∧ 70000 < 2 ^ 32 ∧
      ((∀ s, 0 ≤ s → s ≤ 70000 →
        hashOfSeq (buildChain origin Uint256.ofNat 70000) s =
          if 70000 - s ≤ 256 ∨ s % 256 = 0 then some (buildChain origin Uint256.ofNat s).hash else none) ∧
      (SkipShape (buildChain origin Uint256.ofNat 0) →
        ∀ k, 0 ≤ k → k ≤ 70000 → SkipShape (buildChain origin Uint256.ofNat k))) :=
  ⟨chain_buildChain rfl Uint256.ofNat 70000, by decide,
    hashOfSeq_chain (chain_buildChain rfl Uint256.ofNat 70000) (by decide)⟩

end RadardFormal.Ledger.SkipList
