import Mathlib.Data.Prod.Lex
import Mathlib.Data.Nat.Bitwise
import Mathlib.Data.List.Dedup
import RadardFormal.Support.SortedMap
import RadardFormal.Protocol.STTx

/-!
# The canonical order of a transaction set

Consensus applies the transactions of the agreed set, and the open ledger its retries, in
the order of a `CanonicalTXSet`: a `std::map` whose key is the sending account salted with
the set's hash, then the sequence, then the transaction id.  The salt hides which account
comes first; the rest of the key keeps each account's transactions together, in sequence
order.

`Key::operator<` is the lexicographic order of the three fields (`lessThan_iff`), so the
map is a `SortedMap` under that order.  The set carries as a field that each transaction
lies under the key `insert` files it under.  From the two, the transactions of one account
stand next to one another (`accounts_contiguous`) in increasing sequence
(`sequences_increase`); and since `insert` keeps a transaction already filed, inserting a
set of transactions gives one map whatever their order (`insertTxs_perm`).
-/

namespace RadardFormal.Protocol

/-- `to256 (AccountID)`: the account's 20 bytes copied to the front of a zeroed `uint256`,
where they are the most significant. -/
def AccountID.to256 (account : AccountID) : Uint256 :=
  ⟨⟨account.val.val * 2 ^ 96, by have := account.val.isLt; omega⟩⟩

/-- `base_uint::operator^=`: the exclusive or, word by word, so of the values. -/
def Uint256.xor (a b : Uint256) : Uint256 :=
  ⟨⟨a.val.val ^^^ b.val.val, Nat.xor_lt_two_pow a.val.isLt b.val.isLt⟩⟩

theorem AccountID.to256_injective : Function.Injective AccountID.to256 := by
  intro a b same
  have values : a.val.val * 2 ^ 96 = b.val.val * 2 ^ 96 :=
    congrArg (fun u : Uint256 => u.val.val) same
  exact AccountID.val_injective (Fin.ext (Nat.eq_of_mul_eq_mul_right (Nat.two_pow_pos 96) values))

theorem Uint256.xor_injective (salt : Uint256) : Function.Injective salt.xor := by
  intro a b same
  have values : salt.val.val ^^^ a.val.val = salt.val.val ^^^ b.val.val :=
    congrArg (fun u : Uint256 => u.val.val) same
  exact Uint256.val_injective (Fin.ext (Nat.xor_right_injective values))

end RadardFormal.Protocol

namespace RadardFormal.Tx

open RadardFormal.Protocol RadardFormal.Support

/-- `CanonicalTXSet::Key`: the salted account, the sequence and the transaction id. -/
structure CanonicalTXSet.Key where
  account : Uint256
  seq : Nat
  txID : Uint256
  deriving DecidableEq, Repr

namespace CanonicalTXSet.Key

/-- `Key::operator<`, the comparison the map orders its keys by. -/
def lessThan (lhs rhs : Key) : Bool :=
  if lhs.account < rhs.account then true
  else if lhs.account > rhs.account then false
  else if lhs.seq < rhs.seq then true
  else if lhs.seq > rhs.seq then false
  else lhs.txID < rhs.txID

/-- The fields in the order `operator<` compares them. -/
def asLex (key : Key) : Lex (Uint256 × Lex (Nat × Uint256)) :=
  toLex (key.account, toLex (key.seq, key.txID))

theorem asLex_injective : Function.Injective asLex := by
  rintro ⟨a, s, t⟩ ⟨a', s', t'⟩ same
  simp only [asLex, toLex_inj, Prod.mk.injEq] at same
  obtain ⟨rfl, rfl, rfl⟩ := same
  rfl

instance : LinearOrder Key := LinearOrder.lift' asLex asLex_injective

theorem lt_iff {a b : Key} :
    a < b ↔ a.account < b.account ∨ a.account = b.account ∧
      (a.seq < b.seq ∨ a.seq = b.seq ∧ a.txID < b.txID) := by
  show asLex a < asLex b ↔ _
  rw [asLex, asLex, Prod.Lex.toLex_lt_toLex, Prod.Lex.toLex_lt_toLex]

/-- `operator<` is the lexicographic order of the account, the sequence and the id: a strict
total order, as `std::map` requires. -/
theorem lessThan_iff (a b : Key) : a.lessThan b = true ↔ a < b := by
  rw [lt_iff]
  unfold lessThan
  split_ifs with below above seqBelow seqAbove
  · simp [below]
  · simp only [false_iff, not_or, not_and]
    exact ⟨not_lt.mpr above.le, fun same => absurd (same ▸ above) (lt_irrefl _)⟩
  · have same : a.account = b.account := le_antisymm (not_lt.mp above) (not_lt.mp below)
    simp [same, seqBelow]
  · have same : a.account = b.account := le_antisymm (not_lt.mp above) (not_lt.mp below)
    simp only [false_iff, not_or, not_and]
    exact ⟨below, fun _ => ⟨by omega, by omega⟩⟩
  · have same : a.account = b.account := le_antisymm (not_lt.mp above) (not_lt.mp below)
    have seqSame : a.seq = b.seq := by omega
    simp [same, seqSame]

/-- Along increasing keys the salted account never decreases. -/
theorem account_le_of_lt {a b : Key} (below : a < b) : a.account ≤ b.account := by
  rcases lt_iff.mp below with smaller | ⟨same, -⟩
  · exact smaller.le
  · exact same.le

end CanonicalTXSet.Key

/-- The key `insert` files a transaction under: its account salted with the set's hash, its
sequence and its id. -/
def CanonicalTXSet.keyOf (setHash : Uint256) (txn : STTx) : CanonicalTXSet.Key :=
  ⟨setHash.xor txn.account.to256, txn.sequence, txn.transactionID⟩

/-- `CanonicalTXSet`: the salt `mSetHash` and the map `mMap`, in which each transaction lies
under the key it was inserted with. -/
structure CanonicalTXSet where
  setHash : Uint256
  map : SortedMap CanonicalTXSet.Key STTx
  keyed : ∀ entry ∈ map.entries, entry.1 = CanonicalTXSet.keyOf setHash entry.2

namespace CanonicalTXSet

/-- Two transactions under keys of one salt with the same account came from one account. -/
theorem account_eq_of_keyOf {setHash : Uint256} {a b : STTx}
    (same : (keyOf setHash a).account = (keyOf setHash b).account) : a.account = b.account :=
  AccountID.to256_injective (Uint256.xor_injective setHash same)

theorem keyOf_eq_iff {setHash : Uint256} {a b : STTx} :
    keyOf setHash a = keyOf setHash b ↔
      a.account = b.account ∧ a.sequence = b.sequence ∧ a.transactionID = b.transactionID := by
  constructor
  · intro same
    have parts := Key.mk.inj same
    exact ⟨account_eq_of_keyOf parts.1, parts.2.1, parts.2.2⟩
  · rintro ⟨account, sequence, txID⟩
    simp [keyOf, account, sequence, txID]

theorem keyed_insert {setHash : Uint256} {map : SortedMap Key STTx}
    (keyed : ∀ entry ∈ map.entries, entry.1 = keyOf setHash entry.2) (txn : STTx) :
    ∀ entry ∈ (map.insert (keyOf setHash txn) txn).entries, entry.1 = keyOf setHash entry.2 := by
  intro entry member
  rcases SortedMap.mem_insert member with old | rfl
  · exact keyed entry old
  · rfl

/-- The constructor, and `reset`: an empty set with the given salt. -/
def make (saltHash : Uint256) : CanonicalTXSet :=
  ⟨saltHash, .empty, fun _ member => absurd member List.not_mem_nil⟩

/-- `insert`: file the transaction under its key; a transaction already under that key
stays (`std::map::insert`). -/
def insert (set : CanonicalTXSet) (txn : STTx) : CanonicalTXSet :=
  ⟨set.setHash, set.map.insert (keyOf set.setHash txn) txn, keyed_insert set.keyed txn⟩

/-- `erase`: drop the transaction under a key. -/
def erase (set : CanonicalTXSet) (key : Key) : CanonicalTXSet :=
  ⟨set.setHash, set.map.erase key, fun entry member => set.keyed entry (SortedMap.mem_erase member).2⟩

/-- The transactions, in the order from `begin ()` to `end ()`. -/
def txs (set : CanonicalTXSet) : List STTx := set.map.entries.map (·.2)

/-- `empty ()`. -/
def empty (set : CanonicalTXSet) : Bool := set.map.entries.isEmpty

/-- Insert transactions one after the other, as the loops that fill a set do. -/
def insertTxs (set : CanonicalTXSet) (txns : List STTx) : CanonicalTXSet :=
  txns.foldl insert set

@[simp] theorem insert_setHash (set : CanonicalTXSet) (txn : STTx) :
    (set.insert txn).setHash = set.setHash := rfl

@[simp] theorem erase_setHash (set : CanonicalTXSet) (key : Key) :
    (set.erase key).setHash = set.setHash := rfl

@[simp] theorem insertTxs_setHash (set : CanonicalTXSet) (txns : List STTx) :
    (set.insertTxs txns).setHash = set.setHash := by
  induction txns generalizing set with
  | nil => rfl
  | cons txn rest ih => exact (ih (set.insert txn)).trans (insert_setHash set txn)

@[simp] theorem make_txs (saltHash : Uint256) : (make saltHash).txs = [] := rfl

/-! ## The order of the transactions -/

/-- The transactions of one account stand next to one another: none of another account
lies between two of them. -/
theorem accounts_contiguous (set : CanonicalTXSet) {a b c : STTx} (between : [a, b, c].Sublist set.txs)
    (same : a.account = c.account) : b.account = a.account := by
  obtain ⟨entries, sub, shape⟩ := List.sublist_map_iff.mp between
  obtain ⟨x, y, z, rfl, rfl, rfl, rfl⟩ : ∃ x y z, entries = [x, y, z] ∧ a = x.2 ∧ b = y.2 ∧ c = z.2 := by
    rcases entries with _ | ⟨x, _ | ⟨y, _ | ⟨z, _ | ⟨w, rest⟩⟩⟩⟩ <;> simp at shape
    exact ⟨x, y, z, rfl, shape.1, shape.2.1, shape.2.2⟩
  have keys := fun entry (member : entry ∈ [x, y, z]) => set.keyed entry (sub.subset member)
  have salted : (keyOf set.setHash x.2).account = (keyOf set.setHash z.2).account := by
    simp only [keyOf, same]
  rw [← keys x (by simp), ← keys z (by simp)] at salted
  have middle := set.map.increasing.eq_of_between (g := Key.account)
    (fun _ _ below => Key.account_le_of_lt below) sub salted
  rw [keys y (by simp), keys x (by simp)] at middle
  exact account_eq_of_keyOf middle

/-- Each account's transactions come in increasing sequence order. -/
theorem sequences_increase (set : CanonicalTXSet) :
    set.txs.Pairwise fun a b => a.account = b.account → a.sequence ≤ b.sequence := by
  unfold txs
  rw [List.pairwise_map]
  refine set.map.increasing.imp_of_mem fun {x y} xMember yMember below same => ?_
  rw [set.keyed x xMember, set.keyed y yMember] at below
  rcases Key.lt_iff.mp below with smaller | ⟨-, earlier | ⟨equal, -⟩⟩
  · simp only [keyOf, same] at smaller
    exact absurd smaller (lt_irrefl _)
  · exact earlier.le
  · exact equal.le

/-- The canonical order: along the set each account's transactions stand together, none of
another account between two of them, in increasing sequence. -/
theorem accounts_grouped_in_sequence (set : CanonicalTXSet) :
    (∀ {a b c : STTx}, [a, b, c].Sublist set.txs → a.account = c.account → b.account = a.account) ∧
      set.txs.Pairwise fun a b => a.account = b.account → a.sequence ≤ b.sequence :=
  ⟨set.accounts_contiguous, set.sequences_increase⟩

/-! ## Filling a set -/

@[simp] theorem insert_map (set : CanonicalTXSet) (txn : STTx) :
    (set.insert txn).map = set.map.insert (keyOf set.setHash txn) txn := rfl

/-- No transaction lies in the set twice: each lies under its own key. -/
theorem txs_nodup (set : CanonicalTXSet) : set.txs.Nodup := by
  unfold txs
  rw [List.Nodup, List.pairwise_map]
  refine set.map.increasing.imp_of_mem fun {x y} xMember yMember below same => ?_
  rw [set.keyed x xMember, set.keyed y yMember, same] at below
  exact lt_irrefl _ below

theorem mem_txs_iff (set : CanonicalTXSet) {txn : STTx} :
    txn ∈ set.txs ↔ set.map.find? (keyOf set.setHash txn) = some txn := by
  constructor
  · intro member
    obtain ⟨entry, entryMember, rfl⟩ := List.mem_map.mp member
    rw [← set.keyed entry entryMember]
    exact (SortedMap.mem_entries_iff _).mp entryMember
  · intro found
    exact List.mem_map.mpr ⟨_, (SortedMap.mem_entries_iff _).mpr found, rfl⟩

/-- After an insertion the set holds what it held and the transaction inserted, unless
another one with its id was there already. -/
theorem mem_insert_txs (set : CanonicalTXSet) {txn other : STTx}
    (identified : ∀ old ∈ set.txs, old.transactionID = txn.transactionID → old = txn) :
    other ∈ (set.insert txn).txs ↔ other ∈ set.txs ∨ other = txn := by
  constructor
  · intro member
    obtain ⟨entry, entryMember, rfl⟩ := List.mem_map.mp member
    rcases SortedMap.mem_insert entryMember with old | rfl
    · exact .inl (List.mem_map_of_mem old)
    · exact .inr rfl
  · rintro (old | rfl)
    · -- an insertion keeps every value already found
      rw [mem_txs_iff] at old ⊢
      rw [insert_map, insert_setHash, SortedMap.find?_insert]
      split_ifs with same
      · rw [← same, old]
        rfl
      · exact old
    · rw [mem_txs_iff, insert_map, insert_setHash, SortedMap.find?_insert, if_pos rfl]
      cases found : set.map.find? (keyOf set.setHash other) with
      | none => rfl
      | some old =>
        -- the transaction already under the key has the same id, so is the one inserted
        have entryMember := (SortedMap.mem_entries_iff _).mpr found
        have sameKey := set.keyed _ entryMember
        have oldMember : old ∈ set.txs := List.mem_map_of_mem entryMember
        rw [identified old oldMember (keyOf_eq_iff.mp sameKey).2.2.symm]
        rfl

/-- Inserting transactions that their ids determine: the set holds what it held and each
transaction inserted. -/
theorem mem_insertTxs_txs {other : STTx} :
    ∀ (set : CanonicalTXSet) (txns : List STTx),
      (∀ a ∈ set.txs ++ txns, ∀ b ∈ set.txs ++ txns, a.transactionID = b.transactionID → a = b) →
      (other ∈ (set.insertTxs txns).txs ↔ other ∈ set.txs ∨ other ∈ txns)
  | set, [], _ => by simp [insertTxs]
  | set, txn :: rest, identified => by
    have kept : ∀ other, other ∈ (set.insert txn).txs ↔ other ∈ set.txs ∨ other = txn :=
      fun other => mem_insert_txs set fun old oldMember sameID =>
        identified old (by simp [oldMember]) txn (by simp) sameID
    have within : ∀ a ∈ (set.insert txn).txs ++ rest, a ∈ set.txs ++ txn :: rest := by
      intro a member
      rcases List.mem_append.mp member with inserted | later
      · rcases (kept a).mp inserted with old | rfl <;> simp [*]
      · simp [later]
    rw [insertTxs, List.foldl_cons, ← insertTxs,
      mem_insertTxs_txs (set.insert txn) rest fun a aMember b bMember =>
        identified a (within a aMember) b (within b bMember), kept]
    simp [or_assoc]

/-- Filling a set with transactions that their ids determine: the set holds each of them
once. -/
theorem insertTxs_txs_perm (set : CanonicalTXSet) (txns : List STTx)
    (identified : ∀ a ∈ set.txs ++ txns, ∀ b ∈ set.txs ++ txns, a.transactionID = b.transactionID → a = b) :
    (set.insertTxs txns).txs.Perm (set.txs ++ txns).dedup := by
  rw [List.perm_ext_iff_of_nodup (txs_nodup _) (List.nodup_dedup _)]
  intro other
  rw [mem_insertTxs_txs set txns identified, List.mem_dedup, List.mem_append]

/-- Transactions that their ids determine are inserted, in any order, into the same set. -/
theorem insertTxs_perm (set : CanonicalTXSet) {txns txns' : List STTx} (perm : txns.Perm txns')
    (identified : ∀ a ∈ txns, ∀ b ∈ txns, a.transactionID = b.transactionID → a = b) :
    set.insertTxs txns = set.insertTxs txns' := by
  -- both are the map with the keyed transactions inserted in their order
  have asMap : ∀ list : List STTx, (set.insertTxs list).map =
      set.map.insertAll (list.map fun txn => (keyOf set.setHash txn, txn)) := by
    intro list
    induction list generalizing set with
    | nil => rfl
    | cons txn rest ih => exact ih (set.insert txn)
  have sameMap : (set.insertTxs txns).map = (set.insertTxs txns').map := by
    rw [asMap, asMap]
    refine SortedMap.insertAll_perm _ (perm.map _) fun a aMember b bMember sameKey => ?_
    obtain ⟨x, xMember, rfl⟩ := List.mem_map.mp aMember
    obtain ⟨y, yMember, rfl⟩ := List.mem_map.mp bMember
    exact identified x xMember y yMember (keyOf_eq_iff.mp sameKey).2.2
  cases hyp : set.insertTxs txns
  cases hyp' : set.insertTxs txns'
  have hashes := (insertTxs_setHash set txns).trans (insertTxs_setHash set txns').symm
  rw [hyp, hyp'] at sameMap hashes
  simp only at sameMap hashes
  subst sameMap hashes
  rfl

end CanonicalTXSet

end RadardFormal.Tx
