import RadardFormal.Support.SortedMap

/-!
# Tallies of votes

A tally counts the votes cast for each value in a `std::map` from the value to its count,
`++votes[value]` adding one.  A value with no entry has no vote.

`pluralityIn` walks the entries in key order and keeps the first value, between two bounds,
whose count beats every count kept so far: the most voted value of the range, the least one
on a tie, or a default when no value of the range has a vote.  Its three facts are stated
for any walk of that kind (`pick_cases`, `pick_le`, `le_pick`) and then for the tally.

Nothing here depends on what the values are.
-/

namespace RadardFormal.Support

variable {α : Type} [LinearOrder α]

/-- The votes cast for each value. -/
structure Tally (α : Type) [LinearOrder α] where
  votes : SortedMap α Nat

namespace Tally

/-- The tally with no vote. -/
def empty : Tally α := ⟨SortedMap.empty⟩

/-- `++votes[value]`. -/
def addVote (tally : Tally α) (value : α) : Tally α :=
  ⟨tally.votes.alter value fun count => some (count.getD 0 + 1)⟩

/-- The votes for a value. -/
def count (tally : Tally α) (value : α) : Nat := (tally.votes.find? value).getD 0

@[simp] theorem count_empty (value : α) : (empty : Tally α).count value = 0 := rfl

@[simp] theorem count_addVote (tally : Tally α) (value probe : α) :
    (tally.addVote value).count probe = tally.count probe + if probe = value then 1 else 0 := by
  unfold addVote count
  rw [SortedMap.find?_alter]
  by_cases same : probe = value
  · subst same
    simp
  · simp [same]

/-- One vote for each value of a list, in order. -/
def addVotes (tally : Tally α) (values : List α) : Tally α := values.foldl addVote tally

@[simp] theorem count_addVotes (tally : Tally α) (values : List α) (probe : α) :
    (tally.addVotes values).count probe = tally.count probe + values.count probe := by
  induction values generalizing tally with
  | nil => simp [addVotes]
  | cons value rest ih =>
    simp only [addVotes, List.foldl_cons] at ih ⊢
    rw [ih, count_addVote, List.count_cons]
    by_cases same : probe = value
    · simp only [same, if_true, BEq.rfl]
      omega
    · simp only [same, if_false, beq_iff_eq, Ne.symm same]
      omega

/-- An entry of the tally is a value and its count. -/
theorem count_of_mem {tally : Tally α} {entry : Σ _ : α, Nat} (mem : entry ∈ tally.votes.entries) :
    tally.count entry.1 = entry.2 := by
  unfold count
  rw [(SortedMap.mem_entries_iff tally.votes).mp mem]
  rfl

/-- A value with a vote has an entry. -/
theorem mem_of_count_pos {tally : Tally α} {value : α} (voted : 0 < tally.count value) :
    ⟨value, tally.count value⟩ ∈ tally.votes.entries := by
  apply (SortedMap.mem_entries_iff tally.votes).mpr
  unfold count at voted ⊢
  cases found : tally.votes.find? value with
  | none => simp [found] at voted
  | some n => rfl

/-! ## The most voted value of a range -/

section Pick

variable (lo hi : α)

/-- One step of the walk: an entry of the range that beats the count kept replaces it. -/
def pickStep (best : α × Nat) (entry : Σ _ : α, Nat) : α × Nat :=
  if lo ≤ entry.1 ∧ entry.1 ≤ hi ∧ best.2 < entry.2 then (entry.1, entry.2) else best

variable {lo hi}

/-- The walk keeps where it started, or an entry of the range whose count beats the one it
started with. -/
theorem pick_cases (entries : List (Σ _ : α, Nat)) (start : α × Nat) :
    entries.foldl (pickStep lo hi) start = start ∨
      ∃ entry ∈ entries, lo ≤ entry.1 ∧ entry.1 ≤ hi ∧ start.2 < entry.2 ∧
        entries.foldl (pickStep lo hi) start = (entry.1, entry.2) := by
  induction entries generalizing start with
  | nil => exact .inl rfl
  | cons entry rest ih =>
    rw [List.foldl_cons]
    unfold pickStep
    split_ifs with beats
    · -- the walk goes on from this entry
      rcases ih (entry.1, entry.2) with kept | ⟨later, mem, low, high, above, picked⟩
      · exact .inr ⟨entry, List.mem_cons_self, beats.1, beats.2.1, beats.2.2, kept⟩
      · exact .inr ⟨later, List.mem_cons_of_mem _ mem, low, high, beats.2.2.trans above, picked⟩
    · rcases ih start with kept | ⟨later, mem, low, high, above, picked⟩
      · exact .inl kept
      · exact .inr ⟨later, List.mem_cons_of_mem _ mem, low, high, above, picked⟩

/-- The count kept never falls. -/
theorem pick_le (entries : List (Σ _ : α, Nat)) (start : α × Nat) :
    start.2 ≤ (entries.foldl (pickStep lo hi) start).2 := by
  rcases pick_cases entries start with kept | ⟨entry, -, -, -, above, picked⟩
  · rw [kept]
  · rw [picked]
    exact above.le

/-- Every entry of the range has at most the count kept at the end. -/
theorem le_pick (entries : List (Σ _ : α, Nat)) (start : α × Nat) {entry : Σ _ : α, Nat}
    (mem : entry ∈ entries) (low : lo ≤ entry.1) (high : entry.1 ≤ hi) :
    entry.2 ≤ (entries.foldl (pickStep lo hi) start).2 := by
  induction entries generalizing start with
  | nil => cases mem
  | cons first rest ih =>
    rw [List.foldl_cons]
    rcases List.mem_cons.mp mem with rfl | later
    · -- the entry was stepped over here, and the count kept is at least its count after
      have stepped : entry.2 ≤ (pickStep lo hi start entry).2 := by
        unfold pickStep
        split_ifs with beats
        · exact le_rfl
        · exact not_lt.mp fun below => beats ⟨low, high, below⟩
      exact stepped.trans (pick_le rest _)
    · exact ih _ later

end Pick

/-- The most voted value between `lo` and `hi`, the least one on a tie; `default` when no
value of the range has a vote. -/
def pluralityIn (tally : Tally α) (lo hi default : α) : α :=
  (tally.votes.entries.foldl (pickStep lo hi) (default, 0)).1

/-- The plurality is the default, or a value of the range with a vote. -/
theorem pluralityIn_cases (tally : Tally α) (lo hi default : α) :
    tally.pluralityIn lo hi default = default ∨
      (lo ≤ tally.pluralityIn lo hi default ∧ tally.pluralityIn lo hi default ≤ hi ∧
        0 < tally.count (tally.pluralityIn lo hi default)) := by
  unfold pluralityIn
  rcases pick_cases tally.votes.entries (default, 0) with kept | ⟨entry, mem, low, high, above, picked⟩
  · rw [kept]
    exact .inl rfl
  · rw [picked]
    exact .inr ⟨low, high, (count_of_mem mem).symm ▸ above⟩

/-- No value of the range has more votes than the plurality. -/
theorem count_le_pluralityIn (tally : Tally α) {lo hi : α} (default : α) {value : α} (low : lo ≤ value)
    (high : value ≤ hi) : tally.count value ≤ tally.count (tally.pluralityIn lo hi default) := by
  rcases Nat.eq_zero_or_pos (tally.count value) with none | voted
  · rw [none]
    exact Nat.zero_le _
  have bounded := le_pick tally.votes.entries (default, 0) (mem_of_count_pos voted) low high
  unfold pluralityIn
  rcases pick_cases tally.votes.entries (default, 0) with kept | ⟨entry, mem, -, -, -, picked⟩
  · rw [kept] at bounded
    exact absurd bounded (Nat.not_le.mpr voted)
  · rw [picked] at bounded ⊢
    rwa [count_of_mem mem]

/-- Once a value of the range has a vote, the plurality lies in the range. -/
theorem pluralityIn_mem_range (tally : Tally α) {lo hi : α} (default : α) {value : α} (low : lo ≤ value)
    (high : value ≤ hi) (voted : 0 < tally.count value) :
    lo ≤ tally.pluralityIn lo hi default ∧ tally.pluralityIn lo hi default ≤ hi := by
  unfold pluralityIn
  rcases pick_cases tally.votes.entries (default, 0) with kept | ⟨entry, -, low', high', -, picked⟩
  · -- the walk kept its start only if it met no vote of the range
    have bounded := le_pick tally.votes.entries (default, 0) (mem_of_count_pos voted) low high
    rw [kept] at bounded
    exact absurd bounded (Nat.not_le.mpr voted)
  · rw [picked]
    exact ⟨low', high'⟩

/-- A value of the range that alone has votes is the plurality. -/
theorem pluralityIn_eq_of_sole (tally : Tally α) {lo hi : α} (default : α) {value : α} (low : lo ≤ value)
    (high : value ≤ hi) (voted : 0 < tally.count value) (sole : ∀ other, other ≠ value → tally.count other = 0) :
    tally.pluralityIn lo hi default = value := by
  by_contra other
  have most := tally.count_le_pluralityIn default low high
  rw [sole _ other] at most
  omega

end Tally

end RadardFormal.Support
