import Mathlib.Data.Finset.Sort
import Mathlib.Data.Set.Finite.Basic
import RadardFormal.Support.SortedMap

/-!
# Walking from key to next key

A scan over an ordered store asks for the key after the one it holds, again and again, until
there is none.  When every answer is the least key above the one asked about, the scan lists
the keys above its start in increasing order, each once; over finitely many keys it ends, so
a walk on enough fuel is the whole scan.
-/

namespace RadardFormal.Support

variable {K : Type} [LinearOrder K]

/-- Follow `next` from `key` for at most `fuel` steps: the keys reached, in order. -/
def walk (next : K → Option K) : Nat → K → List K
  | 0, _ => []
  | fuel + 1, key =>
    match next key with
    | none => []
    | some found => found :: walk next fuel found

/-- A walk that only goes up never comes back to where it started. -/
theorem lt_of_mem_walk {next : K → Option K} (up : ∀ key found, next key = some found → key < found) :
    ∀ (fuel : Nat) (start m : K), m ∈ walk next fuel start → start < m := by
  intro fuel
  induction fuel with
  | zero => intro start m mem; cases mem
  | succ fuel ih =>
    intro start m mem
    cases found : next start with
    | none => simp [walk, found] at mem
    | some first =>
      have higher := up start first found
      simp only [walk, found, List.mem_cons] at mem
      rcases mem with rfl | later
      · exact higher
      · exact higher.trans (ih first m later)

section LeastAbove

variable {keys : Set K} {next : K → Option K}

/-- The walk that steps to the least key of `keys` above the current one lists, once the
fuel covers them, exactly the keys above its start in increasing order. -/
theorem walk_eq_of_leastOf (least : ∀ key, LeastOf {m | m ∈ keys ∧ key < m} (next key)) {start : K}
    {visited : List K} (increasing : visited.Pairwise (· < ·))
    (members : ∀ m, m ∈ visited ↔ m ∈ keys ∧ start < m) {fuel : Nat} (enough : visited.length ≤ fuel) :
    walk next fuel start = visited := by
  induction visited generalizing start fuel with
  | nil =>
    -- nothing lies above the start, so there is no next key
    have stop : next start = none := by
      cases found : next start with
      | none => rfl
      | some n => exact absurd ((members n).mpr ((least start).1 n found).1) List.not_mem_nil
    cases fuel with
    | zero => rfl
    | succ fuel => rw [walk, stop]
  | cons first rest ih =>
    obtain ⟨firstBelow, restIncreasing⟩ := List.pairwise_cons.mp increasing
    have firstAbove : first ∈ keys ∧ start < first := (members first).mp List.mem_cons_self
    -- the first key listed is the least above the start, so it is the one `next` finds
    have isLeast : IsLeast {m | m ∈ keys ∧ start < m} first := by
      refine ⟨firstAbove, fun m above => ?_⟩
      rcases List.mem_cons.mp ((members m).mpr above) with rfl | later
      · exact le_refl m
      · exact le_of_lt (firstBelow m later)
    have found : next start = some first := by
      cases answer : next start with
      | none =>
        have empty := (least start).2 answer
        exact absurd (show first ∈ {m | m ∈ keys ∧ start < m} from firstAbove) (by rw [empty]; exact id)
      | some n => rw [((least start).1 n answer).unique isLeast]
    have restMembers : ∀ m, m ∈ rest ↔ m ∈ keys ∧ first < m := by
      intro m
      constructor
      · intro later
        exact ⟨((members m).mp (List.mem_cons_of_mem first later)).1, firstBelow m later⟩
      · rintro ⟨inKeys, higher⟩
        rcases List.mem_cons.mp ((members m).mpr ⟨inKeys, firstAbove.2.trans higher⟩) with rfl | later
        · exact absurd higher (lt_irrefl m)
        · exact later
    cases fuel with
    | zero => cases enough
    | succ fuel =>
      rw [walk, found]
      exact congrArg (first :: ·) (ih restIncreasing restMembers (Nat.le_of_succ_le_succ enough))

/-- Over finitely many keys the walk ends: some list of the keys above the start, in
increasing order, is what every walk with enough fuel returns. -/
theorem exists_walk_eq (finite : Set.Finite keys) (least : ∀ key, LeastOf {m | m ∈ keys ∧ key < m} (next key))
    (start : K) :
    ∃ visited : List K, visited.Pairwise (· < ·) ∧ (∀ m, m ∈ visited ↔ m ∈ keys ∧ start < m) ∧
      ∀ fuel, visited.length ≤ fuel → walk next fuel start = visited := by
  let above := finite.toFinset.filter fun m => start < m
  have increasing : (above.sort).Pairwise (· < ·) := (Finset.sortedLT_sort above).pairwise
  have members : ∀ m, m ∈ above.sort ↔ m ∈ keys ∧ start < m := by
    intro m
    rw [Finset.mem_sort, Finset.mem_filter, Set.Finite.mem_toFinset]
  exact ⟨above.sort, increasing, members, fun _ enough => walk_eq_of_leastOf least increasing members enough⟩

end LeastAbove

/-! ## Sorted lists -/

section Sorted

variable {α : Type} (key : α → K)

/-- In a list sorted by `key`, the elements above `a` are the least of them followed by the
elements above that one. -/
theorem filter_lt_eq_cons {l : List α} (sorted : l.Pairwise fun x y => key x < key y) {a : K} {z : α}
    (member : z ∈ l) (above : a < key z) (least : ∀ w ∈ l, a < key w → key z ≤ key w) :
    l.filter (fun w => decide (a < key w)) = z :: l.filter fun w => decide (key z < key w) := by
  induction l with
  | nil => cases member
  | cons w ws ih =>
    obtain ⟨wBelow, restSorted⟩ := List.pairwise_cons.mp sorted
    by_cases wAbove : a < key w
    · -- the head is above `a`, so it is the least such element, and all after it lie above it
      have same : z = w := by
        rcases List.mem_cons.mp member with rfl | later
        · rfl
        · exact absurd (least w List.mem_cons_self wAbove) (not_le.mpr (wBelow z later))
      subst same
      rw [List.filter_cons_of_pos (by simpa using wAbove), List.filter_cons_of_neg (by simp),
        List.filter_eq_self.mpr fun v mem => by simpa using wAbove.trans (wBelow v mem),
        List.filter_eq_self.mpr fun v mem => by simpa using wBelow v mem]
    · have later : z ∈ ws := by
        rcases List.mem_cons.mp member with rfl | later
        · exact absurd above wAbove
        · exact later
      have notAboveZ : ¬key z < key w := fun lt => wAbove (above.trans lt)
      rw [List.filter_cons_of_neg (by simpa using wAbove), List.filter_cons_of_neg (by simpa using notAboveZ)]
      exact ih restSorted later fun v mem => least v (List.mem_cons_of_mem w mem)

/-- In a list sorted by `key`, the least element comes first and all the others lie above it. -/
theorem cons_filter_lt_eq {l : List α} (sorted : l.Pairwise fun x y => key x < key y) {z : α}
    (member : z ∈ l) (least : ∀ w ∈ l, key z ≤ key w) :
    z :: l.filter (fun w => decide (key z < key w)) = l := by
  cases l with
  | nil => cases member
  | cons w ws =>
    obtain ⟨wBelow, -⟩ := List.pairwise_cons.mp sorted
    have same : z = w := by
      rcases List.mem_cons.mp member with rfl | later
      · rfl
      · exact absurd (least w List.mem_cons_self) (not_le.mpr (wBelow z later))
    subst same
    rw [List.filter_cons_of_neg (by simp), List.filter_eq_self.mpr fun v mem => by simpa using wBelow v mem]

end Sorted

/-- The first index of `List.finRange n` that passes a test passes it, and no index before it
does. -/
theorem find?_finRange_eq_some {n : Nat} {p : Fin n → Bool} {i : Fin n}
    (found : (List.finRange n).find? p = some i) : p i = true ∧ ∀ j < i, p j = false := by
  obtain ⟨passes, before, after, split, failing⟩ := List.find?_eq_some_iff_append.mp found
  refine ⟨passes, fun j below => ?_⟩
  have sorted := List.pairwise_lt_finRange n
  rw [split, List.pairwise_append, List.pairwise_cons] at sorted
  have member : j ∈ before ++ i :: after := by
    rw [← split]
    exact List.mem_finRange j
  rcases List.mem_append.mp member with early | late
  · simpa using failing j early
  · -- an index at or after `i` is not below it
    rcases List.mem_cons.mp late with rfl | later
    · exact absurd below (lt_irrefl j)
    · exact absurd below (not_lt.mpr (le_of_lt (sorted.2.1.1 j later)))

end RadardFormal.Support
