import RadardFormal.Support.SortedMap

/-!
# Filling a map under a budget

A loop that inserts entries into a map and spends one unit of a budget on each, returning
early once the budget is spent (`map.insert (...); if (--budget <= 0) return false;`).  The
map and the budget are the state and the early return is an exception, so that the loops
around the one that spends the last unit return too.

However the loops are nested, a run records a sequence of entries, and it is `recordAll` of
that sequence: `recordAll_append` glues the sequences of consecutive loops.  `recordAll_run`
says what a run leaves: the first `budget` entries inserted, and an early return exactly when
there are at least `budget` of them.
-/

namespace RadardFormal.Support

variable {K V ε : Type} [LinearOrder K]

/-- A computation that inserts entries into a map while spending a budget, and stops with an
exception. -/
abbrev Budgeted (K V ε : Type) [LinearOrder K] := ExceptT ε (StateM (SortedMap K V × Int))

namespace Budgeted

/-- Insert one entry and spend one unit; stop with `spent` once nothing is left. -/
def record (spent : ε) (key : K) (value : V) : Budgeted K V ε Unit :=
  ExceptT.mk do
    let (map, budget) ← get
    set (map.insert key value, budget - 1)
    pure (if budget - 1 ≤ 0 then .error spent else .ok ())

/-- Record entries in order. -/
def recordAll (spent : ε) (entries : List (K × V)) : Budgeted K V ε Unit :=
  entries.forM fun entry => record spent entry.1 entry.2

@[simp] theorem recordAll_nil (spent : ε) : recordAll spent ([] : List (K × V)) = pure () := rfl

theorem recordAll_cons (spent : ε) (entry : K × V) (entries : List (K × V)) :
    recordAll spent (entry :: entries) =
      (do record spent entry.1 entry.2; recordAll spent entries) := rfl

theorem recordAll_append (spent : ε) (first second : List (K × V)) :
    recordAll spent (first ++ second) = (do recordAll spent first; recordAll spent second) :=
  List.forM_append

/-- A loop whose body records a sequence for each index records their concatenation. -/
theorem forM_recordAll {ι : Type} (spent : ε) (indices : List ι) (each : ι → List (K × V)) :
    (indices.forM fun i => recordAll spent (each i)) = recordAll spent (indices.flatMap each) := by
  induction indices with
  | nil => rfl
  | cons i rest ih =>
    show (do recordAll spent (each i); rest.forM fun i => recordAll spent (each i)) = _
    rw [ih, List.flatMap_cons, recordAll_append]

theorem recordAll_singleton (spent : ε) (key : K) (value : V) :
    recordAll spent [(key, value)] = record spent key value := by
  rw [recordAll_cons, recordAll_nil, bind_pure]

theorem record_run (spent : ε) (key : K) (value : V) (map : SortedMap K V) (budget : Int) :
    (record spent key value).run.run (map, budget) =
      (if budget - 1 ≤ 0 then .error spent else .ok (), (map.insert key value, budget - 1)) := rfl

/-- Recording one entry and going on: the rest runs unless that entry spent the budget. -/
theorem record_bind_run {α : Type} (spent : ε) (key : K) (value : V) (next : Budgeted K V ε α)
    (map : SortedMap K V) (budget : Int) :
    (do record spent key value; next).run.run (map, budget) =
      if budget - 1 ≤ 0 then (.error spent, (map.insert key value, budget - 1))
      else next.run.run (map.insert key value, budget - 1) := by
  by_cases last : budget - 1 ≤ 0
  · rw [if_pos last, ExceptT.run_bind, StateT.run_bind, record_run, if_pos last]
    rfl
  · rw [if_neg last, ExceptT.run_bind, StateT.run_bind, record_run, if_neg last]
    rfl

/-- A run from a positive budget inserts the entries it reaches, and stops early exactly when
the budget does not cover them all. -/
theorem recordAll_run (spent : ε) (entries : List (K × V)) (map : SortedMap K V) {budget : Int}
    (positive : 0 < budget) :
    (recordAll spent entries).run.run (map, budget) =
      (if entries.length < budget then .ok () else .error spent,
        (map.insertAll (entries.take budget.toNat), budget - min (entries.length : Int) budget)) := by
  induction entries generalizing map budget with
  | nil =>
    have none : ((([] : List (K × V)).length : Nat) : Int) = 0 := rfl
    rw [none, if_pos positive, min_eq_left positive.le, Int.sub_zero, List.take_nil]
    rfl
  | cons entry rest ih =>
    rw [recordAll_cons, record_bind_run]
    by_cases last : budget - 1 ≤ 0
    · have one : budget = 1 := by omega
      subst one
      have beyond : ¬((rest.length + 1 : Nat) : Int) < 1 := by omega
      rw [if_pos last, List.length_cons, if_neg beyond, min_eq_right (by omega)]
      rfl
    · have remaining : 0 < budget - 1 := by omega
      have taken : budget.toNat = (budget - 1).toNat + 1 := by omega
      have within : (rest.length : Int) < budget - 1 ↔ ((rest.length + 1 : Nat) : Int) < budget := by
        omega
      have left : budget - 1 - min (rest.length : Int) (budget - 1) =
          budget - min ((rest.length + 1 : Nat) : Int) budget := by
        omega
      rw [if_neg last, ih _ remaining, List.length_cons, taken, List.take_succ_cons, left]
      simp only [within, SortedMap.insertAll, List.foldl_cons]

end Budgeted

end RadardFormal.Support
