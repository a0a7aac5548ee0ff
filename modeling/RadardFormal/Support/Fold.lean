import Mathlib.Data.List.Basic

/-!
# Runs as left folds

A run applies one step to each input in turn, `List.foldl`.  What every step keeps holds at
the end of the run (`foldl_induction`); a property that holds at the end but not at the
start was made true by one of the steps (`exists_step_of_foldl`).

Nothing here depends on what the states and inputs are.
-/

namespace RadardFormal.Support

variable {σ ι : Type} (step : σ → ι → σ)

theorem foldl_induction {P : σ → Prop} {inputs : List ι} {start : σ} (holds : P start)
    (keeps : ∀ state input, input ∈ inputs → P state → P (step state input)) :
    P (inputs.foldl step start) := by
  induction inputs generalizing start with
  | nil => exact holds
  | cons input rest ih =>
    exact ih (keeps start input List.mem_cons_self holds)
      fun state later mem => keeps state later (List.mem_cons_of_mem _ mem)

/-- Some step of the run made true what was false at its start. -/
theorem exists_step_of_foldl {P : σ → Prop} {inputs : List ι} {start : σ} (before : ¬P start)
    (after : P (inputs.foldl step start)) : ∃ input ∈ inputs, ∃ state, ¬P state ∧ P (step state input) := by
  induction inputs generalizing start with
  | nil => exact absurd after before
  | cons input rest ih =>
    by_cases made : P (step start input)
    · exact ⟨input, List.mem_cons_self, start, before, made⟩
    · obtain ⟨later, mem, state, was, is⟩ := ih made after
      exact ⟨later, List.mem_cons_of_mem _ mem, state, was, is⟩

/-- A property of the numbers that fails at zero and holds at `n` first holds after some
`j` below `n` where it fails. -/
theorem exists_crossing {P : Nat → Prop} (start : ¬P 0) {n : Nat} (finish : P n) :
    ∃ j < n, ¬P j ∧ P (j + 1) := by
  induction n with
  | zero => exact absurd finish start
  | succ n ih =>
    by_cases earlier : P n
    · obtain ⟨j, below, fails, holds⟩ := ih earlier
      exact ⟨j, Nat.lt_succ_of_lt below, fails, holds⟩
    · exact ⟨n, Nat.lt_succ_self n, earlier, finish⟩

end RadardFormal.Support
