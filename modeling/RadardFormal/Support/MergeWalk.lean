import Mathlib.Order.Basic
import Mathlib.Data.List.Sublists
import Mathlib.Algebra.Group.Nat.Defs
import Mathlib.Order.Lattice

/-!
# Merge walks over sorted lists

A merge walk matches the elements of one sorted sequence against a second sorted list
by keeping a cursor into the second list and moving it forward.  `seek` is one step
of the walk: it advances the cursor past the elements whose key is below a target and
stops at the first that is not, reporting a cursor that starts out empty and one that
runs off the end separately.

What a walk needs from `seek`: the cursor it returns is a suffix of the one it was given,
everything it passed over is below the target, and it never fails on a non-empty cursor.
Matching each target to the element `seek` stops at then picks a sublist, so no element
is matched twice, provided the targets increase strictly.
-/

namespace RadardFormal.Support

variable {α κ : Type} [LinearOrder κ] (key : α → κ)

/-- Advance a cursor while the key at its head is below `target`.  `none`: the cursor
was empty; `some none`: it ran off the end; `some (some (x, rest))`: it stopped at `x`. -/
def seek (target : κ) : List α → Option (Option (α × List α))
  | [] => none
  | x :: rest =>
    if key x < target then
      match rest with
      | [] => some none
      | _ :: _ => seek target rest
    else some (some (x, rest))

/-- A non-empty cursor is always read safely. -/
theorem seek_ne_none (target : κ) : ∀ (cursor : List α), cursor ≠ [] → seek key target cursor ≠ none
  | [], nonempty => absurd rfl nonempty
  | x :: rest, _ => by
    unfold seek
    split
    · match rest with
      | [] => simp
      | y :: ys => exact seek_ne_none target (y :: ys) (List.cons_ne_nil y ys)
    · simp

/-- Where `seek` stops: after a prefix of elements below the target, at one that is not. -/
theorem seek_eq_some_some (target : κ) :
    ∀ {cursor : List α} {x : α} {rest : List α},
      seek key target cursor = some (some (x, rest)) →
        ∃ skipped, cursor = skipped ++ x :: rest ∧ (∀ y ∈ skipped, key y < target) ∧
          target ≤ key x
  | [], _, _, stops => by simp [seek] at stops
  | y :: tail, x, rest, stops => by
    unfold seek at stops
    by_cases below : key y < target
    · rw [if_pos below] at stops
      match tail, stops with
      | z :: zs, stops =>
        obtain ⟨skipped, split, passed, atLeast⟩ := seek_eq_some_some target stops
        refine ⟨y :: skipped, by rw [split]; rfl, ?_, atLeast⟩
        intro w member
        rcases List.mem_cons.mp member with rfl | later
        · exact below
        · exact passed w later
    · rw [if_neg below] at stops
      obtain ⟨rfl, rfl⟩ := Prod.mk.inj (Option.some.inj (Option.some.inj stops))
      exact ⟨[], rfl, by simp, not_lt.mp below⟩

/-- A sublist of `x :: rest` whose keys all lie above the key of `x` is a sublist of
`rest`. -/
theorem sublist_of_key_lt_head {picked rest : List α} {x : α}
    (sub : List.Sublist picked (x :: rest)) (above : ∀ y ∈ picked, key x < key y) :
    List.Sublist picked rest := by
  rcases List.sublist_cons_iff.mp sub with inRest | ⟨tail, rfl, tailSub⟩
  · exact inRest
  · exact absurd (above x List.mem_cons_self) (lt_irrefl _)

end RadardFormal.Support
