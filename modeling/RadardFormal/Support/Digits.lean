import Mathlib.Order.Basic
import Mathlib.Algebra.Group.Nat.Defs

/-!
# Big-endian digits of a fixed-width number

The `n` digits in base `b` of a number below `b ^ n`, the most significant first.  Two such
numbers with the same digits are equal, and the first digit where they differ orders them:
comparing fixed-width words as numbers is comparing their digits lexicographically.
-/

namespace RadardFormal.Support.Digits

/-- Digit `i` of the `n` digits of `x` in base `b`, the most significant first. -/
def digit (b n x i : Nat) : Nat := x / b ^ (n - 1 - i) % b

/-- The number that the first `k` of those digits form. -/
def leading (b n x k : Nat) : Nat := x / b ^ (n - k)

section

variable {b n x y : Nat}

theorem leading_succ {k : Nat} (inside : k < n) :
    leading b n x (k + 1) = leading b n x k * b + digit b n x k := by
  have split : n - k = (n - 1 - k) + 1 := by omega
  unfold leading digit
  rw [split, Nat.pow_succ, ← Nat.div_div_eq_div_mul, show n - (k + 1) = n - 1 - k by omega,
    Nat.div_add_mod']

theorem leading_zero (below : x < b ^ n) : leading b n x 0 = 0 :=
  Nat.div_eq_of_lt below

theorem leading_full : leading b n x n = x := by
  simp [leading]

/-- Numbers with the same first `k` digits have the same leading part. -/
theorem leading_eq {k : Nat} (inside : k ≤ n) (hx : x < b ^ n) (hy : y < b ^ n)
    (same : ∀ i < k, digit b n x i = digit b n y i) : leading b n x k = leading b n y k := by
  induction k with
  | zero => rw [leading_zero hx, leading_zero hy]
  | succ k ih =>
    rw [leading_succ (by omega), leading_succ (by omega), ih (by omega) fun i below => same i (by omega),
      same k (by omega)]

theorem eq_of_digit_eq (hx : x < b ^ n) (hy : y < b ^ n)
    (same : ∀ i < n, digit b n x i = digit b n y i) : x = y := by
  have whole := leading_eq (Nat.le_refl n) hx hy same
  rwa [leading_full, leading_full] at whole

/-- The first digit where two numbers differ orders them. -/
theorem lt_of_digit_lt {i : Nat} (inside : i < n) (hx : x < b ^ n) (hy : y < b ^ n)
    (same : ∀ j < i, digit b n x j = digit b n y j) (less : digit b n x i < digit b n y i) :
    x < y := by
  have shared := leading_eq (Nat.le_of_lt inside) hx hy same
  have leadingLess : leading b n x (i + 1) < leading b n y (i + 1) := by
    rw [leading_succ inside, leading_succ inside, shared]
    omega
  exact Nat.lt_of_div_lt_div leadingLess

end

end RadardFormal.Support.Digits
