import Mathlib.Data.Nat.Digits.Lemmas

/-!
# Base conversion over fixed-width digit arrays

A number kept as a fixed number of digits in some base, the most significant first, and
the schoolbook step that multiplies it by a small factor and adds a carry, walking from the
last digit to the first.  Folding that step over the digits of a number in one base writes
the number in another: if the target width is wide enough the carry out of the top digit
is always zero, and dropping the leading zeros leaves Mathlib's digits of the number.

The value of a digit list is `Nat.ofDigits` of its reverse, so Mathlib's lemmas about
`Nat.digits` apply after one rewrite.
-/

namespace RadardFormal.Support.Radix

/-- The number that `digits` write in `base`, the most significant digit first. -/
def value (base : Nat) (digits : List Nat) : Nat := Nat.ofDigits base digits.reverse

@[simp] theorem value_nil (base : Nat) : value base [] = 0 := rfl

theorem value_cons (base digit : Nat) (digits : List Nat) :
    value base (digit :: digits) = digit * base ^ digits.length + value base digits := by
  rw [value, value, List.reverse_cons, Nat.ofDigits_append, Nat.ofDigits_singleton,
    List.length_reverse, Nat.add_comm, Nat.mul_comm]

theorem value_append (base : Nat) (front back : List Nat) :
    value base (front ++ back) = value base front * base ^ back.length + value base back := by
  rw [value, value, value, List.reverse_append, Nat.ofDigits_append, List.length_reverse,
    Nat.add_comm, Nat.mul_comm]

theorem value_lt {base : Nat} (one_lt : 1 < base) {digits : List Nat}
    (small : ∀ d ∈ digits, d < base) : value base digits < base ^ digits.length := by
  rw [value, ← List.length_reverse]
  exact Nat.ofDigits_lt_base_pow_length one_lt fun d mem => small d (List.mem_reverse.mp mem)

/-- Leading zeros do not change the number. -/
theorem value_dropWhile_zero (base : Nat) (digits : List Nat) :
    value base (digits.dropWhile (· == 0)) = value base digits := by
  induction digits with
  | nil => rfl
  | cons d ds ih =>
    by_cases zero : d = 0
    · simp [zero, ih, value_cons]
    · simp [zero]

theorem value_replicate_zero_append (base count : Nat) (digits : List Nat) :
    value base (List.replicate count 0 ++ digits) = value base digits := by
  rw [value, value, List.reverse_append, List.reverse_replicate, Nat.ofDigits_append_replicate_zero]

/-- Mathlib's digits of a number, turned most significant first, read back as it. -/
@[simp] theorem value_digits (base n : Nat) : value base (Nat.digits base n).reverse = n := by
  rw [value, List.reverse_reverse, Nat.ofDigits_digits]

/-- Digits below the base with the leading zeros dropped are the digits of their number. -/
theorem dropWhile_zero_eq_digits {base : Nat} (one_lt : 1 < base) {digits : List Nat}
    (small : ∀ d ∈ digits, d < base) :
    digits.dropWhile (· == 0) = (Nat.digits base (value base digits)).reverse := by
  induction digits with
  | nil => simp
  | cons d ds ih =>
    by_cases zero : d = 0
    · have rest := ih fun x mem => small x (List.mem_cons_of_mem d mem)
      simpa [zero, value_cons] using rest
    · -- a non-zero leading digit is the last of the little-endian digits
      have last : ∀ (h : (d :: ds).reverse ≠ []), (d :: ds).reverse.getLast h ≠ 0 := by
        simp [zero]
      have exact := Nat.digits_ofDigits base one_lt (d :: ds).reverse
        (fun x mem => small x (List.mem_reverse.mp mem)) last
      rw [List.dropWhile_cons_of_neg (by simpa using zero), value, exact, List.reverse_reverse]

/-- The canonical digits of a number start with a non-zero digit. -/
theorem head_digits_ne_zero (base n : Nat) (d : Nat) (rest : List Nat)
    (first : (Nat.digits base n).reverse = d :: rest) : d ≠ 0 := by
  have positive : n ≠ 0 := by
    rintro rfl
    simp at first
  have last := Nat.getLast_digit_ne_zero base positive
  rw [List.reverse_eq_cons_iff] at first
  simpa [first] using last

/-! ## Multiply and add over a fixed width -/

/-- `digits * factor + carry` over the same number of digits, the least significant digit
first: the new digits and the carry out of the top one. -/
def mulAdd (base factor : Nat) : List Nat → Nat → List Nat × Nat
  | [], carry => ([], carry)
  | d :: ds, carry =>
    let low := mulAdd base factor ds carry
    let c := low.2 + factor * d
    (c % base :: low.1, c / base)

section MulAdd

variable {base factor : Nat}

@[simp] theorem length_mulAdd (digits : List Nat) (carry : Nat) :
    (mulAdd base factor digits carry).1.length = digits.length := by
  induction digits with
  | nil => rfl
  | cons d ds ih => simp [mulAdd, ih]

theorem lt_of_mem_mulAdd (positive : 0 < base) (digits : List Nat) (carry : Nat) :
    ∀ x ∈ (mulAdd base factor digits carry).1, x < base := by
  induction digits with
  | nil => simp [mulAdd]
  | cons d ds ih =>
    intro x mem
    rcases List.mem_cons.mp mem with rfl | inner
    · exact Nat.mod_lt _ positive
    · exact ih x inner

/-- The step computes the product and sum exactly, with the carry standing for the digits
past the width. -/
theorem value_mulAdd (digits : List Nat) (carry : Nat) :
    value base (mulAdd base factor digits carry).1 +
        (mulAdd base factor digits carry).2 * base ^ digits.length =
      value base digits * factor + carry := by
  induction digits with
  | nil => simp [mulAdd]
  | cons d ds ih =>
    simp only [mulAdd, value_cons, length_mulAdd, List.length_cons, Nat.pow_succ]
    generalize mulAdd base factor ds carry = low at ih ⊢
    obtain ⟨low, out⟩ := low
    simp only at ih
    -- the new top digit and the carry out of it together are `out + factor * d`
    have split := Nat.mod_add_div (out + factor * d) base
    calc (out + factor * d) % base * base ^ ds.length + value base low +
          (out + factor * d) / base * (base ^ ds.length * base)
        = ((out + factor * d) % base + base * ((out + factor * d) / base)) * base ^ ds.length +
            value base low := by ring
      _ = (out + factor * d) * base ^ ds.length + value base low := by rw [split]
      _ = (value base low + out * base ^ ds.length) + factor * d * base ^ ds.length := by ring
      _ = (d * base ^ ds.length + value base ds) * factor + carry := by rw [ih]; ring

/-- When the result fits in the width, nothing is carried out and the digits hold it. -/
theorem mulAdd_of_fits {digits : List Nat} {carry : Nat}
    (fits : value base digits * factor + carry < base ^ digits.length) :
    (mulAdd base factor digits carry).2 = 0 ∧
      value base (mulAdd base factor digits carry).1 = value base digits * factor + carry := by
  have exact : value base (mulAdd base factor digits carry).1 +
      (mulAdd base factor digits carry).2 * base ^ digits.length = value base digits * factor + carry :=
    value_mulAdd digits carry
  have zero : (mulAdd base factor digits carry).2 = 0 := by
    by_contra nonzero
    have : base ^ digits.length ≤ (mulAdd base factor digits carry).2 * base ^ digits.length :=
      Nat.le_mul_of_pos_left _ (Nat.pos_of_ne_zero nonzero)
    omega
  rw [zero, Nat.zero_mul, Nat.add_zero] at exact
  exact ⟨zero, exact⟩

/-! ## Converting a whole number -/

/-- Push each digit of `input` (in base `factor`) into the array, most significant first. -/
def convert (base factor : Nat) (acc input : List Nat) : List Nat :=
  input.foldl (fun acc d => (mulAdd base factor acc d).1) acc

@[simp] theorem length_convert (acc input : List Nat) :
    (convert base factor acc input).length = acc.length := by
  induction input generalizing acc with
  | nil => rfl
  | cons d ds ih => rw [convert, List.foldl_cons, ← convert, ih, length_mulAdd]

theorem lt_of_mem_convert (positive : 0 < base) {acc : List Nat} (small : ∀ x ∈ acc, x < base)
    (input : List Nat) : ∀ x ∈ convert base factor acc input, x < base := by
  induction input generalizing acc with
  | nil => exact small
  | cons d ds ih => exact ih (lt_of_mem_mulAdd positive acc d)

/-- If the converted number fits in the array, every step's carry is zero and the array ends
up holding the number. -/
theorem value_convert (factor_pos : 0 < factor) {acc input : List Nat}
    (fits : value base acc * factor ^ input.length + value factor input < base ^ acc.length) :
    value base (convert base factor acc input) =
      value base acc * factor ^ input.length + value factor input := by
  induction input generalizing acc with
  | nil => simp [convert]
  | cons d ds ih =>
    -- the number after the first step is at most the whole number, so it fits too
    have scaled : value base acc * factor + d ≤
        (value base acc * factor + d) * factor ^ ds.length + value factor ds :=
      Nat.le_add_right_of_le (Nat.le_mul_of_pos_right _ (Nat.pow_pos factor_pos))
    have whole : value base acc * factor ^ (d :: ds).length + value factor (d :: ds) =
        (value base acc * factor + d) * factor ^ ds.length + value factor ds := by
      rw [value_cons, List.length_cons, Nat.pow_succ]
      ring
    have fitsNow : value base acc * factor + d < base ^ acc.length := by omega
    have step := (mulAdd_of_fits fitsNow).2
    have later : value base (mulAdd base factor acc d).1 * factor ^ ds.length + value factor ds <
        base ^ (mulAdd base factor acc d).1.length := by
      rw [step, length_mulAdd]
      omega
    rw [convert, List.foldl_cons, ← convert, ih later, step, whole]

/-- Converting into a zero-filled array wide enough for the number leaves, past its leading
zeros, the digits of the number in the new base. -/
theorem dropWhile_convert_replicate (one_lt : 1 < base) (factor_pos : 0 < factor) {width : Nat}
    {input : List Nat} (fits : value factor input < base ^ width) :
    (convert base factor (List.replicate width 0) input).dropWhile (· == 0) =
      (Nat.digits base (value factor input)).reverse := by
  have zeros : value base (List.replicate width 0) = 0 := by
    simpa using value_replicate_zero_append base width []
  have exact : value base (convert base factor (List.replicate width 0) input) = value factor input := by
    rw [value_convert factor_pos (by rwa [zeros, Nat.zero_mul, Nat.zero_add, List.length_replicate]),
      zeros, Nat.zero_mul, Nat.zero_add]
  have small : ∀ x ∈ convert base factor (List.replicate width 0) input, x < base :=
    lt_of_mem_convert (Nat.zero_lt_of_lt one_lt)
      (fun x mem => (List.eq_of_mem_replicate mem) ▸ Nat.zero_lt_of_lt one_lt) input
  rw [dropWhile_zero_eq_digits one_lt small, exact]

end MulAdd

/-! ## Adding over a fixed width -/

/-- `digits + other + carry` over the width of `digits`, walking from the last digit to the
first: the digits of the sum and the carry out of the top one. -/
def addDigits (base : Nat) : List Nat → List Nat → Nat → List Nat × Nat
  | d :: ds, e :: es, carry =>
    let low := addDigits base ds es carry
    let n := low.2 + d + e
    (n % base :: low.1, n / base)
  | _, _, carry => ([], carry)

section AddDigits

variable {base : Nat}

theorem length_addDigits {digits other : List Nat} (same : digits.length = other.length)
    (carry : Nat) : (addDigits base digits other carry).1.length = digits.length := by
  induction digits generalizing other with
  | nil => rfl
  | cons d ds ih =>
    cases other with
    | nil => cases same
    | cons e es => simp [addDigits, ih (Nat.succ.inj same)]

theorem lt_of_mem_addDigits (positive : 0 < base) (digits other : List Nat) (carry : Nat) :
    ∀ x ∈ (addDigits base digits other carry).1, x < base := by
  induction digits generalizing other with
  | nil => simp [addDigits]
  | cons d ds ih =>
    cases other with
    | nil => simp [addDigits]
    | cons e es =>
      intro x mem
      rcases List.mem_cons.mp mem with rfl | inner
      · exact Nat.mod_lt _ positive
      · exact ih es x inner

/-- The walk computes the sum exactly, with the carry standing for the digits past the
width. -/
theorem value_addDigits {digits other : List Nat} (same : digits.length = other.length)
    (carry : Nat) :
    value base (addDigits base digits other carry).1 +
        (addDigits base digits other carry).2 * base ^ digits.length =
      value base digits + value base other + carry := by
  induction digits generalizing other with
  | nil =>
    rw [List.length_nil, eq_comm, List.length_eq_zero_iff] at same
    subst same
    simp [addDigits]
  | cons d ds ih =>
    cases other with
    | nil => cases same
    | cons e es =>
      have sameRest : ds.length = es.length := Nat.succ.inj same
      simp only [addDigits, value_cons, length_addDigits sameRest, List.length_cons, Nat.pow_succ,
        ← sameRest]
      have low := ih sameRest
      generalize addDigits base ds es carry = sum at low ⊢
      obtain ⟨sum, out⟩ := sum
      simp only at low
      -- the new top digit and the carry out of it together are `out + d + e`
      have split := Nat.mod_add_div (out + d + e) base
      calc (out + d + e) % base * base ^ ds.length + value base sum +
            (out + d + e) / base * (base ^ ds.length * base)
          = ((out + d + e) % base + base * ((out + d + e) / base)) * base ^ ds.length +
              value base sum := by ring
        _ = (out + d + e) * base ^ ds.length + value base sum := by rw [split]
        _ = (value base sum + out * base ^ ds.length) + (d + e) * base ^ ds.length := by ring
        _ = d * base ^ ds.length + value base ds + (e * base ^ ds.length + value base es) +
              carry := by rw [low]; ring

/-- What the width keeps of the sum: the sum modulo the width's power. -/
theorem value_addDigits_eq_mod (one_lt : 1 < base) {digits other : List Nat}
    (same : digits.length = other.length) (carry : Nat) :
    value base (addDigits base digits other carry).1 =
      (value base digits + value base other + carry) % base ^ digits.length := by
  have exact := @value_addDigits base digits other same carry
  have below : value base (addDigits base digits other carry).1 < base ^ digits.length := by
    have bound := value_lt one_lt (lt_of_mem_addDigits (Nat.zero_lt_of_lt one_lt) digits other carry)
    rwa [length_addDigits same] at bound
  rw [← exact, Nat.add_mul_mod_self_right, Nat.mod_eq_of_lt below]

end AddDigits

/-! ## Reading digits with an early exit -/

/-- A loop that reads each element, stops on the first that does not read, and folds the
rest is reading them all first and folding after. -/
theorem foldlM_bind_pure {α β γ : Type} (read : α → Option β) (step : γ → β → γ) (init : γ)
    (input : List α) :
    input.foldlM (fun acc a => read a >>= fun b => pure (step acc b)) init =
      (input.mapM read).map (List.foldl step init) := by
  induction input generalizing init with
  | nil => rfl
  | cons a rest ih =>
    cases first : read a with
    | none => simp [first]
    | some b =>
      simp only [List.foldlM_cons, List.mapM_cons, first, Option.pure_def, Option.bind_eq_bind, Option.bind_some] at ih ⊢
      rw [ih]
      cases rest.mapM read <;> rfl

end RadardFormal.Support.Radix
