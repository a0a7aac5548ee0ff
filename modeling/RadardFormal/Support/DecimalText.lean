import Mathlib.Data.List.Basic
import Mathlib.Algebra.Group.Nat.Defs

/-!
# Decimal numerals as lists of characters

A numeral is a list of decimal digits; `Nat.ofDigitChars 10 l 0` is its value.  Leading zeros do
not change the value and trailing zeros scale it by a power of ten, so a printer may crop them and
a reader recover the number with its offset.  The cropping is done with `takeWhile` and
`dropWhile`, whose lengths and remainders are stated here once.
-/

namespace RadardFormal.Support.DecimalText

open List

section Crop

variable {α : Type*} {p : α → Bool}

/-- Dropping as many elements as `takeWhile` keeps is `dropWhile`. -/
theorem drop_length_takeWhile (l : List α) : l.drop (l.takeWhile p).length = l.dropWhile p := by
  rw [takeWhile_eq_take_findIdx_not, dropWhile_eq_drop_findIdx_not, length_take,
    Nat.min_eq_left findIdx_le_length]

theorem length_dropWhile (l : List α) : (l.dropWhile p).length = l.length - (l.takeWhile p).length := by
  rw [← drop_length_takeWhile, length_drop]

theorem dropWhile_eq_nil_iff_length (l : List α) :
    l.dropWhile p = [] ↔ (l.takeWhile p).length = l.length := by
  have within : (l.takeWhile p).length ≤ l.length := (takeWhile_sublist p).length_le
  rw [← length_eq_zero_iff, length_dropWhile]
  omega

theorem head_dropWhile {l rest : List α} {a : α} (dropped : l.dropWhile p = a :: rest) : p a = false := by
  have head := head?_dropWhile_not p l
  rw [dropped] at head
  exact head

/-- The elements kept by `takeWhile` are all equal to `a` when `p` holds of `a` alone. -/
theorem takeWhile_eq_replicate {a : α} (only : ∀ x, p x = true → x = a) (l : List α) :
    l.takeWhile p = replicate (l.takeWhile p).length a := by
  rw [eq_replicate_iff]
  refine ⟨rfl, fun x mem => only x ?_⟩
  exact (all_eq_true.mp all_takeWhile) x mem

/-- `l` without its longest suffix whose elements satisfy `p`. -/
def dropLastWhile (p : α → Bool) (l : List α) : List α := (l.reverse.dropWhile p).reverse

theorem dropLastWhile_eq_take (l : List α) :
    dropLastWhile p l = l.take (l.length - (l.reverse.takeWhile p).length) := by
  rw [dropLastWhile, ← drop_length_takeWhile, drop_reverse, reverse_reverse]

theorem length_dropLastWhile (l : List α) :
    (dropLastWhile p l).length = l.length - (l.reverse.takeWhile p).length := by
  rw [dropLastWhile_eq_take, length_take]
  omega

/-- The cropped suffix is the reverse of what `takeWhile` keeps of the reverse. -/
theorem dropLastWhile_append (l : List α) :
    dropLastWhile p l ++ (l.reverse.takeWhile p).reverse = l := by
  rw [dropLastWhile, ← reverse_append, takeWhile_append_dropWhile, reverse_reverse]

/-- Starting at `s`, skipping what `takeWhile` keeps is `dropWhile`. -/
theorem drop_add_length_takeWhile (l : List α) (s : Nat) :
    l.drop (s + ((l.drop s).takeWhile p).length) = (l.drop s).dropWhile p := by
  rw [← drop_drop, drop_length_takeWhile]

theorem dropWhile_drop_of_take {l : List α} {s : Nat} (skipped : ∀ x ∈ l.take s, p x = true) :
    (l.drop s).dropWhile p = l.dropWhile p := by
  conv => rhs; rw [← take_append_drop s l]
  rw [dropWhile_append_of_pos skipped]

theorem dropLastWhile_append_of_all {l r : List α} (cropped : ∀ x ∈ r, p x = true) :
    dropLastWhile p (l ++ r) = dropLastWhile p l := by
  rw [dropLastWhile, dropLastWhile, reverse_append, dropWhile_append_of_pos (fun x mem => cropped x (mem_reverse.mp mem))]

/-- Cutting a window `[point, t)` short by its suffix of elements satisfying `p` leaves the
window with that suffix cropped. -/
theorem drop_take_crop (l : List α) {point t : Nat} (ordered : point ≤ t) (within : t ≤ l.length) :
    (l.take (t - (((l.take t).drop point).reverse.takeWhile p).length)).drop point =
      dropLastWhile p ((l.take t).drop point) := by
  have short := (takeWhile_sublist p : ((l.take t).drop point).reverse.takeWhile p <+ _).length_le
  simp only [length_reverse, length_drop, length_take, Nat.min_eq_left within] at short
  rw [dropLastWhile_eq_take]
  generalize (((l.take t).drop point).reverse.takeWhile p).length = cropped at short ⊢
  rw [drop_take, drop_take, take_take, length_take, length_drop]
  congr 1
  omega

/-- A run of `a`s in front of a list that does not start with an element satisfying `p` is
exactly what `takeWhile p` keeps. -/
theorem takeWhile_replicate_append {a : α} (holds : p a = true) {l : List α}
    (stops : ∀ x ∈ l.head?, p x = false) (count : Nat) :
    (replicate count a ++ l).takeWhile p = replicate count a := by
  rw [takeWhile_append_of_pos fun x mem => (eq_of_mem_replicate mem) ▸ holds]
  cases l with
  | nil => simp
  | cons x rest => simp [stops x rfl]

end Crop

/-! ## Values of numerals -/

/-- Every character is a decimal digit. -/
def AllDigits (l : List Char) : Prop := ∀ c ∈ l, c.isDigit = true

/-- A digit is neither below `0` nor above `9`. -/
theorem isDigit_not_outside {c : Char} (digit : c.isDigit = true) : ¬(c < '0' ∨ c > '9') := by
  simp only [Char.isDigit, Bool.and_eq_true, decide_eq_true_eq] at digit
  rw [gt_iff_lt, Char.lt_def, Char.lt_def]
  exact fun outside => outside.elim (UInt32.not_lt.mpr digit.1) (UInt32.not_lt.mpr digit.2)

theorem digit_lt_ten {c : Char} (digit : c.isDigit = true) : c.toNat - '0'.toNat < 10 := by
  have bounds := Char.isDigit_iff_toNat.mp digit
  simp only [show '0'.toNat = 48 from rfl, show '9'.toNat = 57 from rfl] at bounds ⊢
  omega

theorem AllDigits.append {l m : List Char} (left : AllDigits l) (right : AllDigits m) : AllDigits (l ++ m) :=
  fun c mem => (mem_append.mp mem).elim (left c) (right c)

theorem AllDigits.sublist {l m : List Char} (digits : AllDigits m) (sub : l <+ m) : AllDigits l :=
  fun c mem => digits c (sub.subset mem)

theorem allDigits_replicate_zero (n : Nat) : AllDigits (replicate n '0') := fun c mem => by
  rw [eq_of_mem_replicate mem]
  rfl

theorem allDigits_toDigits (n : Nat) : AllDigits (Nat.toDigits 10 n) :=
  fun _ mem => Nat.isDigit_of_mem_toDigits (by decide) (by decide) mem

theorem ofDigitChars_append (l m : List Char) :
    Nat.ofDigitChars 10 (l ++ m) 0 = Nat.ofDigitChars 10 l 0 * 10 ^ m.length + Nat.ofDigitChars 10 m 0 := by
  rw [Nat.ofDigitChars_append, Nat.ofDigitChars_eq_ofDigitChars_zero, Nat.mul_comm]

theorem ofDigitChars_zeros_append (n : Nat) (l : List Char) :
    Nat.ofDigitChars 10 (replicate n '0' ++ l) 0 = Nat.ofDigitChars 10 l 0 := by
  simp [ofDigitChars_append]

theorem ofDigitChars_append_zeros (l : List Char) (n : Nat) :
    Nat.ofDigitChars 10 (l ++ replicate n '0') 0 = Nat.ofDigitChars 10 l 0 * 10 ^ n := by
  simp [ofDigitChars_append]

/-- Reading digits after `init` never gives less than `init`. -/
theorem le_ofDigitChars (l : List Char) (init : Nat) : init ≤ Nat.ofDigitChars 10 l init := by
  rw [Nat.ofDigitChars_eq_ofDigitChars_zero]
  exact Nat.le_add_right_of_le (Nat.le_mul_of_pos_left init (Nat.pow_pos (by decide)))

/-- A numeral of `k` digits read after `init` is below `10 ^ k * (init + 1)`. -/
theorem ofDigitChars_lt {l : List Char} (digits : AllDigits l) (init : Nat) :
    Nat.ofDigitChars 10 l init < 10 ^ l.length * (init + 1) := by
  induction l generalizing init with
  | nil => simp
  | cons c rest ih =>
    have digit := digit_lt_ten (digits c mem_cons_self)
    have below := ih (fun x mem => digits x (mem_cons_of_mem c mem)) (10 * init + (c.toNat - '0'.toNat))
    rw [Nat.ofDigitChars_cons, length_cons, Nat.pow_succ]
    calc _ < 10 ^ rest.length * (10 * init + (c.toNat - '0'.toNat) + 1) := below
      _ ≤ 10 ^ rest.length * (10 * (init + 1)) := Nat.mul_le_mul_left _ (by omega)
      _ = 10 ^ rest.length * 10 * (init + 1) := by rw [Nat.mul_assoc]

/-- The numeral of a positive number does not start with `0`. -/
theorem head_toDigits_ne_zero {n : Nat} (positive : n ≠ 0) (rest : List Char) :
    Nat.toDigits 10 n ≠ '0' :: rest := by
  intro digits
  have value := @Nat.ofDigitChars_ten_toDigits n
  have short : n < 10 ^ rest.length := by
    rw [digits, Nat.ofDigitChars_cons] at value
    simp only [show '0'.toNat - '0'.toNat = 0 from rfl, Nat.mul_zero, Nat.zero_add] at value
    rw [← value]
    simpa using ofDigitChars_lt ((allDigits_toDigits n).sublist (digits ▸ sublist_cons_self '0' rest)) 0
  have fits : (Nat.toDigits 10 n).length ≤ rest.length := by
    rcases Nat.eq_zero_or_pos rest.length with empty | nonempty
    · rw [empty, Nat.pow_zero] at short
      omega
    · exact (Nat.length_toDigits_le_iff (by decide) nonempty).mpr short
  rw [digits, length_cons] at fits
  omega

/-- `Int.repr` writes a minus sign for a negative integer, then the numeral of its magnitude. -/
theorem toList_intRepr (e : Int) :
    e.repr.toList = (if e < 0 then ['-'] else []) ++ Nat.toDigits 10 e.natAbs := by
  cases e with
  | ofNat n => simp [Int.repr, Nat.toList_repr]
  | negSucc n => simp [Int.repr, Nat.toList_repr, Int.negSucc_lt_zero]

/-- Leading zeros do not change the value. -/
theorem ofDigitChars_dropWhile_zero (l : List Char) :
    Nat.ofDigitChars 10 (l.dropWhile (· == '0')) 0 = Nat.ofDigitChars 10 l 0 := by
  conv => rhs; rw [← @takeWhile_append_dropWhile Char (· == '0') l]
  rw [takeWhile_eq_replicate (fun x same => by simpa using same) l, ofDigitChars_zeros_append]

/-- Cropping the trailing zeros divides the value by ten once per zero. -/
theorem ofDigitChars_dropLastWhile_zero (l : List Char) :
    Nat.ofDigitChars 10 (dropLastWhile (· == '0') l) 0 * 10 ^ (l.length - (dropLastWhile (· == '0') l).length) =
      Nat.ofDigitChars 10 l 0 := by
  have zeros := @takeWhile_eq_replicate Char (· == '0') '0' (fun x same => by simpa using same) l.reverse
  have split := @dropLastWhile_append Char (· == '0') l
  rw [zeros, reverse_replicate] at split
  have cropped : l.length - (dropLastWhile (· == '0') l).length = (l.reverse.takeWhile (· == '0')).length := by
    rw [length_dropLastWhile]
    have := (takeWhile_sublist (· == '0') : l.reverse.takeWhile (· == '0') <+ l.reverse).length_le
    rw [length_reverse] at this
    omega
  conv => rhs; rw [← split]
  rw [ofDigitChars_append_zeros, cropped]

end RadardFormal.Support.DecimalText
