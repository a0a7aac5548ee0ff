import RadardFormal.Protocol.STAmountInteger
import RadardFormal.Support.DecimalText

/-!
# Amounts as text

`amountFromString` reads an amount through the pattern
`^([-+]?)(0|[1-9][0-9]*)(\.([0-9]+))?([eE]([+-]?)([0-9]+))?$`, refuses more than 32 digits and a
fraction of VRP, reads the digits with beast's `lexicalCastThrow` and canonicalizes.  `getText`
writes every amount in canonical form within the native range as a text of that pattern: a zero,
the digits with a signed offset, or the digits around a decimal point with the zeros cropped.
Reading the text back gives the amount again (`amountFromString_getText`); the negative zero
that `divide` can leave is written `0` and reads back without its sign.
-/

namespace RadardFormal.Protocol

open RadardFormal.Support RadardFormal.Support.DecimalText

/-! ## `beast::lexicalCast` -/

/-- `parse_integral` with the accumulator of `parse_positive_integral`: each digit is appended to
the value; a character that is not a digit, or a value past `maxValue`, is refused. -/
def parsePositiveIntegral (maxValue : Nat) : List Char → Nat → Option Nat
  | [], value => some value
  | c :: rest, value =>
    if c < '0' ∨ c > '9' then none
    else
      let digit := c.toNat - '0'.toNat
      if value > maxValue / 10 ∨ (value = maxValue / 10 ∧ digit > maxValue % 10) then none
      else parsePositiveIntegral maxValue rest (value * 10 + digit)

/-- `parse_integral` with the accumulator of `parse_negative_integral`: each digit is subtracted
from ten times the value, down to `minValue`. -/
def parseNegativeIntegral (minValue : Int) : List Char → Int → Option Int
  | [], value => some value
  | c :: rest, value =>
    if c < '0' ∨ c > '9' then none
    else
      let digit : Int := c.toNat - '0'.toNat
      if value < minValue.tdiv 10 ∨ (value = minValue.tdiv 10 ∧ digit > (minValue.tmod 10).natAbs) then none
      else parseNegativeIntegral minValue rest (value * 10 - digit)

/-- `parseUnsigned`: an optional `+`, then at least one digit. -/
def parseUnsigned (maxValue : Nat) (s : List Char) : Option Nat :=
  let digits := match s with
    | '+' :: rest => rest
    | _ => s
  if digits = [] then none else parsePositiveIntegral maxValue digits 0

/-- `parseSigned`: an optional sign, then at least one digit. -/
def parseSigned (minValue : Int) (maxValue : Nat) : List Char → Option Int
  | '-' :: rest => if rest = [] then none else parseNegativeIntegral minValue rest 0
  | '+' :: rest => if rest = [] then none else (parsePositiveIntegral maxValue rest 0).map Int.ofNat
  | s => if s = [] then none else (parsePositiveIntegral maxValue s 0).map Int.ofNat

/-- `lexicalCastThrow`: the parsed value, or `BadLexicalCast`. -/
def lexicalCastThrow {α : Type} (parse : List Char → Option α) (s : List Char) : Except String α :=
  match parse s with
  | some value => .ok value
  | none => .error "std::bad_cast"

/-! ## The pattern of `amountFromString` -/

/-- The groups of a match: the sign (1), the integer portion (2), the fraction without its point
(4, present when 3 matched) and the exponent's sign and digits (6 and 7, present when 5 matched). -/
structure NumberMatch where
  sign : List Char
  integer : List Char
  fraction : Option (List Char)
  exponent : Option (List Char × List Char)
  deriving DecidableEq, Repr

/-- `[-+]?`. -/
def matchSign : List Char → List Char × List Char
  | '-' :: rest => (['-'], rest)
  | '+' :: rest => (['+'], rest)
  | s => ([], s)

/-- `[0-9]+`, as many digits as there are: nothing after them is a digit. -/
def matchDigits (s : List Char) : Option (List Char × List Char) :=
  if s.takeWhile Char.isDigit = [] then none else some (s.takeWhile Char.isDigit, s.dropWhile Char.isDigit)

/-- `0|[1-9][0-9]*`. -/
def matchInteger : List Char → Option (List Char × List Char)
  | '0' :: rest => some (['0'], rest)
  | s => matchDigits s

/-- `(\.([0-9]+))?`: a point must be followed by digits, since nothing after the group matches a
point. -/
def matchFraction : List Char → Option (Option (List Char) × List Char)
  | '.' :: rest => (matchDigits rest).map fun (digits, rest) => (some digits, rest)
  | s => some (none, s)

/-- `([eE]([+-]?)([0-9]+))?`. -/
def matchExponent : List Char → Option (Option (List Char × List Char) × List Char)
  | [] => some (none, [])
  | c :: rest =>
    if c = 'e' ∨ c = 'E' then
      (matchDigits (matchSign rest).2).map fun (digits, rest') => (some ((matchSign rest).1, digits), rest')
    else some (none, c :: rest)

/-- `regex_match` of the whole text against the pattern. -/
def matchNumber (s : List Char) : Option NumberMatch := do
  let (integer, s') ← matchInteger (matchSign s).2
  let (fraction, s'') ← matchFraction s'
  let (exponent, rest) ← matchExponent s''
  if rest = [] then some ⟨(matchSign s).1, integer, fraction, exponent⟩ else none

/-! ## The texts the pattern accepts -/

/-- The text of a match: its groups one after the other. -/
def renderNumber (m : NumberMatch) : List Char :=
  m.sign ++ m.integer ++ (match m.fraction with | some fraction => '.' :: fraction | none => []) ++
    (match m.exponent with | some (sign, digits) => 'e' :: (sign ++ digits) | none => [])

/-- What `[-+]?` matches. -/
def IsSign (sign : List Char) : Prop := sign = [] ∨ sign = ['-'] ∨ sign = ['+']

/-- The groups a match of the pattern has. -/
structure NumberMatch.WellFormed (m : NumberMatch) : Prop where
  sign : IsSign m.sign
  integer : m.integer = ['0'] ∨ ∃ c rest, m.integer = c :: rest ∧ c ≠ '0' ∧ AllDigits (c :: rest)
  fraction : ∀ digits, m.fraction = some digits → digits ≠ [] ∧ AllDigits digits
  exponent : ∀ sign digits, m.exponent = some (sign, digits) → IsSign sign ∧ digits ≠ [] ∧ AllDigits digits

/-- A text that is empty or starts with a character other than a digit. -/
def NoDigitFirst (s : List Char) : Prop := ∀ c ∈ s.head?, c.isDigit = false

theorem takeWhile_isDigit_of_noDigitFirst {s : List Char} (stop : NoDigitFirst s) :
    s.takeWhile Char.isDigit = [] ∧ s.dropWhile Char.isDigit = s := by
  cases s with
  | nil => exact ⟨rfl, rfl⟩
  | cons c rest =>
    have notDigit : ¬c.isDigit = true := by simpa using stop c rfl
    exact ⟨List.takeWhile_cons_of_neg notDigit, List.dropWhile_cons_of_neg notDigit⟩

theorem matchSign_append {sign s : List Char} (isSign : IsSign sign) {c : Char} {rest : List Char}
    (first : s = c :: rest) (digit : c.isDigit = true) : matchSign (sign ++ s) = (sign, s) := by
  subst first
  rcases isSign with rfl | rfl | rfl
  · have notMinus : c ≠ '-' := fun same => by simp [same] at digit
    have notPlus : c ≠ '+' := fun same => by simp [same] at digit
    unfold matchSign
    split <;> simp_all
  · rfl
  · rfl

theorem matchDigits_append {digits rest : List Char} (allDigits : AllDigits digits) (nonempty : digits ≠ [])
    (stop : NoDigitFirst rest) : matchDigits (digits ++ rest) = some (digits, rest) := by
  obtain ⟨taken, dropped⟩ := takeWhile_isDigit_of_noDigitFirst stop
  have kept : (digits ++ rest).takeWhile Char.isDigit = digits := by
    rw [List.takeWhile_append_of_pos allDigits, taken, List.append_nil]
  rw [matchDigits, kept, if_neg nonempty, List.dropWhile_append_of_pos allDigits, dropped]

theorem matchInteger_append {integer rest : List Char}
    (wellFormed : integer = ['0'] ∨ ∃ c tail, integer = c :: tail ∧ c ≠ '0' ∧ AllDigits (c :: tail))
    (stop : NoDigitFirst rest) : matchInteger (integer ++ rest) = some (integer, rest) := by
  rcases wellFormed with rfl | ⟨c, tail, rfl, nonzero, allDigits⟩
  · rfl
  · have digits := matchDigits_append allDigits (List.cons_ne_nil c tail) stop
    unfold matchInteger
    split
    · simp_all
    · exact digits

theorem matchFraction_none {rest : List Char} (noPoint : ∀ c ∈ rest.head?, c ≠ '.') :
    matchFraction rest = some (none, rest) := by
  unfold matchFraction
  split
  · simp at noPoint
  · rfl

theorem matchFraction_some {digits rest : List Char} (allDigits : AllDigits digits) (nonempty : digits ≠ [])
    (stop : NoDigitFirst rest) : matchFraction ('.' :: (digits ++ rest)) = some (some digits, rest) := by
  rw [matchFraction, matchDigits_append allDigits nonempty stop]
  rfl

theorem matchExponent_some {sign digits : List Char} (isSign : IsSign sign) (allDigits : AllDigits digits)
    (nonempty : digits ≠ []) : matchExponent ('e' :: (sign ++ digits)) = some (some (sign, digits), []) := by
  obtain ⟨c, tail, rfl⟩ := List.exists_cons_of_ne_nil nonempty
  have signed := @matchSign_append sign (c :: tail) isSign c tail rfl (allDigits c List.mem_cons_self)
  have read := @matchDigits_append (c :: tail) [] allDigits nonempty (fun _ none => by simp at none)
  rw [List.append_nil] at read
  simp only [matchExponent, true_or, if_true, signed, read]
  rfl

/-- The pattern matches every text of a well-formed match, with that match. -/
theorem matchNumber_renderNumber {m : NumberMatch} (wellFormed : m.WellFormed) :
    matchNumber (renderNumber m) = some m := by
  obtain ⟨sign, integer, fraction, exponent⟩ := m
  obtain ⟨isSign, integerForm, fractionForm, exponentForm⟩ := wellFormed
  simp only at isSign integerForm fractionForm exponentForm
  -- what follows the exponent is nothing, what follows the fraction starts with `e` or is empty
  let exponentText := match exponent with | some (sign, digits) => 'e' :: (sign ++ digits) | none => []
  have exponentRead : matchExponent exponentText = some (exponent, []) := by
    rcases exponent with _ | ⟨expSign, digits⟩
    · rfl
    · obtain ⟨expIsSign, nonempty, allDigits⟩ := exponentForm expSign digits rfl
      exact matchExponent_some expIsSign allDigits nonempty
  have exponentStop : NoDigitFirst exponentText := by
    rcases exponent with _ | ⟨expSign, digits⟩
    · intro c none
      simp [exponentText] at none
    · intro c first
      simp only [exponentText, List.head?_cons, Option.mem_def, Option.some.injEq] at first
      rw [← first]
      rfl
  let fractionText := match fraction with | some digits => '.' :: digits | none => []
  have fractionRead : matchFraction (fractionText ++ exponentText) = some (fraction, exponentText) := by
    rcases fraction with _ | digits
    · refine matchFraction_none fun c first => ?_
      rcases exponent with _ | ⟨expSign, digits⟩
      · simp [exponentText, fractionText] at first
      · simp only [exponentText, fractionText, List.nil_append, List.head?_cons, Option.mem_def,
          Option.some.injEq] at first
        rw [← first]
        decide
    · obtain ⟨nonempty, allDigits⟩ := fractionForm digits rfl
      exact matchFraction_some allDigits nonempty exponentStop
  have integerStop : NoDigitFirst (fractionText ++ exponentText) := by
    rcases fraction with _ | digits
    · exact exponentStop
    · intro c first
      simp only [fractionText, List.cons_append, List.head?_cons, Option.mem_def, Option.some.injEq] at first
      rw [← first]
      rfl
  have integerRead := matchInteger_append integerForm integerStop
  have first : ∃ c rest, integer ++ (fractionText ++ exponentText) = c :: rest ∧ c.isDigit = true := by
    rcases integerForm with rfl | ⟨c, tail, rfl, -, allDigits⟩
    · exact ⟨'0', _, rfl, rfl⟩
    · exact ⟨c, _, rfl, allDigits c List.mem_cons_self⟩
  obtain ⟨c, rest, split, digit⟩ := first
  have signRead := matchSign_append isSign split digit
  have text : renderNumber ⟨sign, integer, fraction, exponent⟩ = sign ++ (integer ++ (fractionText ++ exponentText)) := by
    simp only [renderNumber, List.append_assoc]
    rfl
  rw [text, matchNumber, signRead]
  simp [integerRead, fractionRead, exponentRead]

/-! ## Reading the digits -/

/-- `parse_positive_integral` reads every numeral whose value, read after `value`, fits
`maxValue`. -/
theorem parsePositiveIntegral_eq {maxValue : Nat} {l : List Char} (digits : AllDigits l) (value : Nat)
    (fits : Nat.ofDigitChars 10 l value ≤ maxValue) :
    parsePositiveIntegral maxValue l value = some (Nat.ofDigitChars 10 l value) := by
  induction l generalizing value with
  | nil => rfl
  | cons c rest ih =>
    have digit := digits c List.mem_cons_self
    rw [Nat.ofDigitChars_cons, Nat.mul_comm] at fits ⊢
    -- every prefix read so far is at most the whole value, so the overflow test never fires
    have step := Nat.le_trans (le_ofDigitChars rest _) fits
    have inRange : ¬(value > maxValue / 10 ∨ (value = maxValue / 10 ∧ c.toNat - '0'.toNat > maxValue % 10)) := by
      have := Nat.div_add_mod maxValue 10
      have := digit_lt_ten digit
      omega
    rw [parsePositiveIntegral, if_neg (isDigit_not_outside digit)]
    dsimp only
    rw [if_neg inRange]
    exact ih (fun x mem => digits x (List.mem_cons_of_mem c mem)) _ fits

theorem parseUnsigned_eq {maxValue : Nat} {l : List Char} (digits : AllDigits l) (nonempty : l ≠ [])
    (fits : Nat.ofDigitChars 10 l 0 ≤ maxValue) : parseUnsigned maxValue l = some (Nat.ofDigitChars 10 l 0) := by
  obtain ⟨c, tail, rfl⟩ := List.exists_cons_of_ne_nil nonempty
  have notPlus : c ≠ '+' := fun same => by simpa [same] using digits c List.mem_cons_self
  simp only [parseUnsigned]
  split
  · simp_all
  · rw [if_neg nonempty, parsePositiveIntegral_eq digits 0 fits]

theorem parseSigned_eq {minValue : Int} {maxValue : Nat} {l : List Char} (digits : AllDigits l) (nonempty : l ≠ [])
    (fits : Nat.ofDigitChars 10 l 0 ≤ maxValue) :
    parseSigned minValue maxValue l = some (Nat.ofDigitChars 10 l 0 : Int) := by
  obtain ⟨c, tail, rfl⟩ := List.exists_cons_of_ne_nil nonempty
  have notMinus : c ≠ '-' := fun same => by simpa [same] using digits c List.mem_cons_self
  have notPlus : c ≠ '+' := fun same => by simpa [same] using digits c List.mem_cons_self
  unfold parseSigned
  split
  · simp_all
  · simp_all
  · rw [if_neg nonempty, parsePositiveIntegral_eq digits 0 fits]
    rfl

theorem lexicalCastThrow_of_some {α : Type} {parse : List Char → Option α} {s : List Char} {value : α}
    (parsed : parse s = some value) : lexicalCastThrow parse s = .ok value := by
  rw [lexicalCastThrow, parsed]

/-- The mantissa a match stands for: the digits of the integer and fraction groups. -/
def NumberMatch.mantissa (m : NumberMatch) : Nat := Nat.ofDigitChars 10 (m.integer ++ m.fraction.getD []) 0

/-- The offset a match stands for: minus the number of fraction digits, plus the signed exponent. -/
def NumberMatch.offset (m : NumberMatch) : Int :=
  -((m.fraction.getD []).length : Int) +
    match m.exponent with
    | some (sign, digits) => if sign = ['-'] then -(Nat.ofDigitChars 10 digits 0 : Int) else Nat.ofDigitChars 10 digits 0
    | none => 0

/-! ## The texts `getText` writes -/

/-- The digits `plainText` writes before the point: the padded numeral up to the point, without
its leading zeros. -/
def plainInteger (rawValue : List Char) (point : Nat) : List Char :=
  ((List.replicate 27 '0' ++ rawValue).take point).dropWhile (· == '0')

/-- The digits `plainText` writes after the point: the padded numeral from the point, without its
trailing zeros. -/
def plainFraction (rawValue : List Char) (point : Nat) : List Char :=
  dropLastWhile (· == '0') ((List.replicate 27 '0' ++ rawValue).drop point)

/-- `plainText` of a numeral cut within its digits: the sign, the digits before the point or `0`,
and the point with the digits after it when any are left. -/
theorem plainText_eq (negative : Bool) (rawValue : List Char) (offset : Int)
    (within : (offset + 43).toNat ≤ 27 + rawValue.length) :
    (plainText negative rawValue offset).toList =
      (if negative then ['-'] else []) ++
        (if plainInteger rawValue (offset + 43).toNat = [] then ['0'] else plainInteger rawValue (offset + 43).toNat) ++
        (if plainFraction rawValue (offset + 43).toNat = [] then []
          else '.' :: plainFraction rawValue (offset + 43).toNat) := by
  unfold plainText plainInteger plainFraction
  simp only [String.toList_ofList]
  generalize (offset + 43).toNat = point at within ⊢
  have padded : (List.replicate 27 '0' ++ rawValue).take 27 = List.replicate 27 '0' := by simp
  have length : (List.replicate 27 '0' ++ rawValue).length = 27 + rawValue.length := by
    rw [List.length_append, List.length_replicate]
  generalize List.replicate 27 '0' ++ rawValue = digits at padded length ⊢
  rw [← length] at within
  -- before the point: the padding is skipped at once, then the zeros one by one
  rw [List.take_append_of_le_length within]
  generalize startEq : (if point > 27 then 27 else 0) = start
  have startLe : start ≤ point ∧ start ≤ 27 := by split at startEq <;> omega
  have zeros : ∀ x ∈ (digits.take point).take start, (x == '0') = true := by
    intro x mem
    have padding : (digits.take point).take start = (List.replicate 27 '0').take start := by
      rw [← padded, List.take_take, List.take_take, Nat.min_eq_left startLe.1, Nat.min_eq_left startLe.2]
    rw [padding, List.take_replicate] at mem
    simp [List.eq_of_mem_replicate mem]
  have skipped : (((digits.take point).drop start).takeWhile (· == '0')).length ≤ point - start := by
    have sub := (List.takeWhile_sublist (l := (digits.take point).drop start) (· == '0')).length_le
    rwa [List.length_drop, List.length_take, Nat.min_eq_left within] at sub
  have integerEmpty : start + (((digits.take point).drop start).takeWhile (· == '0')).length = point ↔
      (digits.take point).dropWhile (· == '0') = [] := by
    rw [← dropWhile_drop_of_take zeros, dropWhile_eq_nil_iff_length, List.length_drop, List.length_take,
      Nat.min_eq_left within]
    omega
  rw [drop_add_length_takeWhile, dropWhile_drop_of_take zeros]
  simp only [integerEmpty]
  -- after the point: the window up to the padding, cut short by its trailing zeros
  have valLength : (digits ++ List.replicate 23 '0').length = digits.length + 23 := by
    rw [List.length_append, List.length_replicate]
  generalize stopEq : (if (digits ++ List.replicate 23 '0').length - point > 23 then
    (digits ++ List.replicate 23 '0').length - 23 else (digits ++ List.replicate 23 '0').length) = stop
  have stopWithin : digits.length ≤ stop ∧ stop ≤ digits.length + 23 := by
    rw [valLength] at stopEq
    split at stopEq <;> omega
  have window : ((digits ++ List.replicate 23 '0').take stop).drop point =
      digits.drop point ++ List.replicate (stop - digits.length) '0' := by
    rw [List.take_append, List.take_of_length_le stopWithin.1, List.take_replicate,
      Nat.min_eq_left (by omega), List.drop_append_of_le_length within]
  have padding : ∀ x ∈ List.replicate (stop - digits.length) '0', (x == '0') = true := fun x mem => by
    simp [List.eq_of_mem_replicate mem]
  have cropped : dropLastWhile (· == '0') (((digits ++ List.replicate 23 '0').take stop).drop point) =
      dropLastWhile (· == '0') (digits.drop point) := by
    rw [window, dropLastWhile_append_of_all padding]
  have fractionEmpty : stop - ((((digits ++ List.replicate 23 '0').take stop).drop point).reverse.takeWhile
      (· == '0')).length = point ↔ dropLastWhile (· == '0') (digits.drop point) = [] := by
    have short := (List.takeWhile_sublist (l := (((digits ++ List.replicate 23 '0').take stop).drop point).reverse)
      (· == '0')).length_le
    have windowLength := length_dropLastWhile (p := (· == '0')) (((digits ++ List.replicate 23 '0').take stop).drop point)
    rw [List.length_reverse, List.length_drop, List.length_take, valLength, Nat.min_eq_left stopWithin.2] at short
    rw [List.length_drop, List.length_take, valLength, Nat.min_eq_left stopWithin.2] at windowLength
    rw [← cropped, ← List.length_eq_zero_iff, windowLength]
    omega
  rw [drop_take_crop _ (by omega) (by omega), cropped]
  simp only [ne_eq, fractionEmpty, ite_not]

/-- Before the point only the numeral counts: the padding is all zeros. -/
theorem plainInteger_eq (rawValue : List Char) (point : Nat) :
    plainInteger rawValue point = (rawValue.take (point - 27)).dropWhile (· == '0') := by
  unfold plainInteger
  rw [List.take_append, List.take_replicate, List.length_replicate, List.dropWhile_append_of_pos]
  intro x mem
  simp [List.eq_of_mem_replicate mem]

theorem length_plainInteger (rawValue : List Char) (point : Nat) :
    (plainInteger rawValue point).length ≤ point - 27 := by
  rw [plainInteger_eq]
  exact Nat.le_trans (List.dropWhile_sublist _).length_le (List.length_take_le _ _)

theorem length_plainFraction (rawValue : List Char) (point : Nat) :
    (plainFraction rawValue point).length ≤ 27 + rawValue.length - point := by
  rw [plainFraction, length_dropLastWhile, List.length_drop, List.length_append, List.length_replicate]
  omega

theorem allDigits_plainInteger {rawValue : List Char} (digits : AllDigits rawValue) (point : Nat) :
    AllDigits (plainInteger rawValue point) := by
  rw [plainInteger_eq]
  exact digits.sublist ((List.dropWhile_sublist _).trans (List.take_sublist _ _))

theorem allDigits_plainFraction {rawValue : List Char} (digits : AllDigits rawValue) (point : Nat) :
    AllDigits (plainFraction rawValue point) := by
  rw [plainFraction, dropLastWhile_eq_take]
  exact ((allDigits_replicate_zero 27).append digits).sublist
    ((List.take_sublist _ _).trans (List.drop_sublist _ _))

theorem head_plainInteger {rawValue rest : List Char} {point : Nat} {c : Char}
    (written : plainInteger rawValue point = c :: rest) : c ≠ '0' := by
  have first := head_dropWhile written
  simpa using first

/-- The digits written around the point are the numeral without the zeros cropped behind it. -/
theorem ofDigitChars_plain (rawValue : List Char) (point : Nat) :
    Nat.ofDigitChars 10 (plainInteger rawValue point ++ plainFraction rawValue point) 0 *
        10 ^ (27 + rawValue.length - point - (plainFraction rawValue point).length) =
      Nat.ofDigitChars 10 rawValue 0 := by
  have length : (List.replicate 27 '0' ++ rawValue).length = 27 + rawValue.length := by
    rw [List.length_append, List.length_replicate]
  have tail : ((List.replicate 27 '0' ++ rawValue).drop point).length = 27 + rawValue.length - point := by
    rw [List.length_drop, length]
  have cropped := ofDigitChars_dropLastWhile_zero ((List.replicate 27 '0' ++ rawValue).drop point)
  have short := length_plainFraction rawValue point
  rw [← plainFraction, tail] at cropped
  -- the numeral is its digits before the point followed by those after it
  have whole := ofDigitChars_append ((List.replicate 27 '0' ++ rawValue).take point)
    ((List.replicate 27 '0' ++ rawValue).drop point)
  rw [List.take_append_drop, ofDigitChars_zeros_append, tail] at whole
  rw [whole, ofDigitChars_append, plainInteger, ofDigitChars_dropWhile_zero, ← cropped, Nat.add_mul,
    Nat.mul_assoc, ← Nat.pow_add, Nat.add_sub_cancel' (by omega)]

/-- The digits of a number form the integer group of the pattern: `0`, or a first digit other
than `0`. -/
theorem integerForm_toDigits (n : Nat) :
    Nat.toDigits 10 n = ['0'] ∨ ∃ c rest, Nat.toDigits 10 n = c :: rest ∧ c ≠ '0' ∧ AllDigits (c :: rest) := by
  by_cases zero : n = 0
  case pos => exact .inl (by rw [zero, Nat.toDigits_zero])
  case neg =>
    obtain ⟨c, rest, digits⟩ := List.exists_cons_of_ne_nil (@Nat.toDigits_ne_nil n 10)
    refine .inr ⟨c, rest, digits, fun first => head_toDigits_ne_zero zero rest (first ▸ digits), ?_⟩
    exact digits ▸ allDigits_toDigits n

/-- A mantissa of sixteen digits is written with sixteen characters. -/
theorem length_toDigits_of_normal {n : Nat} (normal : Scientific.Normal 10 15 n) :
    (Nat.toDigits 10 n).length = 16 := by
  have atMost := (Nat.length_toDigits_le_iff (by decide) (by decide)).mpr normal.2
  have notShort : ¬(Nat.toDigits 10 n).length ≤ 15 := fun short =>
    absurd normal.1 (Nat.not_le.mpr ((Nat.length_toDigits_le_iff (by decide) (by decide)).mp short))
  omega

namespace STAmount

/-- `amountFromString`. -/
def amountFromString (issue : Issue) (amount : String) : Except String STAmount := do
  let some m := matchNumber amount.toList
    | .error ("Number '" ++ amount ++ "' is not valid")
  if m.integer.length + (m.fraction.getD []).length > 32 then
    .error ("Number '" ++ amount ++ "' is overlong")
  let negative := m.sign == ['-']
  if issue.currency.isXRP && m.fraction.isSome then
    .error "XRP must be specified in integral drops."
  let (mantissa, exponent) ← match m.fraction with
    | none => (lexicalCastThrow (parseUnsigned (2 ^ 64 - 1)) m.integer).map fun value => (value, (0 : Int))
    | some fraction =>
      (lexicalCastThrow (parseUnsigned (2 ^ 64 - 1)) (m.integer ++ fraction)).map
        fun value => (value, -(fraction.length : Int))
  let exponent ← match m.exponent with
    | none => pure exponent
    | some (sign, digits) =>
      (lexicalCastThrow (parseSigned (-2 ^ 31) (2 ^ 31 - 1)) digits).map
        fun shift => if sign == ['-'] then exponent - shift else exponent + shift
  -- the constructor leaves `mIsNative` to `canonicalize`, which sets it on every path
  canonicalize ⟨issue, mantissa, exponent, false, negative⟩

/-! ## Reading back what `getText` writes -/

/-- The reader on the text of a match: the mantissa and offset the match stands for, canonicalized. -/
theorem amountFromString_eq {issue : Issue} {text : String} {m : NumberMatch} (wellFormed : m.WellFormed)
    (rendered : text.toList = renderNumber m) (short : m.integer.length + (m.fraction.getD []).length ≤ 32)
    (integral : issue.currency.isXRP = true → m.fraction = none) (fits : m.mantissa ≤ 2 ^ 64 - 1)
    (exponentFits : ∀ sign digits, m.exponent = some (sign, digits) → Nat.ofDigitChars 10 digits 0 ≤ 2 ^ 31 - 1) :
    amountFromString issue text = canonicalize ⟨issue, m.mantissa, m.offset, false, m.sign == ['-']⟩ := by
  unfold amountFromString
  rw [rendered, matchNumber_renderNumber wellFormed]
  obtain ⟨-, integerForm, fractionForm, exponentForm⟩ := wellFormed
  obtain ⟨sign, integer, fraction, exponent⟩ := m
  simp only at short integral exponentFits integerForm fractionForm exponentForm
  simp only [NumberMatch.mantissa, NumberMatch.offset] at fits ⊢
  clear rendered
  rw [if_neg (by omega)]
  have notFraction : ¬((issue.currency.isXRP && fraction.isSome) = true) := by
    intro both
    rw [Bool.and_eq_true] at both
    simp [integral both.1] at both
  rw [if_neg notFraction]
  -- the mantissa is read from the integer digits with those of the fraction
  have mantissaDigits : AllDigits (integer ++ fraction.getD []) ∧ integer ++ fraction.getD [] ≠ [] := by
    have integerDigits : AllDigits integer ∧ integer ≠ [] := by
      rcases integerForm with rfl | ⟨c, tail, rfl, -, digits⟩
      · exact ⟨allDigits_replicate_zero 1, List.cons_ne_nil _ _⟩
      · exact ⟨digits, List.cons_ne_nil _ _⟩
    refine ⟨integerDigits.1.append ?_, by simp [integerDigits.2]⟩
    rcases fraction with _ | digits
    · exact fun _ mem => absurd mem List.not_mem_nil
    · exact (fractionForm digits rfl).2
  have mantissaRead := lexicalCastThrow_of_some (parseUnsigned_eq mantissaDigits.1 mantissaDigits.2 fits)
  rcases exponent with _ | ⟨expSign, expDigits⟩
  case some =>
    -- the exponent's digits are read as one signed shift of the offset
    obtain ⟨-, nonempty, allDigits⟩ := exponentForm expSign expDigits rfl
    simp only
    rw [lexicalCastThrow_of_some (parseSigned_eq allDigits nonempty (exponentFits _ _ rfl))]
    rcases fraction with _ | digits
    all_goals simp only [Option.getD_none, Option.getD_some, List.append_nil] at mantissaRead ⊢
    all_goals rw [mantissaRead]
    all_goals by_cases minus : expSign = ['-'] <;> simp [minus, Except.map, bind, Except.bind, Int.sub_eq_add_neg]
  case none =>
    rcases fraction with _ | digits
    all_goals simp only [Option.getD_none, Option.getD_some, List.append_nil] at mantissaRead ⊢
    all_goals rw [mantissaRead]
    all_goals simp [Except.map, bind, Except.bind, pure, Except.pure]

/-- The text of a signed mantissa, with its offset when it is written in scientific notation,
reads back as that mantissa at that offset. -/
theorem amountFromString_digitsText (issue : Issue) (negative : Bool) (mantissa : Nat) (exponent : Int)
    (scientific : Prop) [Decidable scientific] (fits : mantissa ≤ 2 ^ 64 - 1)
    (exponentFits : exponent.natAbs ≤ 2 ^ 31 - 1) :
    amountFromString issue ((if negative then "-" else "") ++ Nat.repr mantissa ++
        (if scientific then "e" ++ Int.repr exponent else "")) =
      canonicalize ⟨issue, mantissa, if scientific then exponent else 0, false, negative⟩ := by
  -- the groups: the sign, the digits, no fraction, and the offset where it is written
  let m : NumberMatch := ⟨if negative then ['-'] else [], Nat.toDigits 10 mantissa, none,
    if scientific then some (if exponent < 0 then ['-'] else [], Nat.toDigits 10 exponent.natAbs) else none⟩
  have wellFormed : m.WellFormed := by
    refine ⟨?_, integerForm_toDigits mantissa, fun _ none => absurd none (by simp [m]), ?_⟩
    · unfold IsSign
      cases negative <;> simp [m]
    · intro sign digits written
      simp only [m] at written
      split at written
      · cases written
        refine ⟨?_, Nat.toDigits_ne_nil, allDigits_toDigits _⟩
        unfold IsSign
        split <;> simp
      · cases written
  have rendered : ((if negative then "-" else "") ++ Nat.repr mantissa ++
      (if scientific then "e" ++ Int.repr exponent else "")).toList = renderNumber m := by
    simp only [renderNumber, m, String.toList_append, Nat.toList_repr]
    by_cases written : scientific <;> cases negative <;> simp [written, toList_intRepr]
  have short : m.integer.length + (m.fraction.getD []).length ≤ 32 :=
    (Nat.length_toDigits_le_iff (by decide) (by decide)).mpr (Nat.lt_of_le_of_lt fits (by decide))
  have value : m.mantissa = mantissa := by simp [m, NumberMatch.mantissa, Nat.ofDigitChars_ten_toDigits]
  have exponentRead : ∀ sign digits, m.exponent = some (sign, digits) → Nat.ofDigitChars 10 digits 0 ≤ 2 ^ 31 - 1 := by
    intro sign digits written
    simp only [m] at written
    split at written
    · cases written
      rwa [Nat.ofDigitChars_ten_toDigits]
    · cases written
  rw [amountFromString_eq wellFormed rendered short (fun _ => rfl) (value ▸ fits) exponentRead, value]
  have offset : m.offset = if scientific then exponent else 0 := by
    by_cases written : scientific
    · by_cases minus : exponent < 0
      · simp [NumberMatch.offset, m, written, minus, Nat.ofDigitChars_ten_toDigits, abs_of_neg minus]
      · simp [NumberMatch.offset, m, written, minus, Nat.ofDigitChars_ten_toDigits, abs_of_nonneg (not_lt.mp minus)]
    · simp [NumberMatch.offset, m, written]
  have sign : (m.sign == ['-']) = negative := by cases negative <;> rfl
  rw [offset, sign]

/-- The plain text of a sixteen-digit numeral at an offset in `[-25, 0]` reads back as the digits
around the point, at the offset of the last one. -/
theorem amountFromString_plainText_eq {issue : Issue} (notXRP : issue.currency.isXRP = false) (negative : Bool)
    {rawValue : List Char} (digits : AllDigits rawValue) (sixteen : rawValue.length = 16) {offset : Int}
    (above : -25 ≤ offset) (below : offset ≤ 0) :
    amountFromString issue (plainText negative rawValue offset) =
      canonicalize ⟨issue,
        Nat.ofDigitChars 10 (plainInteger rawValue (offset + 43).toNat ++ plainFraction rawValue (offset + 43).toNat) 0,
        -((plainFraction rawValue (offset + 43).toNat).length : Int), false, negative⟩ := by
  have within : (offset + 43).toNat ≤ 27 + rawValue.length := by omega
  have rendered := plainText_eq negative rawValue offset within
  have placed : 18 ≤ (offset + 43).toNat ∧ (offset + 43).toNat ≤ 43 := by omega
  generalize (offset + 43).toNat = point at rendered placed ⊢
  have integerShort := length_plainInteger rawValue point
  have fractionShort := length_plainFraction rawValue point
  have integerDigits := allDigits_plainInteger digits point
  have fractionDigits := allDigits_plainFraction digits point
  have integerHead : ∀ {c rest}, plainInteger rawValue point = c :: rest → c ≠ '0' := head_plainInteger
  have value := ofDigitChars_plain rawValue point
  have rawBelow := ofDigitChars_lt digits 0
  rw [sixteen] at fractionShort value rawBelow
  generalize plainInteger rawValue point = integer at rendered integerShort integerDigits integerHead value ⊢
  generalize plainFraction rawValue point = fraction at rendered fractionShort fractionDigits value ⊢
  -- the groups: the sign, the digits before the point or `0`, and those after it when any are left
  let m : NumberMatch := ⟨if negative then ['-'] else [], if integer = [] then ['0'] else integer,
    if fraction = [] then none else some fraction, none⟩
  have wellFormed : m.WellFormed := by
    refine ⟨?_, ?_, ?_, fun _ _ none => absurd none (by simp [m])⟩
    · unfold IsSign
      cases negative <;> simp [m]
    · simp only [m]
      split
      · exact .inl rfl
      case isFalse nonempty =>
        obtain ⟨c, rest, written⟩ := List.exists_cons_of_ne_nil nonempty
        exact .inr ⟨c, rest, written, integerHead written, written ▸ integerDigits⟩
    · intro digitsAfter written
      simp only [m] at written
      split at written
      · cases written
      case isFalse nonempty =>
        cases written
        exact ⟨nonempty, fractionDigits⟩
  have text : (plainText negative rawValue offset).toList = renderNumber m := by
    rw [rendered]
    by_cases noFraction : fraction = [] <;> simp [renderNumber, m, noFraction]
  have fractionRead : m.fraction.getD [] = fraction := by
    simp only [m]
    split <;> simp_all
  have short : m.integer.length + (m.fraction.getD []).length ≤ 32 := by
    rw [fractionRead]
    simp only [m]
    split
    · rw [List.length_singleton]
      omega
    · omega
  have mantissa : m.mantissa = Nat.ofDigitChars 10 (integer ++ fraction) 0 := by
    rw [NumberMatch.mantissa, fractionRead]
    simp only [m]
    split
    case isTrue noInteger => rw [noInteger]; exact ofDigitChars_zeros_append 1 fraction
    case isFalse => rfl
  -- what is read is at most the numeral, which has sixteen digits
  have fits : m.mantissa ≤ 2 ^ 64 - 1 := by
    have atMost := Nat.le_mul_of_pos_right (Nat.ofDigitChars 10 (integer ++ fraction) 0)
      (Nat.pow_pos (by decide : 0 < 10) : 0 < 10 ^ (27 + 16 - point - fraction.length))
    rw [mantissa]
    omega
  have offsetRead : m.offset = -(fraction.length : Int) := by
    rw [NumberMatch.offset, fractionRead]
    simp [m]
  have sign : (m.sign == ['-']) = negative := by cases negative <;> rfl
  rw [amountFromString_eq wellFormed text short (fun xrp => absurd xrp (by simp [notXRP])) fits
    (fun _ _ none => absurd none (by simp [m])), mantissa, offsetRead, sign]


/-- An IOU amount at an offset `getText` writes in plain notation reads back from that text. -/
theorem amountFromString_plainText {a : STAmount} (iou : IOUCanonical a) (nonzero : a.mantissa ≠ 0)
    (above : -25 ≤ a.exponent) (below : a.exponent ≤ 0) :
    amountFromString a.issue (plainText a.isNegative (Nat.repr a.mantissa).toList a.exponent) = .ok a := by
  have normal := CanonicalForm.normal (.inr iou) iou.1 nonzero
  have sixteen := length_toDigits_of_normal normal
  have notXRP : a.issue.currency.isXRP = false := by
    have currency := iou.2.1
    simp only [Currency.isNative, Bool.or_eq_false_iff] at currency
    exact currency.1
  rw [Nat.toList_repr, amountFromString_plainText_eq notXRP a.isNegative (allDigits_toDigits _) sixteen above below]
  have value := ofDigitChars_plain (Nat.toDigits 10 a.mantissa) (a.exponent + 43).toNat
  have fractionShort := length_plainFraction (Nat.toDigits 10 a.mantissa) (a.exponent + 43).toNat
  rw [sixteen, Nat.ofDigitChars_ten_toDigits] at value
  rw [sixteen] at fractionShort
  generalize plainFraction (Nat.toDigits 10 a.mantissa) (a.exponent + 43).toNat = fraction at value fractionShort ⊢
  generalize Nat.ofDigitChars 10 (_ ++ fraction) 0 = digitsValue at value ⊢
  -- the digits read are the mantissa with the zeros cropped behind it, at the offset of the last
  have scaled : (digitsValue : ℚ) * 10 ^ (-(fraction.length : Int)) = a.mantissa * 10 ^ a.exponent := by
    have offset : -(fraction.length : Int) - ((27 + 16 - (a.exponent + 43).toNat - fraction.length : ℕ) : Int) =
        a.exponent := by omega
    generalize 27 + 16 - (a.exponent + 43).toNat - fraction.length = k at value offset
    rw [← value, ← offset]
    exact_mod_cast (Scientific.scale_eq (by norm_num : 0 < 10) digitsValue k _).symm
  have read : digitsValue ≠ 0 := fun zero => nonzero (by rw [← value, zero, Nat.zero_mul])
  have atMost : digitsValue ≤ cMaxValue := by
    have := Nat.le_mul_of_pos_right digitsValue (Nat.pow_pos (by decide : 0 < 10) :
      0 < 10 ^ (27 + 16 - (a.exponent + 43).toNat - fraction.length))
    have := iou.2.2
    omega
  have large : (10 : ℚ) ^ (cMinOffset + 15) ≤ (digitsValue : ℚ) * 10 ^ (-(fraction.length : Int)) := by
    calc (10 : ℚ) ^ (cMinOffset + 15)
        ≤ 10 ^ (-(fraction.length : Int)) := zpow_le_zpow_right₀ (by norm_num) (by simp only [cMinOffset]; omega)
      _ = 1 * 10 ^ (-(fraction.length : Int)) := (one_mul _).symm
      _ ≤ (digitsValue : ℚ) * 10 ^ (-(fraction.length : Int)) :=
        mul_le_mul_of_nonneg_right (by exact_mod_cast Nat.one_le_iff_ne_zero.mpr read) (zpow_nonneg (by norm_num) _)
  obtain ⟨r, ok, issue, canonical, sign, magnitude⟩ :=
    @canonicalize_iou_exact ⟨a.issue, digitsValue, -(fraction.length : Int), false, a.isNegative⟩ iou.2.1 read atMost
      (by simp only [cMinOffset]; omega) (by simp only [cMaxOffset]; omega) large
  rw [ok]
  congr 1
  refine CanonicalForm.eq_of_toRat_eq (.inr canonical) (.inr iou) issue ?_
  rw [toRat, toRat, mul_assoc, mul_assoc, sign, magnitude, scaled]

/-- Every amount in canonical form within the native range reads back from the text `getText`
writes of it. -/
theorem amountFromString_getText {a : STAmount} (canonical : CanonicalForm a) (legal : isLegalNet a = true) :
    amountFromString a.issue a.getText = .ok a := by
  have kept := canonicalize_of_canonicalForm canonical legal
  unfold getText
  by_cases zero : a.mantissa = 0
  case pos =>
    -- `0` is the text of the digits of zero, unsigned and with no offset
    have text : "0" = (if false = true then "-" else "") ++ Nat.repr 0 ++ (if False then "e" ++ Int.repr 0 else "") := by
      decide
    rw [if_pos zero, text, amountFromString_digitsText a.issue false 0 0 False (by decide) (by decide), if_neg not_false,
      ← kept, canonicalize_of_mantissa_zero zero]
  case neg =>
    have bounds : a.mantissa ≤ 2 ^ 64 - 1 ∧ a.exponent.natAbs ≤ 2 ^ 31 - 1 := by
      rcases canonical with ⟨native, -, exponent, -⟩ | ⟨-, -, ⟨lost, -⟩ | ⟨-, atMost, above, below⟩⟩
      · have atMost : a.mantissa ≤ cMaxNativeN := by simpa [isLegalNet, STAmount.native, native] using legal
        simp only [cMaxNativeN] at atMost
        omega
      · exact absurd lost zero
      · simp only [cMaxValue, cMinOffset, cMaxOffset] at atMost above below
        omega
    rw [if_neg zero]
    simp only
    split
    case isTrue written =>
      -- a native amount is at offset zero, so the offset is written exactly when it is not zero
      have offset : (if a.exponent ≠ 0 ∧ (a.exponent < -25 ∨ a.exponent > -5) then a.exponent else 0) = a.exponent := by
        split
        · rfl
        case isFalse notScientific =>
          rcases canonical with ⟨-, -, exponent, -⟩ | ⟨native, -⟩
          · exact exponent.symm
          · simp only [native, Bool.false_eq_true, false_or] at written
            exact absurd written notScientific
      rw [amountFromString_digitsText _ _ _ _ _ bounds.1 bounds.2, offset, ← kept, ← canonicalize_isNative a false]
    case isFalse plain =>
      have iou : IOUCanonical a := by
        rcases canonical with ⟨native, -⟩ | iou
        · exact absurd (.inl native) plain
        · exact iou
      rw [not_or, not_and_or, not_not, not_or] at plain
      exact amountFromString_plainText iou zero (by omega) (by omega)

theorem amountFromString_getText_usd :
    CanonicalForm (usd 1500000000000000 (-15)) ∧ isLegalNet (usd 1500000000000000 (-15)) = true ∧
      amountFromString usdIssue (usd 1500000000000000 (-15)).getText = .ok (usd 1500000000000000 (-15)) :=
  ⟨by decide, by decide, amountFromString_getText (a := usd 1500000000000000 (-15)) (by decide) (by decide)⟩

end STAmount

end RadardFormal.Protocol
