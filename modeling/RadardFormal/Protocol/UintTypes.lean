import Mathlib.Data.List.TakeWhile
import Mathlib.Tactic.Ring
import RadardFormal.Protocol.Basics
import RadardFormal.Support.Bytes

/-!
# Currency codes as text

`to_string (Currency)` writes the two native codes by name, `noCurrency` as `1`, a code whose
only non-zero bytes are the three at offset 12 as those three characters when they are allowed
and name no native currency, and any other code as forty hexadecimal digits.  `to_currency`
reads the names back, upper-cases a three-character code into those bytes, and reads forty
characters with `base_uint::SetHex`.

A std::string is a list of `char`s here, each character one byte.  Every code reads back from
its text except one written as three characters with a lower-case letter, which is read back
upper-cased (`toCurrency_toString`, `lowercase_iso_code_reads_uppercased`).
-/

namespace RadardFormal.Protocol

open RadardFormal.Support

/-- `systemCurrencyCode ()`. -/
def systemCurrencyCode : List Char := ['V', 'R', 'P']

/-- `systemCurrencyCodeVBC ()`. -/
def systemCurrencyCodeVBC : List Char := ['V', 'B', 'C']

/-! ## `charHex`, `charUnHex`, `strHex` and `SetHex` -/

/-- `charHex`: the digit `0`-`9` or `A`-`F` of a value below sixteen. -/
def charHex (digit : Nat) : Char := "0123456789ABCDEF".toList.getD digit '0'

/-- `charUnHex`: the value of a hexadecimal digit of either case; the `-1` of any other character
is `none`. -/
def charUnHex (c : Char) : Option Nat :=
  if '0' ≤ c ∧ c ≤ '9' then some (c.toNat - '0'.toNat)
  else if 'A' ≤ c ∧ c ≤ 'F' then some (c.toNat - 'A'.toNat + 10)
  else if 'a' ≤ c ∧ c ≤ 'f' then some (c.toNat - 'a'.toNat + 10)
  else none

/-- `strHex`: two digits per byte, the high half first. -/
def strHex (bytes : List UInt8) : List Char :=
  bytes.flatMap fun c => [charHex (c.toNat >>> 4), charHex (c.toNat &&& 15)]

/-- `isspace` in the C locale. -/
def isSpace (c : Char) : Bool :=
  c == ' ' || c == '\t' || c == '\n' || c == '\x0b' || c == '\x0c' || c == '\r'

/-- The number hexadecimal digits write, most significant first: the value the byte pairs of
`SetHex` give once placed at the end of the `base_uint`. -/
def hexValue (digits : List Char) : Nat :=
  digits.foldl (fun value c => value * 16 + (charUnHex c).getD 0) 0

/-- `base_uint<160>::SetHex (psz, false)`: leading spaces and a `0x` are skipped, the digits up
to the first other character are read (the last forty when there are more), and the parse
succeeds when that character is the terminator. -/
def setHex (psz : List Char) : Option Nat :=
  let psz := psz.dropWhile isSpace
  let psz := match psz with
    | '0' :: c :: rest => if c.toLower = 'x' then rest else psz
    | _ => psz
  let digits := psz.takeWhile fun c => (charUnHex c).isSome
  let after := psz.dropWhile fun c => (charUnHex c).isSome
  let digits := if digits.length > 40 then digits.drop (digits.length - 40) else digits
  if after.headD '\x00' = '\x00' then some (hexValue digits) else none

namespace Currency

/-- The characters `to_string` allows in a three-character code. -/
def allowedCharacters : List Char :=
  "abcdefghijklmnopqrstuvwxyzABCDEFGHIJKLMNOPQRSTUVWXYZ0123456789<>()\x7b\x7d[]|?!@#$%^&*".toList

/-- `sIsoBits`: every bit but those of the three bytes at offset 12. -/
def isoBits : Nat := 0xFFFFFFFFFFFFFFFFFFFFFFFF000000FFFFFFFFFF

/-- The bytes of a code, as `data ()` holds them. -/
def bytes (currency : Currency) : List UInt8 := Bytes.bigEndian 20 currency.val.val

/-- The three characters at `isoOffset` 12. -/
def isoCode (currency : Currency) : List Char :=
  ((currency.bytes.drop 12).take 3).map fun b => Char.ofNat b.toNat

/-- The two tests under which `to_string` writes the three characters: no bit outside them is set,
and they are allowed characters that do not spell a native code. -/
def WrittenAsIso (currency : Currency) : Prop :=
  currency.val.val &&& isoBits = 0 ∧ currency.isoCode ≠ systemCurrencyCode ∧
    currency.isoCode ≠ systemCurrencyCodeVBC ∧ currency.isoCode.all (· ∈ allowedCharacters)

instance : DecidablePred WrittenAsIso := fun _ => inferInstanceAs (Decidable (_ ∧ _ ∧ _ ∧ _))

/-- `to_string (Currency)`. -/
def toString (currency : Currency) : List Char :=
  if currency = xrpCurrency then systemCurrencyCode
  else if currency = vbcCurrency then systemCurrencyCodeVBC
  else if currency = noCurrency then ['1']
  else if WrittenAsIso currency then currency.isoCode
  else strHex currency.bytes

end Currency

/-- `to_currency (Currency&, std::string const&)`, the code when it returns `true`. -/
def toCurrencyChecked (code : List Char) : Option Currency :=
  if code = [] ∨ code = systemCurrencyCode then some Currency.xrpCurrency
  else if code = [] ∨ code = systemCurrencyCodeVBC then some Currency.vbcCurrency
  else if code.length = 3 then
    -- twelve zero bytes, the code upper-cased, then five zero bytes, read by `get160`
    let codeBlob := code.map fun c => UInt8.ofNat c.toUpper.toNat
    some (Currency.ofNat (Bytes.ofBigEndian (List.replicate 12 0 ++ codeBlob ++ List.replicate 2 0 ++
      List.replicate 3 0)))
  else if code.length = 40 then (setHex code).map Currency.ofNat
  else none

/-- `to_currency (std::string const&)`: `noCurrency` when the code is refused. -/
def toCurrency (code : List Char) : Currency := (toCurrencyChecked code).getD Currency.noCurrency

/-! ## Reading hexadecimal digits back -/

/-- Each of the sixteen digits reads back as its value, and is neither a space nor an `x`. -/
theorem charHex_spec {digit : Nat} (small : digit < 16) :
    charUnHex (charHex digit) = some digit ∧ isSpace (charHex digit) = false ∧ (charHex digit).toLower ≠ 'x' := by
  have all : ∀ d < 16, charUnHex (charHex d) = some d ∧ isSpace (charHex d) = false ∧ (charHex d).toLower ≠ 'x' := by
    decide
  exact all digit small

theorem mem_strHex {bytes : List UInt8} {c : Char} (mem : c ∈ strHex bytes) : ∃ digit < 16, c = charHex digit := by
  obtain ⟨byte, -, written⟩ := List.mem_flatMap.mp mem
  have small := byte.toNat_lt
  rcases List.mem_pair.mp written with high | low
  · exact ⟨byte.toNat >>> 4, by rw [Nat.shiftRight_eq_div_pow]; omega, high⟩
  · exact ⟨byte.toNat &&& 15, Nat.lt_succ_of_le Nat.and_le_right, low⟩

theorem length_strHex (bytes : List UInt8) : (strHex bytes).length = 2 * bytes.length := by
  induction bytes with
  | nil => rfl
  | cons byte rest ih =>
    rw [strHex, List.flatMap_cons, ← strHex, List.length_append, ih]
    simp only [List.length_cons, List.length_nil]
    omega

/-- Two digits per byte, read most significant first, give the number the bytes write. -/
theorem foldl_strHex (init : Nat) (bytes : List UInt8) :
    (strHex bytes).foldl (fun value c => value * 16 + (charUnHex c).getD 0) init =
      init * 256 ^ bytes.length + Bytes.ofBigEndian bytes := by
  induction bytes generalizing init with
  | nil => simp [strHex, Bytes.ofBigEndian]
  | cons byte rest ih =>
    have small := byte.toNat_lt
    have highSmall : byte.toNat >>> 4 < 16 := by rw [Nat.shiftRight_eq_div_pow]; omega
    have lowSmall : byte.toNat &&& 15 < 16 := Nat.lt_succ_of_le Nat.and_le_right
    have high := (charHex_spec highSmall).1
    have low := (charHex_spec lowSmall).1
    -- the two digits of a byte put sixteen times its high half in front of its low half
    have halves : (init * 16 + (byte.toNat >>> 4)) * 16 + (byte.toNat &&& 15) = init * 256 + byte.toNat := by
      rw [Nat.shiftRight_eq_div_pow, show (15 : Nat) = 2 ^ 4 - 1 from rfl, Nat.and_two_pow_sub_one_eq_mod]
      omega
    rw [strHex, List.flatMap_cons, ← strHex, List.foldl_append, List.foldl_cons, List.foldl_cons, List.foldl_nil,
      high, low, Option.getD_some, Option.getD_some, halves, ih, Bytes.ofBigEndian, List.length_cons, Nat.pow_succ]
    ring

/-- `SetHex` reads back the digits `strHex` writes of at most twenty bytes. -/
theorem setHex_strHex {bytes : List UInt8} (short : bytes.length ≤ 20) :
    setHex (strHex bytes) = some (Bytes.ofBigEndian bytes) := by
  have digits : ∀ c ∈ strHex bytes, charUnHex c ≠ none ∧ isSpace c = false ∧ c.toLower ≠ 'x' := by
    intro c mem
    obtain ⟨digit, small, rfl⟩ := mem_strHex mem
    obtain ⟨read, notSpace, notX⟩ := charHex_spec small
    exact ⟨by rw [read]; exact Option.some_ne_none digit, notSpace, notX⟩
  -- no space and no `0x` in front, and every character is a digit
  have noSpace : (strHex bytes).dropWhile isSpace = strHex bytes := by
    cases written : strHex bytes with
    | nil => rfl
    | cons c rest => rw [List.dropWhile_cons_of_neg (by simp [(digits c (written ▸ List.mem_cons_self)).2.1])]
  have noPrefix : (match strHex bytes with
      | '0' :: c :: rest => if c.toLower = 'x' then rest else strHex bytes
      | _ => strHex bytes) = strHex bytes := by
    split
    case h_1 c rest written =>
      exact if_neg (digits c (written ▸ List.mem_cons_of_mem _ List.mem_cons_self)).2.2
    case h_2 => rfl
  have taken : (strHex bytes).takeWhile (fun c => (charUnHex c).isSome) = strHex bytes :=
    List.takeWhile_eq_self_iff.mpr fun c mem => Option.isSome_iff_ne_none.mpr (digits c mem).1
  have dropped : (strHex bytes).dropWhile (fun c => (charUnHex c).isSome) = [] :=
    List.dropWhile_eq_nil_iff.mpr fun c mem => Option.isSome_iff_ne_none.mpr (digits c mem).1
  have fits : ¬(strHex bytes).length > 40 := by rw [length_strHex]; omega
  simp only [setHex]
  rw [noSpace, noPrefix, taken, dropped, if_neg fits, hexValue, foldl_strHex, Nat.zero_mul, Nat.zero_add]
  rfl

/-- The forty digits of a code read back as that code. -/
theorem toCurrencyChecked_strHex (currency : Currency) : toCurrencyChecked (strHex currency.bytes) = some currency := by
  have forty : (strHex currency.bytes).length = 40 := by rw [length_strHex, Currency.bytes, Bytes.length_bigEndian]
  -- forty characters are neither empty nor one of the two names
  have notShort : ¬(strHex currency.bytes = [] ∨ strHex currency.bytes = systemCurrencyCode) := by
    rintro (empty | native)
    · simp [empty] at forty
    · simp [native, systemCurrencyCode] at forty
  have notShortVBC : ¬(strHex currency.bytes = [] ∨ strHex currency.bytes = systemCurrencyCodeVBC) := by
    rintro (empty | native)
    · simp [empty] at forty
    · simp [native, systemCurrencyCodeVBC] at forty
  have short : currency.bytes.length ≤ 20 := by rw [Currency.bytes, Bytes.length_bigEndian]
  have read := setHex_strHex short
  have value : Bytes.ofBigEndian currency.bytes = currency.val.val := by
    rw [Currency.bytes, Bytes.ofBigEndian_bigEndian, Nat.mod_eq_of_lt (by simp)]
  rw [toCurrencyChecked, if_neg notShort, if_neg notShortVBC, if_neg (by omega), if_pos forty, read, value,
    Option.map_some, Currency.ofNat_val]

/-! ## The three-character codes -/

/-- A byte taken for a character keeps its value. -/
theorem toNat_charOfNat {n : Nat} (small : n < 256) : (Char.ofNat n).toNat = n := by
  unfold Char.ofNat
  rw [dif_pos (Or.inl (by omega))]
  -- `ofNatAux` stores the number itself
  rfl

namespace Currency

theorem testBit_isoBits {i : Nat} (below : i < 160) : isoBits.testBit i = decide (i < 40 ∨ 64 ≤ i) := by
  have mask : isoBits = (2 ^ 160 - 1) ^^^ ((2 ^ 24 - 1) <<< 40) := by decide
  rw [mask, Nat.testBit_xor, Nat.testBit_two_pow_sub_one, Nat.testBit_shiftLeft, Nat.testBit_two_pow_sub_one]
  by_cases low : i < 40 <;> by_cases high : 64 ≤ i <;> simp [low, high, below] <;> omega

/-- A code clear of `sIsoBits` is a number of three bytes shifted up by five. -/
theorem iso_shape {currency : Currency} (iso : currency.val.val &&& isoBits = 0) :
    currency.val.val % 2 ^ 40 = 0 ∧ currency.val.val < 2 ^ 64 := by
  have small : currency.val.val < 2 ^ 160 := currency.val.isLt
  -- no bit the mask keeps is set
  have clear : ∀ i < 160, i < 40 ∨ 64 ≤ i → currency.val.val.testBit i = false := by
    intro i below masked
    have bit := congrArg (·.testBit i) iso
    simp only [Nat.testBit_and, testBit_isoBits below, Nat.zero_testBit] at bit
    simpa [masked] using bit
  constructor
  · apply Nat.eq_of_testBit_eq
    intro i
    rw [Nat.testBit_mod_two_pow, Nat.zero_testBit]
    by_cases low : i < 40
    · simp [low, clear i (by omega) (.inl low)]
    · simp [low]
  · apply Nat.lt_pow_two_of_testBit
    intro i above
    by_cases inside : i < 160
    · exact clear i inside (.inr above)
    · exact Nat.testBit_lt_two_pow (Nat.lt_of_lt_of_le small (Nat.pow_le_pow_right (by decide) (by omega)))

/-- The bytes of a code clear of `sIsoBits`: twelve zeros, its three bytes, five zeros. -/
theorem bytes_of_iso {currency : Currency} (iso : currency.val.val &&& isoBits = 0) :
    currency.bytes = List.replicate 12 0 ++ Bytes.bigEndian 3 (currency.val.val / 256 ^ 5) ++ List.replicate 5 0 := by
  obtain ⟨low, high⟩ := iso_shape iso
  have top : currency.val.val / 256 ^ (3 + 5) = 0 := Nat.div_eq_of_lt (by simpa using high)
  have tail : Bytes.bigEndian 5 currency.val.val = List.replicate 5 0 := by
    have split : currency.val.val = 0 + 256 ^ 5 * (currency.val.val / 256 ^ 5) := by
      have := Nat.div_add_mod currency.val.val (256 ^ 5)
      simp only [show (256 : Nat) ^ 5 = 2 ^ 40 from rfl] at this ⊢
      omega
    rw [split, Bytes.bigEndian_add_mul, Bytes.bigEndian_zero]
  rw [bytes, show (20 : Nat) = 12 + (3 + 5) from rfl, Bytes.bigEndian_add, Bytes.bigEndian_add 3 5, top,
    Bytes.bigEndian_zero, tail, List.append_assoc]

theorem isoCode_of_iso {currency : Currency} (iso : currency.val.val &&& isoBits = 0) :
    currency.isoCode = (Bytes.bigEndian 3 (currency.val.val / 256 ^ 5)).map fun b => Char.ofNat b.toNat := by
  rw [isoCode, bytes_of_iso iso, List.append_assoc, List.drop_left' (List.length_replicate ..),
    List.take_left' (Bytes.length_bigEndian ..)]

end Currency

/-- The three characters of a code clear of `sIsoBits` that are upper-case already and spell no
native code read back as that code. -/
theorem toCurrencyChecked_isoCode {currency : Currency} (iso : currency.val.val &&& Currency.isoBits = 0)
    (notVRP : currency.isoCode ≠ systemCurrencyCode) (notVBC : currency.isoCode ≠ systemCurrencyCodeVBC)
    (upper : currency.isoCode.map Char.toUpper = currency.isoCode) :
    toCurrencyChecked currency.isoCode = some currency := by
  have three : currency.isoCode.length = 3 := by rw [Currency.isoCode_of_iso iso, List.length_map, Bytes.length_bigEndian]
  have notEmpty : currency.isoCode ≠ [] := fun empty => by simp [empty] at three
  -- each character is a byte, and upper-casing keeps it
  have blob : currency.isoCode.map (fun c => UInt8.ofNat c.toUpper.toNat) =
      Bytes.bigEndian 3 (currency.val.val / 256 ^ 5) := by
    have byte : ∀ b : UInt8, UInt8.ofNat (Char.ofNat b.toNat).toNat = b := fun b => by
      rw [toNat_charOfNat b.toNat_lt, UInt8.ofNat_toNat]
    have upperFirst : currency.isoCode.map (fun c => UInt8.ofNat c.toUpper.toNat) =
        (currency.isoCode.map Char.toUpper).map fun c => UInt8.ofNat c.toNat := by
      rw [List.map_map]
      rfl
    rw [upperFirst, upper, Currency.isoCode_of_iso iso, List.map_map]
    exact List.map_id'' byte _
  have value : Bytes.ofBigEndian (List.replicate 12 0 ++ Bytes.bigEndian 3 (currency.val.val / 256 ^ 5) ++
      List.replicate 2 0 ++ List.replicate 3 0) = currency.val.val := by
    obtain ⟨low, high⟩ := Currency.iso_shape iso
    have three : currency.val.val / 256 ^ 5 < 256 ^ 3 := by
      simp only [show (256 : Nat) ^ 5 = 2 ^ 40 from rfl, show (256 : Nat) ^ 3 = 2 ^ 24 from rfl]
      omega
    simp only [Bytes.ofBigEndian_append, Bytes.ofBigEndian_replicate_zero, Bytes.ofBigEndian_bigEndian,
      Nat.mod_eq_of_lt three, List.length_replicate, Bytes.length_bigEndian]
    simp only [show (256 : Nat) ^ 5 = 2 ^ 40 from rfl, show (256 : Nat) ^ 2 = 2 ^ 16 from rfl,
      show (256 : Nat) ^ 3 = 2 ^ 24 from rfl]
    omega
  rw [toCurrencyChecked, if_neg (by simp [notEmpty, notVRP]), if_neg (by simp [notEmpty, notVBC]), if_pos three,
    blob]
  dsimp only
  rw [value, Currency.ofNat_val]

/-- Every code reads back from the text `to_string` writes, but for one written as three
characters of which one is lower-case. -/
theorem toCurrency_toString (currency : Currency)
    (upper : Currency.WrittenAsIso currency → currency.isoCode.map Char.toUpper = currency.isoCode) :
    toCurrency currency.toString = currency := by
  unfold Currency.toString
  split_ifs with xrp vbc no written
  · rw [xrp]
    decide
  · rw [vbc]
    decide
  · rw [no]
    decide
  · rw [toCurrency, toCurrencyChecked_isoCode written.1 written.2.1 written.2.2.1 (upper written)]
    rfl
  · rw [toCurrency, toCurrencyChecked_strHex]
    rfl

/-- The code with `usd` at offset 12 is written `usd` and read back as the code with `USD` there;
its forty digits are accepted as that first code, whose text then reads back as the second. -/
theorem lowercase_iso_code_reads_uppercased :
    Currency.toString (Currency.ofNat 0x7573640000000000) = ['u', 's', 'd'] ∧
      toCurrency ['u', 's', 'd'] = Currency.ofNat 0x5553440000000000 ∧
      Currency.ofNat 0x5553440000000000 ≠ Currency.ofNat 0x7573640000000000 ∧
      toCurrencyChecked (strHex (Currency.ofNat 0x7573640000000000).bytes) = some (Currency.ofNat 0x7573640000000000) :=
  ⟨by decide, by decide, by decide, toCurrencyChecked_strHex _⟩

end RadardFormal.Protocol
