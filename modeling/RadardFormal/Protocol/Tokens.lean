import Mathlib.Data.List.TakeWhile
import RadardFormal.Support.DecimalText
import RadardFormal.Support.Radix

/-!
# Base58 tokens

`base58EncodeToken` lays a token out as its type byte, the token and a four-byte checksum, and
writes that in base 58: a leading `r` for each leading zero byte, then the digits of the number
the bytes form.  `decodeBase58Token` reads the text back, checks the type and the checksum,
and returns the token, or the empty string on any failure.  Both directions are the
schoolbook base change of `Radix.convert` over a zero-filled scratch array.

The encoder's scratch array lies in the storage `base58EncodeToken` allocates: its 1024-byte
stack buffer, or `needed` bytes on the heap.  `encodeBase58` is given how many bytes it may
write and returns `none` when the array it fills reaches past them.  SHA-256 is a parameter,
`Hasher`, since no proof depends on which hash it is, and a `char` is signed, as on the targets
the code is built for.

The decoder inverts the encoder and the encoder the decoder, but only for tokens of at most
336 bytes and type bytes below 128 (`decodeBase58Token_base58EncodeToken`,
`base58EncodeToken_decodeBase58Token`): beyond that length the scratch array overruns its
storage (`base58EncodeToken_eq_none_iff`), and a higher type byte reads back negative.
-/

namespace RadardFormal.Protocol.Tokens

open RadardFormal.Support RadardFormal.Support.Radix RadardFormal.Support.DecimalText

/-- A hash function with 32-byte digests, `sha256_hasher` in the code. -/
structure Hasher where
  digest : List UInt8 → List UInt8
  length_digest : ∀ message, (digest message).length = 32

/-- `checksum`: the first four bytes of the digest of the digest of `message`. -/
def checksum (sha256 : Hasher) (message : List UInt8) : List UInt8 :=
  (sha256.digest (sha256.digest message)).take 4

@[simp] theorem length_checksum (sha256 : Hasher) (message : List UInt8) :
    (checksum sha256 message).length = 4 := by
  simp [checksum, sha256.length_digest]

/-- A base-58 alphabet: 58 distinct characters, digit `d` written as the `d`-th. -/
structure Alphabet where
  chars : List Char
  length_chars : chars.length = 58
  nodup : chars.Nodup

def rippleAlphabet : Alphabet :=
  ⟨"rpshnaf39wBUDNEGHJKLM4PQRST7VWXYZ2bcdeCg65jkm8oFqi1tuvAxyz".toList, by decide, by decide⟩

def bitcoinAlphabet : Alphabet :=
  ⟨"123456789ABCDEFGHJKLMNPQRSTUVWXYZabcdefghijkmnopqrstuvwxyz".toList, by decide, by decide⟩

namespace Alphabet

/-- `alphabet[d]`. -/
def digit (alphabet : Alphabet) (d : Nat) : Char := alphabet.chars.getD d default

/-- `InverseAlphabet`: the digit a character writes, `-1` for one outside the alphabet. -/
def inverse (alphabet : Alphabet) (c : Char) : Int :=
  if c ∈ alphabet.chars then alphabet.chars.idxOf c else -1

end Alphabet

def rippleInverse : Char → Int := rippleAlphabet.inverse

def bitcoinInverse : Char → Int := bitcoinAlphabet.inverse

/-- A byte read as a `char`: signed, in two's complement. -/
def signedChar (byte : UInt8) : Int := if byte.toNat < 128 then byte.toNat else byte.toNat - 256

/-! ## The code -/

/-- `encodeBase58 (message, size, temp, alphabet)`, where `room` bytes may be written at `temp`. -/
def encodeBase58 (message : List UInt8) (room : Nat) (alphabet : Alphabet) : Option (List Char) :=
  -- Skip & count leading zeroes.
  let zeroes := (message.takeWhile (· == 0)).length
  -- log(256) / log(58), rounded up.
  let width := message.length * (138 / 100 + 1)
  -- std::fill(b58begin, b58end, 0) writes the whole array
  if room < width then none
  else
    -- Apply "b58 = b58 * 256 + ch" for each byte after the zeroes.
    let b58 := convert 58 256 (List.replicate width 0) ((message.drop zeroes).map UInt8.toNat)
    -- Skip leading zeroes in base58 result.
    some (List.replicate zeroes (alphabet.digit 0) ++ (b58.dropWhile (· == 0)).map alphabet.digit)

/-- `base58EncodeToken (type, token, size)`. -/
def base58EncodeToken (sha256 : Hasher) (type : UInt8) (token : List UInt8) : Option (List Char) :=
  -- expanded token includes type + checksum
  let expanded := 1 + token.length + 4
  -- add scratch, log(256) / log(58), rounded up.
  let needed := expanded + token.length * (138 / 100 + 1)
  -- the 1024-byte stack buffer, or a heap buffer of `needed` bytes
  let storage := if needed > 1024 then needed else 1024
  -- Lay the data out as <type><token><checksum>
  let temp := type :: token ++ checksum sha256 (type :: token)
  encodeBase58 temp (storage - expanded) rippleAlphabet

/-- The digit a character writes, `none` (the early `return {}`) when it writes none. -/
def readDigit (inv : Char → Int) (c : Char) : Option Nat :=
  let carry := inv c
  if carry == -1 then none else some carry.toNat

/-- `decodeBase58 (s, inv)`. -/
def decodeBase58 (s : List Char) (inv : Char → Int) : List UInt8 :=
  -- Skip and count leading zeroes
  let zeroes := (s.takeWhile (inv · == 0)).length
  let rest := s.drop zeroes
  -- Allocate enough space in big-endian base256 representation.
  -- log(58) / log(256), rounded up.
  let b256 := List.replicate (rest.length * 733 / 1000 + 1) 0
  -- Apply "b256 = b256 * 58 + carry".
  match rest.foldlM (fun b256 c => readDigit inv c >>= fun carry => pure (mulAdd 256 58 b256 carry).1) b256 with
  | none => []
  | some b256 =>
    -- Skip leading zeroes in b256.
    List.replicate zeroes 0 ++ (b256.dropWhile (· == 0)).map UInt8.ofNat

/-- `decodeBase58Token (s, type, inv)`; `decodeBase58Token (s, type)` passes `rippleInverse`. -/
def decodeBase58Token (sha256 : Hasher) (s : List Char) (type : Int) (inv : Char → Int) : List UInt8 :=
  let result := decodeBase58 s inv
  if result.isEmpty then result
  -- Reject zero length tokens
  else if result.length < 6 then []
  else if signedChar (result.headD 0) ≠ type then []
  else if checksum sha256 (result.take (result.length - 4)) ≠ result.drop (result.length - 4) then []
  -- drop the checksum, then erase the type byte
  else (result.take (result.length - 4)).drop 1

def decodeBase58TokenBitcoin (sha256 : Hasher) (s : List Char) (type : Int) : List UInt8 :=
  decodeBase58Token sha256 s type bitcoinInverse

/-! ## Digits and characters -/

namespace Alphabet

variable (alphabet : Alphabet)

theorem digit_eq {d : Nat} (small : d < 58) :
    alphabet.digit d = alphabet.chars.get ⟨d, alphabet.length_chars ▸ small⟩ := by
  rw [digit, List.getD_eq_getElem?_getD, List.getElem?_eq_getElem, Option.getD_some, List.get_eq_getElem]

theorem inverse_digit {d : Nat} (small : d < 58) : alphabet.inverse (alphabet.digit d) = d := by
  have inside : d < alphabet.chars.length := alphabet.length_chars ▸ small
  rw [digit_eq alphabet small, List.get_eq_getElem, inverse, if_pos (List.getElem_mem inside)]
  simp [alphabet.nodup]

/-- A character whose digit reads is the character of that digit. -/
theorem readDigit_eq_some {c : Char} {d : Nat} (read : readDigit alphabet.inverse c = some d) :
    d < 58 ∧ alphabet.digit d = c := by
  unfold readDigit inverse at read
  by_cases mem : c ∈ alphabet.chars
  · have index : alphabet.chars.idxOf c < 58 :=
      alphabet.length_chars ▸ List.idxOf_lt_length_iff.mpr mem
    simp only [if_pos mem] at read
    have found : alphabet.chars.idxOf c = d := by simpa using read
    subst found
    refine ⟨index, ?_⟩
    rw [digit_eq alphabet index, List.get_eq_getElem]
    exact List.getElem_idxOf (List.idxOf_lt_length_iff.mpr mem)
  · simp [if_neg mem] at read

theorem readDigit_digit {d : Nat} (small : d < 58) :
    readDigit alphabet.inverse (alphabet.digit d) = some d := by
  simp [readDigit, inverse_digit alphabet small]

theorem eq_digit_zero_of_inverse {c : Char} (zero : alphabet.inverse c = 0) : c = alphabet.digit 0 := by
  have read : readDigit alphabet.inverse c = some 0 := by simp [readDigit, zero]
  exact (readDigit_eq_some alphabet read).2.symm

/-- The characters of digits below 58 read back as the digits. -/
theorem mapM_readDigit_map_digit {digits : List Nat} (small : ∀ d ∈ digits, d < 58) :
    (digits.map alphabet.digit).mapM (readDigit alphabet.inverse) = some digits := by
  induction digits with
  | nil => rfl
  | cons d ds ih =>
    simp only [List.map_cons, List.mapM_cons, readDigit_digit alphabet (small d (by simp)),
      ih fun x mem => small x (List.mem_cons_of_mem d mem), Option.pure_def, Option.bind_eq_bind,
      Option.bind_some]

theorem mapM_readDigit_eq_some {text : List Char} {digits : List Nat}
    (read : text.mapM (readDigit alphabet.inverse) = some digits) :
    (∀ d ∈ digits, d < 58) ∧ digits.map alphabet.digit = text := by
  induction text generalizing digits with
  | nil =>
    simp only [List.mapM_nil, Option.pure_def, Option.some.injEq] at read
    simp [← read]
  | cons c rest ih =>
    simp only [List.mapM_cons, Option.pure_def, Option.bind_eq_bind] at read
    cases first : readDigit alphabet.inverse c with
    | none => simp [first] at read
    | some d =>
      cases others : rest.mapM (readDigit alphabet.inverse) with
      | none => simp [first, others] at read
      | some ds =>
        simp only [first, others, Option.bind_some, Option.some.injEq] at read
        obtain ⟨small, text⟩ := ih others
        obtain ⟨below, same⟩ := readDigit_eq_some alphabet first
        subst read
        refine ⟨fun x mem => ?_, by rw [List.map_cons, same, text]⟩
        rcases List.mem_cons.mp mem with rfl | inner
        · exact below
        · exact small x inner

end Alphabet

/-! ## Leading zeros -/

theorem beq_zero_comp_toNat : ((· == 0) ∘ UInt8.toNat) = (· == (0 : UInt8)) := by
  funext byte
  simp [← UInt8.toNat_inj]

theorem toNat_ofNat_of_lt {digits : List Nat} (small : ∀ d ∈ digits, d < 256) :
    (digits.map UInt8.ofNat).map UInt8.toNat = digits := by
  rw [List.map_map]
  exact (List.map_congr_left fun d mem => UInt8.toNat_ofNat_of_lt (small d mem)).trans (List.map_id _)

theorem map_toNat_dropWhile_zero (message : List UInt8) :
    (message.dropWhile (· == 0)).map UInt8.toNat = (message.map UInt8.toNat).dropWhile (· == 0) := by
  rw [← beq_zero_comp_toNat, ← List.dropWhile_map]

/-- The bytes after the leading zero bytes are the base-256 digits of the number. -/
theorem map_toNat_dropWhile (message : List UInt8) :
    (message.dropWhile (· == 0)).map UInt8.toNat =
      (Nat.digits 256 (value 256 (message.map UInt8.toNat))).reverse := by
  rw [map_toNat_dropWhile_zero]
  exact dropWhile_zero_eq_digits (by decide) fun d mem => by
    obtain ⟨byte, -, rfl⟩ := List.mem_map.mp mem
    exact byte.toNat_lt

/-- A byte string is its leading zero bytes followed by the digits of its number. -/
theorem eq_replicate_append_digits (message : List UInt8) :
    message = List.replicate (message.takeWhile (· == 0)).length 0 ++
      (Nat.digits 256 (value 256 (message.map UInt8.toNat))).reverse.map UInt8.ofNat := by
  have tail : message.dropWhile (· == 0) =
      (Nat.digits 256 (value 256 (message.map UInt8.toNat))).reverse.map UInt8.ofNat := by
    rw [← map_toNat_dropWhile, List.map_map]
    exact (List.map_id'' (fun byte => UInt8.ofNat_toNat) _).symm
  rw [← tail, ← takeWhile_eq_replicate (by simp), List.takeWhile_append_dropWhile]

theorem value_drop_takeWhile (message : List UInt8) :
    value 256 ((message.drop (message.takeWhile (· == 0)).length).map UInt8.toNat) =
      value 256 (message.map UInt8.toNat) := by
  rw [drop_length_takeWhile, map_toNat_dropWhile_zero, value_dropWhile_zero]

/-- Canonical digits in base `base` start with a non-zero digit, so a string made of them does
not start with the character of zero. -/
theorem stops_digits {β : Type} (base n : Nat) (f : Nat → β) (p : β → Bool)
    (nonzero : ∀ d, d ≠ 0 → d < base → p (f d) = false) (one_lt : 1 < base) :
    ∀ x ∈ ((Nat.digits base n).reverse.map f).head?, p x = false := by
  intro x mem
  cases digits : (Nat.digits base n).reverse with
  | nil => simp [digits] at mem
  | cons d rest =>
    simp only [digits, List.map_cons, List.head?_cons, Option.mem_def, Option.some.injEq] at mem
    subst mem
    have inside : d ∈ Nat.digits base n := List.mem_reverse.mp (digits ▸ List.mem_cons_self)
    exact nonzero d (head_digits_ne_zero base n d rest digits) (Nat.digits_lt_base one_lt inside)

/-! ## Encoding -/

/-- The text of a byte string: the character of zero for each leading zero byte, then the
base-58 digits of the number the bytes form. -/
def base58Text (alphabet : Alphabet) (message : List UInt8) : List Char :=
  List.replicate (message.takeWhile (· == 0)).length (alphabet.digit 0) ++
    (Nat.digits 58 (value 256 (message.map UInt8.toNat))).reverse.map alphabet.digit

/-- Two base-58 digits per byte hold the number of any byte string. -/
theorem pow_256_le (n : Nat) : 256 ^ n ≤ 58 ^ (n * (138 / 100 + 1)) := by
  rw [Nat.pow_mul']
  exact Nat.pow_le_pow_left (by decide) n

theorem encodeBase58_eq {message : List UInt8} {room : Nat} (alphabet : Alphabet)
    (roomy : message.length * (138 / 100 + 1) ≤ room) :
    encodeBase58 message room alphabet = some (base58Text alphabet message) := by
  have small : ∀ d ∈ (message.drop (message.takeWhile (· == 0)).length).map UInt8.toNat, d < 256 :=
    fun d mem => by
      obtain ⟨byte, -, rfl⟩ := List.mem_map.mp mem
      exact byte.toNat_lt
  have fits : value 256 ((message.drop (message.takeWhile (· == 0)).length).map UInt8.toNat) <
      58 ^ (message.length * (138 / 100 + 1)) :=
    calc _ < 256 ^ ((message.drop (message.takeWhile (· == 0)).length).map UInt8.toNat).length :=
          value_lt (by decide) small
      _ ≤ 256 ^ message.length := Nat.pow_le_pow_right (by decide) (by simp)
      _ ≤ _ := pow_256_le _
  unfold encodeBase58
  rw [if_neg (Nat.not_lt.mpr roomy)]
  dsimp only
  rw [dropWhile_convert_replicate (by decide) (by decide) fits, value_drop_takeWhile]
  rfl

theorem encodeBase58_eq_none {message : List UInt8} {room : Nat} (alphabet : Alphabet)
    (cramped : room < message.length * (138 / 100 + 1)) : encodeBase58 message room alphabet = none := by
  unfold encodeBase58
  rw [if_pos cramped]

/-! ## Decoding -/

/-- `remain * 733 / 1000 + 1` bytes hold the number of any `remain` base-58 digits:
`58 ^ 71 ≤ 256 ^ 52` and `52 / 71 ≤ 733 / 1000`. -/
theorem pow_58_le (remain : Nat) : 58 ^ remain ≤ 256 ^ (remain * 733 / 1000 + 1) := by
  have ratio : (58 : Nat) ^ 71 ≤ 256 ^ 52 := by decide
  have exponent : 52 * remain ≤ 71 * (remain * 733 / 1000 + 1) := by omega
  have scaled : (58 ^ remain) ^ 71 ≤ (256 ^ (remain * 733 / 1000 + 1)) ^ 71 :=
    calc (58 ^ remain) ^ 71 = (58 ^ 71) ^ remain := by rw [← Nat.pow_mul, ← Nat.pow_mul, Nat.mul_comm]
      _ ≤ (256 ^ 52) ^ remain := Nat.pow_le_pow_left ratio remain
      _ = 256 ^ (52 * remain) := by rw [← Nat.pow_mul]
      _ ≤ 256 ^ (71 * (remain * 733 / 1000 + 1)) := Nat.pow_le_pow_right (by decide) exponent
      _ = (256 ^ (remain * 733 / 1000 + 1)) ^ 71 := by rw [← Nat.pow_mul, Nat.mul_comm]
  exact (Nat.pow_le_pow_iff_left (by decide)).mp scaled

theorem dropWhile_decode {digits : List Nat} (small : ∀ d ∈ digits, d < 58) :
    (convert 256 58 (List.replicate (digits.length * 733 / 1000 + 1) 0) digits).dropWhile (· == 0) =
      (Nat.digits 256 (value 58 digits)).reverse :=
  dropWhile_convert_replicate (by decide) (by decide)
    (Nat.lt_of_lt_of_le (value_lt (by decide) small) (pow_58_le _))

/-- `decodeBase58` with its leading zeros counted and the rest read as digits. -/
theorem decodeBase58_of_mapM {s rest : List Char} {inv : Char → Int} {zeroes : Nat} {digits : List Nat}
    (count : (s.takeWhile (inv · == 0)).length = zeroes) (after : s.drop zeroes = rest)
    (read : rest.mapM (readDigit inv) = some digits) :
    decodeBase58 s inv = List.replicate zeroes 0 ++
      ((convert 256 58 (List.replicate (rest.length * 733 / 1000 + 1) 0) digits).dropWhile (· == 0)).map
        UInt8.ofNat := by
  unfold decodeBase58
  simp only [count, after]
  rw [foldlM_bind_pure (readDigit inv) (fun acc d => (mulAdd 256 58 acc d).1), read]
  rfl

theorem decodeBase58_of_mapM_none {s : List Char} {inv : Char → Int}
    (unread : (s.drop (s.takeWhile (inv · == 0)).length).mapM (readDigit inv) = none) :
    decodeBase58 s inv = [] := by
  unfold decodeBase58
  simp only
  rw [foldlM_bind_pure (readDigit inv) (fun acc d => (mulAdd 256 58 acc d).1), unread]
  rfl

/-- The decoder reads back the text of every byte string. -/
theorem decodeBase58_base58Text (alphabet : Alphabet) (message : List UInt8) :
    decodeBase58 (base58Text alphabet message) alphabet.inverse = message := by
  let digits := (Nat.digits 58 (value 256 (message.map UInt8.toNat))).reverse
  have small : ∀ d ∈ digits, d < 58 := fun d mem =>
    Nat.digits_lt_base (by decide) (List.mem_reverse.mp mem)
  -- the first digit character is not the character of zero, so exactly the zeros are counted
  have stops := stops_digits 58 (value 256 (message.map UInt8.toNat)) alphabet.digit
    (alphabet.inverse · == 0) (fun d nonzero below => by simp [alphabet.inverse_digit below, nonzero])
    (by decide)
  have holds : (alphabet.inverse (alphabet.digit 0) == 0) = true := by
    simp [alphabet.inverse_digit (by decide : 0 < 58)]
  have count : ((base58Text alphabet message).takeWhile (alphabet.inverse · == 0)).length =
      (message.takeWhile (· == 0)).length := by
    rw [base58Text, takeWhile_replicate_append (p := (alphabet.inverse · == 0)) holds stops,
      List.length_replicate]
  have after : (base58Text alphabet message).drop (message.takeWhile (· == 0)).length =
      digits.map alphabet.digit :=
    List.drop_left' (List.length_replicate ..)
  rw [decodeBase58_of_mapM count after (alphabet.mapM_readDigit_map_digit small), List.length_map,
    dropWhile_decode small, value_digits]
  exact (eq_replicate_append_digits message).symm

theorem decodeBase58_of_encodeBase58 {message : List UInt8} {room : Nat} {alphabet : Alphabet}
    {s : List Char} (encoded : encodeBase58 message room alphabet = some s) :
    decodeBase58 s alphabet.inverse = message := by
  by_cases cramped : room < message.length * (138 / 100 + 1)
  · rw [encodeBase58_eq_none alphabet cramped] at encoded
    cases encoded
  · rw [encodeBase58_eq alphabet (Nat.not_lt.mp cramped), Option.some.injEq] at encoded
    rw [← encoded, decodeBase58_base58Text]

/-- A digit string without a leading zero digit is the digits of its number. -/
theorem digits_value_of_head {digits : List Nat} (small : ∀ d ∈ digits, d < 58)
    (leading : ∀ d ∈ digits.head?, d ≠ 0) : (Nat.digits 58 (value 58 digits)).reverse = digits := by
  rw [← dropWhile_zero_eq_digits (by decide) small]
  cases digits with
  | nil => rfl
  | cons d rest => exact List.dropWhile_cons_of_neg (by simpa using leading d rfl)

/-- Every text the decoder reads to something is the text of what it reads. -/
theorem base58Text_decodeBase58 (alphabet : Alphabet) {s : List Char}
    (accepted : decodeBase58 s alphabet.inverse ≠ []) :
    base58Text alphabet (decodeBase58 s alphabet.inverse) = s := by
  generalize zeroes : (s.takeWhile (alphabet.inverse · == 0)).length = count
  generalize after : s.drop count = rest
  cases read : rest.mapM (readDigit alphabet.inverse) with
  | none =>
    subst zeroes after
    exact absurd (decodeBase58_of_mapM_none read) accepted
  | some digits =>
    obtain ⟨small, text⟩ := alphabet.mapM_readDigit_eq_some read
    -- the characters after the zeros start with a non-zero digit
    have leading : ∀ d ∈ digits.head?, d ≠ 0 := by
      intro d mem zero
      cases digits with
      | nil => simp at mem
      | cons first others =>
        simp only [List.head?_cons, Option.mem_def, Option.some.injEq] at mem
        subst mem zero
        have dropped : s.dropWhile (alphabet.inverse · == 0) = alphabet.digit 0 :: others.map alphabet.digit := by
          rw [← drop_length_takeWhile, zeroes, after, ← text, List.map_cons]
        have stop := head_dropWhile dropped
        simp [alphabet.inverse_digit (by decide : 0 < 58)] at stop
    have canonical := digits_value_of_head small leading
    rw [decodeBase58_of_mapM zeroes after read, ← text, List.length_map, dropWhile_decode small]
    have bytesSmall : ∀ d ∈ (Nat.digits 256 (value 58 digits)).reverse, d < 256 := fun d mem =>
      Nat.digits_lt_base (by decide) (List.mem_reverse.mp mem)
    have stops := stops_digits 256 (value 58 digits) UInt8.ofNat (· == 0)
      (fun d nonzero below => by
        have : (UInt8.ofNat d).toNat ≠ 0 := by rw [UInt8.toNat_ofNat']; omega
        simpa [← UInt8.toNat_inj] using this)
      (by decide)
    have number : value 256 ((List.replicate count 0 ++
        (Nat.digits 256 (value 58 digits)).reverse.map UInt8.ofNat).map UInt8.toNat) = value 58 digits := by
      rw [List.map_append, toNat_ofNat_of_lt bytesSmall, List.map_replicate, UInt8.toNat_zero,
        value_replicate_zero_append, value_digits]
    rw [base58Text, takeWhile_replicate_append (by decide) stops, List.length_replicate, number, canonical,
      text, ← after, ← zeroes, ← takeWhile_eq_replicate (fun x zero => alphabet.eq_digit_zero_of_inverse (by simpa using zero)),
      drop_length_takeWhile, List.takeWhile_append_dropWhile]

/-! ## Tokens -/

theorem rippleInverse_eq : rippleInverse = rippleAlphabet.inverse := rfl

theorem signedChar_of_lt {byte : UInt8} (low : byte.toNat < 128) : signedChar byte = byte.toNat := by
  simp [signedChar, low]

theorem signedChar_neg {byte : UInt8} (high : 128 ≤ byte.toNat) : signedChar byte < 0 := by
  have small := byte.toNat_lt
  unfold signedChar
  rw [if_neg (Nat.not_lt.mpr high)]
  omega

/-- Passing a type read as a `char` back as a `std::uint8_t` gives the byte. -/
theorem ofInt_signedChar (byte : UInt8) : UInt8.ofInt (signedChar byte) = byte := by
  have small := byte.toNat_lt
  have residue : (signedChar byte % 2 ^ 8).toNat = byte.toNat := by
    unfold signedChar
    split <;> omega
  rw [UInt8.ofInt, residue, UInt8.ofNat_toNat]

/-- The scratch array of `encodeBase58` fits in what `base58EncodeToken` allocates, the stack
buffer or `needed` bytes, exactly when the token has at most 336 bytes. -/
theorem scratch_fits_iff (size : Nat) :
    (1 + size + 4) * (138 / 100 + 1) ≤
        (if 1 + size + 4 + size * (138 / 100 + 1) > 1024 then 1 + size + 4 + size * (138 / 100 + 1)
          else 1024) - (1 + size + 4) ↔
      size ≤ 336 := by
  split <;> omega

theorem length_layout (sha256 : Hasher) (type : UInt8) (token : List UInt8) :
    (type :: token ++ checksum sha256 (type :: token)).length = 1 + token.length + 4 := by
  simp only [List.length_cons, List.length_append, length_checksum]
  omega

theorem base58EncodeToken_eq {token : List UInt8} (sha256 : Hasher) (type : UInt8) (short : token.length ≤ 336) :
    base58EncodeToken sha256 type token =
      some (base58Text rippleAlphabet (type :: token ++ checksum sha256 (type :: token))) := by
  unfold base58EncodeToken
  dsimp only
  rw [encodeBase58_eq]
  rw [length_layout]
  exact (scratch_fits_iff token.length).mpr short

/-- `base58EncodeToken` writes past the storage it allocates exactly for tokens of more than
336 bytes: up to 339 the array overruns the 1024-byte stack buffer, and from 340 on, where
`needed` exceeds it, the heap buffer of `needed` bytes by ten. -/
theorem base58EncodeToken_eq_none_iff (sha256 : Hasher) (type : UInt8) (token : List UInt8) :
    base58EncodeToken sha256 type token = none ↔ 337 ≤ token.length := by
  by_cases short : token.length ≤ 336
  · rw [base58EncodeToken_eq sha256 type short]
    simp only [reduceCtorEq, false_iff]
    omega
  · unfold base58EncodeToken
    dsimp only
    rw [encodeBase58_eq_none]
    · simp only [true_iff]
      omega
    · rw [length_layout]
      exact Nat.lt_of_not_le fun fits => short ((scratch_fits_iff token.length).mp fits)

/-- At 337 bytes `needed` is 1016, so the stack buffer is used, but the digit array starts at
byte 342 and ends at byte 1026.  At 340 bytes the heap buffer holds the 1025 bytes `needed`
and the array ends at byte 1035. -/
theorem base58EncodeToken_overruns_storage (sha256 : Hasher) :
    base58EncodeToken sha256 0 (List.replicate 337 0) = none ∧
      base58EncodeToken sha256 0 (List.replicate 340 0) = none :=
  ⟨(base58EncodeToken_eq_none_iff sha256 0 _).mpr (by rw [List.length_replicate]),
    (base58EncodeToken_eq_none_iff sha256 0 _).mpr (by rw [List.length_replicate]; omega)⟩

/-- Decoding what the encoder wrote, at any type: the token when the type byte reads as that
type, the empty string otherwise. -/
theorem decodeBase58Token_of_encoded {sha256 : Hasher} {type : UInt8} {token : List UInt8} {s : List Char}
    (encoded : base58EncodeToken sha256 type token = some s) (t : Int) :
    decodeBase58Token sha256 s t rippleInverse = if signedChar type = t then token else [] := by
  unfold base58EncodeToken at encoded
  have read : decodeBase58 s rippleInverse = type :: token ++ checksum sha256 (type :: token) :=
    decodeBase58_of_encodeBase58 encoded
  unfold decodeBase58Token
  dsimp only
  rw [read, length_layout]
  have front : (type :: token ++ checksum sha256 (type :: token)).take (1 + token.length + 4 - 4) =
      type :: token := by
    exact List.take_left' (by simp; omega)
  have back : (type :: token ++ checksum sha256 (type :: token)).drop (1 + token.length + 4 - 4) =
      checksum sha256 (type :: token) := by
    exact List.drop_left' (by simp; omega)
  rw [front, back]
  by_cases empty : token = []
  · subst empty
    simp
  · have long : ¬1 + token.length + 4 < 6 := by
      have := List.length_pos_of_ne_nil empty
      omega
    by_cases sign : signedChar type = t
    · simp [long, sign]
    · simp [long, sign]

/-- The decoder returns the token the encoder wrote, for every type byte below 128. -/
theorem decodeBase58Token_base58EncodeToken {sha256 : Hasher} {type : UInt8} {token : List UInt8}
    {s : List Char} (low : type.toNat < 128) (encoded : base58EncodeToken sha256 type token = some s) :
    decodeBase58Token sha256 s type.toNat rippleInverse = token := by
  rw [decodeBase58Token_of_encoded encoded, if_pos (signedChar_of_lt low)]

/-- At any other type the decoder refuses it. -/
theorem decodeBase58Token_other_type {sha256 : Hasher} {type : UInt8} {token : List UInt8}
    {s : List Char} (low : type.toNat < 128) (encoded : base58EncodeToken sha256 type token = some s)
    {t : Int} (other : t ≠ type.toNat) : decodeBase58Token sha256 s t rippleInverse = [] := by
  rw [decodeBase58Token_of_encoded encoded, if_neg (by rw [signedChar_of_lt low]; exact other.symm)]

/-- A type byte of 128 or more is written as a negative `char`, so decoding at the type refuses
the token. -/
theorem decodeBase58Token_high_type {sha256 : Hasher} {type : UInt8} {token : List UInt8}
    {s : List Char} (high : 128 ≤ type.toNat) (encoded : base58EncodeToken sha256 type token = some s) :
    decodeBase58Token sha256 s type.toNat rippleInverse = [] := by
  have negative := signedChar_neg high
  rw [decodeBase58Token_of_encoded encoded, if_neg (by omega)]

/-- A token the decoder returns was read from its type byte, itself and the checksum of both:
a text whose payload fails the checksum is refused. -/
theorem decodeBase58Token_eq {sha256 : Hasher} {s : List Char} {type : Int} {inv : Char → Int}
    {token : List UInt8} (decoded : decodeBase58Token sha256 s type inv = token) (nonempty : token ≠ []) :
    ∃ byte, signedChar byte = type ∧ decodeBase58 s inv = byte :: token ++ checksum sha256 (byte :: token) := by
  unfold decodeBase58Token at decoded
  dsimp only at decoded
  generalize decodeBase58 s inv = result at decoded ⊢
  split_ifs at decoded with empty short wrongType wrongSum
  · rw [decoded] at empty
    exact absurd (List.isEmpty_iff.mp empty) nonempty
  · exact absurd decoded.symm nonempty
  · exact absurd decoded.symm nonempty
  · exact absurd decoded.symm nonempty
  · cases result with
    | nil => simp at short
    | cons byte tail =>
      refine ⟨byte, by simpa using wrongType, ?_⟩
      -- the type byte and the token are the bytes before the last four
      have front : (byte :: tail).take ((byte :: tail).length - 4) = byte :: token := by
        rw [← decoded]
        have split : (byte :: tail).length - 4 = (tail.length - 4) + 1 := by
          simp only [List.length_cons] at short ⊢
          omega
        rw [split, List.take_succ_cons, List.drop_one, List.tail_cons]
      have sum : checksum sha256 (byte :: token) = (byte :: tail).drop ((byte :: tail).length - 4) := by
        rw [← front]
        exact not_not.mp wrongSum
      calc byte :: tail
          = (byte :: tail).take ((byte :: tail).length - 4) ++ (byte :: tail).drop ((byte :: tail).length - 4) :=
            (List.take_append_drop _ _).symm
        _ = byte :: token ++ checksum sha256 (byte :: token) := by rw [front, sum]

/-- Every text the decoder accepts is what the encoder writes for the token it returns, when
that token has at most 336 bytes; the type is passed to the encoder as a `std::uint8_t`. -/
theorem base58EncodeToken_decodeBase58Token {sha256 : Hasher} {s : List Char} {type : Int}
    {token : List UInt8} (decoded : decodeBase58Token sha256 s type rippleInverse = token)
    (nonempty : token ≠ []) (short : token.length ≤ 336) :
    base58EncodeToken sha256 (UInt8.ofInt type) token = some s := by
  obtain ⟨byte, sign, read⟩ := decodeBase58Token_eq decoded nonempty
  rw [rippleInverse_eq] at read
  have accepted : decodeBase58 s rippleAlphabet.inverse ≠ [] := by
    rw [read]
    exact List.cons_ne_nil _ _
  rw [← sign, ofInt_signedChar, base58EncodeToken_eq sha256 byte short, ← read,
    base58Text_decodeBase58 rippleAlphabet accepted]

end RadardFormal.Protocol.Tokens
