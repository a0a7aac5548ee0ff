import RadardFormal.Protocol.Basics
import RadardFormal.Support.Bytes

/-!
# Serializer and SerialIter

A `Serializer` is the byte string written so far; each `add` appends to it.  A
`SerialIter` is the part of a byte string not read yet; each `get` consumes bytes from its
front and throws `std::runtime_error` when too few remain, which is an `Except` here.
Numbers are written most significant byte first, and a `base_uint` is its value written
in its own width.
-/

namespace RadardFormal.Protocol

open RadardFormal.Support

/-- The bytes a `Serializer` holds. -/
abbrev Serializer := List UInt8

namespace Serializer

/-- `Serializer::add8`. -/
def add8 (s : Serializer) (byte : Nat) : Serializer := s ++ [UInt8.ofNat byte]

/-- `Serializer::add64`: the eight bytes of `i`, most significant first. -/
def add64 (s : Serializer) (i : Nat) : Serializer := s ++ Bytes.bigEndian 8 i

/-- `Serializer::addBitString` of a `base_uint` of `bytes` bytes with value `value`. -/
def addBitString (s : Serializer) (bytes value : Nat) : Serializer := s ++ Bytes.bigEndian bytes value

/-- `Serializer::add160` of an account. -/
def add160Account (s : Serializer) (account : AccountID) : Serializer :=
  s.addBitString 20 account.val.val

/-- `Serializer::add160` of a currency. -/
def add160Currency (s : Serializer) (currency : Currency) : Serializer :=
  s.addBitString 20 currency.val.val

end Serializer

/-- The bytes a `SerialIter` has not read yet. -/
abbrev SerialIter := List UInt8

/-- A reading from a `SerialIter`: it consumes bytes or throws. -/
abbrev SerialRead := StateT SerialIter (Except String)

namespace SerialIter

/-- A `width`-byte number from the front, or `message` thrown when fewer bytes remain. -/
def getBigEndian (width : Nat) (message : String) : SerialRead Nat := fun input =>
  match Bytes.takeBigEndian width input with
  | some read => .ok read
  | none => .error message

/-- `SerialIter::get8`. -/
def get8 : SerialRead Nat := getBigEndian 1 "invalid SerialIter get8"

/-- `SerialIter::get64`. -/
def get64 : SerialRead Nat := getBigEndian 8 "invalid SerialIter get64"

/-- `SerialIter::getBitString<8 * bytes>`: the value of the `base_uint` it copies. -/
def getBitString (bytes : Nat) : SerialRead Nat := getBigEndian bytes "invalid SerialIter getBitString"

/-- `SerialIter::get160` read as an account. -/
def get160Account : SerialRead AccountID := do
  let value ← getBitString 20
  return AccountID.ofNat value

/-- `SerialIter::get160` read as a currency. -/
def get160Currency : SerialRead Currency := do
  let value ← getBitString 20
  return Currency.ofNat value

/-- A number written in its width is read back with the bytes after it. -/
theorem getBigEndian_bigEndian (width : Nat) (message : String) (value : Nat) (rest : SerialIter) :
    getBigEndian width message (Bytes.bigEndian width value ++ rest) = .ok (value % 256 ^ width, rest) := by
  simp [getBigEndian, Bytes.takeBigEndian_bigEndian]

theorem getBitString_bigEndian (bytes value : Nat) (rest : SerialIter) :
    getBitString bytes (Bytes.bigEndian bytes value ++ rest) = .ok (value % 256 ^ bytes, rest) :=
  getBigEndian_bigEndian bytes _ value rest

theorem get64_bigEndian (value : Nat) (rest : SerialIter) :
    get64 (Bytes.bigEndian 8 value ++ rest) = .ok (value % 256 ^ 8, rest) :=
  getBigEndian_bigEndian 8 _ value rest

/-- What `getBigEndian` reads stood in front of what it leaves. -/
theorem getBigEndian_eq_ok {width : Nat} {message : String} {input rest : SerialIter} {value : Nat}
    (read : getBigEndian width message input = .ok (value, rest)) :
    value < 256 ^ width ∧ input = Bytes.bigEndian width value ++ rest := by
  unfold getBigEndian at read
  split at read
  · rename_i taken
    cases read
    exact Bytes.takeBigEndian_eq_some taken
  · cases read

/-- A reading that succeeds hands its value and the rest of the bytes to the next one. -/
theorem bind_apply_of_ok {α β : Type} {x : SerialRead α} {f : α → SerialRead β}
    {input rest : SerialIter} {a : α} (read : x input = .ok (a, rest)) :
    (x >>= f) input = f a rest := by
  show (x input).bind (fun p => f p.1 p.2) = f a rest
  rw [read]
  rfl

theorem bind_apply_of_error {α β : Type} {x : SerialRead α} {f : α → SerialRead β}
    {input : SerialIter} {message : String} (read : x input = .error message) :
    (x >>= f) input = .error message := by
  show (x input).bind (fun p => f p.1 p.2) = .error message
  rw [read]
  rfl

@[simp] theorem pure_apply {α : Type} (a : α) (input : SerialIter) :
    (pure a : SerialRead α) input = .ok (a, input) := rfl

@[simp] theorem throw_apply {α : Type} (message : String) (input : SerialIter) :
    (throw message : SerialRead α) input = .error message := rfl

@[simp] theorem lift_ok_apply {α : Type} (a : α) (input : SerialIter) :
    (StateT.lift (.ok a) : SerialRead α) input = .ok (a, input) := rfl

@[simp] theorem lift_error_apply {α : Type} (message : String) (input : SerialIter) :
    (StateT.lift (.error message) : SerialRead α) input = .error message := rfl

theorem lift_eq_ok {α : Type} {x : Except String α} {input rest : SerialIter} {a : α}
    (read : (StateT.lift x : SerialRead α) input = .ok (a, rest)) : x = .ok a ∧ rest = input := by
  cases x with
  | error message => cases read
  | ok value =>
    simp only [lift_ok_apply, Except.ok.injEq, Prod.mk.injEq] at read
    obtain ⟨rfl, rfl⟩ := read
    exact ⟨rfl, rfl⟩

/-- A sequence of readings that succeeds: the first succeeded, and the rest from where it
stopped. -/
theorem bind_eq_ok {α β : Type} {x : SerialRead α} {f : α → SerialRead β}
    {input rest : SerialIter} {b : β} (read : (x >>= f) input = .ok (b, rest)) :
    ∃ a middle, x input = .ok (a, middle) ∧ f a middle = .ok (b, rest) := by
  cases first : x input with
  | error message => rw [bind_apply_of_error first] at read; cases read
  | ok result =>
    obtain ⟨a, middle⟩ := result
    exact ⟨a, middle, rfl, by rw [bind_apply_of_ok first] at read; exact read⟩

theorem getBitString_eq_ok {bytes : Nat} {input rest : SerialIter} {value : Nat}
    (read : getBitString bytes input = .ok (value, rest)) :
    value < 256 ^ bytes ∧ input = Bytes.bigEndian bytes value ++ rest :=
  getBigEndian_eq_ok read

theorem get64_eq_ok {input rest : SerialIter} {value : Nat}
    (read : get64 input = .ok (value, rest)) :
    value < 256 ^ 8 ∧ input = Bytes.bigEndian 8 value ++ rest :=
  getBigEndian_eq_ok read

/-- What `get160Account` reads stood in front of what it leaves. -/
theorem get160Account_eq_ok {input rest : SerialIter} {account : AccountID}
    (read : get160Account input = .ok (account, rest)) :
    input = Serializer.add160Account [] account ++ rest := by
  obtain ⟨value, middle, bits, lifted⟩ := bind_eq_ok read
  obtain ⟨small, front⟩ := getBitString_eq_ok bits
  simp only [pure_apply, Except.ok.injEq, Prod.mk.injEq] at lifted
  obtain ⟨rfl, rfl⟩ := lifted
  have same : (AccountID.ofNat value).val.val = value := Nat.mod_eq_of_lt small
  rw [front, Serializer.add160Account, Serializer.addBitString, List.nil_append, same]

/-- What `get160Currency` reads stood in front of what it leaves. -/
theorem get160Currency_eq_ok {input rest : SerialIter} {currency : Currency}
    (read : get160Currency input = .ok (currency, rest)) :
    input = Serializer.add160Currency [] currency ++ rest := by
  obtain ⟨value, middle, bits, lifted⟩ := bind_eq_ok read
  obtain ⟨small, front⟩ := getBitString_eq_ok bits
  simp only [pure_apply, Except.ok.injEq, Prod.mk.injEq] at lifted
  obtain ⟨rfl, rfl⟩ := lifted
  have same : (Currency.ofNat value).val.val = value := Nat.mod_eq_of_lt small
  rw [front, Serializer.add160Currency, Serializer.addBitString, List.nil_append, same]

theorem get160Account_add160 (account : AccountID) (rest : SerialIter) :
    get160Account (Serializer.add160Account [] account ++ rest) = .ok (account, rest) := by
  have small : account.val.val < 256 ^ 20 := account.val.isLt
  have read := getBitString_bigEndian 20 account.val.val rest
  rw [Nat.mod_eq_of_lt small] at read
  rw [get160Account, Serializer.add160Account, Serializer.addBitString, List.nil_append,
    bind_apply_of_ok read, pure_apply, AccountID.ofNat_val]

theorem get160Currency_add160 (currency : Currency) (rest : SerialIter) :
    get160Currency (Serializer.add160Currency [] currency ++ rest) = .ok (currency, rest) := by
  have small : currency.val.val < 256 ^ 20 := currency.val.isLt
  have read := getBitString_bigEndian 20 currency.val.val rest
  rw [Nat.mod_eq_of_lt small] at read
  rw [get160Currency, Serializer.add160Currency, Serializer.addBitString, List.nil_append,
    bind_apply_of_ok read, pure_apply, Currency.ofNat_val]

end SerialIter

end RadardFormal.Protocol
