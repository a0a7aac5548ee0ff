import Mathlib.Order.Fin.Basic
import Mathlib.Algebra.Group.Nat.Defs
import Mathlib.Algebra.Ring.Int.Defs
import Mathlib.Algebra.GroupWithZero.Nat

/-!
# Protocol identifiers, result codes and flag words

The fixed-width identifiers of the protocol (`AccountID`, `Currency`, `uint256`),
the transaction engine results `TER` with the classification ranges of `TER.h`,
the `ApplyFlags` of `ApplyView.h`, and the ledger-entry flag bits of
`LedgerFormats.h` that the modelled transactors read or write.

A `base_uint` compares numerically (big-endian bytes), so each identifier is a
`Fin (2 ^ width)` ordered by its value.
-/

namespace RadardFormal.Protocol

/-- A 160-bit account identifier (`base_uint<160, detail::AccountIDTag>`). -/
structure AccountID where
  val : Fin (2 ^ 160)
  deriving DecidableEq, Repr

namespace AccountID

theorem val_injective : Function.Injective AccountID.val := by
  rintro ⟨a⟩ ⟨b⟩ same
  cases same
  rfl

instance : LinearOrder AccountID := LinearOrder.lift' AccountID.val val_injective

/-- The account with the given numeric value. -/
def ofNat (n : Nat) : AccountID := ⟨Fin.ofNat _ n⟩

/-- `beast::zero`: the account id with every bit clear. -/
def zero : AccountID := ofNat 0

@[simp] theorem ofNat_val (account : AccountID) : ofNat account.val.val = account := by
  unfold ofNat
  rw [Fin.ofNat_val_eq_self]

theorem lt_iff_val_lt {a b : AccountID} : a < b ↔ a.val < b.val := Iff.rfl

end AccountID

/-- A 160-bit currency code (`base_uint<160, detail::CurrencyTag>`). -/
structure Currency where
  val : Fin (2 ^ 160)
  deriving DecidableEq, Repr

namespace Currency

def ofNat (n : Nat) : Currency := ⟨Fin.ofNat _ n⟩

@[simp] theorem ofNat_val (currency : Currency) : ofNat currency.val.val = currency := by
  unfold ofNat
  rw [Fin.ofNat_val_eq_self]

/-- `xrpCurrency ()`: the all-zero code, the native VRP. -/
def xrpCurrency : Currency := ofNat 0

/-- `noCurrency ()`: `Currency (1)`, the currency of no issue. -/
def noCurrency : Currency := ofNat 1

/-- `vbcCurrency ()`: `Currency (0xFF)`, the second native currency VBC. -/
def vbcCurrency : Currency := ofNat 0xFF

/-- `isXRP (Currency)`: the code is zero. -/
def isXRP (c : Currency) : Bool := c == xrpCurrency

/-- `isVBC (Currency)`. -/
def isVBC (c : Currency) : Bool := c == vbcCurrency

/-- `assetCurrency ()`: the code of the asset currency, "ASSET" in ASCII. -/
def assetCurrency : Currency := ofNat 0x4153534554000000000000000000000000000000

/-- `badCurrency ()`. -/
def badCurrency : Currency := ofNat 0x5652500000000000

/-- `isNative (Currency)`: VRP or VBC. -/
def isNative (c : Currency) : Bool := c.isXRP || c.isVBC

end Currency

/-- A 256-bit value (`uint256`): transaction ids, digests and ledger hashes. -/
structure Uint256 where
  val : Fin (2 ^ 256)
  deriving DecidableEq, Repr

namespace Uint256

theorem val_injective : Function.Injective Uint256.val := by
  rintro ⟨a⟩ ⟨b⟩ same
  cases same
  rfl

instance : LinearOrder Uint256 := LinearOrder.lift' Uint256.val val_injective

theorem lt_iff_val_lt {a b : Uint256} : a < b ↔ a.val < b.val := Iff.rfl

def ofNat (n : Nat) : Uint256 := ⟨Fin.ofNat _ n⟩

def zero : Uint256 := ofNat 0

/-- `uint256::isZero ()`. -/
def isZero (u : Uint256) : Bool := u == zero

/-- `uint256::begin ()[i]`: byte `i` of the value, stored most significant first. -/
def byte (u : Uint256) (i : Nat) : Nat := u.val.val / 256 ^ (31 - i) % 256

/-- The 32 bytes of the value as `Serializer::add256` writes them. -/
def bytes (u : Uint256) : List UInt8 := (List.range 32).map fun i => UInt8.ofNat (u.byte i)

end Uint256

/-- An `Issue`: a currency together with its issuing account. -/
structure Issue where
  currency : Currency
  account : AccountID
  deriving DecidableEq, Repr

/-- A transaction engine result (`enum TER`), kept as its numeric code so that the
range tests of `TER.h` read as in the source. -/
structure TER where
  code : Int
  deriving DecidableEq, Repr

namespace TER

def telLOCAL_ERROR : TER := ⟨-399⟩
def telBAD_DOMAIN : TER := ⟨-398⟩
def telBAD_PUBLIC_KEY : TER := ⟨-396⟩
def telFAILED_PROCESSING : TER := ⟨-395⟩
def telINSUF_FEE_P : TER := ⟨-394⟩

def temMALFORMED : TER := ⟨-299⟩
def temBAD_AMOUNT : TER := ⟨-298⟩
def temBAD_CURRENCY : TER := ⟨-297⟩
def temBAD_FEE : TER := ⟨-295⟩
def temBAD_SEND_XRP_MAX : TER := ⟨-288⟩
def temBAD_SEND_XRP_PATHS : TER := ⟨-285⟩
def temBAD_SIGNATURE : TER := ⟨-283⟩
def temBAD_SRC_ACCOUNT : TER := ⟨-282⟩
def temBAD_TRANSFER_RATE : TER := ⟨-281⟩
def temDST_IS_SRC : TER := ⟨-280⟩
def temDST_NEEDED : TER := ⟨-279⟩
def temINVALID : TER := ⟨-278⟩
def temINVALID_FLAG : TER := ⟨-277⟩
def temREDUNDANT : TER := ⟨-276⟩
def temDISABLED : TER := ⟨-274⟩
def temBAD_SIGNER : TER := ⟨-271⟩
def temBAD_QUORUM : TER := ⟨-270⟩
def temBAD_WEIGHT : TER := ⟨-269⟩
def temUNKNOWN : TER := ⟨-267⟩

def tefFAILURE : TER := ⟨-199⟩
def tefALREADY : TER := ⟨-198⟩
def tefBAD_AUTH : TER := ⟨-196⟩
def tefBAD_LEDGER : TER := ⟨-195⟩
def tefCREATED : TER := ⟨-194⟩
def tefEXCEPTION : TER := ⟨-193⟩
def tefINTERNAL : TER := ⟨-192⟩
def tefPAST_SEQ : TER := ⟨-190⟩
def tefWRONG_PRIOR : TER := ⟨-189⟩
def tefMASTER_DISABLED : TER := ⟨-188⟩
def tefMAX_LEDGER : TER := ⟨-187⟩
def tefREFEREE_EXIST : TER := ⟨-186⟩
def tefREFERENCE_EXIST : TER := ⟨-185⟩
def tefBAD_SIGNATURE : TER := ⟨-184⟩
def tefBAD_QUORUM : TER := ⟨-183⟩
def tefNOT_MULTI_SIGNING : TER := ⟨-182⟩
def tefBAD_AUTH_MASTER : TER := ⟨-181⟩
def tefRING_CLOSED : TER := ⟨-180⟩
def tefRING_NOT_CLOSED : TER := ⟨-179⟩
def tefRING_REDUNDANT : TER := ⟨-178⟩

def terRETRY : TER := ⟨-99⟩
def terINSUF_FEE_B : TER := ⟨-97⟩
def terNO_ACCOUNT : TER := ⟨-96⟩
def terOWNERS : TER := ⟨-93⟩
def terPRE_SEQ : TER := ⟨-92⟩
def terQUEUED : TER := ⟨-89⟩

def tesSUCCESS : TER := ⟨0⟩

def tecCLAIM : TER := ⟨100⟩
def tecUNFUNDED_PAYMENT : TER := ⟨104⟩
def tecFAILED_PROCESSING : TER := ⟨105⟩
def tecUNFUNDED_TRANSFER : TER := ⟨106⟩
def tecDIR_FULL : TER := ⟨121⟩
def tecNO_DST : TER := ⟨124⟩
def tecNO_DST_INSUF_XRP : TER := ⟨125⟩
def tecNO_ALTERNATIVE_KEY : TER := ⟨130⟩
def tecNO_REGULAR_KEY : TER := ⟨131⟩
def tecOWNERS : TER := ⟨132⟩
def tecINSUFF_FEE : TER := ⟨136⟩
def tecNO_TARGET : TER := ⟨138⟩
def tecNO_ENTRY : TER := ⟨140⟩
def tecINSUFFICIENT_RESERVE : TER := ⟨141⟩
def tecNEED_MASTER_KEY : TER := ⟨142⟩
def tecOVERSIZE : TER := ⟨145⟩

/-- `isTelLocal`. -/
def isTelLocal (x : TER) : Bool := decide (-399 ≤ x.code ∧ x.code < -299)

/-- `isTemMalformed`. -/
def isTemMalformed (x : TER) : Bool := decide (-299 ≤ x.code ∧ x.code < -199)

/-- `isTefFailure`. -/
def isTefFailure (x : TER) : Bool := decide (-199 ≤ x.code ∧ x.code < -99)

/-- `isTerRetry`. -/
def isTerRetry (x : TER) : Bool := decide (-99 ≤ x.code ∧ x.code < 0)

/-- `isTesSuccess`. -/
def isTesSuccess (x : TER) : Bool := x == tesSUCCESS

/-- `isTecClaim`: every code from `tecCLAIM` up claims the fee. -/
def isTecClaim (x : TER) : Bool := decide (100 ≤ x.code)

theorem isTecClaim_tecOVERSIZE : isTecClaim tecOVERSIZE = true := by decide

theorem not_isTecClaim_of_isTesSuccess {x : TER} (success : isTesSuccess x = true) :
    isTecClaim x = false := by
  simp only [isTesSuccess, beq_iff_eq] at success
  subst success
  decide

end TER

/-- `ApplyFlags`, a bit set over the values of `ApplyView.h`. -/
structure ApplyFlags where
  bits : Nat
  deriving DecidableEq, Repr

namespace ApplyFlags

def tapNONE : ApplyFlags := ⟨0x00⟩
def tapNO_CHECK_SIGN : ApplyFlags := ⟨0x01⟩
def tapENABLE_TESTING : ApplyFlags := ⟨0x02⟩
def tapPOST_SEQ : ApplyFlags := ⟨0x04⟩
def tapRETRY : ApplyFlags := ⟨0x20⟩
def tapUNLIMITED : ApplyFlags := ⟨0x400⟩

/-- `operator|`. -/
def union (lhs rhs : ApplyFlags) : ApplyFlags := ⟨lhs.bits ||| rhs.bits⟩

/-- `flags & flag` tested for non-zero. -/
def has (flags flag : ApplyFlags) : Bool := flags.bits &&& flag.bits != 0

end ApplyFlags

/-- Bits of an `AccountRoot`'s `sfFlags` (`LedgerSpecificFlags`). -/
def lsfPasswordSpent : Nat := 0x00010000
def lsfRequireDestTag : Nat := 0x00020000
def lsfRequireAuth : Nat := 0x00040000
def lsfDisallowXRP : Nat := 0x00080000
def lsfDisableMaster : Nat := 0x00100000
def lsfNoFreeze : Nat := 0x00200000
def lsfGlobalFreeze : Nat := 0x00400000
def lsfDefaultRipple : Nat := 0x00800000

/-- Bits of a `RippleState`'s `sfFlags`. -/
def lsfLowReserve : Nat := 0x00010000
def lsfHighReserve : Nat := 0x00020000
def lsfLowAuth : Nat := 0x00040000
def lsfHighAuth : Nat := 0x00080000
def lsfLowNoRipple : Nat := 0x00100000
def lsfHighNoRipple : Nat := 0x00200000
def lsfLowFreeze : Nat := 0x00400000
def lsfHighFreeze : Nat := 0x00800000

/-- Transaction flags of a trust line request (`TxFlags.h`). -/
def tfSetfAuth : Nat := 0x00010000
def tfSetNoRipple : Nat := 0x00020000
def tfClearNoRipple : Nat := 0x00040000
def tfSetFreeze : Nat := 0x00100000
def tfClearFreeze : Nat := 0x00200000

/-- Transaction flags of `AccountSet` and the flags every transaction may carry
(`TxFlags.h`). -/
def tfFullyCanonicalSig : Nat := 0x80000000
def tfUniversal : Nat := tfFullyCanonicalSig
def tfUniversalMask : Nat := 0xFFFFFFFF ^^^ tfUniversal
def tfRequireDestTag : Nat := 0x00010000
def tfOptionalDestTag : Nat := 0x00020000
def tfRequireAuth : Nat := 0x00040000
def tfOptionalAuth : Nat := 0x00080000
def tfDisallowXRP : Nat := 0x00100000
def tfAllowXRP : Nat := 0x00200000
def tfAccountSetMask : Nat :=
  0xFFFFFFFF ^^^ (tfUniversal ||| tfRequireDestTag ||| tfOptionalDestTag ||| tfRequireAuth |||
    tfOptionalAuth ||| tfDisallowXRP ||| tfAllowXRP)

/-- `QUALITY_ONE`: a quality or transfer rate of one. -/
def qualityOne : Nat := 1000000000

/-- `sfSetFlag`/`sfClearFlag` values of `AccountSet` (`TxFlags.h`). -/
def asfRequireDest : Nat := 1
def asfRequireAuth : Nat := 2
def asfDisallowXRP : Nat := 3
def asfDisableMaster : Nat := 4
def asfAccountTxnID : Nat := 5
def asfNoFreeze : Nat := 6
def asfGlobalFreeze : Nat := 7
def asfDefaultRipple : Nat := 8

/-- A flag word has the given bit set. -/
def hasFlag (flags bit : Nat) : Bool := flags &&& bit != 0

/-- `flags & ~bit` on a 32-bit flag word. -/
def clearFlag (flags bit : Nat) : Nat := flags &&& (0xFFFFFFFF ^^^ bit)

end RadardFormal.Protocol
