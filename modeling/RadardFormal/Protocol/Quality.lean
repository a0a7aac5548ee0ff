import RadardFormal.Protocol.STAmountCanonical

/-!
# Qualities of offers

`getRate (offerOut, offerIn)` packs the quotient `divide (offerIn, offerOut, noIssue ())` as eight
bits of biased offset over fifty-six bits of mantissa, the order book's sort key, and
`amountFromQuality` unpacks it.  For every pair of positive amounts whose quotient does not
throw, unpacking gives the quotient back and the packed words compare as the quotients do
(`getRate_lt_iff`).  A quotient that overflows is packed as `0`, the word of the best quality.
-/

namespace RadardFormal.Protocol

namespace STAmount

open RadardFormal.Support

/-- `amountFromQuality`. -/
def amountFromQuality (rate : Nat) : Except String STAmount :=
  if rate = 0 then ofIssue noIssue
  else
    let mantissa := rate &&& Bits.complement 64 (255 <<< (64 - 8))
    let exponent : Int := (rate >>> (64 - 8) : Nat) - 100
    canonicalize ⟨noIssue, mantissa, exponent, false, false⟩

theorem noIssue_notNative : noIssue.currency.isNative = false := by decide

/-- A quotient into `noIssue` is an IOU in canonical form, and non-negative for non-negative
operands. -/
theorem divide_noIssue {num den r : STAmount} (ok : divide num den noIssue = .ok r)
    (positiveNum : num.isNegative = false) (positiveDen : den.isNegative = false) :
    r.issue = noIssue ∧ IOUCanonical r ∧ r.isNegative = false := by
  unfold divide at ok
  split at ok
  · cases ok
  · split at ok
    · rw [ofIssue, canonicalize_zero noIssue_notNative rfl] at ok
      cases ok
      exact ⟨rfl, ⟨rfl, noIssue_notNative, .inl ⟨rfl, rfl, rfl⟩⟩, rfl⟩
    · dsimp only at ok
      obtain ⟨issue, canonical, sign⟩ := iouCanonical_canonicalize ok noIssue_notNative
      refine ⟨issue, canonical, ?_⟩
      by_cases zero : r.mantissa = 0
      · rcases canonical.2.2 with ⟨-, -, positive⟩ | ⟨atLeast, -⟩
        · exact positive
        · simp only [cMinValue] at atLeast
          omega
      · rw [sign zero, positiveNum, positiveDen]
        rfl

/-- The word of a non-zero canonical quotient: its offset biased by 100 above its mantissa. -/
theorem packed_eq {r : STAmount} (canonical : IOUCanonical r) (nonzero : r.mantissa ≠ 0) :
    ((r.exponent + 100).toNat <<< (64 - 8) ||| r.mantissa) % 2 ^ 64 =
      (r.exponent + 100).toNat * 2 ^ 56 + r.mantissa ∧ 4 ≤ (r.exponent + 100).toNat ∧
        (r.exponent + 100).toNat < 256 ∧ r.mantissa < 2 ^ 56 := by
  obtain ⟨-, -, ⟨zero, -⟩ | ⟨-, atMost, above, below⟩⟩ := canonical
  · exact absurd zero nonzero
  · simp only [cMaxValue, cMinOffset, cMaxOffset] at atMost above below
    have small : r.mantissa < 2 ^ 56 := by omega
    have word : (r.exponent + 100).toNat * 2 ^ 56 + r.mantissa < 2 ^ 64 := by omega
    refine ⟨?_, by omega, by omega, small⟩
    rw [Bits.shiftLeft_or_eq_add small, Nat.mod_eq_of_lt word]

/-- The word `getRate` writes for a quotient. -/
def packedRate (r : STAmount) : Nat :=
  if r.mantissa = 0 then 0 else (r.exponent + 100).toNat * 2 ^ 56 + r.mantissa

/-- `getRate` of amounts whose quotient does not throw is the packed quotient. -/
theorem getRate_of_divide {offerOut offerIn r : STAmount} (nonzero : offerOut.mantissa ≠ 0)
    (ok : divide offerIn offerOut noIssue = .ok r) (canonical : IOUCanonical r) :
    getRate offerOut offerIn = packedRate r := by
  unfold getRate packedRate
  rw [if_neg nonzero, ok]
  dsimp only
  split_ifs with zero
  · rfl
  · exact (packed_eq canonical zero).1

/-- `amountFromQuality` unpacks the word of a canonical non-negative quotient. -/
theorem amountFromQuality_packedRate {r : STAmount} (canonical : IOUCanonical r) (issue : r.issue = noIssue)
    (nonneg : r.isNegative = false) : amountFromQuality (packedRate r) = .ok r := by
  unfold amountFromQuality packedRate
  by_cases zero : r.mantissa = 0
  · rw [if_pos zero, if_pos rfl, ofIssue, canonicalize_zero noIssue_notNative rfl]
    obtain ⟨issue', mantissa, exponent, isNative, isNegative⟩ := r
    obtain ⟨native, -, ⟨-, offset, -⟩ | ⟨atLeast, -⟩⟩ := canonical
    · simp only at issue native offset zero nonneg ⊢
      rw [issue, native, offset, zero, nonneg]
    · simp only [cMinValue] at atLeast zero
      omega
  · obtain ⟨packed, biasLow, biasHigh, small⟩ := packed_eq canonical zero
    rw [if_neg zero, if_neg (by omega)]
    have word : (r.exponent + 100).toNat * 2 ^ 56 + r.mantissa =
        (r.exponent + 100).toNat <<< 56 ||| r.mantissa := (Bits.shiftLeft_or_eq_add small _).symm
    have mantissa : ((r.exponent + 100).toNat <<< 56 ||| r.mantissa) &&&
        Bits.complement 64 (255 <<< (64 - 8)) = r.mantissa := by
      rw [show Bits.complement 64 (255 <<< (64 - 8)) = 2 ^ 56 - 1 by decide,
        Bits.shiftLeft_or_and_low small]
    have exponent : ((((r.exponent + 100).toNat <<< 56 ||| r.mantissa) >>> (64 - 8) : Nat) : Int) - 100 =
        r.exponent := by
      rw [show 64 - 8 = 56 from rfl, Bits.shiftLeft_or_shiftRight small]
      omega
    dsimp only
    rw [word, mantissa, exponent]
    have literal : (⟨noIssue, r.mantissa, r.exponent, false, false⟩ : STAmount) = r := by
      obtain ⟨issue', mantissa, offset, isNative, isNegative⟩ := r
      simp only at issue nonneg ⊢
      rw [issue, nonneg, show isNative = false from canonical.1]
    rw [literal, canonicalize_of_iouCanonical canonical]

/-- Packed words of non-negative canonical quotients compare as the quotients do. -/
theorem packedRate_lt_iff {r₁ r₂ : STAmount} (canonical₁ : IOUCanonical r₁) (canonical₂ : IOUCanonical r₂)
    (nonneg₁ : r₁.isNegative = false) (nonneg₂ : r₂.isNegative = false) :
    packedRate r₁ < packedRate r₂ ↔ lt r₁ r₂ = true := by
  unfold packedRate
  by_cases zero₁ : r₁.mantissa = 0 <;> by_cases zero₂ : r₂.mantissa = 0
  · simp [lt, zero₁, zero₂, nonneg₁, nonneg₂]
  · have bias := (packed_eq canonical₂ zero₂).2.1
    simp [lt, zero₁, zero₂, nonneg₁, nonneg₂]
    omega
  · simp [lt, zero₁, zero₂, nonneg₁, nonneg₂]
  · obtain ⟨-, bias₁, -, small₁⟩ := packed_eq canonical₁ zero₁
    obtain ⟨-, bias₂, -, small₂⟩ := packed_eq canonical₂ zero₂
    rw [if_neg zero₁, if_neg zero₂, lt_of_nonzero zero₁ zero₂ (nonneg₁.trans nonneg₂.symm), nonneg₁]
    simp only [Bool.false_eq_true, if_false, decide_eq_true_eq]
    omega

/-- For every pair of offers with positive amounts whose quotients do not throw, `getRate`
packs the quotient, `amountFromQuality` unpacks it, and the packed words compare as the
quotients do. -/
theorem getRate_packs_quotient {out₁ in₁ out₂ in₂ r₁ r₂ : STAmount}
    (positiveOut₁ : out₁.isNegative = false) (positiveIn₁ : in₁.isNegative = false)
    (positiveOut₂ : out₂.isNegative = false) (positiveIn₂ : in₂.isNegative = false)
    (ok₁ : divide in₁ out₁ noIssue = .ok r₁) (ok₂ : divide in₂ out₂ noIssue = .ok r₂) :
    amountFromQuality (getRate out₁ in₁) = .ok r₁ ∧ (getRate out₁ in₁ < getRate out₂ in₂ ↔ lt r₁ r₂ = true) := by
  have nonzero : ∀ {num den r : STAmount}, divide num den noIssue = .ok r → den.mantissa ≠ 0 := by
    intro num den r ok zero
    rw [divide, if_pos zero] at ok
    cases ok
  obtain ⟨issue₁, canonical₁, nonneg₁⟩ := divide_noIssue ok₁ positiveIn₁ positiveOut₁
  obtain ⟨-, canonical₂, nonneg₂⟩ := divide_noIssue ok₂ positiveIn₂ positiveOut₂
  rw [getRate_of_divide (nonzero ok₁) ok₁ canonical₁, getRate_of_divide (nonzero ok₂) ok₂ canonical₂]
  exact ⟨amountFromQuality_packedRate canonical₁ issue₁ nonneg₁,
    packedRate_lt_iff canonical₁ canonical₂ nonneg₁ nonneg₂⟩

/-- Offers paying one USD for two and for three: the first quotient is two, and its word sorts
below the second's. -/
theorem getRate_packs_quotient_twoThree :
    amountFromQuality (getRate (usd 1000000000000000 (-15)) (usd 2000000000000000 (-15))) =
        .ok ⟨noIssue, 2000000000000000, -15, false, false⟩ ∧
      (getRate (usd 1000000000000000 (-15)) (usd 2000000000000000 (-15)) <
          getRate (usd 1000000000000000 (-15)) (usd 3000000000000000 (-15)) ↔
        lt ⟨noIssue, 2000000000000000, -15, false, false⟩ ⟨noIssue, 3000000000000000, -15, false, false⟩ =
          true) :=
  getRate_packs_quotient rfl rfl rfl rfl (by decide) (by decide)

/-- An offer asking `9999999999999999e80` for `1e-81` has a quotient `divide` cannot represent:
it throws, `getRate` returns `0` and `amountFromQuality 0` is the zero, not the quotient.  The
word `0` sorts below that of the offer asking `1` for `1`, whose rate is far better. -/
theorem getRate_ranks_overflow_best :
    CanonicalForm (usd 9999999999999999 80) ∧ CanonicalForm (usd 1000000000000000 (-96)) ∧
      CanonicalForm (usd 1000000000000000 (-15)) ∧
      divide (usd 9999999999999999 80) (usd 1000000000000000 (-96)) noIssue = .error "value overflow" ∧
      getRate (usd 1000000000000000 (-96)) (usd 9999999999999999 80) = 0 ∧
      amountFromQuality 0 = .ok ⟨noIssue, 0, -100, false, false⟩ ∧
      0 < getRate (usd 1000000000000000 (-15)) (usd 1000000000000000 (-15)) ∧
      (usd 1000000000000000 (-15)).toRat / (usd 1000000000000000 (-15)).toRat <
        (usd 9999999999999999 80).toRat / (usd 1000000000000000 (-96)).toRat := by
  refine ⟨by decide, by decide, by decide, by decide, by decide, by decide, by decide, ?_⟩
  norm_num [toRat, usd]

end STAmount

end RadardFormal.Protocol
