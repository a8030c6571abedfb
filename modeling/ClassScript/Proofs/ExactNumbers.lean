import Mathlib
import ClassScript.Number.Arithmetic

/-!
What numbers stand for. A finite number is an exact rational (`Number.value`). On finite numbers equality compares these
(`beq_iff_value_eq`), integers below 2^53 are represented exactly (`value_ofInteger`), and the whole part of a number of
moderate size is the integer next to it toward zero (`wholePart_eq`).
-/

namespace ClassScript.Number

/-! ## Fields -/

theorem exponentBits_eq (x : Float) : exponentBits x = x.toBits.toNat / 2 ^ 52 % 2 ^ 11 := by
  rw [exponentBits, UInt64.toNat_and, UInt64.toNat_shiftRight, Nat.shiftRight_eq_div_pow]
  exact Nat.and_two_pow_sub_one_eq_mod _ 11

theorem fractionBits_eq (x : Float) : fractionBits x = x.toBits.toNat % 2 ^ 52 := by
  rw [fractionBits, UInt64.toNat_and]
  exact Nat.and_two_pow_sub_one_eq_mod _ 52

theorem isNegative_iff {x : Float} : isNegative x = true ↔ 2 ^ 63 ≤ x.toBits.toNat := by
  have bound := x.toBits.toNat_lt
  have quotient : (x.toBits >>> 63).toNat = x.toBits.toNat / 2 ^ 63 := by
    rw [UInt64.toNat_shiftRight, Nat.shiftRight_eq_div_pow]
    rfl
  rw [isNegative, beq_iff_eq, ← UInt64.toNat_inj, quotient, UInt64.toNat_one]
  omega

theorem toBits_eq (x : Float) :
    x.toBits.toNat = (if isNegative x then 2 ^ 63 else 0) + exponentBits x * 2 ^ 52 + fractionBits x := by
  have bound := x.toBits.toNat_lt
  rw [exponentBits_eq, fractionBits_eq]
  split
  next negative =>
    have := isNegative_iff.1 negative
    omega
  next positive =>
    have := mt isNegative_iff.2 positive
    omega

/-- The number is neither infinite nor none at all. -/
def IsFinite (x : Float) : Prop := exponentBits x ≠ 2047

open Float.Model (Format) in
open Float.Model.UnpackedFloat in
theorem unpackExponent_eq (b : UInt64) :
    (@unpackExponent Format.binary64 b.toBitVec).toNat = b.toNat / 2 ^ 52 % 2 ^ 11 := by
  rw [unpackExponent_def, BitVec.extractLsb'_toNat, Nat.shiftRight_eq_div_pow]
  rfl

open Float.Model (Format) in
open Float.Model.UnpackedFloat in
theorem unpackExponent_ne {b : UInt64} (finite : b.toNat / 2 ^ 52 % 2 ^ 11 ≠ 2047) :
    @unpackExponent Format.binary64 b.toBitVec ≠ -1#_ := by
  intro same
  have exponent := congrArg BitVec.toNat same
  rw [unpackExponent_eq] at exponent
  exact finite exponent

open Float.Model (Format) in
open Float.Model.UnpackedFloat in
theorem toBits_ofBits {b : UInt64} (finite : b.toNat / 2 ^ 52 % 2 ^ 11 ≠ 2047) : (Float.ofBits b).toBits = b := by
  show UInt64.ofBitVec (pack Format.binary64 (unpack Format.binary64 b.toBitVec)) = b
  rw [pack_unpack, if_neg]
  rw [isNaNBits, decide_eq_true_eq]
  exact fun none => unpackExponent_ne finite none.1

open Float.Model (Format) in
open Float.Model.UnpackedFloat in
theorem IsFinite.is_number {x : Float} (finite : IsFinite x) : x.isNaN = false ∧ x.isInf = false := by
  rw [IsFinite, exponentBits_eq] at finite
  have exponent := unpackExponent_ne finite
  show (unpack Format.binary64 x.toBits.toBitVec).isNaN = false ∧
    (unpack Format.binary64 x.toBits.toBitVec).isInf = false
  rw [unpack]
  dsimp only
  rw [if_neg exponent]
  split
  · split <;> exact ⟨rfl, rfl⟩
  · exact ⟨rfl, rfl⟩

section

variable {negative : Bool} {bits : Nat}

theorem toBits_ofMagnitudeBits (finite : bits < 2047 * 2 ^ 52) :
    (ofMagnitudeBits negative bits).toBits.toNat = bits + if negative then 2 ^ 63 else 0 := by
  have small : bits + (if negative then signBit else 0) < 2 ^ 64 := by
    rw [signBit]
    split <;> omega
  have code :
      (UInt64.ofNat (bits + if negative then signBit else 0)).toNat = bits + if negative then signBit else 0 := by
    rw [UInt64.toNat_ofNat', Nat.mod_eq_of_lt small]
  rw [ofMagnitudeBits, toBits_ofBits, code]
  · rfl
  · rw [code, signBit]
    split <;> omega

theorem isNegative_ofMagnitudeBits (finite : bits < 2047 * 2 ^ 52) :
    isNegative (ofMagnitudeBits negative bits) = negative := by
  rw [Bool.eq_iff_iff, isNegative_iff, toBits_ofMagnitudeBits finite]
  cases negative <;> simp; omega

theorem exponentBits_ofMagnitudeBits (finite : bits < 2047 * 2 ^ 52) :
    exponentBits (ofMagnitudeBits negative bits) = bits / 2 ^ 52 := by
  rw [exponentBits_eq, toBits_ofMagnitudeBits finite]
  split <;> omega

theorem fractionBits_ofMagnitudeBits (finite : bits < 2047 * 2 ^ 52) :
    fractionBits (ofMagnitudeBits negative bits) = bits % 2 ^ 52 := by
  rw [fractionBits_eq, toBits_ofMagnitudeBits finite]
  split <;> omega

end

/-! ## Values -/

theorem fractionBits_lt (x : Float) : fractionBits x < 2 ^ 52 := by
  rw [fractionBits_eq]
  exact Nat.mod_lt _ (by decide)

theorem leadingBit_eq : leadingBit = 2 ^ 52 := by decide

theorem decode_eq (x : Float) : decode x =
    if exponentBits x = 0 then ⟨fractionBits x, -1074⟩ else ⟨fractionBits x + leadingBit, exponentBits x - 1075⟩ := by
  rw [decode]
  simp only [beq_iff_eq]

theorem decode_injective {x y : Float} (same : decode x = decode y) :
    exponentBits x = exponentBits y ∧ fractionBits x = fractionBits y := by
  have first := fractionBits_lt x
  have second := fractionBits_lt y
  rw [decode_eq, decode_eq, leadingBit_eq] at same
  split at same <;> split at same <;> obtain ⟨mantissa, exponent⟩ := Dyadic.mk.inj same <;> omega

namespace Dyadic

/-- The mantissa has 53 bits, unless the exponent is the least one. -/
structure IsNormal (d : Dyadic) : Prop where
  bounded : d.mantissa < 2 ^ 53
  least : -1074 ≤ d.exponent
  full : 2 ^ 52 ≤ d.mantissa ∨ d.exponent = -1074

/-- What mantissa and exponent stand for. -/
def value (d : Dyadic) : ℚ := d.mantissa * 2 ^ d.exponent

theorem IsNormal.exponent_le {c d : Dyadic} (normal : c.IsNormal) (normal' : d.IsNormal) (same : c.value = d.value) :
    d.exponent ≤ c.exponent := by
  by_contra later
  obtain ⟨k, gap⟩ := Int.exists_add_of_le (show c.exponent + 1 ≤ d.exponent by omega)
  have mantissa : c.mantissa = d.mantissa * 2 ^ (k + 1) := by
    rw [value, value, gap, zpow_add₀ two_ne_zero, zpow_add₀ two_ne_zero, zpow_one, zpow_natCast] at same
    have nonzero : (2 : ℚ) ^ c.exponent ≠ 0 := zpow_ne_zero _ two_ne_zero
    have rational : (c.mantissa : ℚ) = d.mantissa * 2 ^ (k + 1) :=
      mul_right_cancel₀ nonzero (by rw [same, pow_succ]; ring)
    exact_mod_cast rational
  have full : 2 ^ 52 ≤ d.mantissa := normal'.full.resolve_right (by have := normal.least; omega)
  have large : d.mantissa * 2 ≤ c.mantissa := by
    rw [mantissa, pow_succ]
    nlinarith [Nat.one_le_two_pow (n := k)]
  have := normal.bounded
  omega

/-- A value has one normal form. -/
theorem IsNormal.unique {c d : Dyadic} (normal : c.IsNormal) (normal' : d.IsNormal) (same : c.value = d.value) :
    c = d := by
  have exponent : c.exponent = d.exponent :=
    le_antisymm (normal'.exponent_le normal same.symm) (normal.exponent_le normal' same)
  have nonzero : (2 : ℚ) ^ d.exponent ≠ 0 := zpow_ne_zero _ two_ne_zero
  have mantissa : (c.mantissa : ℚ) = d.mantissa := mul_right_cancel₀ nonzero (by rwa [value, value, exponent] at same)
  cases c
  cases d
  cases exponent
  cases Nat.cast_injective mantissa
  rfl

end Dyadic

theorem decode_normal (x : Float) : (decode x).IsNormal := by
  have fraction := fractionBits_lt x
  have bit := leadingBit_eq
  rw [decode_eq]
  split
  · exact ⟨by dsimp only; omega, le_refl _, .inr rfl⟩
  · exact ⟨by dsimp only; omega, by dsimp only; omega, .inl (by dsimp only; omega)⟩

/-- The absolute value of a finite number. -/
def magnitude (x : Float) : ℚ := (decode x).value

/-- What a finite number stands for. -/
def value (x : Float) : ℚ := if isNegative x then -magnitude x else magnitude x

theorem magnitude_nonneg (x : Float) : 0 ≤ magnitude x := by
  rw [magnitude, Dyadic.value]
  positivity

theorem abs_value (x : Float) : |value x| = magnitude x := by
  rw [value]
  split
  · rw [abs_neg, abs_of_nonneg (magnitude_nonneg x)]
  · exact abs_of_nonneg (magnitude_nonneg x)

theorem magnitude_injective {x y : Float} (same : magnitude x = magnitude y) :
    exponentBits x = exponentBits y ∧ fractionBits x = fractionBits y :=
  decode_injective ((decode_normal x).unique (decode_normal y) same)

theorem eq_of_magnitude {x y : Float} (sign : isNegative x = isNegative y) (same : magnitude x = magnitude y) :
    x = y := by
  obtain ⟨exponent, fraction⟩ := magnitude_injective same
  rw [← Float.toBits_inj, ← UInt64.toNat_inj, toBits_eq x, toBits_eq y, sign, exponent, fraction]

theorem magnitude_of_mantissa {x : Float} (zero : (decode x).mantissa = 0) : magnitude x = 0 := by
  rw [magnitude, Dyadic.value, zero, Nat.cast_zero, zero_mul]

theorem magnitude_zeros : magnitude 0 = 0 ∧ magnitude (-0) = 0 :=
  ⟨magnitude_of_mantissa (by decide), magnitude_of_mantissa (by decide)⟩

theorem value_of_magnitude {x : Float} (zero : magnitude x = 0) : value x = 0 := by
  rw [← abs_eq_zero, abs_value, zero]

theorem eq_zero_of_magnitude {x : Float} (zero : magnitude x = 0) : x = 0 ∨ x = -0 := by
  cases sign : isNegative x with
  | false => exact .inl (eq_of_magnitude sign (zero.trans magnitude_zeros.1.symm))
  | true => exact .inr (eq_of_magnitude sign (zero.trans magnitude_zeros.2.symm))

theorem IsFinite.ne_nan {x : Float} (finite : IsFinite x) : x ≠ Float.nan := by
  rintro rfl
  exact finite (by decide)

theorem isNegative_of_value {x y : Float} (same : value x = value y) (nonzero : magnitude x ≠ 0) :
    isNegative x = isNegative y := by
  have alike : magnitude y = magnitude x := by rw [← abs_value, ← same, abs_value]
  have apart : -magnitude x ≠ magnitude x := fun opposite => nonzero (self_eq_neg.1 opposite.symm)
  rw [value, value, alike] at same
  split at same <;> split at same
  · simp_all
  · exact absurd same apart
  · exact absurd same.symm apart
  · simp_all

/-- On finite numbers equality compares what they stand for. -/
theorem beq_iff_value_eq {x y : Float} (finite : IsFinite x) (finite' : IsFinite y) :
    (x == y) = true ↔ value x = value y := by
  rw [Float.beq_iff_ne_nan_and_eq]
  have zeros : value 0 = value (-0) := by
    rw [value_of_magnitude magnitude_zeros.1, value_of_magnitude magnitude_zeros.2]
  constructor
  · rintro ⟨-, -, rfl | ⟨rfl, rfl⟩ | ⟨rfl, rfl⟩⟩
    · rfl
    · exact zeros
    · exact zeros.symm
  · intro same
    have alike : magnitude x = magnitude y := by rw [← abs_value, same, abs_value]
    refine ⟨finite.ne_nan, finite'.ne_nan, ?_⟩
    by_cases zero : magnitude x = 0
    · rcases eq_zero_of_magnitude zero with rfl | rfl <;> rcases eq_zero_of_magnitude (alike ▸ zero) with rfl | rfl
      · exact .inl rfl
      · exact .inr (.inl ⟨rfl, rfl⟩)
      · exact .inr (.inr ⟨rfl, rfl⟩)
      · exact .inl rfl
    · exact .inl (eq_of_magnitude (isNegative_of_value same zero) alike)

/-! ## Integers -/

/-- The bits of the absolute value of an integer. -/
def integerBits (n : Nat) : Nat := (n.log2 + 1023) * leadingBit + (n * 2 ^ (52 - n.log2) - leadingBit)

theorem shifted_bounds {n : Nat} (pos : 0 < n) (small : n < 2 ^ 53) :
    n.log2 ≤ 52 ∧ 2 ^ 52 ≤ n * 2 ^ (52 - n.log2) ∧ n * 2 ^ (52 - n.log2) < 2 ^ 53 := by
  have log : n.log2 < 53 := (Nat.log2_lt pos.ne').2 small
  have lower : 2 ^ n.log2 ≤ n := Nat.log2_self_le pos.ne'
  have upper : n < 2 ^ (n.log2 + 1) := Nat.lt_log2_self
  have power : 2 ^ n.log2 * 2 ^ (52 - n.log2) = 2 ^ 52 := by rw [← pow_add]; congr 1; omega
  have power' : 2 ^ (n.log2 + 1) * 2 ^ (52 - n.log2) = 2 ^ 53 := by rw [← pow_add]; congr 1; omega
  refine ⟨by omega, ?_, ?_⟩
  · rw [← power]
    exact Nat.mul_le_mul_right _ lower
  · rw [← power']
    exact Nat.mul_lt_mul_of_pos_right upper (by positivity)

theorem integerBits_lt {n : Nat} (pos : 0 < n) (small : n < 2 ^ 53) : integerBits n < 2047 * 2 ^ 52 := by
  obtain ⟨log, lower, upper⟩ := shifted_bounds pos small
  simp only [integerBits, leadingBit_eq]
  omega

theorem roundDiv_one (n : Nat) : roundDiv n 1 = n := by simp [roundDiv, Nat.mod_one]

theorem twoTo_eq (n : Nat) : twoTo n = 2 ^ n := rfl

/-- An integer below 2^53 needs no rounding. -/
theorem nearest_integer {negative : Bool} {n : Nat} (pos : 0 < n) (small : n < 2 ^ 53) :
    nearest negative n 1 = some (ofMagnitudeBits negative (integerBits n)) := by
  obtain ⟨log, lower, upper⟩ := shifted_bounds pos small
  have finite := integerBits_lt pos small
  have log1 : Nat.log2 1 = 0 := by decide
  generalize guessed : (n.log2 : Int) - (Nat.log2 1 : Int) - 52 = guess
  have shift : guess.natAbs = 52 - n.log2 := by omega
  have pair : (if guess < 0 then (n * twoTo guess.natAbs, 1) else (n, 1 * twoTo guess.natAbs)) =
      (n * 2 ^ (52 - n.log2), 1) := by
    simp only [shift, twoTo_eq]
    split
    · rfl
    next whole =>
      have none : 52 - n.log2 = 0 := by omega
      simp only [none, pow_zero, mul_one]
  have exponent : max (if n * 2 ^ (52 - n.log2) < 1 * leadingBit then guess - 1 else guess) (-1074) = guess := by
    simp only [leadingBit_eq]
    omega
  have place : (guess + 1075).toNat = n.log2 + 1023 := by omega
  have bits : (guess + 1075).toNat * leadingBit + (n * 2 ^ (52 - n.log2) - leadingBit) = integerBits n := by
    simp only [place, integerBits]
  have large : ¬ n * 2 ^ (52 - n.log2) < leadingBit := by
    simp only [leadingBit_eq]
    omega
  have fits : integerBits n < 2047 * leadingBit := by
    simp only [leadingBit_eq]
    omega
  unfold nearest
  rw [if_neg (by rw [beq_iff_eq]; exact pos.ne')]
  -- Steps that compute would compare with this number one by one.
  generalize leadingBit = bit at exponent bits large fits ⊢
  extract_lets g
  obtain rfl : guess = g := guessed.symm
  clear_value g
  rw [pair]
  dsimp only
  rw [exponent, pair]
  dsimp only
  rw [roundDiv_one, if_neg large, bits, if_pos fits]

section

variable {negative : Bool} {n : Nat}

theorem decode_integer (pos : 0 < n) (small : n < 2 ^ 53) :
    decode (ofMagnitudeBits negative (integerBits n)) = ⟨n * 2 ^ (52 - n.log2), n.log2 - 52⟩ := by
  obtain ⟨log, lower, upper⟩ := shifted_bounds pos small
  have finite := integerBits_lt pos small
  have fields : integerBits n / 2 ^ 52 = n.log2 + 1023 ∧
      integerBits n % 2 ^ 52 + leadingBit = n * 2 ^ (52 - n.log2) := by
    simp only [integerBits, leadingBit_eq]
    omega
  rw [decode_eq, exponentBits_ofMagnitudeBits finite, fractionBits_ofMagnitudeBits finite, fields.1, fields.2,
    if_neg (by omega)]
  exact congrArg _ (by omega)

theorem magnitude_integer (pos : 0 < n) (small : n < 2 ^ 53) :
    magnitude (ofMagnitudeBits negative (integerBits n)) = n := by
  obtain ⟨log, -⟩ := shifted_bounds pos small
  have exponent : (n.log2 : Int) - 52 = -((52 - n.log2 : Nat) : Int) := by omega
  rw [magnitude, decode_integer pos small, Dyadic.value]
  dsimp only
  rw [exponent, zpow_neg, zpow_natCast, Nat.cast_mul, Nat.cast_pow, Nat.cast_ofNat, mul_assoc,
    mul_inv_cancel₀ (pow_ne_zero _ two_ne_zero), mul_one]

end

theorem signed_natAbs (i : Int) : (if decide (i < 0) = true then -(i.natAbs : ℚ) else i.natAbs) = i := by
  rw [Nat.cast_natAbs]
  split
  next negative => rw [abs_of_neg (by simpa using negative), Int.cast_neg, neg_neg]
  next positive => rw [abs_of_nonneg (by simpa using positive)]

/-- The number of an integer below 2^53 stands for this integer. -/
theorem value_ofInteger {i : Int} (small : i.natAbs < 2 ^ 53) : IsFinite (ofInteger i) ∧ value (ofInteger i) = i := by
  rcases Nat.eq_zero_or_pos i.natAbs with zero | pos
  · obtain rfl := Int.natAbs_eq_zero.1 zero
    have positive : ofInteger 0 = 0 := Float.toBits_inj.1 (by decide)
    rw [positive, value_of_magnitude magnitude_zeros.1, Int.cast_zero, IsFinite]
    exact ⟨by decide, rfl⟩
  · have finite := integerBits_lt pos small
    rw [ofInteger, nearest_integer pos small, Option.getD_some, IsFinite, exponentBits_ofMagnitudeBits finite, value,
      isNegative_ofMagnitudeBits finite, magnitude_integer pos small]
    exact ⟨by omega, signed_natAbs i⟩

/-! ## Whole parts -/

/-- The integer next to a rational toward zero. -/
def truncated (q : ℚ) : ℤ := if q < 0 then ⌈q⌉ else ⌊q⌋

theorem scaled_value (m : Nat) (e : Int) : ((scaled m e).1 : ℚ) / (scaled m e).2 = m * 2 ^ e := by
  rw [scaled]
  split
  next negative =>
    have : e = -(e.natAbs : ℤ) := by omega
    rw [twoTo_eq, this, zpow_neg, zpow_natCast, div_eq_mul_inv, Int.natAbs_neg, Int.natAbs_natCast]
    push_cast
    rfl
  next positive =>
    have : e = (e.natAbs : ℤ) := by omega
    rw [twoTo_eq, this, zpow_natCast, Int.natAbs_natCast]
    push_cast
    rw [div_one]

/-- The number has a magnitude below 2^53. What is no finite number is read as larger than that. -/
def IsModerate (x : Float) : Prop := |value x| < 2 ^ 53

theorem IsModerate.finite {x : Float} (moderate : IsModerate x) : IsFinite x := by
  intro infinite
  have large : 2 ^ 53 ≤ (decode x).value := by
    rw [decode_eq, infinite, if_neg (by decide), leadingBit_eq, Dyadic.value]
    dsimp only
    have mantissa : (2 : ℚ) ^ 52 ≤ (fractionBits x + 2 ^ 52 : Nat) := by
      push_cast
      exact le_add_of_nonneg_left (Nat.cast_nonneg _)
    have exponent : (2 : ℚ) ≤ 2 ^ (((2047 : Nat) : Int) - 1075) := by
      rw [show ((2047 : Nat) : Int) - 1075 = (972 : Nat) by omega, zpow_natCast]
      exact le_self_pow₀ one_le_two (by decide)
    calc (2 : ℚ) ^ 53 = 2 ^ 52 * 2 := by norm_num
      _ ≤ _ := mul_le_mul mantissa exponent two_pos.le (by positivity)
  exact absurd moderate (not_lt.2 (by rwa [abs_value]))

theorem floor_magnitude (x : Float) : ⌊magnitude x⌋ =
    ((scaled (decode x).mantissa (decode x).exponent).1 /
      (scaled (decode x).mantissa (decode x).exponent).2 : Nat) := by
  rw [magnitude, Dyadic.value, ← scaled_value, Int.natCast_div]
  exact Rat.floor_natCast_div_natCast _ _

/-- The whole part of a number of moderate size is the integer next to it toward zero. -/
theorem wholePart_eq {x : Float} (moderate : IsModerate x) : wholePart x = truncated (value x) := by
  obtain ⟨number, bounded⟩ := moderate.finite.is_number
  have whole := floor_magnitude x
  have small : magnitude x < 2 ^ 53 := abs_value x ▸ moderate
  have low : 0 ≤ ⌊magnitude x⌋ := Int.floor_nonneg.2 (magnitude_nonneg x)
  have high : ⌊magnitude x⌋ < 2 ^ 53 := Int.floor_lt.2 (by exact_mod_cast small)
  have signed : truncated (value x) = if isNegative x then -⌊magnitude x⌋ else ⌊magnitude x⌋ := by
    rw [truncated, value]
    cases isNegative x with
    | false => exact if_neg (not_lt.2 (magnitude_nonneg x))
    | true =>
      simp only [if_true, Int.ceil_neg]
      split
      · rfl
      next zero =>
        have : magnitude x = 0 := le_antisymm (by simpa using zero) (magnitude_nonneg x)
        rw [this, neg_zero, Int.floor_zero, neg_zero]
  have fits : leastInteger ≤ truncated (value x) ∧ truncated (value x) < 9223372036854775808 := by
    rw [signed, leastInteger]
    split <;> omega
  rw [wholePart, number, bounded]
  simp only [Bool.or_self, Bool.false_eq_true, if_false, ← whole, ← signed]
  rw [if_pos (by simpa using fits)]

theorem truncated_intCast (i : Int) : truncated i = i := by
  rw [truncated, Int.ceil_intCast, Int.floor_intCast, ite_self]

theorem natAbs_truncated {q : ℚ} (small : |q| < 2 ^ 53) : (truncated q).natAbs < 2 ^ 53 := by
  obtain ⟨low, high⟩ := abs_lt.1 small
  have bounds : -2 ^ 53 < truncated q ∧ truncated q < 2 ^ 53 := by
    rw [truncated]
    split
    next negative =>
      exact ⟨Int.lt_ceil.2 (by exact_mod_cast low),
        (Int.ceil_le.2 (by exact_mod_cast negative.le)).trans_lt (by decide)⟩
    next positive =>
      exact ⟨lt_of_lt_of_le (by decide) (Int.floor_nonneg.2 (not_lt.1 positive)),
        Int.floor_lt.2 (by exact_mod_cast high)⟩
  omega

/-- The number of the whole part equals the number exactly if the number is an integer. -/
theorem ofInteger_wholePart_beq_iff {x : Float} (moderate : IsModerate x) :
    (ofInteger (wholePart x) == x) = true ↔ value x = wholePart x := by
  rw [wholePart_eq moderate]
  obtain ⟨finite, exact_⟩ := value_ofInteger (natAbs_truncated moderate)
  rw [beq_iff_value_eq finite moderate.finite, exact_, eq_comm]

end ClassScript.Number
