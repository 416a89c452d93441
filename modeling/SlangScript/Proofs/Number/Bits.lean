import SlangScript.Number.Nearest

/-!
Numbers and their bits. A number keeps the bits that it is made of, but that all bits which stand
for no number make the same one. So the shape of a number is that of its bits, and what is rounded
from a quotient without a minus has none.
-/

namespace SlangScript.Number

open Float.Model (Format)
open Float.Model.UnpackedFloat

/-! ## Packing -/

theorem toBitVec_ofBitVec (sign : BitVec 1) : (Sign.ofBitVec sign).toBitVec = sign := by
  revert sign
  decide

theorem toNat_append {m n : Nat} (front : BitVec m) (back : BitVec n) :
    (front ++ back).toNat = front.toNat <<< n + back.toNat := by
  rw [BitVec.toNat_append, Nat.shiftLeft_add_eq_or_of_lt back.isLt]

section

variable {bits : BitVec Format.binary64.numBits}

theorem toNat_unpackMantissa : (unpackMantissa bits).toNat = bits.toNat % fractions :=
  BitVec.extractLsb_toNat 51 0 bits

theorem toNat_unpackExponent :
    (unpackExponent bits).toNat = bits.toNat / fractions % exponents := by
  rw [fractions, ← Nat.shiftRight_eq_div_pow _ 52]
  exact BitVec.extractLsb_toNat 62 52 bits

theorem toNat_unpackSign : (unpackSign bits).toNat = bits.toNat / signBit % 2 := by
  rw [signBit, ← Nat.shiftRight_eq_div_pow _ 63]
  exact BitVec.extractLsb_toNat 63 63 bits

/-- Bits are made of a sign, an exponent and a fraction. -/
theorem packComponents_unpack {exponent : BitVec 11} {fraction : BitVec 52}
    (he : unpackExponent bits = exponent) (hf : unpackMantissa bits = fraction) :
    packComponents Format.binary64 (Sign.ofBitVec (unpackSign bits)) exponent fraction = bits := by
  subst he hf
  apply BitVec.eq_of_toNat_eq
  have small : bits.toNat < 2 ^ 64 := bits.isLt
  rw [packComponents, toBitVec_ofBitVec, toNat_append, toNat_append, toNat_unpackSign,
    toNat_unpackExponent, toNat_unpackMantissa]
  simp only [Nat.shiftLeft_eq]
  unfold fractions exponents signBit
  omega

/-- A significand of 53 bits is stored without its first one, which is always set. -/
theorem pack_normal (sign : Sign) {exponent : BitVec 11} (fraction : BitVec 52) {e : Int}
    (finite : exponent ≠ -1#11) (same : e = exponent.toNat - (1023 + 52 : Nat))
    (pos : 0 < (1#1 ++ fraction).toNat) :
    pack Format.binary64 (.finite sign (1#1 ++ fraction).toNat e pos) =
      packComponents Format.binary64 sign exponent fraction := by
  have below : exponent.toNat + 1 < 2 ^ 11 := by
    have bound : exponent.toNat < 2 ^ 11 := exponent.isLt
    have other : exponent.toNat ≠ 2047 := fun all => finite (BitVec.eq_of_toNat_eq all)
    omega
  have whole : (1#1 ++ fraction).toNat = 2 ^ 52 + fraction.toNat := toNat_append 1#1 fraction
  have digits : (1#1 ++ fraction).toNat.log2 + 1 = 53 := by
    have bound : fraction.toNat < 2 ^ 52 := fraction.isLt
    have first : (1#1 ++ fraction).toNat.log2 = 52 :=
      (Nat.log2_eq_iff (Nat.ne_of_gt pos)).mpr ⟨by omega, by omega⟩
    rw [first]
  have cut : BitVec.ofNat 52 (1#1 ++ fraction).toNat = fraction := by
    apply BitVec.eq_of_toNat_eq
    rw [BitVec.toNat_ofNat, whole, Nat.add_mod_left]
    exact Nat.mod_eq_of_lt fraction.isLt
  have biased : (e + (1023 : Nat) + (52 : Nat)).toNat = exponent.toNat := by omega
  unfold pack
  change (if 2 ^ 11 ≤ (e + (1023 : Nat) + (52 : Nat)).toNat + 1 then _ else
    if (1#1 ++ fraction).toNat.log2 + 1 = 53 then
      packComponents Format.binary64 sign
        (BitVec.ofNat 11 (e + (1023 : Nat) + (52 : Nat)).toNat) (BitVec.ofNat 52 _)
    else _) = _
  rw [biased, cut, BitVec.ofNat_toNat, BitVec.setWidth_eq, if_neg (by omega), if_pos digits]

/-- A significand of fewer bits is stored as it is. -/
theorem pack_subnormal (sign : Sign) (fraction : BitVec 52) {e : Int} (least : e = -1074)
    (pos : 0 < fraction.toNat) :
    pack Format.binary64 (.finite sign fraction.toNat e pos) =
      packComponents Format.binary64 sign 0#11 fraction := by
  have digits : ¬fraction.toNat.log2 + 1 = 53 := by
    have short := (Nat.log2_lt (Nat.ne_of_gt pos)).mpr fraction.isLt
    omega
  unfold pack
  change (if 2 ^ 11 ≤ (e + (1023 : Nat) + (52 : Nat)).toNat + 1 then _ else
    if fraction.toNat.log2 + 1 = 53 then _
    else packComponents Format.binary64 sign 0#11 (BitVec.ofNat 52 fraction.toNat)) = _
  rw [if_neg (by omega), if_neg digits, BitVec.ofNat_toNat, BitVec.setWidth_eq]

theorem pack_unpack (valid : Format.binary64.Valid bits) :
    pack Format.binary64 (unpack Format.binary64 bits) = bits := by
  by_cases full : unpackExponent bits = -1#11
  · by_cases none : unpackMantissa bits = 0#52
    · have infinite : unpack Format.binary64 bits = .infinity _ :=
        (if_pos full).trans (if_pos none)
      rw [infinite]
      exact packComponents_unpack full none
    · have undefined : unpack Format.binary64 bits = .notANumber :=
        (if_pos full).trans (if_neg none)
      rw [undefined]
      exact (valid.eq_packedNaN full none).symm
  by_cases least : unpackExponent bits = 0#11
  · by_cases none : unpackMantissa bits = 0#52
    · have zero : unpack Format.binary64 bits = .zero _ :=
        (if_neg full).trans ((if_pos least).trans (dif_pos none))
      rw [zero]
      exact packComponents_unpack least none
    · have subnormal : unpack Format.binary64 bits = .finite _ _ _ _ :=
        (if_neg full).trans ((if_pos least).trans (dif_neg none))
      have unit : ((unpackExponent bits).toNat : Int) - (1023 + 52 : Nat) + 1 = -1074 := by
        rw [least]
        rfl
      rw [subnormal]
      exact (pack_subnormal _ _ unit _).trans (packComponents_unpack least rfl)
  · have normal : unpack Format.binary64 bits = .finite _ _ _ _ :=
      (if_neg full).trans (if_neg least)
    rw [normal]
    exact (pack_normal _ _ full rfl _).trans (packComponents_unpack rfl rfl)

/-- Up to those of infinity there are no bits of no number. -/
theorem valid_of_le (h : bits.toNat ≤ 2047 * fractions) : Format.binary64.Valid bits := by
  constructor
  intro full some
  have all : bits.toNat / fractions % exponents = 2047 := by
    rw [← toNat_unpackExponent, full]
    rfl
  refine absurd (BitVec.eq_of_toNat_eq ?_) some
  rw [toNat_unpackMantissa]
  change bits.toNat % fractions = 0
  unfold fractions exponents at *
  omega

end

/-! ## Bits of a number -/

theorem toBits_ofBits {bits : UInt64} (valid : Format.binary64.Valid bits.toBitVec) :
    (Float.ofBits bits).toBits = bits :=
  congrArg UInt64.ofBitVec (pack_unpack valid)

/-- An infinite or a finite number that has no minus. So it is not zero with a minus either. -/
def Signless (x : Float) : Prop :=
  shape x = .infinite false ∨
    ∃ significand exponent, shape x = .finite ⟨false, significand, exponent⟩

theorem signless_zero : Signless 0 := .inr ⟨0, -1074, by decide⟩

theorem signless_ofBits {bits : Nat} (h : bits ≤ 2047 * fractions) :
    Signless (Float.ofBits (UInt64.ofNat bits)) := by
  have small : bits < 2 ^ 64 := by unfold fractions at h; omega
  have same : (UInt64.ofNat bits).toNat = bits := UInt64.toNat_ofNat_of_lt small
  have plus : decide (signBit ≤ bits) = false := by
    unfold fractions at h
    unfold signBit
    exact decide_eq_false (by omega)
  unfold Signless shape
  have valid := valid_of_le (Nat.le_trans (Nat.le_of_eq same) h)
  rw [toBits_ofBits valid, same, shapeOfBits]
  simp only [plus]
  split
  · next full =>
      have none : bits % fractions = 0 := by
        unfold fractions exponents at *
        omega
      exact .inl (if_pos none)
  · split
    · exact .inr ⟨_, _, rfl⟩
    · exact .inr ⟨_, _, rfl⟩

theorem nearestBits_le (n d : Nat) : nearestBits n d ≤ 2047 * fractions := by
  unfold nearestBits
  split
  · exact Nat.zero_le _
  · exact Nat.min_le_right _ _

/-- What is rounded from a quotient without a minus has none. -/
theorem signless_ofRatio (n d : Nat) : Signless (ofRatio false n d) := by
  rw [ofRatio, if_neg Bool.false_ne_true, Nat.zero_add]
  exact signless_ofBits (nearestBits_le n d)

theorem signless_ofDecimal (digits : Nat) (exponent : Int) :
    Signless (ofDecimal false digits exponent) := by
  unfold ofDecimal
  -- Beyond the reach of numbers too the answer is rounded from a quotient.
  repeat' split
  all_goals exact signless_ofRatio _ _

end SlangScript.Number
