import SlangScript.Proofs.Number.Bits
import SlangScript.Proofs.Number.Rounding

/-!
Numbers and their shapes. A number is the one that its shape is rounded to: there is one number that
is none, one infinity of each sign, and a finite number is the nearest one to its own quantity. Equal
numbers are the same number, but that the two zeros are equal and that what is no number equals
nothing.
-/

namespace SlangScript.Number

open Float.Model (Format)
open Float.Model.UnpackedFloat

theorem ofModel_pack_unpack (x : Float) : Float.ofModel (.pack x.toModel.unpack) = x := by
  obtain ⟨bits, valid⟩ := x
  have same : UInt64.ofBitVec (pack Format.binary64 (unpack Format.binary64 bits.toBitVec)) = bits :=
    congrArg UInt64.ofBitVec (pack_unpack valid)
  exact congrArg Float.ofModel (Eq.mpr (Float.Model.mk.injEq _ _ _ _) same)

theorem ofBits_toBits (x : Float) : Float.ofBits x.toBits = x := ofModel_pack_unpack x

/-- A number is found by its bits. -/
theorem eq_ofBits {x : Float} {bits : Nat} (h : x.toBits.toNat = bits) :
    x = Float.ofBits (UInt64.ofNat bits) := by
  rw [← h, UInt64.ofNat_toNat, ofBits_toBits]

/-- Bits are a sign, an exponent and a fraction. -/
theorem bits_eq {bits : Nat} (small : bits < 2 ^ 64) :
    bits = (if decide (signBit ≤ bits) then signBit else 0) +
      (bits / fractions % exponents * fractions + bits % fractions) := by
  unfold fractions exponents signBit
  simp only [decide_eq_true_eq]
  split <;> omega

theorem eq_notANumber {x : Float} (h : shape x = .notANumber) : x = notANumber := by
  have valid := x.toModel.valid
  unfold shape shapeOfBits at h
  simp only at h
  split at h
  · next full =>
      split at h
      · cases h
      · next some =>
          have all : @unpackExponent Format.binary64 x.toBits.toBitVec = -1#11 :=
            BitVec.eq_of_toNat_eq (toNat_unpackExponent.trans full)
          have other : @unpackMantissa Format.binary64 x.toBits.toBitVec ≠ 0#52 := by
            intro none
            rw [UInt64.toNat, ← toNat_unpackMantissa, none] at some
            exact some rfl
          have packed := valid.eq_packedNaN all other
          rw [← ofBits_toBits x]
          exact congrArg (fun bits => Float.ofBits (.ofBitVec bits)) packed
  · split at h <;> cases h

theorem eq_infinity {x : Float} {negative : Bool} (h : shape x = .infinite negative) :
    x = infinity negative := by
  have whole := bits_eq x.toBits.toNat_lt
  unfold shape shapeOfBits at h
  simp only at h
  split at h
  · next full =>
      split at h
      · next none =>
          rw [full, none] at whole
          obtain rfl := Shape.infinite.inj h
          rw [eq_ofBits whole]
          generalize decide (signBit ≤ x.toBits.toNat) = negative
          cases negative <;> rfl
      · cases h
  · split at h <;> cases h

/-- The finite quantities that are numbers: they have 53 bits, or fewer in the least unit. -/
structure Scaled.Canonical (s : Scaled) : Prop where
  least : -1074 ≤ s.exponent
  most : s.exponent ≤ 971
  short : s.significand < 2 * fractions
  full : s.exponent = -1074 ∨ fractions ≤ s.significand

theorem finite_bits {x : Float} {s : Scaled} (h : shape x = .finite s) : s.Canonical ∧
    x.toBits.toNat = (if s.negative then signBit else 0) +
      ((s.exponent + 1074).toNat * fractions + s.significand) := by
  have whole := bits_eq x.toBits.toNat_lt
  have fraction : x.toBits.toNat % fractions < fractions := Nat.mod_lt _ (by decide)
  have field : x.toBits.toNat / fractions % exponents < 2048 := Nat.mod_lt _ (by decide)
  unfold shape shapeOfBits at h
  simp only at h
  generalize x.toBits.toNat / fractions % exponents = exponent at *
  split at h
  · split at h <;> cases h
  split at h
  · next none =>
      obtain rfl := Shape.finite.inj h
      refine ⟨⟨Int.le_refl _, Int.le_of_lt (by decide : (-1074 : Int) < 971), ?_, .inl rfl⟩, ?_⟩
      · dsimp only
        omega
      · rwa [none] at whole
  · next all some =>
      obtain rfl := Shape.finite.inj h
      refine ⟨⟨?_, ?_, ?_, .inr (Nat.le_add_right _ _)⟩, ?_⟩
      · dsimp only
        omega
      · dsimp only
        omega
      · dsimp only
        omega
      · have unit : ((exponent : Int) - 1075 + 1074).toNat = exponent - 1 := by omega
        have one : exponent = exponent - 1 + 1 := by omega
        rw [one, Nat.succ_mul] at whole
        dsimp only
        rw [unit]
        omega

theorem Scaled.numerator_eq_zero {s : Scaled} (none : s.significand = 0) : s.numerator = 0 := by
  rw [numerator, none, Nat.zero_mul]

theorem nearestBits_zero (d : Nat) : nearestBits 0 d = 0 := if_pos rfl

theorem Scaled.Canonical.fits {s : Scaled} (h : s.Canonical) :
    Fits (s.significand * 2 ^ s.exponent) s.exponent := by
  have unit := zpow_pos (two_pos (α := ℚ)) s.exponent
  have cast : ((fractions : ℕ) : ℚ) = 2 ^ 52 := by norm_num [fractions]
  refine ⟨h.least, mul_lt_mul_of_pos_right ?_ unit, h.full.imp_right fun full => ?_⟩
  · have short : (s.significand : ℚ) < (2 * fractions : ℕ) := Nat.cast_lt.mpr h.short
    refine short.trans_eq ?_
    rw [Nat.cast_mul, cast]
    norm_num
  · rw [← cast]
    exact mul_le_mul_of_nonneg_right (Nat.cast_le.mpr full) unit.le

/-- Rounding a number gives its own bits, below the sign. -/
theorem Scaled.Canonical.nearestBits {s : Scaled} (h : s.Canonical) :
    nearestBits s.numerator s.denominator =
      (s.exponent + 1074).toNat * fractions + s.significand := by
  obtain ⟨least, most, short, full⟩ := id h
  rcases Nat.eq_zero_or_pos s.significand with none | some
  · have unit : s.exponent = -1074 := full.resolve_right (by rw [none]; decide)
    rw [numerator_eq_zero none, nearestBits_zero, none, unit]
    rfl
  · have exact := s.quotient_eq
    rw [nearestBits_exact some s.denominator_pos exact (exact ▸ h.fits)]
    refine Nat.min_eq_left ?_
    have units : (s.exponent + 1074).toNat ≤ 2045 := by omega
    calc (s.exponent + 1074).toNat * fractions + s.significand
        ≤ 2045 * fractions + 2 * fractions :=
          Nat.add_le_add (Nat.mul_le_mul_right _ units) short.le
      _ = 2047 * fractions := (Nat.add_mul 2045 2 fractions).symm

/-- A finite number is the nearest one to its own quantity. -/
theorem ofRatio_shape {x : Float} {s : Scaled} (h : shape x = .finite s) :
    ofRatio s.negative s.numerator s.denominator = x := by
  obtain ⟨canonical, bits⟩ := finite_bits h
  rw [ofRatio, canonical.nearestBits, ← eq_ofBits bits]

/-! ## Zeros -/

/-- A zero, with a sign or without. -/
def IsZero (x : Float) : Prop := x = 0 ∨ x = -0

theorem zero_of_significand {x : Float} {s : Scaled} (h : shape x = .finite s)
    (none : s.significand = 0) : x = if s.negative then -0 else 0 := by
  rw [← ofRatio_shape h, Scaled.numerator_eq_zero none, ofRatio, nearestBits_zero]
  cases s.negative <;> decide

/-! ## Equality -/

theorem then_eq_iff {e e' : Int} {m m' : Nat} :
    (compare e e').then (compare m m') = .eq ↔ e = e' ∧ m = m' := by
  rw [Ordering.then_eq_eq, Std.compare_eq_iff_eq, Std.compare_eq_iff_eq]

theorem compare_self_eq {u : Float.Model.UnpackedFloat} (h : u ≠ .notANumber) :
    u.compare u = some .eq := by
  rcases u with s | _ | s | ⟨s, m, e, _⟩
  · cases s <;> rfl
  · exact absurd rfl h
  · rfl
  · have same : (compare e e).then (compare m m) = .eq := then_eq_iff.mpr ⟨rfl, rfl⟩
    cases s
    · exact congrArg (fun order => some order.swap) same
    · exact congrArg some same

theorem compare_eq_iff {u v : Float.Model.UnpackedFloat} :
    u.compare v = some .eq ↔
      u = v ∧ u ≠ .notANumber ∨ ∃ s t, u = .zero s ∧ v = .zero t := by
  constructor
  · intro h
    -- Quantities of different kinds or signs are never equal, so their cases are closed at once.
    rcases u with s | _ | s | ⟨s, m, e, _⟩ <;> rcases v with t | _ | t | ⟨t, m', e', _⟩ <;>
      (try cases s) <;> (try cases t) <;> try cases h
    case infinity.infinity.negative.negative.refl | infinity.infinity.positive.positive.refl =>
      exact .inl ⟨rfl, Float.Model.UnpackedFloat.noConfusion⟩
    case finite.finite.negative.negative =>
      obtain ⟨rfl, rfl⟩ := then_eq_iff.mp (Ordering.swap_eq_eq.mp (Option.some.inj h))
      exact .inl ⟨rfl, Float.Model.UnpackedFloat.noConfusion⟩
    case finite.finite.positive.positive =>
      obtain ⟨rfl, rfl⟩ := then_eq_iff.mp (Option.some.inj h)
      exact .inl ⟨rfl, Float.Model.UnpackedFloat.noConfusion⟩
    all_goals exact .inr ⟨_, _, rfl, rfl⟩
  · rintro (⟨rfl, other⟩ | ⟨s, t, rfl, rfl⟩)
    · exact compare_self_eq other
    · rfl

theorem isZero_of_unpack {x : Float} {sign : Sign} (h : x.toModel.unpack = .zero sign) :
    IsZero x := by
  rw [← ofModel_pack_unpack x, h]
  cases sign
  · exact .inr (by decide)
  · exact .inl (by decide)

theorem unpack_ne_notANumber {x : Float} (h : x.isNaN = false) :
    x.toModel.unpack ≠ .notANumber := by
  intro none
  have isNaN : x.isNaN = x.toModel.unpack.isNaN := rfl
  rw [isNaN, none] at h
  cases h

/-- A number equals the same number, and a zero the other one. -/
theorem beq_iff {x y : Float} (h : x.isNaN = false) :
    (x == y) = true ↔ x = y ∨ IsZero x ∧ IsZero y := by
  have unfolded : (x == y) = (x.toModel.unpack.compare y.toModel.unpack == some .eq) := rfl
  rw [unfolded, beq_iff_eq, compare_eq_iff]
  constructor
  · rintro (⟨same, -⟩ | ⟨s, t, zero, zero'⟩)
    · exact .inl (by rw [← ofModel_pack_unpack x, same, ofModel_pack_unpack])
    · exact .inr ⟨isZero_of_unpack zero, isZero_of_unpack zero'⟩
  · rintro (rfl | ⟨zero, zero'⟩)
    · exact .inl ⟨rfl, unpack_ne_notANumber h⟩
    · have unpacked {z : Float} (zero : IsZero z) : ∃ s, z.toModel.unpack = .zero s := by
        rcases zero with rfl | rfl
        · exact ⟨.positive, rfl⟩
        · exact ⟨.negative, rfl⟩
      obtain ⟨s, same⟩ := unpacked zero
      obtain ⟨t, same'⟩ := unpacked zero'
      exact .inr ⟨s, t, same, same'⟩

theorem shape_of_isNaN {x : Float} (h : x.isNaN = true) : shape x = .notANumber := by
  have isNaN : x.isNaN = x.toModel.unpack.isNaN := rfl
  rw [isNaN] at h
  rw [← ofModel_pack_unpack x]
  generalize x.toModel.unpack = u at *
  cases u with
  | notANumber => decide
  | infinity | zero | finite => cases h

namespace Signless

variable {x y : Float}

theorem isNaN_eq_false (h : Signless x) : x.isNaN = false := by
  refine Bool.eq_false_iff.mpr fun none => ?_
  have shapes := shape_of_isNaN none
  rcases h with infinite | ⟨significand, exponent, finite⟩
  · exact absurd (infinite.symm.trans shapes) Shape.noConfusion
  · exact absurd (finite.symm.trans shapes) Shape.noConfusion

theorem eq_zero (h : Signless x) (zero : IsZero x) : x = 0 := by
  rcases zero with rfl | rfl
  · rfl
  · have minus : shape (-0) = .finite ⟨true, 0, -1074⟩ := by decide
    rcases h with infinite | ⟨significand, exponent, finite⟩
    · exact absurd (infinite.symm.trans minus) Shape.noConfusion
    · exact absurd (Scaled.mk.inj (Shape.finite.inj (finite.symm.trans minus))).1 Bool.false_ne_true

/-- Of numbers without a minus the same ones are equal and no others. -/
theorem beq_iff (h : Signless x) (h' : Signless y) : (x == y) = true ↔ x = y := by
  rw [Number.beq_iff h.isNaN_eq_false, or_iff_left_of_imp]
  rintro ⟨zero, zero'⟩
  rw [h.eq_zero zero, h'.eq_zero zero']

end Signless

end SlangScript.Number
