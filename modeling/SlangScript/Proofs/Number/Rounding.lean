import Mathlib.Algebra.Order.Field.Power
import Mathlib.Data.Rat.Cast.Order
import Mathlib.Tactic.FieldSimp
import Mathlib.Tactic.Linarith
import Mathlib.Tactic.NormNum
import SlangScript.Number.Nearest

/-!
Rounding as a function of the quantity that is rounded: two quotients of the same quantity are rounded
to the same number, and so is a decimal of that quantity, however its digits and its power of ten
share it. A quantity that is some number already is rounded to that number.
-/

namespace SlangScript.Number

/-! ## Powers -/

theorem cast_pow (b k : ℕ) : ((Nat.pow b k : ℕ) : ℚ) = (b : ℚ) ^ k := Nat.cast_pow b k

/-- A power of any exponent as a quotient of powers of natural exponents. -/
theorem pow_toNat_div {b : ℚ} (nonzero : b ≠ 0) (e : ℤ) : b ^ e.toNat / b ^ (-e).toNat = b ^ e := by
  rw [← zpow_natCast, ← zpow_natCast, ← zpow_sub₀ nonzero]
  congr 1
  omega

theorem Scaled.quotient_eq (s : Scaled) :
    (s.numerator : ℚ) / s.denominator = s.significand * 2 ^ s.exponent := by
  rw [numerator, denominator, Nat.cast_mul, cast_pow, cast_pow, mul_div_assoc, Nat.cast_ofNat,
    pow_toNat_div two_ne_zero]

theorem inUnits_pos {d : ℕ} (pos : 0 < d) (n : ℕ) (unit : ℤ) : 0 < (inUnits n d unit).2 :=
  Nat.mul_pos pos (Nat.pow_pos (by decide))

theorem inUnits_quotient (n d : ℕ) (unit : ℤ) :
    ((inUnits n d unit).1 : ℚ) / (inUnits n d unit).2 = n / d / 2 ^ unit := by
  have power := pow_toNat_div (two_ne_zero (α := ℚ)) (-unit)
  rw [neg_neg] at power
  rw [inUnits, Nat.cast_mul, Nat.cast_mul, cast_pow, cast_pow, Nat.cast_ofNat, mul_div_mul_comm,
    power, zpow_neg, div_eq_mul_inv (_ / _)]

/-- How a quantity compares to a whole number of units. -/
theorem le_inUnits {n d : ℕ} (pos : 0 < d) (unit : ℤ) (m : ℕ) :
    m * (inUnits n d unit).2 ≤ (inUnits n d unit).1 ↔ (m : ℚ) * 2 ^ unit ≤ n / d := by
  have below : (0 : ℚ) < (inUnits n d unit).2 := Nat.cast_pos.mpr (inUnits_pos pos n unit)
  rw [← le_div_iff₀ (zpow_pos two_pos unit), ← inUnits_quotient, le_div_iff₀ below]
  exact_mod_cast Iff.rfl

/-! ## Whole numbers -/

theorem roundHalfEven_scale (n d : ℕ) {k : ℕ} (pos : 0 < k) :
    roundHalfEven (n * k) (d * k) = roundHalfEven n d := by
  have less (a b : ℕ) : a * k < b * k ↔ a < b := Nat.mul_lt_mul_right pos
  simp only [roundHalfEven, Nat.mul_div_mul_right n d pos, Nat.mul_mod_mul_right, ← Nat.mul_assoc,
    less]

theorem roundHalfEven_congr {n d n' d' : ℕ} (pos : 0 < d) (pos' : 0 < d')
    (same : (n : ℚ) / d = n' / d') : roundHalfEven n d = roundHalfEven n' d' := by
  have nonzero : (d : ℚ) ≠ 0 := Nat.cast_ne_zero.mpr (Nat.ne_of_gt pos)
  have nonzero' : (d' : ℚ) ≠ 0 := Nat.cast_ne_zero.mpr (Nat.ne_of_gt pos')
  have cross : n * d' = n' * d := by exact_mod_cast (div_eq_div_iff nonzero nonzero').mp same
  rw [← roundHalfEven_scale n d pos', cross, Nat.mul_comm d d', roundHalfEven_scale n' d' pos]

theorem roundHalfEven_mul (m : ℕ) {d : ℕ} (pos : 0 < d) : roundHalfEven (m * d) d = m := by
  simp only [roundHalfEven, Nat.mul_div_left m pos, Nat.mul_mod_left, Nat.mul_zero, if_pos pos]

/-! ## The unit of a quantity -/

/-- A quantity has 53 bits before the point in a unit, or fewer in the least unit there is. -/
structure Fits (q : ℚ) (unit : ℤ) : Prop where
  least : -1074 ≤ unit
  below : q < 2 ^ 53 * 2 ^ unit
  above : unit = -1074 ∨ 2 ^ 52 * 2 ^ unit ≤ q

theorem two_zpow_le {a b : ℤ} (h : a ≤ b) : (2 : ℚ) ^ a ≤ 2 ^ b :=
  zpow_le_zpow_right₀ one_le_two h

theorem two_zpow_add (k : ℕ) (e : ℤ) : (2 : ℚ) ^ k * 2 ^ e = 2 ^ (k + e) := by
  rw [zpow_add₀ two_ne_zero, zpow_natCast]

theorem Fits.unit_le {q : ℚ} {unit unit' : ℤ} (h : Fits q unit) (h' : Fits q unit') :
    unit ≤ unit' := by
  by_contra less
  have next : unit' + 1 ≤ unit := by omega
  have least := h'.least
  have above := h.above.resolve_left (by omega)
  have below := h'.below
  rw [two_zpow_add] at above below
  exact absurd (below.trans_le ((two_zpow_le (by push_cast; omega)).trans above)) (lt_irrefl q)

theorem Fits.unique {q : ℚ} {unit unit' : ℤ} (h : Fits q unit) (h' : Fits q unit') :
    unit = unit' :=
  Int.le_antisymm (h.unit_le h') (h'.unit_le h)

/-- The lengths of two numbers bound their quotient. -/
theorem quotient_bounds {n d : ℕ} (some : 0 < n) (pos : 0 < d) :
    (2 : ℚ) ^ ((n.log2 : ℤ) - d.log2 - 1) ≤ n / d ∧ (n : ℚ) / d < 2 ^ ((n.log2 : ℤ) - d.log2 + 1) := by
  have bounds {k : ℕ} (positive : 0 < k) :
      (2 : ℚ) ^ (k.log2 : ℤ) ≤ k ∧ (k : ℚ) < 2 ^ ((k.log2 : ℤ) + 1) := by
    constructor
    · exact_mod_cast Nat.log2_self_le (Nat.ne_of_gt positive)
    · exact_mod_cast Nat.lt_log2_self (n := k)
  obtain ⟨lowN, highN⟩ := bounds some
  obtain ⟨lowD, highD⟩ := bounds pos
  have below : (0 : ℚ) < d := Nat.cast_pos.mpr pos
  constructor
  · rw [le_div_iff₀ below]
    calc (2 : ℚ) ^ ((n.log2 : ℤ) - d.log2 - 1) * d
        ≤ 2 ^ ((n.log2 : ℤ) - d.log2 - 1) * 2 ^ ((d.log2 : ℤ) + 1) :=
          mul_le_mul_of_nonneg_left highD.le (zpow_pos two_pos _).le
      _ = 2 ^ (n.log2 : ℤ) := by rw [← zpow_add₀ two_ne_zero]; congr 1; omega
      _ ≤ n := lowN
  · rw [div_lt_iff₀ below]
    calc (n : ℚ) < 2 ^ ((n.log2 : ℤ) + 1) := highN
      _ = 2 ^ ((n.log2 : ℤ) - d.log2 + 1) * 2 ^ (d.log2 : ℤ) := by
          rw [← zpow_add₀ two_ne_zero]; congr 1; omega
      _ ≤ 2 ^ ((n.log2 : ℤ) - d.log2 + 1) * d :=
          mul_le_mul_of_nonneg_left lowD (zpow_pos two_pos _).le

theorem unitOf_fits {n d : ℕ} (some : 0 < n) (pos : 0 < d) : Fits (n / d) (unitOf n d) := by
  obtain ⟨low, high⟩ := quotient_bounds some pos
  have room := le_inUnits pos (max ((n.log2 : ℤ) - d.log2 - 53) (-1074)) (2 * fractions) (n := n)
  have full : ((2 * fractions : ℕ) : ℚ) = 2 ^ 53 := by norm_num [fractions]
  rw [full] at room
  unfold unitOf
  generalize guessed : max ((n.log2 : ℤ) - d.log2 - 53) (-1074) = guess at room
  simp only
  split
  · next above =>
      -- The guess is one too low, so it was not cut off at the least unit.
      have more := room.mp above
      rw [two_zpow_add] at more
      have exponent := (zpow_lt_zpow_iff_right₀ (one_lt_two (α := ℚ))).mp (more.trans_lt high)
      push_cast at exponent
      refine ⟨by omega, high.trans_le ?_, .inr (le_of_eq_of_le ?_ more)⟩
      · rw [two_zpow_add]
        exact two_zpow_le (by push_cast; omega)
      · rw [two_zpow_add]
        congr 1
        push_cast
        omega
  · next under =>
      have less := lt_of_not_ge (mt room.mpr under)
      refine ⟨by omega, less, ?_⟩
      by_cases cut : guess = -1074
      · exact .inl cut
      · refine .inr (le_trans ?_ low)
        rw [two_zpow_add]
        exact two_zpow_le (by push_cast; omega)

/-! ## Nearest numbers -/

theorem nearestBits_of_fits {n d : ℕ} (some : 0 < n) (pos : 0 < d) {unit : ℤ}
    (fits : Fits (n / d) unit) :
    nearestBits n d = min ((unit + 1074).toNat * fractions +
      roundHalfEven (inUnits n d unit).1 (inUnits n d unit).2) (2047 * fractions) := by
  rw [nearestBits, if_neg (Nat.ne_of_gt some), (unitOf_fits some pos).unique fits]

theorem numerator_pos {n d : ℕ} (pos : 0 < d) (positive : (0 : ℚ) < n / d) : 0 < n := by
  have below : (0 : ℚ) < d := Nat.cast_pos.mpr pos
  rwa [lt_div_iff₀ below, zero_mul, Nat.cast_pos] at positive

/-- Quotients of the same quantity are rounded to the same number. -/
theorem nearestBits_congr {n d n' d' : ℕ} (pos : 0 < d) (pos' : 0 < d')
    (same : (n : ℚ) / d = n' / d') : nearestBits n d = nearestBits n' d' := by
  have below : (0 : ℚ) < d := Nat.cast_pos.mpr pos
  have below' : (0 : ℚ) < d' := Nat.cast_pos.mpr pos'
  rcases Nat.eq_zero_or_pos n with rfl | some
  · have none : n' = 0 := by
      rw [Nat.cast_zero, zero_div, eq_comm, div_eq_zero_iff] at same
      exact_mod_cast same.resolve_right below'.ne'
    rw [none, nearestBits, nearestBits, if_pos rfl, if_pos rfl]
  · have some' : 0 < n' := by
      have positive : (0 : ℚ) < n' / d' := same ▸ div_pos (Nat.cast_pos.mpr some) below
      exact numerator_pos pos' positive
    have fits := unitOf_fits some pos
    rw [nearestBits_of_fits some pos fits, nearestBits_of_fits some' pos' (same ▸ fits),
      roundHalfEven_congr (inUnits_pos pos n _) (inUnits_pos pos' n' _)
        (by rw [inUnits_quotient, inUnits_quotient, same])]

/-- A quantity that is a significand of its unit is rounded to that. -/
theorem nearestBits_exact {n d m : ℕ} {unit : ℤ} (some : 0 < m) (pos : 0 < d)
    (exact : (n : ℚ) / d = m * 2 ^ unit) (fits : Fits (n / d) unit) :
    nearestBits n d = min ((unit + 1074).toNat * fractions + m) (2047 * fractions) := by
  have positive : 0 < n := by
    have quantity : (0 : ℚ) < n / d := by
      rw [exact]
      exact mul_pos (Nat.cast_pos.mpr some) (zpow_pos two_pos _)
    exact numerator_pos pos quantity
  have whole : roundHalfEven (inUnits n d unit).1 (inUnits n d unit).2 = m := by
    have unit_ne : (2 : ℚ) ^ unit ≠ 0 := (zpow_pos two_pos unit).ne'
    have quotient : ((inUnits n d unit).1 : ℚ) / (inUnits n d unit).2 = (m * 1 : ℕ) / (1 : ℕ) := by
      rw [inUnits_quotient, exact, mul_div_cancel_right₀ _ unit_ne, Nat.mul_one, Nat.cast_one,
        div_one]
    rw [roundHalfEven_congr (inUnits_pos pos n unit) Nat.one_pos quotient,
      roundHalfEven_mul m Nat.one_pos]
  rw [nearestBits_of_fits positive pos fits, whole]

/-- A quantity past all numbers is rounded to infinity. -/
theorem nearestBits_huge {n d : ℕ} (pos : 0 < d) (huge : 2 ^ 1024 ≤ (n : ℚ) / d) :
    nearestBits n d = 2047 * fractions := by
  have some : 0 < n := numerator_pos pos (lt_of_lt_of_le (by norm_num) huge)
  have fits := unitOf_fits some pos
  have high : 972 ≤ unitOf n d := by
    have below := huge.trans_lt fits.below
    rw [two_zpow_add, ← zpow_natCast, zpow_lt_zpow_iff_right₀ one_lt_two] at below
    push_cast at below
    omega
  have whole : fractions ≤ roundHalfEven (inUnits n d (unitOf n d)).1 (inUnits n d (unitOf n d)).2 := by
    have above := fits.above.resolve_left (by omega)
    have cast : ((fractions : ℕ) : ℚ) = 2 ^ 52 := by norm_num [fractions]
    rw [← cast, ← le_inUnits pos, ← Nat.le_div_iff_mul_le (inUnits_pos pos n _)] at above
    rcases roundHalfEven_eq_or (inUnits n d (unitOf n d)).1 (inUnits n d (unitOf n d)).2
      with same | next
    · rwa [same]
    · rw [next]
      exact Nat.le_succ_of_le above
  rw [nearestBits_of_fits some pos fits]
  refine Nat.min_eq_right ?_
  have units : 2046 ≤ (unitOf n d + 1074).toNat := by omega
  calc 2047 * fractions = 2046 * fractions + fractions := Nat.succ_mul 2046 fractions
    _ ≤ _ := Nat.add_le_add (Nat.mul_le_mul_right _ units) whole

/-- A quantity below half of the least number is rounded to zero. -/
theorem nearestBits_tiny {n d : ℕ} (pos : 0 < d) (tiny : (n : ℚ) / d < 2 ^ (-1075 : ℤ)) :
    nearestBits n d = 0 := by
  rcases Nat.eq_zero_or_pos n with rfl | some
  · rw [nearestBits, if_pos rfl]
  have fits := unitOf_fits some pos
  have least : unitOf n d = -1074 := by
    by_contra more
    have above := (fits.above.resolve_left more).trans_lt tiny
    rw [two_zpow_add, zpow_lt_zpow_iff_right₀ one_lt_two] at above
    have bound := fits.least
    push_cast at above
    omega
  rw [least] at fits
  have below := inUnits_pos pos n (-1074)
  have half : 2 * (inUnits n d (-1074)).1 < (inUnits n d (-1074)).2 := by
    have quotient : ((inUnits n d (-1074)).1 : ℚ) / (inUnits n d (-1074)).2 < 1 / 2 := by
      rw [inUnits_quotient, div_lt_iff₀ (zpow_pos two_pos _)]
      refine tiny.trans_eq ?_
      rw [show (-1075 : ℤ) = -1 + -1074 by norm_num, zpow_add₀ two_ne_zero, zpow_neg_one, one_div]
    rw [div_lt_div_iff₀ (Nat.cast_pos.mpr below) two_pos, one_mul, mul_comm] at quotient
    exact_mod_cast quotient
  have none : roundHalfEven (inUnits n d (-1074)).1 (inUnits n d (-1074)).2 = 0 := by
    have small : (inUnits n d (-1074)).1 < (inUnits n d (-1074)).2 := by omega
    simp only [roundHalfEven, Nat.div_eq_of_lt small, Nat.mod_eq_of_lt small, if_pos half]
  rw [nearestBits_of_fits some pos fits, none]
  exact Nat.zero_min _

/-! ## Decimals -/

theorem decimal_quotient (digits : ℕ) (exponent : ℤ) :
    ((digits * Nat.pow 10 exponent.toNat : ℕ) : ℚ) / (Nat.pow 10 (-exponent).toNat : ℕ) =
      digits * 10 ^ exponent := by
  rw [Nat.cast_mul, cast_pow, cast_pow, mul_div_assoc, Nat.cast_ofNat, pow_toNat_div (by norm_num)]

/-- The numbers end within the reach of decimals, both ways. -/
theorem two_pow_le_reach : (2 : ℚ) ^ 1075 ≤ 10 ^ decimalReach := by
  have step : (2 : ℚ) ^ 43 ≤ 10 ^ 16 := by norm_num
  calc (2 : ℚ) ^ 1075 = (2 ^ 43) ^ 25 := (pow_mul 2 43 25)
    _ ≤ (10 ^ 16) ^ 25 := pow_le_pow_left₀ (by norm_num) step 25
    _ = 10 ^ decimalReach := (pow_mul 10 16 25).symm

theorem decimal_huge {digits : ℕ} {exponent : ℤ} (some : digits ≠ 0)
    (far : (decimalReach : ℤ) ≤ exponent) : (2 : ℚ) ^ 1024 ≤ digits * 10 ^ exponent := by
  have one : (1 : ℚ) ≤ digits := by exact_mod_cast Nat.pos_of_ne_zero some
  calc (2 : ℚ) ^ 1024 ≤ 2 ^ 1075 := pow_le_pow_right₀ one_le_two (by norm_num)
    _ ≤ 10 ^ (decimalReach : ℤ) := by rw [zpow_natCast]; exact two_pow_le_reach
    _ ≤ 10 ^ exponent := zpow_le_zpow_right₀ (by norm_num) far
    _ ≤ digits * 10 ^ exponent := le_mul_of_one_le_left (zpow_pos (by norm_num) _).le one

theorem decimal_tiny {digits : ℕ} {exponent : ℤ}
    (near : exponent + digits.log2 + 1 < -(decimalReach : ℤ)) :
    digits * 10 ^ exponent < (2 : ℚ) ^ (-1075 : ℤ) := by
  have ten : (0 : ℚ) < 10 ^ exponent := zpow_pos (by norm_num) _
  have size : (digits : ℚ) < 10 ^ (digits.log2 + 1) := by
    have length : digits < 10 ^ (digits.log2 + 1) :=
      Nat.lt_log2_self.trans_le (Nat.pow_le_pow_left (by norm_num) _)
    exact_mod_cast length
  calc (digits : ℚ) * 10 ^ exponent < 10 ^ (digits.log2 + 1) * 10 ^ exponent :=
        mul_lt_mul_of_pos_right size ten
    _ = 10 ^ (digits.log2 + 1 + exponent : ℤ) := by
        rw [zpow_add₀ (by norm_num)]
        norm_cast
    _ ≤ 10 ^ (-(decimalReach : ℤ)) := zpow_le_zpow_right₀ (by norm_num) (by omega)
    _ ≤ 2 ^ (-1075 : ℤ) := by
        rw [zpow_neg, zpow_neg, zpow_natCast]
        exact inv_anti₀ (by positivity) (by exact_mod_cast two_pow_le_reach)

/-- A decimal is rounded as its quantity is, also where the power is not built. -/
theorem ofDecimal_eq (negative : Bool) {digits n d : ℕ} {exponent : ℤ} (pos : 0 < d)
    (same : (n : ℚ) / d = digits * 10 ^ exponent) :
    ofDecimal negative digits exponent = ofRatio negative n d := by
  have reach {n' d' : ℕ} (bits : nearestBits n' d' = nearestBits n d) :
      ofRatio negative n' d' = ofRatio negative n d := by
    rw [ofRatio, ofRatio, bits]
  unfold ofDecimal
  split
  · next none =>
      refine reach (nearestBits_congr Nat.one_pos pos ?_)
      rw [same, none, Nat.cast_zero, zero_div, zero_mul]
  split
  · next some far =>
      have power : (2 : ℚ) ^ 1024 ≤ (Nat.pow 10 decimalReach : ℕ) / (1 : ℕ) := by
        rw [cast_pow, Nat.cast_one, div_one]
        exact (pow_le_pow_right₀ one_le_two (by norm_num)).trans two_pow_le_reach
      exact reach ((nearestBits_huge Nat.one_pos power).trans
        (nearestBits_huge pos (same ▸ decimal_huge some far.le)).symm)
  split
  · next near =>
      exact reach (Eq.symm (nearestBits_tiny pos (same ▸ decimal_tiny near)))
  · refine reach (nearestBits_congr (Nat.pow_pos (by decide)) pos ?_)
    rw [decimal_quotient, same]

end SlangScript.Number
