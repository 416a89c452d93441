import Mathlib.Data.List.TakeWhile
import Mathlib.Tactic.Ring
import SlangScript.Number.Written
import SlangScript.Proofs.Number.Plain
import SlangScript.Proofs.Number.Shapes

/-!
What is written of a number is read as that number, and so is what is shown of it, but for the sign of
zero. Both are plain numeric text: the layouts only move digits and powers of ten, zeros at the end
come and go, and the shortest decimal is one that reads back.
-/

namespace SlangScript.Number

open Text

/-! ## Digits -/

theorem Digits.append {a b : List Char} {p q : List Nat} (h : Digits a p) (h' : Digits b q) :
    Digits (a ++ b) (p ++ q) := by
  induction h with
  | nil => exact h'
  | cons digit _ ih => exact .cons digit ih

theorem Digits.exists_split {a b : List Char} {places : List Nat} (h : Digits (a ++ b) places) :
    ∃ p q, places = p ++ q ∧ Digits a p ∧ Digits b q := by
  induction a generalizing places with
  | nil => exact ⟨[], places, rfl, .nil, h⟩
  | cons c a ih =>
      cases h with
      | cons digit behind =>
          obtain ⟨p, q, rfl, front, back⟩ := ih behind
          exact ⟨_ :: p, q, rfl, .cons digit front, back⟩

theorem Digits.length_eq {digits : List Char} {places : List Nat} (h : Digits digits places) :
    digits.length = places.length := by
  induction h with
  | nil => rfl
  | cons _ _ ih => exact congrArg Nat.succ ih

theorem digits_zeros (k : Nat) : Digits (List.replicate k '0') (List.replicate k 0) := by
  induction k with
  | zero => exact .nil
  | succ k ih => exact .cons (by decide) ih

theorem Digits.unique {digits : List Char} {p q : List Nat} (h : Digits digits p)
    (h' : Digits digits q) : p = q := by
  have same := h.take_all.symm.trans h'.take_all
  exact (Prod.mk.inj same).1

theorem foldl_places (n : Nat) (places : List Nat) :
    places.foldl (fun n value => n * 10 + value) n = n * 10 ^ places.length + ofPlaces places := by
  induction places generalizing n with
  | nil => simp [ofPlaces]
  | cons value places ih =>
      rw [ofPlaces, List.foldl_cons, List.foldl_cons, ih, ih (0 * 10 + value), List.length_cons,
        pow_succ]
      ring

theorem ofPlaces_append (p q : List Nat) :
    ofPlaces (p ++ q) = ofPlaces p * 10 ^ q.length + ofPlaces q := by
  rw [ofPlaces, List.foldl_append]
  exact foldl_places _ q

theorem ofPlaces_zeros (k : Nat) : ofPlaces (List.replicate k 0) = 0 := by
  induction k with
  | zero => rfl
  | succ k ih => exact ih

/-- The digits of a number stand for it. -/
theorem digits_digitsOf (n : Nat) : ∃ places, Digits (digitsOf n) places ∧ places ≠ [] ∧
    ofPlaces places = n := by
  have digit : ∀ d < 10, decimalValue? (Nat.digitChar d) = some d := by decide
  induction n using Nat.strongRecOn with
  | ind n ih =>
      unfold digitsOf
      rcases Nat.lt_or_ge n 10 with small | large
      · rw [Nat.toDigits_of_lt_base small]
        exact ⟨[n], .cons (digit n small) .nil, List.cons_ne_nil n [], by simp [ofPlaces]⟩
      · obtain ⟨places, inside, -, same⟩ := ih (n / 10) (by omega)
        rw [Nat.toDigits_of_base_le (by decide) large]
        refine ⟨places ++ [n % 10], inside.append (.cons (digit _ (Nat.mod_lt _ (by decide))) .nil),
          by simp, ?_⟩
        rw [ofPlaces_append, same]
        simp only [ofPlaces, List.length_singleton, List.foldl_cons, List.foldl_nil]
        omega

theorem exists_zeros (digits : List Char) :
    ∃ k, digits = withoutTrailingZeros digits ++ List.replicate k '0' := by
  have zeros : ∀ c ∈ digits.reverse.takeWhile (· == '0'), c = '0' := by
    intro c member
    have zero := List.mem_takeWhile_imp (p := (· == '0')) member
    exact eq_of_beq zero
  refine ⟨(digits.reverse.takeWhile (· == '0')).length, ?_⟩
  calc digits = (digits.reverse.takeWhile (· == '0') ++
        digits.reverse.dropWhile (· == '0')).reverse := by
        rw [List.takeWhile_append_dropWhile, List.reverse_reverse]
    _ = withoutTrailingZeros digits ++ (digits.reverse.takeWhile (· == '0')).reverse :=
        List.reverse_append
    _ = _ := by
        rw [List.eq_replicate_of_mem zeros, List.reverse_replicate, List.length_replicate]

/-- Without the zeros at its end a number has fewer places, of the same quantity in tens. -/
theorem Digits.stripped {digits : List Char} {places : List Nat} (h : Digits digits places)
    (positive : 0 < ofPlaces places) : ∃ kept k, Digits (withoutTrailingZeros digits) kept ∧
      kept ≠ [] ∧ ofPlaces places = ofPlaces kept * 10 ^ k ∧ digits.length = kept.length + k := by
  obtain ⟨k, whole⟩ := exists_zeros digits
  rw [whole] at h
  obtain ⟨kept, zeros, rfl, front, back⟩ := h.exists_split
  obtain rfl := back.unique (digits_zeros k)
  have quantity : ofPlaces (kept ++ List.replicate k 0) = ofPlaces kept * 10 ^ k := by
    rw [ofPlaces_append, ofPlaces_zeros, List.length_replicate, Nat.add_zero]
  refine ⟨kept, k, front, ?_, quantity, ?_⟩
  · rintro rfl
    rw [quantity] at positive
    simp [ofPlaces] at positive
  · rw [whole, List.length_append, front.length_eq, List.length_replicate]

/-! ## Quantities -/

/-- The quantity that a numeral is rounded from. -/
def Numeral.quantity (numeral : Numeral) : ℚ :=
  ofPlaces (numeral.whole ++ numeral.fraction) * 10 ^ (numeral.exponent - numeral.fraction.length)

/-- A text is a decimal of a quantity. -/
def Decimally (text : List Char) (q : ℚ) : Prop :=
  ∃ numeral : Numeral, Spelt text numeral ∧ numeral.quantity = q

/-- A decimal of a quantity is read as the nearest number to it. -/
theorem Decimally.read {text sign : List Char} {q : ℚ} {negative : Bool} {n d : Nat}
    (h : Decimally text q) (signed : Sign sign negative) (pos : 0 < d) (same : (n : ℚ) / d = q) :
    read? (sign ++ text) = some (ofRatio negative n d) := by
  obtain ⟨numeral, spelt, rfl⟩ := h
  rw [(PlainNumber.decimal signed spelt).read, Numeral.value, ofDecimal_eq negative pos same]

/-- Digits alone. -/
theorem decimally_digits {digits : List Char} {places : List Nat} (h : Digits digits places)
    (some : places ≠ []) : Decimally digits (ofPlaces places) := by
  have spelt : Spelt (digits ++ ([] ++ [])) ⟨places, [], 0⟩ := .mk h .absent (by simpa) .absent
  rw [List.append_nil, List.append_nil] at spelt
  exact ⟨_, spelt, by simp [Numeral.quantity]⟩

/-- Digits with a point between them. -/
theorem decimally_point {a b : List Char} {p q : List Nat} (h : Digits a p) (h' : Digits b q)
    (some : p ++ q ≠ []) :
    Decimally (a ++ '.' :: b) (ofPlaces (p ++ q) * 10 ^ (-(q.length : ℤ))) := by
  have spelt : Spelt (a ++ ('.' :: b ++ [])) ⟨p, q, 0⟩ := .mk h (.point h') some .absent
  rw [List.append_nil] at spelt
  exact ⟨_, spelt, by simp [Numeral.quantity]⟩

theorem power_exponentPart (width : Nat) (power : Int) :
    Exponent (exponentPart width power) power := by
  obtain ⟨places, inside, some, same⟩ := digits_digitsOf power.natAbs
  have padded := (digits_zeros (width - (digitsOf power.natAbs).length)).append inside
  have quantity : (ofPlaces (List.replicate (width - (digitsOf power.natAbs).length) 0 ++ places) :
      Int) = power.natAbs := by
    rw [ofPlaces_append, ofPlaces_zeros, same, Nat.zero_mul, Nat.zero_add]
  have nonempty : List.replicate (width - (digitsOf power.natAbs).length) 0 ++ places ≠ [] := by
    simp [some]
  unfold exponentPart
  by_cases negative : power < 0
  · have mk := Power.mk .minus padded nonempty
    rw [quantity] at mk
    simp only [negative, if_true]
    rw [if_pos rfl, show -(power.natAbs : Int) = power by omega] at mk
    exact .mark (.inl rfl) mk
  · have mk := Power.mk .plus padded nonempty
    rw [quantity] at mk
    simp only [negative, if_false]
    rw [if_neg Bool.false_ne_true, show (power.natAbs : Int) = power by omega] at mk
    exact .mark (.inl rfl) mk

theorem digit_zero : decimalValue? '0' = some 0 := by decide

/-- Digits behind a point and zeros. -/
theorem decimally_fraction {digits : List Char} {places : List Nat} (h : Digits digits places)
    (k : Nat) :
    Decimally ('0' :: '.' :: (List.replicate k '0' ++ digits))
      (ofPlaces places * 10 ^ (-(k + places.length : ℤ))) := by
  have padded := (digits_zeros k).append h
  have zero : Digits ['0'] [0] := .cons digit_zero .nil
  have point := decimally_point zero padded (by simp)
  have quantity : ofPlaces ([0] ++ (List.replicate k 0 ++ places)) = ofPlaces places := by
    rw [ofPlaces_append, ofPlaces_append, ofPlaces_zeros]
    simp [ofPlaces]
  rw [quantity, List.length_append, List.length_replicate, Nat.cast_add] at point
  exact point

/-- Digits in front of zeros and a point. -/
theorem decimally_whole {digits : List Char} {places : List Nat} (h : Digits digits places)
    (k : Nat) :
    Decimally (digits ++ List.replicate k '0' ++ ['.', '0']) (ofPlaces places * 10 ^ (k : ℤ)) := by
  have padded := h.append (digits_zeros k)
  have point := decimally_point padded (.cons digit_zero .nil) (by simp)
  have quantity : (ofPlaces (places ++ List.replicate k 0 ++ [0]) : ℚ) * 10 ^ (-((1 : ℕ) : ℤ)) =
      ofPlaces places * 10 ^ (k : ℤ) := by
    rw [ofPlaces_append, ofPlaces_append, ofPlaces_zeros, List.length_replicate]
    simp [ofPlaces]
  rw [List.length_singleton, quantity] at point
  exact point

/-- Digits with a point behind the first one, if there are more, and an exponent. -/
theorem decimally_exponent {d : Char} {more text : List Char} {value : Nat} {places : List Nat}
    {power : Int} (first : decimalValue? d = some value) (h : Digits more places)
    (exponent : Exponent text power) :
    Decimally ((match d :: more with
      | [] => []
      | [d] => [d]
      | d :: more => d :: '.' :: more) ++ text)
      (ofPlaces (value :: places) * 10 ^ (power - places.length)) := by
  have front : Digits [d] [value] := .cons first .nil
  cases h with
  | nil =>
      have spelt : Spelt ([d] ++ ([] ++ text)) ⟨[value], [], power⟩ :=
        .mk front .absent (by simp) exponent
      exact ⟨_, spelt, rfl⟩
  | cons digit behind =>
      have spelt : Spelt ([d] ++ (('.' :: (_ :: _)) ++ text)) ⟨[value], _ :: _, power⟩ :=
        .mk front (.point (.cons digit behind)) (by simp) exponent
      exact ⟨_, spelt, rfl⟩

/-- However digits are laid out, the first of them is worth the power of ten it should be. -/
theorem Layout.place_decimally (l : Layout) {digits : List Char} {places : List Nat} (power : Int)
    (h : Digits digits places) (some : places ≠ []) :
    Decimally (l.place digits power) (ofPlaces places * 10 ^ (power + 1 - places.length)) := by
  unfold Layout.place
  split
  · split
    · next behind =>
        have shift : power + 1 - (places.length : ℤ) =
            -(((-power - 1).toNat : ℤ) + places.length) := by omega
        rw [shift]
        exact decimally_fraction h _
    · next front =>
        simp only
        rcases Nat.lt_or_ge (power.toNat + 1) digits.length with long | short
        · -- The point stands between two digits.
          have whole := List.take_append_drop (power.toNat + 1) digits
          rw [← whole] at h
          obtain ⟨p, q, rfl, left, right⟩ := h.exists_split
          have inFront := left.length_eq
          have behind := right.length_eq
          rw [List.length_take, Nat.min_eq_left (Nat.le_of_lt long)] at inFront
          rw [List.length_drop] at behind
          have none : power.toNat + 1 - digits.length = 0 := Nat.sub_eq_zero_of_le (Nat.le_of_lt long)
          have more : (digits.drop (power.toNat + 1)).isEmpty = false := by
            rw [List.isEmpty_eq_false_iff, ← List.length_pos_iff, List.length_drop]
            omega
          have shift : power + 1 - ((p ++ q).length : ℤ) = -(q.length : ℤ) := by
            rw [List.length_append]
            omega
          rw [none, more, shift, List.replicate_zero, List.append_nil]
          exact decimally_point left right some
        · have shift : power + 1 - (places.length : ℤ) =
              ((power.toNat + 1 - digits.length : ℕ) : ℤ) := by
            rw [← h.length_eq]
            omega
          rw [shift, List.take_of_length_le short, List.drop_of_length_le short]
          exact decimally_whole h _
  · cases h with
    | nil => exact absurd rfl some
    | cons first behind =>
        have shift (k : Nat) : power + 1 - ((k + 1 : ℕ) : ℤ) = power - k := by omega
        rw [List.length_cons, shift]
        exact decimally_exponent first behind (power_exponentPart _ power)

/-! ## Written forms -/

/-- The shortest decimal of a quantity is rounded to the same number as the quantity. -/
theorem readsBack_shortest (s : Scaled) :
    readsBack s.numerator s.denominator (shortest s) = true := by
  unfold shortest
  simp only
  cases found : searchGrids s.numerator s.denominator 17
      (leadingPower s.numerator s.denominator) with
  | some decimal => exact readsBack_of_searchGrids found
  | none =>
      -- The decimal is the quantity itself.
      rw [Option.getD_none, readsBack, beq_iff_eq]
      refine nearestBits_congr (Nat.pow_pos (by decide)) s.denominator_pos ?_
      rw [decimal_quotient, Nat.cast_mul, cast_pow, Scaled.denominator, cast_pow]
      rcases Int.le_total 0 s.exponent with whole | part
      · rw [Int.min_eq_right whole, Int.toNat_of_nonpos (by omega), pow_zero, pow_zero, zpow_zero,
          mul_one, mul_one, div_one]
      · have power : (10 : ℚ) ^ s.exponent = ((2 * 5) ^ (-s.exponent).toNat)⁻¹ := by
          rw [← zpow_natCast, Int.toNat_of_nonneg (by omega), ← zpow_neg, neg_neg]
          norm_num
        rw [Int.min_eq_left part, power, mul_pow, Nat.cast_ofNat, Nat.cast_ofNat]
        field_simp

/-- The magnitude of a number is written as a decimal that is rounded to it. -/
theorem writtenMagnitude_read {s : Scaled} {sign : List Char} {negative : Bool} (h : s.Canonical)
    (signed : Sign sign negative) :
    read? (sign ++ writtenMagnitude s) = some (ofRatio negative s.numerator s.denominator) := by
  unfold writtenMagnitude
  split
  · next none =>
      have zero := decimally_whole (.cons digit_zero .nil) 0
      refine zero.read signed s.denominator_pos ?_
      rw [Scaled.numerator_eq_zero none]
      simp [ofPlaces]
  · next some =>
      have back := eq_of_beq (readsBack_shortest s)
      generalize shortest s = decimal at *
      obtain ⟨places, inside, -, same⟩ := digits_digitsOf decimal.digits
      have positive : 0 < ofPlaces places := by
        rw [same]
        refine Nat.pos_of_ne_zero fun zero => some ?_
        rw [zero, Nat.zero_mul, nearestBits_zero, h.nearestBits] at back
        omega
      obtain ⟨kept, k, stripped, nonempty, quantity, length⟩ := inside.stripped positive
      have laid := layout.place_decimally (decimal.exponent + (digitsOf decimal.digits).length - 1)
        stripped nonempty
      have shift : decimal.exponent + ((digitsOf decimal.digits).length : ℤ) - 1 + 1 - kept.length =
          k + decimal.exponent := by omega
      have decimal_eq : (ofPlaces kept : ℚ) * 10 ^ (k + decimal.exponent) =
          decimal.digits * 10 ^ decimal.exponent := by
        rw [← same, quantity, zpow_add₀ (by norm_num), zpow_natCast]
        push_cast
        ring
      have below : 0 < Nat.pow 10 (-decimal.exponent).toNat := Nat.pow_pos (by decide)
      rw [shift, decimal_eq] at laid
      rw [laid.read signed below (decimal_quotient _ _), ofRatio, back, ofRatio]

theorem sign_minus (negative : Bool) : Sign (if negative then ['-'] else []) negative := by
  cases negative
  · exact .absent
  · exact .minus

/-- What is written of a number is read as that number. -/
theorem read?_written (x : Float) : read? (written x) = some x := by
  unfold written
  cases found : shape x with
  | notANumber =>
      rw [eq_notANumber found]
      decide
  | infinite negative =>
      rw [eq_infinity found]
      cases negative <;> decide
  | finite s =>
      exact (writtenMagnitude_read (finite_bits found).1 (sign_minus s.negative)).trans
        (congrArg some (ofRatio_shape found))

theorem integer?_eq_zero {x : Float} {s : Scaled} (h : shape x = .finite s)
    (none : s.significand = 0) : integer? x = some 0 := by
  unfold integer?
  rw [h]
  simp [Scaled.numerator_eq_zero none]

theorem shape_negative_zero : shape (-0) = .finite ⟨true, 0, -1074⟩ := by decide

theorem integer?_eq_some {x : Float} {n : Int} (h : integer? x = some n) :
    ∃ s m, shape x = .finite s ∧ s.numerator = m * s.denominator ∧
      n = if s.negative then -(m : Int) else m := by
  unfold integer? at h
  split at h
  · next s finite =>
      split at h
      · next whole =>
          obtain rfl := Option.some.inj h
          exact ⟨s, s.numerator / s.denominator, finite,
            (Nat.div_mul_cancel (Nat.dvd_of_mod_eq_zero whole)).symm, rfl⟩
      · cases h
  · cases h

theorem writtenInteger_eq (negative : Bool) {m : Nat} (positive : 0 < m) :
    writtenInteger (if negative then -(m : Int) else m) =
      (if negative then ['-'] else []) ++ digitsOf m := by
  unfold writtenInteger
  cases negative with
  | false =>
      have plus : ¬(m : Int) < 0 := by omega
      simp [plus]
  | true =>
      simp [positive]

/-- What is shown of a number is read as that number, but zero without its sign. -/
theorem read?_displayed (x : Float) : read? (displayed x) = some (if x = -0 then 0 else x) := by
  unfold displayed
  cases whole : integer? x with
  | none =>
      have signed : x ≠ -0 := by
        rintro rfl
        rw [integer?_eq_zero shape_negative_zero rfl] at whole
        cases whole
      rw [if_neg signed]
      exact read?_written x
  | some n =>
      obtain ⟨s, m, finite, quotient, rfl⟩ := integer?_eq_some whole
      by_cases none : s.significand = 0
      · have zero := zero_of_significand finite none
        have nothing : m = 0 := by
          have product := quotient.symm.trans (Scaled.numerator_eq_zero none)
          exact (Nat.mul_eq_zero.mp product).resolve_right (Nat.ne_of_gt s.denominator_pos)
        subst nothing zero
        cases s.negative <;> decide
      · have signed : x ≠ -0 := by
          rintro rfl
          obtain rfl := Shape.finite.inj (finite.symm.trans shape_negative_zero)
          exact none rfl
        have positive : 0 < m := by
          refine Nat.pos_of_ne_zero fun zero => none ?_
          rw [zero, Nat.zero_mul, Scaled.numerator] at quotient
          exact (Nat.mul_eq_zero.mp quotient).resolve_right (Nat.ne_of_gt (Nat.pow_pos (by decide)))
        obtain ⟨places, inside, some, same⟩ := digits_digitsOf m
        have quantity : (s.numerator : ℚ) / s.denominator = ofPlaces places := by
          have below : (s.denominator : ℚ) ≠ 0 := Nat.cast_ne_zero.mpr s.denominator_pos.ne'
          rw [quotient, same, Nat.cast_mul, mul_div_cancel_right₀ _ below]
        change read? (writtenInteger _) = _
        rw [if_neg signed, writtenInteger_eq s.negative positive,
          (decimally_digits inside some).read (sign_minus s.negative) s.denominator_pos quantity,
          ofRatio_shape finite]

/-- Numbers that are read alike from what is shown of them are equal. -/
theorem displayed_eq_iff {x y : Float} (hx : x.isNaN = false) :
    displayed x = displayed y ↔ (x == y) = true := by
  have zeros : displayed (-0) = ['0'] ∧ displayed 0 = ['0'] := by
    have integer : integer? (-0) = some 0 ∧ integer? 0 = some 0 :=
      ⟨integer?_eq_zero shape_negative_zero rfl, integer?_eq_zero (s := ⟨false, 0, -1074⟩) (by decide) rfl⟩
    rw [displayed, displayed, integer.1, integer.2]
    exact ⟨rfl, rfl⟩
  rw [beq_iff hx]
  constructor
  · intro same
    have reads := Option.some.inj ((read?_displayed x).symm.trans (same ▸ read?_displayed y))
    split at reads
    · next minus =>
        split at reads
        · next minus' => exact .inl (minus.trans minus'.symm)
        · exact .inr ⟨.inr minus, .inl reads.symm⟩
    · split at reads
      · next minus => exact .inr ⟨.inl reads, .inr minus⟩
      · exact .inl reads
  · rintro (rfl | ⟨zero, zero'⟩)
    · rfl
    · have shown {z : Float} (zero : IsZero z) : displayed z = ['0'] := by
        rcases zero with rfl | rfl
        · exact zeros.2
        · exact zeros.1
      rw [shown zero, shown zero']

end SlangScript.Number

namespace SlangScript.Value

open Number

/-- What is shown of a number is plain numeric text and counts as that number, but for the sign of
zero. So numbers are shown alike exactly if they are equal, unless they are none. -/
theorem printed_number_counts (x y : Float) :
    matchesPlain (number x).printed.toList = true ∧
      (text (number x).printed).toNumber = .ok (if x = -0 then 0 else x) ∧
      (x.isNaN = false → y.isNaN = false →
        ((number x).printed = (number y).printed ↔ (number x).equal (number y) = true)) := by
  have back : read? (number x).printed.toList = some (if x = -0 then 0 else x) := by
    rw [printed, String.toList_ofList]
    exact read?_displayed x
  refine ⟨matchesPlain_of_read? back, ?_, fun hx _ => ?_⟩
  · rw [toNumber_text, back]
    exact if_neg fun unread => nomatch unread.2
  · rw [printed, printed, String.ofList_inj]
    exact displayed_eq_iff hx

/-- The two zeros. -/
theorem printed_number_counts_zeros : (-0 : Float).isNaN = false ∧ (0 : Float).isNaN = false ∧
    (text (number (-0)).printed).toNumber = .ok 0 ∧
    ((number (-0)).printed = (number 0).printed ↔ (number (-0)).equal (number 0) = true) := by
  obtain ⟨-, counts, alike⟩ := printed_number_counts (-0) 0
  rw [if_pos rfl] at counts
  exact ⟨by decide, by decide, counts, alike (by decide) (by decide)⟩

end SlangScript.Value
