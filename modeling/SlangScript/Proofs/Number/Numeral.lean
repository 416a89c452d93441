import SlangScript.Number.Numeral
import SlangScript.Token.Munch

/-!
A zero in front of a point changes nothing: a run of digits and points counts as the same number
with it. So every number that some run counts as is written as a run that starts with a digit.
-/

namespace SlangScript

open Number Text

namespace Number

theorem takeDigits_of_none {c : Char} (h : decimalValue? c = none) (rest : List Char) :
    takeDigits (c :: rest) = ([], c :: rest) := by
  rw [takeDigits, h]

theorem decimalValue?_point : decimalValue? '.' = none := by decide

theorem takeDigits_zero_point (rest : List Char) :
    takeDigits ('0' :: '.' :: rest) = ([0], '.' :: rest) := by
  have zero : decimalValue? '0' = some 0 := by decide
  rw [takeDigits, zero]
  simp only [takeDigits_of_none decimalValue?_point]

theorem mem_of_mem_takeDigits {text : List Char} {c : Char} (h : c ∈ (takeDigits text).2) :
    c ∈ text := by
  induction text with
  | nil => exact h
  | cons d text ih =>
      rw [takeDigits] at h
      split at h
      · exact .tail _ (ih h)
      · exact h

theorem readNumeral?_point {rest : List Char} {fraction : List Nat}
    (h : takeDigits rest = (fraction, [])) :
    readNumeral? ('.' :: rest) = if fraction.isEmpty then none else some ⟨[], fraction, 0⟩ := by
  simp [readNumeral?, takeDigits_of_none decimalValue?_point, h]

theorem readNumeral?_zero_point {rest : List Char} {fraction : List Nat}
    (h : takeDigits rest = (fraction, [])) :
    readNumeral? ('0' :: '.' :: rest) = some ⟨[0], fraction, 0⟩ := by
  simp [readNumeral?, takeDigits_zero_point, h]

/-- Digits with something behind them that is no exponent are no numeral, with or without a zero. -/
theorem readNumeral?_of_left {rest left : List Char} {fraction : List Nat} {c : Char}
    (h : takeDigits rest = (fraction, c :: left)) (exponent : ¬(c = 'e' ∨ c = 'E')) :
    readNumeral? ('.' :: rest) = none ∧ readNumeral? ('0' :: '.' :: rest) = none := by
  simp [readNumeral?, takeDigits_of_none decimalValue?_point, takeDigits_zero_point, h, exponent]

/-- A text that is no numeral, nor starts like a word for a number, has no number. -/
theorem read?_of_none {c : Char} {rest : List Char} (none : readNumeral? (c :: rest) = none)
    (sign : splitSign (c :: rest) = (false, c :: rest)) (i : c.toLower ≠ 'i') (n : c.toLower ≠ 'n') :
    read? (c :: rest) = Option.none := by
  simp [read?, sign, none, infinityWords, nanWord, i, n]

theorem read?_point_of_none {rest : List Char} (h : readNumeral? ('.' :: rest) = none) :
    read? ('.' :: rest) = none :=
  read?_of_none h rfl (by decide) (by decide)

theorem read?_zero_of_none {rest : List Char} (h : readNumeral? ('0' :: rest) = none) :
    read? ('0' :: rest) = none :=
  read?_of_none h rfl (by decide) (by decide)

end Number

/-- A zero in front of a point changes nothing. -/
theorem ofNumeral_zero_point {rest : List Char} (h : ∀ c ∈ rest, isNumeralChar c = true) :
    Lexeme.ofNumeral ('0' :: '.' :: rest) = Lexeme.ofNumeral ('.' :: rest) := by
  rcases digits : takeDigits rest with ⟨fraction, _ | ⟨c, left⟩⟩
  -- All of the run is digits: both are numerals, unless it is a point alone, which counts as zero.
  · have written : read? ('0' :: '.' :: rest) = some (Numeral.value false ⟨[0], fraction, 0⟩) := by
      rw [read?, show splitSign ('0' :: '.' :: rest) = (false, '0' :: '.' :: rest) from rfl]
      simp only [readNumeral?_zero_point digits]
    have point := readNumeral?_point digits
    cases fraction with
    | nil =>
        have zero : Numeral.value false ⟨[0], [], 0⟩ = 0 := by decide
        rw [Lexeme.ofNumeral, Lexeme.ofNumeral, written, read?_point_of_none point, zero]
        rfl
    | cons place fraction =>
        have bare : read? ('.' :: rest) = some (Numeral.value false ⟨[], place :: fraction, 0⟩) := by
          rw [read?, show splitSign ('.' :: rest) = (false, '.' :: rest) from rfl]
          simp only [point]
          rfl
        rw [Lexeme.ofNumeral, Lexeme.ofNumeral, written, bare]
        rfl
  -- A second point follows the digits, so neither of the two is a numeral.
  · have member : c ∈ rest := mem_of_mem_takeDigits (by simp [digits])
    have exponent : ¬(c = 'e' ∨ c = 'E') := by
      have none : isNumeralChar 'e' = false ∧ isNumeralChar 'E' = false := by decide
      rintro (rfl | rfl)
      · exact absurd (h _ member) (by simp [none.1])
      · exact absurd (h _ member) (by simp [none.2])
    obtain ⟨point, zero⟩ := readNumeral?_of_left digits exponent
    rw [Lexeme.ofNumeral, Lexeme.ofNumeral, read?_point_of_none point, read?_zero_of_none zero]

end SlangScript
