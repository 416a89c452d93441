import SlangScript.Text.Digit

/-!
Letters and digits are different characters, and neither of them separates tokens or is a sign.
-/

namespace SlangScript.Text

/-- Each range of the one table ends before the first range of the other does that is not over when
it begins. -/
def apart : List (Nat × Nat) → List (Nat × Nat) → Bool
  | [], _ => true
  | (first, last) :: as, bs =>
    let ahead := bs.dropWhile fun b => Nat.blt b.2 first
    (ahead.head?.all fun b => Nat.blt last b.1) && apart as ahead

/-- Ranges that are over do not matter to a search. -/
theorem not_inRanges_of_dropWhile {ranges : List (Nat × Nat)} {first n : Nat} (le : first ≤ n)
    (h : inRanges (ranges.dropWhile fun b => Nat.blt b.2 first) n = false) :
    inRanges ranges n = false := by
  induction ranges with
  | nil => rfl
  | cons b ranges ih =>
      by_cases passed : Nat.blt b.2 first = true
      · rw [List.dropWhile_cons, if_pos passed] at h
        have past : ¬n ≤ b.2 := by
          rw [Nat.blt_eq] at passed
          omega
        rw [inRanges, rangeStart?, if_neg past]
        split
        · rfl
        · exact ih h
      · rwa [List.dropWhile_cons, if_neg passed] at h

/-- No range of the one table meets a range of the other. -/
theorem not_inRanges_of_apart {as bs : List (Nat × Nat)} {n : Nat} (h : apart as bs = true)
    (inside : inRanges as n = true) : inRanges bs n = false := by
  induction as generalizing bs with
  | nil => cases inside
  | cons a as ih =>
      obtain ⟨first, last⟩ := a
      obtain ⟨next, later⟩ := Bool.and_eq_true_iff.mp h
      rw [inRanges, rangeStart?] at inside
      split at inside
      · cases inside
      · next begun =>
          apply not_inRanges_of_dropWhile (Nat.le_of_not_lt begun)
          split at inside
          · next holds =>
              cases ahead : bs.dropWhile fun b => Nat.blt b.2 first with
              | nil => rfl
              | cons b ahead' =>
                  have beyond : last < b.1 := by simpa [ahead] using next
                  rw [inRanges, rangeStart?, if_pos (Nat.lt_of_le_of_lt holds beyond)]
                  rfl
          · exact ih later inside

theorem isDecimal_eq (c : Char) : isDecimal c = inRanges decimalRanges c.toNat := by
  simp [isDecimal, decimalValue?, inRanges]

theorem isDigit_of_isLetter {c : Char} (h : isLetter c = true) : isDigit c = false := by
  have decimal : apart letterRanges decimalRanges = true := by decide +kernel
  have other : apart letterRanges otherDigitRanges = true := by decide +kernel
  rw [isDigit, isDecimal_eq, not_inRanges_of_apart decimal h, not_inRanges_of_apart other h]
  rfl

end SlangScript.Text
