/-!
Sets of characters given by ranges of code points. The ranges `(first, last)` of a table are
disjoint and rise, so a search ends at the first range that starts beyond the code point.
-/

namespace SlangScript.Text

/-- Where the range that holds `n` starts, if one does. -/
def rangeStart? : List (Nat × Nat) → Nat → Option Nat
  | [], _ => none
  | (first, last) :: more, n =>
    if n < first then none
    else if n ≤ last then some first
    else rangeStart? more n

def inRanges (ranges : List (Nat × Nat)) (n : Nat) : Bool := (rangeStart? ranges n).isSome

/-- A range found holds the code point and belongs to the table. -/
theorem mem_of_rangeStart? {ranges : List (Nat × Nat)} {n first : Nat}
    (h : rangeStart? ranges n = some first) :
    ∃ last, (first, last) ∈ ranges ∧ first ≤ n ∧ n ≤ last := by
  induction ranges with
  | nil => simp [rangeStart?] at h
  | cons range more ih =>
    obtain ⟨a, b⟩ := range
    simp only [rangeStart?] at h
    split at h
    · cases h
    · split at h
      · cases h
        exact ⟨b, by simp, by omega, by omega⟩
      · obtain ⟨last, mem, bounds⟩ := ih h
        exact ⟨last, by simp [mem], bounds⟩

end SlangScript.Text
