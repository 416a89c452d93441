import SlangScript.Text.Ranges

/-!
Blank characters: those that trimming removes from the ends of a text. The information separators
U+001C to U+001F and every space of the standard belong to them, the zero-width space does not.
-/

namespace SlangScript.Text

/-- Code points of the blank characters, in rising order. -/
def blankRanges : List (Nat × Nat) :=
  [(9, 13), (28, 32), (133, 133), (160, 160), (5760, 5760), (8192, 8202), (8232, 8233),
   (8239, 8239), (8287, 8287), (12288, 12288)]

/-- Whether trimming removes `c` from the end of a text. -/
def isBlank (c : Char) : Bool := inRanges blankRanges c.toNat

/-- A text without the blank characters at its two ends. -/
def trim (text : List Char) : List Char :=
  ((text.dropWhile isBlank).reverse.dropWhile isBlank).reverse

/-- Dropping the blank characters at the front leaves nothing exactly of a blank text. -/
theorem dropWhile_isBlank_eq_nil_iff (text : List Char) :
    text.dropWhile isBlank = [] ↔ ∀ c ∈ text, isBlank c = true := by
  induction text with
  | nil => simp
  | cons c rest ih => by_cases h : isBlank c <;> simp [h, ih]

/-- Trimming leaves nothing exactly of a text of blank characters. -/
theorem trim_eq_nil_iff (text : List Char) : trim text = [] ↔ ∀ c ∈ text, isBlank c = true := by
  simp only [trim, List.reverse_eq_nil_iff, dropWhile_isBlank_eq_nil_iff, List.mem_reverse]
  induction text with
  | nil => simp
  | cons c rest ih => by_cases h : isBlank c <;> simp [h, ih]

end SlangScript.Text
