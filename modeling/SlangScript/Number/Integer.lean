import SlangScript.Text.Blank
import SlangScript.Number.Numeral

/-!
Integers as text: decimal digits of any script after an optional sign, with single underscores
between them and blanks around them. The information separators are no blanks here, and a text of
very many digits is refused.
-/

namespace SlangScript.Number

open SlangScript.Text

/-- The most digits that an integer is read from. -/
def digitLimit : Nat := 4300

/-- Whether `c` may stand before or after an integer. -/
def isIntegerBlank (c : Char) : Bool := isBlank c && !(28 ≤ c.toNat && c.toNat ≤ 31)

/-- The place values of digits with single underscores between them. -/
def readGrouped? : List Char → Option (List Nat)
  | [] => none
  | [c] => (decimalValue? c).map ([·])
  | c :: '_' :: rest => do
    let value ← decimalValue? c
    let values ← readGrouped? rest
    return value :: values
  | c :: rest => do
    let value ← decimalValue? c
    let values ← readGrouped? rest
    return value :: values

/-- The integer that a text stands for. -/
def readInteger? (text : List Char) : Option Int := do
  let body := ((text.dropWhile isIntegerBlank).reverse.dropWhile isIntegerBlank).reverse
  let (negative, digits) := splitSign body
  let values ← readGrouped? digits
  if digitLimit < values.length then none
  else return if negative then -(ofPlaces values : Int) else ofPlaces values

end SlangScript.Number
