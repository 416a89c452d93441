import SlangScript.Number.Written
import SlangScript.Number.Numeral
import SlangScript.Text.Quoted

/-!
Values of a running program: numbers, texts and truth values, and how each of them counts as a
number, as a truth value and as a text.
-/

namespace SlangScript

inductive Value where
  | number (value : Float)
  | text (value : String)
  | flag (value : Bool)
  deriving DecidableEq

instance : Inhabited Value := ⟨.number 0⟩

/-- A text that is plain numeric text by its letters but that no number is read from. -/
structure UnreadableNumber where
  text : String
  deriving DecidableEq, Repr

def UnreadableNumber.message (e : UnreadableNumber) : String :=
  "could not convert string to float: " ++ Text.quoted e.text

namespace Value

def typeName : Value → String
  | .number _ => "number"
  | .text _ => "text"
  | .flag _ => "boolean"

/-- Whether a value counts as true: all but zero, the empty text and false. -/
def truth : Value → Bool
  | .number x => x != 0
  | .text s => s != ""
  | .flag b => b

/-- The number a value counts as. Text that is not plain numeric text counts as zero. -/
def toNumber : Value → Except UnreadableNumber Float
  | .number x => .ok x
  | .text s =>
    if Number.matchesPlain s.toList then
      match Number.read? s.toList with
      | some x => .ok x
      | none => .error ⟨s⟩
    else .ok 0
  | .flag b => .ok (if b then 1 else 0)

def printed : Value → String
  | .number x => String.ofList (Number.displayed x)
  | .text s => s
  | .flag b => if b then "ong_no_cap" else "cap"

/-- Whether two values are equal. Values of different types never are. -/
def equal : Value → Value → Bool
  | .number x, .number y => x == y
  | .text s, .text t => s == t
  | .flag a, .flag b => a == b
  | _, _ => false

end Value

end SlangScript
