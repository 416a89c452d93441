import SlangScript.Node.Operator
import SlangScript.Value.Basic

/-!
What operators do to values. Both operands are values already; the first one that cannot be
counted as a number decides the error, and only then whether there is such an operator.
-/

namespace SlangScript

/-- Why an operator has no result. -/
inductive OperationError where
  | unreadable (error : UnreadableNumber)
  /-- A division by zero. -/
  | zeroDivisor
  /-- A remainder by zero, or of infinity. -/
  | noRemainder
  | unknownBinary (name : String)
  | unknownUnary (name : String)
  deriving DecidableEq, Repr

def OperationError.message : OperationError → String
  | .unreadable error => error.message
  | .zeroDivisor => "float division by zero"
  | .noRemainder => "math domain error"
  | .unknownBinary name => "Unknown binary operator: " ++ name
  | .unknownUnary name => "Unknown unary operator: " ++ name

namespace Value

/-- The number a value counts as, for an operator. -/
def operand (v : Value) : Except OperationError Float := v.toNumber.mapError .unreadable

/-- The numbers two values count as, the first one first. -/
def operands (a b : Value) : Except OperationError (Float × Float) := do
  let x ← a.operand
  let y ← b.operand
  return (x, y)

/-- A sum of numbers, or the texts of both values joined if one of them is a text. -/
def add (a b : Value) : Except OperationError Value :=
  match a, b with
  | .text _, _ | _, .text _ => .ok (.text (a.printed ++ b.printed))
  | _, _ => do
    let (x, y) ← operands a b
    return .number (x + y)

/-- A division, which has no result by zero. -/
def divide (x y : Float) : Except OperationError Float :=
  if y == 0 then .error .zeroDivisor else .ok (x / y)

/-- The remainder of a division toward zero. There is none by zero or of infinity, unless the other
operand is no number; then the result is none either. -/
def remainder (x y : Float) : Except OperationError Float :=
  if (y == 0 && !x.isNaN) || (x.isInf && !y.isNaN) then .error .noRemainder
  else .ok (Number.remainder x y)

/-- A quotient; whatever is divided by zero gives infinity. -/
def quotient (x y : Float) : Except OperationError Float :=
  if y == 0 then .ok (Number.infinity false) else divide x y

/-- A remainder; there is none of a division by zero, nor of infinity. -/
def modulo (x y : Float) : Except OperationError Float :=
  if y == 0 || x.isInf then .ok Number.notANumber else remainder x y

def binary (op : BinaryOp) (a b : Value) : Except OperationError Value :=
  let onNumbers (f : Float → Float → Except OperationError Value) :
      Except OperationError Value := do
    let (x, y) ← operands a b
    f x y
  match op with
  | .add => add a b
  | .eq => .ok (.flag (equal a b))
  | .ne => .ok (.flag (!equal a b))
  | .and => .ok (.flag (a.truth && b.truth))
  | .or => .ok (.flag (a.truth || b.truth))
  | .sub => onNumbers fun x y => .ok (.number (x - y))
  | .mul => onNumbers fun x y => .ok (.number (x * y))
  | .div => onNumbers fun x y => .number <$> quotient x y
  | .mod => onNumbers fun x y => .number <$> modulo x y
  | .gt => onNumbers fun x y => .ok (.flag (x > y))
  | .lt => onNumbers fun x y => .ok (.flag (x < y))
  | .ge => onNumbers fun x y => .ok (.flag (x ≥ y))
  | .le => onNumbers fun x y => .ok (.flag (x ≤ y))
  | .unknown name => do
    let _ ← operands a b
    throw (.unknownBinary name)

def unary (op : UnaryOp) (a : Value) : Except OperationError Value :=
  match op with
  | .not => .ok (.flag (!a.truth))
  | .neg => do
    let x ← a.operand
    return .number (-x)
  | .unknown name => .error (.unknownUnary name)

end Value

end SlangScript
