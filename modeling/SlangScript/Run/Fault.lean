import SlangScript.Value.Operation

/-!
Why a run stops before its end.
-/

namespace SlangScript

inductive Fault where
  | stepLimit (cap : Int)
  | operation (error : OperationError)
  /-- A node of this type stands where a statement is needed. -/
  | strayStatement (typeName : String)
  /-- A node of this type stands where an expression is needed. -/
  | strayExpression (typeName : String)
  /-- Nesting beyond the limit. -/
  | tooDeep
  /-- More rounds of a loop than the run was given. -/
  | unfinished
  deriving DecidableEq, Repr

namespace Fault

def message : Fault → String
  | .stepLimit cap =>
    "Step limit exceeded (" ++ cap.repr ++ " steps, possible infinite loop)"
  | .operation error => error.message
  | .strayStatement typeName => "Unknown statement node: " ++ typeName
  | .strayExpression typeName => "Unknown expression node: " ++ typeName
  | .tooDeep => "statement nested too deeply"
  | .unfinished => "no end in sight"

def className : Fault → String
  | .stepLimit _ => "StepLimitError"
  | .operation .zeroDivisor => "ZeroDivisionError"
  | .operation _ => "ValueError"
  | .strayStatement _ | .strayExpression _ => "TypeError"
  | .tooDeep => "RecursionError"
  | .unfinished => "TimeoutError"

end Fault

end SlangScript
