import SlangScript.Token.Basic

/-!
What is wrong with a program text, and where. A diagnostic names the token at which reading could
not go on; its text ends with the place of that token.
-/

namespace SlangScript

inductive Problem where
  | expected (wanted got : Kind)
  | nameMissing
  | assignMissing (got : Kind)
  | strayInStatement (got : Kind)
  | strayInExpression (got : Kind)
  | tooDeep
  | remark (text : String)
  deriving DecidableEq, Repr

def Problem.message : Problem → String
  | .expected wanted got => "Expected " ++ wanted.name ++ ", got " ++ got.name
  | .nameMissing => "Expected variable name after hayde"
  | .assignMissing got => "After a name, expected hiyye, got " ++ got.name
  | .strayInStatement got => "Unexpected token in statement: " ++ got.name
  | .strayInExpression got => "Unexpected token in expression: " ++ got.name
  | .tooDeep => "Expression nested too deeply"
  | .remark text => text

/-- A message with the place of a token, if there is one. -/
def located (message : String) : Option Token → String
  | none => message
  | some t => message ++ " at line " ++ t.line.repr ++ ", col " ++ t.column.repr

/-- A problem and the token it was found at. -/
structure Diagnostic where
  problem : Problem
  token : Token

def Diagnostic.text (d : Diagnostic) : String := located d.problem.message (some d.token)

def Diagnostic.report (d : Diagnostic) : String := "Parse error: " ++ d.text ++ "\n"

def reports (ds : List Diagnostic) : String := String.join (ds.map Diagnostic.report)

end SlangScript
