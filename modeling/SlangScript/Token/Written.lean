import SlangScript.Number.Written
import SlangScript.Text.Quoted
import SlangScript.Token.Basic

/-!
The written form of tokens: the name of the kind, and after it the value, if there is one, in
parentheses.
-/

namespace SlangScript

def writtenFlag (value : Bool) : String := if value then "True" else "False"

def writtenNumber (value : Float) : String := String.ofList (Number.written value)

/-- Written forms in brackets, separated by commas. -/
def writtenList (items : List String) : String := "[" ++ ", ".intercalate items ++ "]"

def Lexeme.written (l : Lexeme) : String :=
  let withValue (value : String) : String := l.kind.name ++ "(" ++ value ++ ")"
  match l with
  | .ident name => withValue (Text.quoted name)
  | .number value => withValue (writtenNumber value)
  | .text value => withValue (Text.quoted value)
  | .flag value => withValue (writtenFlag value)
  | .mark m => m.name

def writtenTokens (tokens : List Token) : String :=
  writtenList (tokens.map fun t => t.lexeme.written)

end SlangScript
