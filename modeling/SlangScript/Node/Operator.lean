/-!
Operators. A parsed program has the thirteen binary operators and the two unary ones only; a tree
built by hand may name an operator that there is not.
-/

namespace SlangScript

inductive BinaryOp where
  | or | and
  | eq | ne | lt | le | gt | ge
  | add | sub
  | mul | div | mod
  | unknown (name : String)
  deriving DecidableEq, Repr

def BinaryOp.text : BinaryOp → String
  | .or => "||"
  | .and => "&&"
  | .eq => "=="
  | .ne => "!="
  | .lt => "<"
  | .le => "<="
  | .gt => ">"
  | .ge => ">="
  | .add => "+"
  | .sub => "-"
  | .mul => "*"
  | .div => "/"
  | .mod => "%"
  | .unknown name => name

/-- The binary operators that programs have. -/
def BinaryOp.known : List BinaryOp :=
  [.or, .and, .eq, .ne, .lt, .le, .gt, .ge, .add, .sub, .mul, .div, .mod]

def BinaryOp.ofText (text : String) : BinaryOp :=
  (BinaryOp.known.find? fun op => op.text == text).getD (.unknown text)

inductive UnaryOp where
  | not | neg
  | unknown (name : String)
  deriving DecidableEq, Repr

def UnaryOp.text : UnaryOp → String
  | .not => "!"
  | .neg => "-"
  | .unknown name => name

def UnaryOp.ofText (text : String) : UnaryOp :=
  match text with
  | "!" => .not
  | "-" => .neg
  | _ => .unknown text

end SlangScript
