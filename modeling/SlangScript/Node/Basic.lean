import SlangScript.Node.Operator

/-!
Programs as trees. Statements and expressions are nodes of one type, since a tree built by hand may
hold any node anywhere; what a node must not be shows only when it is run. Every node carries a
tag, which is the line of its token in a parsed program and nothing in a tree built by hand.
-/

namespace SlangScript

/-- A statement or an expression, tagged with a `ι`. -/
inductive Node (ι : Type) where
  | number (tag : ι) (value : Float)
  | text (tag : ι) (value : String)
  | flag (tag : ι) (value : Bool)
  | var (tag : ι) (name : String)
  | binary (tag : ι) (left : Node ι) (op : BinaryOp) (right : Node ι)
  | unary (tag : ι) (op : UnaryOp) (operand : Node ι)
  | declare (tag : ι) (name : String) (value : Node ι)
  | assign (tag : ι) (name : String) (value : Node ι)
  | print (tag : ι) (value : Node ι)
  | debugPrint (tag : ι) (value : Node ι)
  | ifThen (tag : ι) (condition : Node ι) (body : List (Node ι))
  | ifElse (tag : ι) (condition : Node ι) (yes no : List (Node ι))
  | whileDo (tag : ι) (condition : Node ι) (body : List (Node ι))
  | breakOut (tag : ι)
  | continueOn (tag : ι)
  /-- A node of no particular type. -/
  | bare (tag : ι)
  /-- A place where a node was left out. -/
  | missing

namespace Node

variable {ι : Type}

instance : Inhabited (Node ι) := ⟨.missing⟩

def typeName : Node ι → String
  | .number .. => "Number"
  | .text .. => "String"
  | .flag .. => "Bool"
  | .var .. => "Var"
  | .binary .. => "Binary"
  | .unary .. => "Unary"
  | .declare .. => "VarDecl"
  | .assign .. => "Assign"
  | .print .. => "Print"
  | .debugPrint .. => "DebugPrint"
  | .ifThen .. | .ifElse .. => "If"
  | .whileDo .. => "While"
  | .breakOut .. => "Break"
  | .continueOn .. => "Continue"
  | .bare .. => "ASTNode"
  | .missing => "NoneType"

end Node

end SlangScript
