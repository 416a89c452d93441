import SlangScript.Node.Basic
import SlangScript.Run.Fault
import SlangScript.Run.Store

/-!
Evaluation of expressions. A binary operator evaluates both operands, the left one first, and then
applies; there is no short circuit. A chain that leans to the left is evaluated in a loop, so its
length costs no depth; operands do.
-/

namespace SlangScript

variable {ι : Type}

namespace Node

/-- The leftmost operand of a chain that leans to the left, and the operators with their right
operands from there on, before the ones in `later`. -/
def spine : Node ι → (later : List (BinaryOp × Node ι)) → Node ι × List (BinaryOp × Node ι)
  | .binary _ left op right, later => spine left ((op, right) :: later)
  | node, later => (node, later)

end Node

/-- The result of an operator, as the result of an evaluation. -/
def ofOperation (result : Except OperationError Value) : Except Fault Value :=
  result.mapError .operation

/-- Evaluates an expression with the values of a store, within a depth. -/
def evaluate (store : Store) : (depth : Nat) → Node ι → Except Fault Value
  | 0, _ => .error .tooDeep
  | depth + 1, node =>
    match node with
    | .number _ value => .ok (.number value)
    | .text _ value => .ok (.text value)
    | .flag _ value => .ok (.flag value)
    | .var _ name => .ok (store.lookup name)
    | .unary _ op operand => do
      let value ← evaluate store depth operand
      ofOperation (value.unary op)
    | .binary .. => do
      let (first, later) := node.spine []
      let value ← evaluate store depth first
      later.foldlM (fun value (op, right) => do
        let other ← evaluate store depth right
        ofOperation (value.binary op other)) value
    | other => .error (.strayExpression other.typeName)

end SlangScript
