import SlangScript.Grammar.Parse
import SlangScript.Node.Basic

/-!
Reading of expressions: five levels of binary operators that associate to the left, the loosest
first, then the unary operators, then names, literals and parentheses. A chain of operators on one
level is read in a loop, so only parentheses and unary operators nest.
-/

namespace SlangScript.Parse

/-- The operators of one level of precedence. -/
abbrev Level : Type := Kind → Option BinaryOp

def disjunctionOps : Level
  | .mark .or => some .or
  | _ => none

def conjunctionOps : Level
  | .mark .and => some .and
  | _ => none

def comparisonOps : Level
  | .mark .eqEq => some .eq
  | .mark .notEq => some .ne
  | .mark .gt => some .gt
  | .mark .lt => some .lt
  | .mark .gte => some .ge
  | .mark .lte => some .le
  | _ => none

def sumOps : Level
  | .mark .plus => some .add
  | .mark .minus => some .sub
  | _ => none

def productOps : Level
  | .mark .star => some .mul
  | .mark .slash => some .div
  | .mark .percent => some .mod
  | _ => none

/-- Reads on after the operand `left`, as often as there is an operator of the level. -/
def chainFrom (level : Level) (operand : Parse (Node Int)) :
    (ahead : List Token) → Node Int → Parse (Node Int)
  | [], left => return left
  | _ :: ahead, left => do
    let token ← current
    match level token.kind with
    | none => return left
    | some op =>
      advance
      let right ← operand
      chainFrom level operand ahead (.binary token.line left op right)

/-- Reads operands joined by operators of a level; the tree leans to the left. -/
def chain (level : Level) (operand : Parse (Node Int)) : Parse (Node Int) := do
  let first ← operand
  chainFrom level operand (← ahead) first

def productWith (unary : Parse (Node Int)) : Parse (Node Int) := chain productOps unary

def sumWith (unary : Parse (Node Int)) : Parse (Node Int) := chain sumOps (productWith unary)

def comparisonWith (unary : Parse (Node Int)) : Parse (Node Int) :=
  chain comparisonOps (sumWith unary)

def conjunctionWith (unary : Parse (Node Int)) : Parse (Node Int) :=
  chain conjunctionOps (comparisonWith unary)

/-- All levels over unary expressions. -/
def disjunctionWith (unary : Parse (Node Int)) : Parse (Node Int) :=
  chain disjunctionOps (conjunctionWith unary)

/-- A name, a literal, or an expression in parentheses, which `inner` reads. The parenthesis that
closes it may be missing. -/
def atomWith (inner : Parse (Node Int)) : Parse (Node Int) := do
  let token ← current
  match token.lexeme with
  | .number value => advance; return .number token.line value
  | .text value => advance; return .text token.line value
  | .flag value => advance; return .flag token.line value
  | .ident name => advance; return .var token.line name
  | .mark .lparen =>
    advance
    let node ← inner
    let _ ← takeIf (.mark .rparen)
    return node
  | .mark _ => failHere .strayInExpression

def unaryOp? : Kind → Option UnaryOp
  | .mark .not => some .not
  | .mark .minus => some .neg
  | _ => none

/-- A unary operator and its `operand`, or a primary expression. -/
def unaryWith (operand inner : Parse (Node Int)) : Parse (Node Int) := do
  let token ← current
  match unaryOp? token.kind with
  | some op =>
    advance
    return .unary token.line op (← operand)
  | none => atomWith inner

/-- A unary expression within a depth. A unary operator costs one, and an expression in parentheses
thirteen: one for each reader that it passes through. -/
def unary : (depth : Nat) → Parse (Node Int)
  | depth + 13 => unaryWith (unary (depth + 12)) (disjunctionWith (unary depth))
  | depth + 1 => unaryWith (unary depth) tooDeep
  | 0 => unaryWith tooDeep tooDeep

/-- What an expression costs before its first token. -/
def expressionCost : Nat := 13

def expression (depth : Nat) : Parse (Node Int) :=
  if expressionCost ≤ depth then disjunctionWith (unary (depth - expressionCost)) else tooDeep

def atom (depth : Nat) : Parse (Node Int) := atomWith (expression depth)

/-- At no depth there is neither an operand nor an expression in parentheses. -/
theorem unary_zero : unary 0 = unaryWith tooDeep (expression 0) := rfl

/-- A unary expression reads its operand at one depth less, and its parentheses at its own. -/
theorem unary_succ (depth : Nat) :
    unary (depth + 1) = unaryWith (unary depth) (expression (depth + 1)) := by
  by_cases h : 12 ≤ depth
  · obtain ⟨k, rfl⟩ := Nat.exists_eq_add_of_le h
    rw [show 12 + k + 1 = k + 13 by omega, show 12 + k = k + 12 by omega, unary]
    simp [expression, expressionCost]
  · have short : ∀ k, depth + 1 = k + 13 → False := by omega
    have costly : ¬expressionCost ≤ depth + 1 := by simp only [expressionCost]; omega
    rw [unary.eq_2 _ (by simpa using short), expression, if_neg costly]

end SlangScript.Parse
