import SlangScript.Grammar.Expression
import SlangScript.Grammar.Statement

/-!
Programs as lexemes: the words that may be left out are written, and parentheses stand only where
precedence or the association to the left asks for them. Beside the lexemes stands what their
nesting costs, and the tree without its tags.
-/

namespace SlangScript

/-- The level of precedence of a binary operator, counted from the loosest. -/
def BinaryOp.level : BinaryOp → Nat
  | .or => 0
  | .and => 1
  | .eq | .ne | .lt | .le | .gt | .ge => 2
  | .add | .sub => 3
  | .mul | .div | .mod => 4
  | .unknown _ => 5

def BinaryOp.mark : BinaryOp → Mark
  | .or => .or
  | .and => .and
  | .eq => .eqEq
  | .ne => .notEq
  | .lt => .lt
  | .le => .lte
  | .gt => .gt
  | .ge => .gte
  | .add => .plus
  | .sub => .minus
  | .mul => .star
  | .div => .slash
  | .mod => .percent
  | .unknown name => .other name

def UnaryOp.mark : UnaryOp → Mark
  | .not => .not
  | .neg => .minus
  | .unknown name => .other name

def enclose (needed : Bool) (inner : List Lexeme) : List Lexeme :=
  if needed then .mark .lparen :: (inner ++ [.mark .rparen]) else inner

def encloseCost (needed : Bool) : Nat := if needed then Parse.expressionCost else 0

namespace Node

variable {ι : Type}

/-- The level of precedence of an expression; only a binary operator makes it loose. -/
def level : Node ι → Nat
  | .binary _ _ op _ => op.level
  | _ => 5

mutual

/-- The lexemes of a node. An operand on the left needs parentheses if it is looser than the
operator, one on the right also if it is as loose, and one of a unary operator if it is binary. -/
def lexemes : Node ι → List Lexeme
  | .number _ value => [.number value]
  | .text _ value => [.text value]
  | .flag _ value => [.flag value]
  | .var _ name => [.ident name]
  | .binary _ left op right =>
    enclose (left.level < op.level) left.lexemes ++
      .mark op.mark :: enclose (right.level ≤ op.level) right.lexemes
  | .unary _ op operand => .mark op.mark :: enclose (operand.level < 5) operand.lexemes
  | .declare _ name value => .mark .letWord :: .ident name :: .mark .assign :: value.lexemes
  | .assign _ name value => .ident name :: .mark .assign :: value.lexemes
  | .print _ value => .mark .print :: value.lexemes
  | .debugPrint _ value => .mark .lowkey :: value.lexemes
  | .ifThen _ condition body =>
    .mark .ifWord :: .mark .cond :: (condition.lexemes ++
      .mark .thenWord :: (lexemesAll body ++ [.mark .endWord]))
  | .ifElse _ condition yes no =>
    .mark .ifWord :: .mark .cond :: (condition.lexemes ++
      .mark .thenWord :: (lexemesAll yes ++
        .mark .elseWord :: (lexemesAll no ++ [.mark .endWord])))
  | .whileDo _ condition body =>
    .mark .whileWord :: .mark .cond :: (condition.lexemes ++
      .mark .thenWord :: (lexemesAll body ++ [.mark .endWord]))
  | .breakOut _ => [.mark .breakWord]
  | .continueOn _ => [.mark .continueWord]
  | .bare _ | .missing => []

def lexemesAll : List (Node ι) → List Lexeme
  | [] => []
  | node :: nodes => node.lexemes ++ lexemesAll nodes

end

mutual

/-- What the nesting of a node costs when its lexemes are read. -/
def nesting : Node ι → Nat
  | .binary _ left op right =>
    max (left.nesting + encloseCost (left.level < op.level))
      (right.nesting + encloseCost (right.level ≤ op.level))
  | .unary _ _ operand => operand.nesting + encloseCost (operand.level < 5) + 1
  | .declare _ _ value | .assign _ _ value | .print _ value | .debugPrint _ value =>
    value.nesting + Parse.expressionCost
  | .ifThen _ condition body | .whileDo _ condition body =>
    max (condition.nesting + Parse.expressionCost) (nestingAll body + Parse.blockCost)
  | .ifElse _ condition yes no =>
    max (condition.nesting + Parse.expressionCost)
      (max (nestingAll yes) (nestingAll no) + Parse.blockCost)
  | _ => 0

def nestingAll : List (Node ι) → Nat
  | [] => 0
  | node :: nodes => max node.nesting (nestingAll nodes)

end

mutual

def untag : Node ι → Node Unit
  | .number _ value => .number () value
  | .text _ value => .text () value
  | .flag _ value => .flag () value
  | .var _ name => .var () name
  | .binary _ left op right => .binary () left.untag op right.untag
  | .unary _ op operand => .unary () op operand.untag
  | .declare _ name value => .declare () name value.untag
  | .assign _ name value => .assign () name value.untag
  | .print _ value => .print () value.untag
  | .debugPrint _ value => .debugPrint () value.untag
  | .ifThen _ condition body => .ifThen () condition.untag (untagAll body)
  | .ifElse _ condition yes no => .ifElse () condition.untag (untagAll yes) (untagAll no)
  | .whileDo _ condition body => .whileDo () condition.untag (untagAll body)
  | .breakOut _ => .breakOut ()
  | .continueOn _ => .continueOn ()
  | .bare _ => .bare ()
  | .missing => .missing

def untagAll : List (Node ι) → List (Node Unit)
  | [] => []
  | node :: nodes => node.untag :: untagAll nodes

end

theorem untagAll_append (nodes nodes' : List (Node ι)) :
    untagAll (nodes ++ nodes') = untagAll nodes ++ untagAll nodes' := by
  induction nodes with
  | nil => rfl
  | cons node nodes ih => simp only [List.cons_append, untagAll, ih]

end Node

end SlangScript
