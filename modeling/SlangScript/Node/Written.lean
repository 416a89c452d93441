import SlangScript.Node.Basic
import SlangScript.Outline

/-!
The two dumps of a tree, both without tags: on one line, as the constructors and fields it is made
of, and as an outline. Each is defined once as a text and once as what it takes to make that text on
the stack.
-/

namespace SlangScript.Node

variable {ι : Type}

/-- A type name and its fields in parentheses. -/
def writtenFields (type : String) (fields : List (String × String)) : String :=
  type ++ "(" ++ ", ".intercalate (fields.map fun (name, value) => name ++ "=" ++ value) ++ ")"

mutual

def written : Node ι → String
  | .number _ value => writtenFields "Number" [("value", writtenNumber value)]
  | .text _ value => writtenFields "String" [("value", Text.quoted value)]
  | .flag _ value => writtenFields "Bool" [("value", writtenFlag value)]
  | .var _ name => writtenFields "Var" [("name", Text.quoted name)]
  | .binary _ left op right =>
    writtenFields "Binary"
      [("left", written left), ("op", Text.quoted op.text), ("right", written right)]
  | .unary _ op operand =>
    writtenFields "Unary" [("op", Text.quoted op.text), ("expr", written operand)]
  | .declare _ name value =>
    writtenFields "VarDecl" [("name", Text.quoted name), ("value", written value)]
  | .assign _ name value =>
    writtenFields "Assign" [("name", Text.quoted name), ("value", written value)]
  | .print _ value => writtenFields "Print" [("expr", written value)]
  | .debugPrint _ value => writtenFields "DebugPrint" [("expr", written value)]
  | .ifThen _ condition body =>
    writtenFields "If"
      [("condition", written condition), ("then_block", writtenList (writtenEach body)),
       ("else_block", "None")]
  | .ifElse _ condition yes no =>
    writtenFields "If"
      [("condition", written condition), ("then_block", writtenList (writtenEach yes)),
       ("else_block", writtenList (writtenEach no))]
  | .whileDo _ condition body =>
    writtenFields "While"
      [("condition", written condition), ("body", writtenList (writtenEach body))]
  | .breakOut _ => writtenFields "Break" []
  | .continueOn _ => writtenFields "Continue" []
  | .bare _ => writtenFields "ASTNode" []
  | .missing => "None"

def writtenEach : List (Node ι) → List String
  | [] => []
  | node :: rest => written node :: writtenEach rest

end

def writtenAll (nodes : List (Node ι)) : String := writtenList (writtenEach nodes)

open Stacked Walk

mutual

/-- Writes a node on one line. -/
def write : Node ι → Stacked String
  | .binary _ left op right => call writing.node do
    return writtenFields "Binary"
      [("left", ← write left), ("op", Text.quoted op.text), ("right", ← write right)]
  | .unary _ op operand => call writing.node do
    return writtenFields "Unary" [("op", Text.quoted op.text), ("expr", ← write operand)]
  | .declare _ name value => call writing.node do
    return writtenFields "VarDecl" [("name", Text.quoted name), ("value", ← write value)]
  | .assign _ name value => call writing.node do
    return writtenFields "Assign" [("name", Text.quoted name), ("value", ← write value)]
  | .print _ value => call writing.node do
    return writtenFields "Print" [("expr", ← write value)]
  | .debugPrint _ value => call writing.node do
    return writtenFields "DebugPrint" [("expr", ← write value)]
  | .ifThen _ condition body => call writing.node do
    return writtenFields "If"
      [("condition", ← write condition),
       ("then_block", ← call writing.list (writtenList <$> writeEach body)), ("else_block", "None")]
  | .ifElse _ condition yes no => call writing.node do
    return writtenFields "If"
      [("condition", ← write condition),
       ("then_block", ← call writing.list (writtenList <$> writeEach yes)),
       ("else_block", ← call writing.list (writtenList <$> writeEach no))]
  | .whileDo _ condition body => call writing.node do
    return writtenFields "While"
      [("condition", ← write condition),
       ("body", ← call writing.list (writtenList <$> writeEach body))]
  | node => call writing.node (return written node)

def writeEach : List (Node ι) → Stacked (List String)
  | [] => return []
  | node :: rest => return (← write node) :: (← writeEach rest)

end

def writeAll (nodes : List (Node ι)) : Stacked String :=
  call writing.list (writtenList <$> writeEach nodes)

/-- A record of a node: its type, then the fields given. -/
def record (type : String) (fields : List (String × Outline)) : Outline :=
  .record (.ofList (("type", .text type) :: fields))

mutual

def outline : Node ι → Outline
  | .number _ value => record "Number" [("value", .number value)]
  | .text _ value => record "String" [("value", .text value)]
  | .flag _ value => record "Bool" [("value", .flag value)]
  | .var _ name => record "Var" [("name", .text name)]
  | .binary _ left op right =>
    record "Binary" [("op", .text op.text), ("left", outline left), ("right", outline right)]
  | .unary _ op operand => record "Unary" [("op", .text op.text), ("expr", outline operand)]
  | .declare _ name value => record "VarDecl" [("name", .text name), ("value", outline value)]
  | .assign _ name value => record "Assign" [("name", .text name), ("value", outline value)]
  | .print _ value => record "Print" [("expr", outline value)]
  | .debugPrint _ value => record "DebugPrint" [("expr", outline value)]
  | .ifThen _ condition body =>
    record "If" [("condition", outline condition), ("then_block", .list (outlineEach body)),
      ("else_block", .none)]
  | .ifElse _ condition yes no =>
    record "If" [("condition", outline condition), ("then_block", .list (outlineEach yes)),
      ("else_block", .list (outlineEach no))]
  | .whileDo _ condition body =>
    record "While" [("condition", outline condition), ("body", .list (outlineEach body))]
  | .breakOut _ => record "Break" []
  | .continueOn _ => record "Continue" []
  | .bare _ => record "ASTNode" [("raw", .text "ASTNode()")]
  | .missing => .none

def outlineEach : List (Node ι) → List Outline
  | [] => []
  | node :: rest => outline node :: outlineEach rest

end

def outlineAll (nodes : List (Node ι)) : Outline := .list (outlineEach nodes)

mutual

/-- Makes the outline of a node. -/
def describe : Node ι → Stacked Outline
  | .binary _ left op right => call describing.node do
    return record "Binary"
      [("op", .text op.text), ("left", ← describe left), ("right", ← describe right)]
  | .unary _ op operand => call describing.node do
    return record "Unary" [("op", .text op.text), ("expr", ← describe operand)]
  | .declare _ name value => call describing.node do
    return record "VarDecl" [("name", .text name), ("value", ← describe value)]
  | .assign _ name value => call describing.node do
    return record "Assign" [("name", .text name), ("value", ← describe value)]
  | .print _ value => call describing.node do
    return record "Print" [("expr", ← describe value)]
  | .debugPrint _ value => call describing.node do
    return record "DebugPrint" [("expr", ← describe value)]
  | .ifThen _ condition body => call describing.node do
    return record "If"
      [("condition", ← describe condition),
       ("then_block", ← call describing.list (.list <$> describeEach body)), ("else_block", .none)]
  | .ifElse _ condition yes no => call describing.node do
    return record "If"
      [("condition", ← describe condition),
       ("then_block", ← call describing.list (.list <$> describeEach yes)),
       ("else_block", ← call describing.list (.list <$> describeEach no))]
  | .whileDo _ condition body => call describing.node do
    return record "While"
      [("condition", ← describe condition),
       ("body", ← call describing.list (.list <$> describeEach body))]
  | node => call describing.node (return outline node)

def describeEach : List (Node ι) → Stacked (List Outline)
  | [] => return []
  | node :: rest => return (← describe node) :: (← describeEach rest)

end

def describeAll (nodes : List (Node ι)) : Stacked Outline :=
  call describing.list (.list <$> describeEach nodes)

/-- Draws the outline of a list of nodes. -/
def drawAll (indent : Nat) (nodes : List (Node ι)) : Stacked String := do
  (← describeAll nodes).draw indent

end SlangScript.Node
