import SlangScript.Node.Basic
import SlangScript.Stacked

/-!
Comparison of trees, which leaves out their tags. It goes through the fields of two nodes, and
through the items of two lists, until it comes to a difference.
-/

namespace SlangScript.Node

variable {ι κ : Type}

open Stacked Walk

/-- Compares two lists by their items, of which lists of different lengths need none. -/
def compareLists {α β : Type} (as : List α) (bs : List β) (items : Stacked Bool) : Stacked Bool :=
  call comparing.list (if as.length = bs.length then items else return false)

mutual

def compare : Node ι → Node κ → Stacked Bool
  | .number _ a, .number _ b => call comparing.node (return a == b)
  | .text _ a, .text _ b | .var _ a, .var _ b => call comparing.node (return a == b)
  | .flag _ a, .flag _ b => call comparing.node (return a == b)
  | .binary _ left op right, .binary _ left' op' right' =>
    call comparing.node (compare left left' <&&> pure (op == op') <&&> compare right right')
  | .unary _ op operand, .unary _ op' operand' =>
    call comparing.node (pure (op == op') <&&> compare operand operand')
  | .declare _ name value, .declare _ name' value'
  | .assign _ name value, .assign _ name' value' =>
    call comparing.node (pure (name == name') <&&> compare value value')
  | .print _ value, .print _ value' | .debugPrint _ value, .debugPrint _ value' =>
    call comparing.node (compare value value')
  | .ifThen _ condition body, .ifThen _ condition' body'
  | .whileDo _ condition body, .whileDo _ condition' body' =>
    call comparing.node
      (compare condition condition' <&&> compareLists body body' (compareEach body body'))
  | .ifElse _ condition yes no, .ifElse _ condition' yes' no' =>
    call comparing.node
      (compare condition condition' <&&> compareLists yes yes' (compareEach yes yes') <&&>
        compareLists no no' (compareEach no no'))
  -- That one of them has no other branch is found last.
  | .ifThen _ condition body, .ifElse _ condition' yes _
  | .ifElse _ condition body _, .ifThen _ condition' yes =>
    call comparing.node
      (compare condition condition' <&&> compareLists body yes (compareEach body yes) <&&>
        pure false)
  | .breakOut _, .breakOut _ | .continueOn _, .continueOn _ | .bare _, .bare _
  | .missing, .missing => call comparing.node (return true)
  | _, _ => call comparing.node (return false)

def compareEach : List (Node ι) → List (Node κ) → Stacked Bool
  | a :: as, b :: bs => compare a b <&&> compareEach as bs
  | _, _ => return true

end

def compareAll (nodes : List (Node ι)) (nodes' : List (Node κ)) : Stacked Bool :=
  compareLists nodes nodes' (compareEach nodes nodes')

end SlangScript.Node
