import SlangScript.Node.Written
import SlangScript.Run.Source

/-!
Tracing: the tokens and the tree of a program, printed before it runs. A tree beyond a certain
height is not drawn, and its program does not run.
-/

namespace SlangScript

variable {ι : Type}

namespace Node

mutual

def height : Node ι → Nat
  | .binary _ left _ right => 1 + max (height left) (height right)
  | .unary _ _ operand => 1 + height operand
  | .declare _ _ value | .assign _ _ value => 1 + height value
  | .print _ value | .debugPrint _ value => 1 + height value
  | .ifThen _ condition body => 1 + max (height condition) (heightAll body)
  | .ifElse _ condition yes no => 1 + max (height condition) (max (heightAll yes) (heightAll no))
  | .whileDo _ condition body => 1 + max (height condition) (heightAll body)
  | _ => 1

/-- How deep the drawing of a list of nodes goes; the list itself counts as two. -/
def heightAll : List (Node ι) → Nat
  | [] => 2
  | node :: rest => max (2 + height node) (heightAll rest)

end

/-- The frames of the host's stack that are taken when a trace begins. -/
def framesBelow : Nat := 10

/-- The height up to which trees are drawn: the drawing takes a frame for each step down, and what is
left for it of the host's recursion limit are the frames above those of the trace. -/
def heightLimit : Nat := Stacked.recursionLimit - framesBelow

end Node

/-- What goes wrong while a program is traced and run. -/
inductive Trouble where
  | untraceable
  | stopped (fault : Fault)
  deriving DecidableEq, Repr

namespace Trouble

def message : Trouble → String
  | .untraceable => "maximum recursion depth exceeded in comparison"
  | .stopped fault => fault.message

/-- The full name of the class of the trouble. -/
def className : Trouble → String
  | .untraceable => "RecursionError"
  | .stopped (.stepLimit cap) => "errors." ++ (Fault.stepLimit cap).className
  | .stopped fault => fault.className

/-- How the trouble is told: with a trace of where it came from, or by its text alone. -/
def report (debug : Bool) (trouble : Trouble) : String :=
  if debug then "<traceback>\n" ++ trouble.className ++ ": " ++ trouble.message ++ "\n"
  else trouble.message ++ "\n"

end Trouble

def tokenTrace (tokens : List Token) : String := "Tokens: " ++ writtenTokens tokens ++ "\n"

def treeTrace (statements : List (Node ι)) : String :=
  (Node.outlineAll statements).render 1 ++ "\n"

namespace Machine

def say (m : Machine) (text : String) : Machine := { m with out := m.out ++ text }

/-- Does something on a machine, where a fault is trouble. -/
def attempt (m : Machine) (action : Run Unit) : Except Trouble Unit × Machine :=
  let (result, m) := action.run.run m
  (result.mapError .stopped, m)

/-- Reads a source text on a machine, traces it if asked to, and does something with its
statements. -/
def runTraced (m : Machine) (debug : Bool) (source : String)
    (action : List (Node Int) → Run Unit) : Except Trouble Unit × Machine :=
  let tokens := tokenize source
  let parsed := parse tokens
  let m := m.note parsed.report
  if debug then
    let m := m.say (tokenTrace tokens ++ "AST:\n")
    if Node.heightAll parsed.statements ≤ Node.heightLimit then
      (m.say (treeTrace parsed.statements)).attempt (action parsed.statements)
    else (.error .untraceable, m)
  else m.attempt (action parsed.statements)

end Machine

end SlangScript
