import SlangScript.CommandLine.Script

/-!
The prompt: each line of input is run as a program of its own on one machine, which keeps its
variables from line to line and counts its steps anew for each. Trouble on a line is told, and does
not keep the next line from running.
-/

namespace SlangScript.Prompt

def banner : String := "Faysal Lang REPL. Type exit to quit.\n"

def invitation : String := "faysal> "

inductive Line where
  | leave
  | blank
  | source (text : String)
  deriving DecidableEq, Repr

/-- What a line asks for; blanks around `exit` do not matter. -/
def Line.ofText (text : List Char) : Line :=
  let trimmed := Text.trim text
  if trimmed = "exit".toList then .leave
  else if trimmed.isEmpty then .blank
  else .source (String.ofList text)

/-- Executes the statements of a line. Leaving a loop where there is none drops the rest of them. -/
def executeLine {ι : Type} (rounds : Nat) (statements : List (Node ι)) : Run Unit := do
  for statement in statements do
    if (← Machine.executeTop rounds statement) = .breakOut then
      break

/-- Runs a line on a machine; the machine's outputs hold what this line printed. -/
def answer (rounds : Nat) (options : Options) (m : Machine) (source : String) : Machine :=
  let (result, m) := m.cleared.runTraced options.debug source (executeLine rounds)
  let m :=
    match result with
    | .ok _ => m
    | .error trouble => m.note (trouble.report options.debug)
  m.resetSteps

structure Turn where
  out : String := ""
  err : String := ""
  deriving DecidableEq, Repr

/-- What some lines leave behind: a turn for each up to one that leaves, the machine, and whether
there was one. -/
structure Visit where
  turns : List Turn := []
  machine : Machine
  left : Bool := false

/-- The visit with a turn before the others. -/
def Visit.behind (turn : Turn) (visit : Visit) : Visit := { visit with turns := turn :: visit.turns }

def visit (rounds : Nat) (options : Options) (m : Machine) : List (List Char) → Visit
  | [] => { machine := m }
  | line :: rest =>
    match Line.ofText line with
    | .leave => { machine := m, left := true }
    | .blank => (visit rounds options m rest).behind {}
    | .source text =>
      let m := answer rounds options m text
      (visit rounds options m rest).behind ⟨m.out, m.err⟩

/-- The outcome of the prompt over an input. The end of the input ends the last line. -/
def outcome (rounds : Nat) (options : Options) (input : List Char) : Outcome :=
  let visit := visit rounds options options.machine (Text.lines (Text.unifyBreaks input))
  { stdout := banner ++ String.join (visit.turns.map fun turn => invitation ++ turn.out) ++
      invitation ++ (if visit.left then "" else "\n"),
    stderr := String.join (visit.turns.map Turn.err) }

end SlangScript.Prompt

namespace SlangScript.Command

/-- The outcome of a command, given what reading a file gives and the text of the input, with so many
rounds for each loop. -/
def outcomeWithin (command : Command) (rounds : Nat)
    (read : String → Except ReadError (List UInt8)) (input : List Char) : Outcome :=
  match command with
  | .usage complaint exit => usageOutcome complaint exit
  | .prompt options => Prompt.outcome rounds options input
  | .script options path => runScript rounds options path (read path)

/-- Rounds that no loop of the command can use up where there is a cap. -/
def rounds : Command → Nat
  | .usage _ _ => 0
  | .prompt options | .script options _ => options.machine.rounds

def outcome (command : Command) (read : String → Except ReadError (List UInt8))
    (input : List Char) : Outcome :=
  command.outcomeWithin command.rounds read input

end SlangScript.Command
