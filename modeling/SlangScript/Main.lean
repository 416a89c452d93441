import SlangScript.CommandLine.Prompt

/-!
The command line. It reads files and lines, and prints what the library answers.
-/

namespace SlangScript

/-- The code that the system gives a folder that is read as a file. -/
def folderCode : UInt32 := 21

def readFile (path : String) : IO (Except ReadError (List UInt8)) := do
  try
    let octets ← IO.FS.readBinFile path
    return .ok octets.toList
  catch error =>
    match error with
    | .noFileOrDirectory .. => return .error .noSuchFile
    | .inappropriateType _ code _ =>
      return .error (if code = folderCode then .isFolder else .notFolder)
    | .invalidArgument .. => return .error .nameTooLong
    | _ => return .error .denied

/-- Prints the outputs of a command, and gives its exit code. -/
def Outcome.print (o : Outcome) : IO UInt32 := do
  IO.print o.stdout
  IO.eprint o.stderr
  if let some error := o.uncaught then IO.eprintln error.message
  return o.exit.toUInt32

/-- Answers a line that was read, and gives the machine unless the line leaves. -/
def answerLine (options : Options) (m : Machine) (line : List Char) : IO (Option Machine) := do
  match Prompt.Line.ofText line with
  | .leave => return none
  | .blank => return some m
  | .source text =>
    let m := Prompt.answer options.machine.rounds options m text
    IO.print m.out
    IO.eprint m.err
    return some m

/-- Answers the lines of a chunk of input, with an invitation between them. -/
def answerLines (options : Options) (m : Machine) : List (List Char) → IO (Option Machine)
  | [] => return some m
  | [line] => answerLine options m line
  | line :: rest => do
    match ← answerLine options m line with
    | none => return none
    | some m =>
      IO.print Prompt.invitation
      answerLines options m rest

/-- Answers lines until one leaves or the input ends. -/
partial def talk (options : Options) (m : Machine) : IO UInt32 := do
  IO.print Prompt.invitation
  (← IO.getStdout).flush
  let chunk := (← (← IO.getStdin).getLine).toList
  if chunk.isEmpty then
    IO.println ""
    return 0
  match ← answerLines options m (Text.lines (Text.unifyBreaks chunk)) with
  | some m => talk options m
  | none => return 0

/-- Runs what the arguments ask for. -/
def runCommand (args : List String) : IO UInt32 := do
  match Command.ofArgs args with
  | .usage complaint exit => (usageOutcome complaint exit).print
  | .script options path =>
    (runScript options.machine.rounds options path (← readFile path)).print
  | .prompt options =>
    IO.print Prompt.banner
    talk options options.machine

end SlangScript

def main (args : List String) : IO UInt32 := SlangScript.runCommand args
