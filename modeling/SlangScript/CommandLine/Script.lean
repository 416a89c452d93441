import SlangScript.CommandLine.Folder
import SlangScript.CommandLine.Options
import SlangScript.CommandLine.Trace
import SlangScript.Text.Line
import SlangScript.Text.Utf8

/-!
Running a script: a file is read, and its text is run as one program.
-/

namespace SlangScript

/-- An error that ends a command without a word. -/
inductive Uncaught where
  | undecodable (error : Text.Utf8.Error)
  | nulInPath
  deriving DecidableEq, Repr

def Uncaught.message : Uncaught → String
  | .undecodable error => error.message
  | .nulInPath => "embedded null byte"

def Uncaught.className : Uncaught → String
  | .undecodable _ => "UnicodeDecodeError"
  | .nulInPath => "ValueError"

/-- What a command leaves behind: its two outputs, its exit code, and the error that it does not
catch, if there is one. -/
structure Outcome where
  stdout : String := ""
  stderr : String := ""
  exit : Nat := 0
  uncaught : Option Uncaught := none

def usageOutcome (complaint : Option String) (exit : Nat) : Outcome :=
  { stdout := ((complaint.map (· ++ "\n")).getD "") ++ usageText, exit }

/-- The outcome of a run: what the machine has printed, and the report on the trouble there was. -/
def Outcome.ofRun (debug : Bool) : Except Trouble Unit × Machine → Outcome
  | (.ok _, m) => { stdout := m.out, stderr := m.err }
  | (.error trouble, m) => { stdout := m.out, stderr := m.err ++ trouble.report debug, exit := 1 }

/-- The machine that a command starts with. -/
def Options.machine (options : Options) : Machine := { cap := options.cap }

/-- The outcome of a script of which the text is known, with so many rounds for each loop. -/
def scriptOutcome (rounds : Nat) (options : Options) (path : String) (text : List Char) : Outcome :=
  if (Text.trim text).isEmpty then
    { usageOutcome none 1 with stderr := "Error: " ++ path ++ " is empty\n" }
  else
    .ofRun options.debug
      (options.machine.runTraced options.debug (String.ofList text) (Machine.execute rounds))

/-- The outcome of a script of which the file was read, or could not be. -/
def runScript (rounds : Nat) (options : Options) (path : String)
    (content : Except ReadError (List UInt8)) : Outcome :=
  if path.toList.contains '\x00' then { exit := 1, uncaught := some .nulInPath }
  else
    match content with
    | .error error =>
      { stderr := "Error: cannot read " ++ path ++ ": " ++ error.message ++ "\n", exit := 1 }
    | .ok octets =>
      match Text.Utf8.decode octets with
      | .error error => { exit := 1, uncaught := some (.undecodable error) }
      | .ok text => scriptOutcome rounds options path (Text.unifyBreaks text)

end SlangScript
