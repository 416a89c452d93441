import SlangScript.Number.Integer

/-!
The arguments of the command line, and what they ask for.
-/

namespace SlangScript

/-- What holds for every way to run: whether to trace what was read, and the cap on steps. -/
structure Options where
  debug : Bool := false
  cap : Option Int := none
  deriving DecidableEq, Repr

/-- What the command line asks for: the usage, after a complaint if something is wrong, the prompt,
or a script. -/
inductive Command where
  | usage (complaint : Option String) (exit : Nat)
  | prompt (options : Options)
  | script (options : Options) (path : String)
  deriving DecidableEq, Repr

def usageLines : List String :=
  ["Usage:",
   "  python cli.py <file.faysal>      run a script",
   "  python cli.py                    start the REPL",
   "  (optional) --debug to print tokens, AST and Python tracebacks",
   "  (optional) --max-steps N to stop runaway loops"]

def usageText : String := String.join (usageLines.map (· ++ "\n"))

namespace Command

/-- The option that caps the steps. -/
def capOption : String := "--max-steps"

/-- The arguments without the cap option and its value, and the cap. -/
def takeCap? (args : List String) : Option (Option Int × List String) :=
  match args.span (· != capOption) with
  | (all, []) => some (none, all)
  | (before, _ :: after) =>
    match after with
    | [] => none
    | value :: rest =>
      (Number.readInteger? value.toList).map fun cap => (some cap, before ++ rest)

/-- What remains when the options are taken out: no argument, one path, or too much. -/
def ofPaths (options : Options) (args : List String) : Command :=
  match args.find? fun arg => arg.toList.head? == some '-' with
  | some arg => .usage (some ("Unknown option: " ++ arg)) 1
  | none =>
    match args with
    | [] => .prompt options
    | [path] => .script options path
    | _ => .usage none 1

/-- What the arguments ask for. Help goes before everything else. -/
def ofArgs (args : List String) : Command :=
  if args.contains "-h" || args.contains "--help" then .usage none 0
  else
    let debug := args.contains "--debug"
    match takeCap? (args.erase "--debug") with
    | none => .usage (some (capOption ++ " expects an integer")) 1
    | some (cap, args) => ofPaths { debug, cap } args

end Command

end SlangScript
