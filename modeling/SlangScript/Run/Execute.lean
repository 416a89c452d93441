import SlangScript.Run.Evaluate

/-!
Execution of statements. A machine holds the store, what was printed, and the steps counted against
a cap, if it has one. A statement takes a step when it starts, and a loop takes one more each time
it tests its condition. Whatever stops a run, the machine keeps what was done before.
-/

namespace SlangScript

variable {ι : Type}

/-- What a statement tells the block around it: to go on, to leave the loop, or to start the next
round of it. -/
inductive Signal where
  | goOn
  | breakOut
  | continueOn
  deriving DecidableEq, Repr

/-- A machine that runs programs. Steps are counted only against a cap. -/
structure Machine where
  store : Store := {}
  out : String := ""
  err : String := ""
  steps : Nat := 0
  cap : Option Int := none
  deriving DecidableEq

/-- An action on a state, which gives an `α` or stops with a fault. -/
abbrev Action (σ α : Type) : Type := ExceptT Fault (StateM σ) α

abbrev Run (α : Type) : Type := Action Machine α

namespace Machine

/-- The depth that nested statements and expressions may spend. -/
def depthLimit : Nat := 1000

/-- Takes a step. The step beyond the cap is counted, and stops the run. -/
def countStep : Run Unit := do
  let m ← get
  match m.cap with
  | none => return
  | some cap =>
    set { m with steps := m.steps + 1 }
    if cap < m.steps + 1 then throw (.stepLimit cap)

def printLine (line : String) : Run Unit := modify fun m => { m with out := m.out ++ line ++ "\n" }

def noteLine (line : String) : Run Unit := modify fun m => { m with err := m.err ++ line ++ "\n" }

/-- The value of an expression on the machine. -/
def valueOf (depth : Nat) (expression : Node ι) : Run Value := do
  let m ← get
  ExceptT.mk (pure (evaluate m.store depth expression))

def bindTo (depth : Nat) (name : String) (expression : Node ι) : Run Unit := do
  let value ← valueOf depth expression
  modify fun m => { m with store := m.store.bind name value }

/-- Does something at a cost of the depth, and stops when there is not enough of it. -/
def spend {σ α : Type} (cost depth : Nat) (action : (depth : Nat) → Action σ α) : Action σ α :=
  if cost ≤ depth then action (depth - cost) else throw .tooDeep

/-- Goes through rounds of a loop until one of them tells not to go on. -/
def loop {σ : Type} (round : Action σ Bool) : (rounds : Nat) → Action σ Unit
  | 0 => throw .unfinished
  | rounds + 1 => do
    if ← round then loop round rounds

/-- What a statement without blocks does once its step is taken. -/
def act : Node ι → (depth : Nat) → Run Signal
  | .declare _ name value, depth | .assign _ name value, depth => do
    bindTo depth name value
    return .goOn
  | .print _ value, depth => do
    printLine (← valueOf depth value).printed
    return .goOn
  | .debugPrint _ value, depth => do
    noteLine ("[debug] " ++ (← valueOf depth value).printed)
    return .goOn
  | .breakOut _, _ => return .breakOut
  | .continueOn _, _ => return .continueOn
  | other, _ => throw (.strayStatement other.typeName)

mutual

/-- Executes a statement within a depth, with so many rounds for each loop. A block of a conditional
costs two of the depth and the body of a loop three. -/
def step (rounds : Nat) (node : Node ι) (depth : Nat) : Run Signal := do
  countStep
  match node with
  | .ifThen _ condition body =>
    if (← valueOf depth condition).truth then spend 2 depth (block rounds body) else return .goOn
  | .ifElse _ condition yes no =>
    if (← valueOf depth condition).truth then spend 2 depth (block rounds yes)
    else spend 2 depth (block rounds no)
  | .whileDo _ condition body =>
    loop (do
      countStep
      if (← valueOf depth condition).truth then
        let signal ← spend 3 depth (block rounds body)
        return signal != .breakOut
      else return false) rounds
    return .goOn
  | simple => act simple depth

/-- Executes statements in turn, until one of them does not go on. -/
def block (rounds : Nat) : List (Node ι) → (depth : Nat) → Run Signal
  | [], _ => return .goOn
  | statement :: rest, depth => do
    match ← step rounds statement depth with
    | .goOn => block rounds rest depth
    | signal => return signal

end

/-- The note on a statement that is given up. -/
def tooDeepNote : String := "Runtime error: " ++ Fault.tooDeep.message

/-- Executes a statement of the outermost level. One that nests too deeply is given up with a note,
and what it did before stays. -/
def executeTop (rounds : Nat) (statement : Node ι) : Run Signal :=
  tryCatch (step rounds statement depthLimit) fun fault =>
    match fault with
    | .tooDeep => do
      noteLine tooDeepNote
      return .goOn
    | fault => throw fault

/-- Executes a program. Leaving a loop where there is none ends it. -/
def execute (rounds : Nat) : List (Node ι) → Run Unit
  | [] => return
  | statement :: rest => do
    match ← executeTop rounds statement with
    | .breakOut => return
    | _ => execute rounds rest

/-- Rounds beyond all patience, for a machine without a cap. -/
def patience : Nat := 0x4000000000000000

/-- Rounds that no loop on the machine can use up: each takes a step, and the cap leaves that many.
Without a cap a loop may go on as long as it likes. -/
def rounds (m : Machine) : Nat :=
  match m.cap with
  | none => patience
  | some cap => (cap - m.steps).toNat + 1

/-- Runs something on a machine with as many rounds as it has. -/
def perform {α : Type} (m : Machine) (action : (rounds : Nat) → Run α) :
    Except Fault α × Machine :=
  (action m.rounds).run.run m

def run (m : Machine) (program : List (Node ι)) : Except Fault Unit × Machine :=
  m.perform fun rounds => execute rounds program

end Machine

end SlangScript
