import SlangScript.Grammar.Expression

/-!
Reading of statements. A list of statements recovers from every failure: what is wrong is reported,
and reading goes on behind it, so a list is read to its terminator or to the end of the text. Nested
blocks cost depth, as parentheses do.
-/

namespace SlangScript.Parse

/-- The kinds of token that start a statement, except names. -/
def statementStarts : List Kind :=
  [.mark .letWord, .mark .print, .mark .lowkey, .mark .ifWord, .mark .whileWord,
   .mark .continueWord, .mark .breakWord]

/-- Gives up a statement: moves to the next token and from there to the start of a statement, a
terminator, or the end of the text. -/
def giveUp (terminators : List Kind) : Recover Unit :=
  modify fun r =>
    { r with
      cursor := r.cursor.advance.skipUntil fun kind =>
        statementStarts.contains kind || terminators.contains kind || kind == .mark .eof }

/-- Reads statements up to a terminator or the end of the text. A statement that fails at its first
token loses that token; one that nests too deeply is reported at its first token and given up. -/
def statementsFrom (statement : Parse (Node Int)) (terminators : List Kind) :
    (ahead : List Token) → Recover (List (Node Int))
  | [] => return []
  | _ :: ahead => do
    let token ← current
    if token.isEof || terminators.contains token.kind then return []
    else
      let start ← position
      match ← attempt statement with
      | .ok node => return node :: (← statementsFrom statement terminators ahead)
      | .error failure =>
        match failure with
        | .wrong diagnostic =>
          report diagnostic
          if (← position) = start then advance
        | .tooDeep =>
          report ⟨.tooDeep, token⟩
          giveUp terminators
        statementsFrom statement terminators ahead

/-- A list of statements, none of which is one of the terminators. -/
def statementsWith (statement : Parse (Node Int)) (terminators : List Kind) :
    Recover (List (Node Int)) := do
  statementsFrom statement terminators (← ahead)

def declaration (expression : Parse (Node Int)) : Parse (Node Int) := do
  let start ← expect (.mark .letWord)
  match (← current).lexeme with
  | .ident name =>
    advance
    let _ ← expect (.mark .assign)
    return .declare start.line name (← expression)
  | _ => failHere fun _ => .nameMissing

def assignment (expression : Parse (Node Int)) : Parse (Node Int) := do
  let token ← current
  match token.lexeme with
  | .ident name =>
    advance
    if (← current).kind ≠ .mark .assign then failHere .assignMissing
    else
      advance
      return .assign token.line name (← expression)
  | _ => failHere (.expected .ident)

def printStatement (expression : Parse (Node Int)) : Parse (Node Int) := do
  let start ← expect (.mark .print)
  let _ ← takeIf (.mark .highkey)
  return .print start.line (← expression)

def debugStatement (expression : Parse (Node Int)) : Parse (Node Int) := do
  let start ← expect (.mark .lowkey)
  return .debugPrint start.line (← expression)

/-- A condition with the words that may stand around it. -/
def condition (expression : Parse (Node Int)) : Parse (Node Int) := do
  let _ ← takeIf (.mark .cond)
  let node ← expression
  let _ ← takeIf (.mark .thenWord)
  return node

/-- A conditional: `eza`, a condition, a block, perhaps `walla` and another block, and `deal`, which
may be missing. `block` reads a block up to one of the terminators given. -/
def conditional (expression : Parse (Node Int)) (block : List Kind → Parse (List (Node Int))) :
    Parse (Node Int) := do
  let start ← expect (.mark .ifWord)
  let test ← condition expression
  let yes ← block [.mark .endWord, .mark .elseWord]
  if ← takeIf (.mark .elseWord) then
    let no ← block [.mark .endWord]
    let _ ← takeIf (.mark .endWord)
    return .ifElse start.line test yes no
  else
    let _ ← takeIf (.mark .endWord)
    return .ifThen start.line test yes

/-- A loop: `tool_ma`, a condition, a block, and `deal`, which may be missing. -/
def repetition (expression : Parse (Node Int)) (block : List Kind → Parse (List (Node Int))) :
    Parse (Node Int) := do
  let start ← expect (.mark .whileWord)
  let test ← condition expression
  let body ← block [.mark .endWord]
  let _ ← takeIf (.mark .endWord)
  return .whileDo start.line test body

/-- A statement, which its first token decides. -/
def statementWith (expression : Parse (Node Int)) (block : List Kind → Parse (List (Node Int))) :
    Parse (Node Int) := do
  let token ← current
  match token.kind with
  | .mark .letWord => declaration expression
  | .mark .print => printStatement expression
  | .mark .lowkey => debugStatement expression
  | .mark .ifWord => conditional expression block
  | .mark .whileWord => repetition expression block
  | .mark .continueWord => advance; return .continueOn token.line
  | .mark .breakWord => advance; return .breakOut token.line
  | .ident => assignment expression
  | _ => failHere .strayInStatement

/-- A statement within a depth. A nested block costs three. -/
def statement : (depth : Nat) → Parse (Node Int)
  | depth + 3 =>
    statementWith (expression (depth + 3)) fun terminators =>
      statementsWith (statement depth) terminators
  | depth => statementWith (expression depth) fun _ => tooDeep

/-- What a nested block costs before its first statement. -/
def blockCost : Nat := 3

/-- A block within a depth, up to one of the terminators. -/
def block (depth : Nat) (terminators : List Kind) : Parse (List (Node Int)) :=
  if blockCost ≤ depth then statementsWith (statement (depth - blockCost)) terminators else tooDeep

/-- The depth that a program may spend. -/
def depthLimit : Nat := 1000

/-- A whole program: statements up to the end of the text. -/
def program : Recover (List (Node Int)) := statementsWith (statement depthLimit) []

/-- A statement reads its blocks at its own depth. -/
theorem statement_eq (depth : Nat) :
    statement depth = statementWith (expression depth) (block depth) := by
  by_cases h : 3 ≤ depth
  · obtain ⟨k, rfl⟩ := Nat.exists_eq_add_of_le h
    rw [show 3 + k = k + 3 by omega, statement]
    congr 1
  · have short : ∀ k, depth = k + 3 → False := by omega
    rw [statement.eq_2 _ (by simpa using short)]
    congr 1
    funext terminators
    rw [block, if_neg (by simpa only [blockCost] using h)]

end SlangScript.Parse

namespace SlangScript

/-- A program that was read, and what was wrong with its text, in order. -/
structure Parsed where
  statements : List (Node Int)
  diagnostics : List Diagnostic

/-- Reads a program from its tokens. Every list of tokens gives a program. -/
def parse (tokens : List Token) : Parsed :=
  let (statements, reading) := Parse.program.run (.ofTokens tokens)
  ⟨statements, reading.reported.toList⟩

def Parsed.report (p : Parsed) : String := reports p.diagnostics

end SlangScript
