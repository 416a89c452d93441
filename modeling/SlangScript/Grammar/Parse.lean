import SlangScript.Grammar.Cursor
import SlangScript.Grammar.Diagnostic

/-!
Reading of tokens. A reader moves a cursor and may fail; a failure keeps the place where reading
stopped, and what was reported before it. Nesting is limited: every reader that goes deeper is given
a depth to spend, and fails when there is not enough of it.
-/

namespace SlangScript

/-- Why reading stopped: a diagnostic, or nesting beyond the limit. -/
inductive Failure where
  | wrong (diagnostic : Diagnostic)
  | tooDeep

/-- The state of reading: the cursor, and the diagnostics reported so far. -/
structure Reading where
  cursor : Cursor
  reported : Array Diagnostic := #[]

def Reading.ofTokens (tokens : List Token) : Reading := { cursor := .ofTokens tokens }

/-- A reader that always gives an `α`. -/
abbrev Recover (α : Type) : Type := StateM Reading α

/-- A reader that gives an `α` or fails. -/
abbrev Parse (α : Type) : Type := ExceptT Failure (StateM Reading) α

namespace Parse

def current : Recover Token := return (← get).cursor.current

/-- The number of tokens before the cursor. -/
def position : Recover Nat := return (← get).cursor.pos

/-- The tokens ahead, before the last one. A loop that takes a token each time round cannot go round
more often than there are of them. -/
def ahead : Recover (List Token) := return (← get).cursor.rest

def advance : Recover Unit := modify fun r => { r with cursor := r.cursor.advance }

def report (d : Diagnostic) : Recover Unit :=
  modify fun r => { r with reported := r.reported.push d }

/-- Moves past a token of kind `kind`, and tells whether there was one. -/
def takeIf (kind : Kind) : Recover Bool := do
  if (← current).kind = kind then
    advance
    return true
  else return false

/-- Fails at the current token. -/
def failHere {α : Type} (problem : Kind → Problem) : Parse α := do
  let token ← current
  throw (.wrong ⟨problem token.kind, token⟩)

/-- Fails for want of depth. -/
def tooDeep {α : Type} : Parse α := throw .tooDeep

/-- Moves past a token of kind `kind`, and fails at any other. -/
def expect (kind : Kind) : Parse Token := do
  let token ← current
  if token.kind = kind then
    advance
    return token
  else failHere (.expected kind)

/-- The result of a reader, or the failure in which it stopped. -/
def attempt {α : Type} (p : Parse α) : Recover (Except Failure α) := p.run

end Parse

end SlangScript
