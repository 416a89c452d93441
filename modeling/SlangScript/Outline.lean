import SlangScript.Stacked
import SlangScript.Token.Written

/-!
Outlines: nested lists and records of plain values, drawn by indentation alone. A record shows a
plain value behind its name and quotes it if it is a text; every other value stands below, one step
further in. An empty list or record is drawn as an empty line.
-/

namespace SlangScript

mutual

/-- A plain value, a list, or a record with its fields in order. -/
inductive Outline where
  | none
  | flag (value : Bool)
  | integer (value : Int)
  | number (value : Float)
  | text (value : String)
  | list (items : List Outline)
  | record (fields : Fields)

inductive Fields where
  | nil
  | cons (name : String) (value : Outline) (rest : Fields)

end

/-- The fields after a new one; a name that is there already keeps its place and takes the value. -/
def Fields.put (name : String) (value : Outline) : Fields → Fields
  | .nil => .cons name value .nil
  | .cons other old rest =>
    if other = name then .cons name value rest else .cons other old (rest.put name value)

/-- The fields of a list of names and values. -/
def Fields.ofList (fields : List (String × Outline)) : Fields :=
  fields.foldl (fun fields (name, value) => fields.put name value) .nil

namespace Outline

def margin (indent : Nat) : String := String.ofList (List.replicate (2 * indent) ' ')

/-- The text of a plain value, and nothing for a list or a record. -/
def plain? : Outline → Option String
  | .none => some "None"
  | .flag value => some (writtenFlag value)
  | .integer value => some (String.ofList (Number.writtenInteger value))
  | .number value => some (writtenNumber value)
  | .text value => some value
  | .list _ => Option.none
  | .record _ => Option.none

/-- The text of a plain value behind a name. -/
def afterName? : Outline → Option String
  | .text value => some (Text.quoted value)
  | other => other.plain?

def orEmptyLine (lines : List String) : List String := if lines.isEmpty then [""] else lines

mutual

def lines (indent : Nat) : Outline → List String
  | .list items => orEmptyLine (itemLines indent items)
  | .record fields => orEmptyLine (fieldLines indent fields)
  | plain => [margin indent ++ (plain.plain?).getD ""]

def itemLines (indent : Nat) : List Outline → List String
  | [] => []
  | item :: rest => (margin indent ++ "-") :: lines (indent + 1) item ++ itemLines indent rest

def fieldLines (indent : Nat) : Fields → List String
  | .nil => []
  | .cons name value rest =>
    match value.afterName? with
    | some shown => (margin indent ++ name ++ ": " ++ shown) :: fieldLines indent rest
    | Option.none =>
      (margin indent ++ name ++ ":") :: lines (indent + 1) value ++ fieldLines indent rest

end

/-- The drawing of an outline. -/
def render (indent : Nat) (outline : Outline) : String := "\n".intercalate (outline.lines indent)

mutual

/-- The lines of an outline, made with a call for each value that does not stand behind a name. -/
def drawLines (indent : Nat) : Outline → Stacked (List String)
  | .list items => .call 1 (orEmptyLine <$> drawItems indent items)
  | .record fields => .call 1 (orEmptyLine <$> drawFields indent fields)
  | plain => .call 1 (return plain.lines indent)

def drawItems (indent : Nat) : List Outline → Stacked (List String)
  | [] => return []
  | item :: rest => do
    return (margin indent ++ "-") :: (← drawLines (indent + 1) item) ++ (← drawItems indent rest)

def drawFields (indent : Nat) : Fields → Stacked (List String)
  | .nil => return []
  | .cons name value rest => do
    match value.afterName? with
    | some shown => return (margin indent ++ name ++ ": " ++ shown) :: (← drawFields indent rest)
    | Option.none =>
      return (margin indent ++ name ++ ":") :: (← drawLines (indent + 1) value) ++
        (← drawFields indent rest)

end

/-- Draws an outline. -/
def draw (indent : Nat) (outline : Outline) : Stacked String :=
  "\n".intercalate <$> outline.drawLines indent

end Outline

end SlangScript
