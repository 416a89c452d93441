import SlangScript.Token.Basic

/-!
A cursor in a list of tokens that ends with an end-of-text token. It stands at a token at all times:
at the end it stays where it is.
-/

namespace SlangScript

/-- The tokens ahead: those before the last one, and the last one, which ends the text. -/
structure Cursor where
  pos : Nat := 0
  rest : List Token
  last : Token
  last_isEof : last.isEof = true

namespace Cursor

/-- A cursor at the start of a list of tokens; one that ends no text gets an end. -/
def ofTokens (tokens : List Token) : Cursor :=
  match tokens.getLast? with
  | some last =>
    if h : last.isEof = true then { rest := tokens.dropLast, last, last_isEof := h }
    else { rest := tokens, last := ⟨.mark .eof, 1, 1⟩, last_isEof := rfl }
  | none => { rest := [], last := ⟨.mark .eof, 1, 1⟩, last_isEof := rfl }

def current (c : Cursor) : Token := c.rest.headD c.last

def kind (c : Cursor) : Kind := c.current.kind

/-- The next place, except at the end. -/
def advance (c : Cursor) : Cursor :=
  match c.rest with
  | [] => c
  | _ :: rest => { c with pos := c.pos + 1, rest }

/-- The first place from here on with a token of a kind in `stops`, or else the end. -/
def skipUntil (c : Cursor) (stops : Kind → Bool) : Cursor :=
  let skipped := (c.rest.takeWhile fun t => !stops t.kind).length
  { c with pos := c.pos + skipped, rest := c.rest.drop skipped }

theorem advance_rest (c : Cursor) : c.advance.rest = c.rest.tail := by
  unfold advance
  split <;> simp_all

/-- Away from the end, a step leads to the next place. -/
theorem advance_pos {c : Cursor} (h : c.rest ≠ []) : c.advance.pos = c.pos + 1 := by
  unfold advance
  split <;> simp_all

theorem skipUntil_rest (c : Cursor) (stops : Kind → Bool) :
    (c.skipUntil stops).rest = c.rest.dropWhile fun t => !stops t.kind := by
  simp only [skipUntil]
  generalize c.rest = rest
  induction rest with
  | nil => rfl
  | cons t rest ih => by_cases h : stops t.kind <;> simp [h, ih]

/-- At the last token the text ends. -/
theorem kind_of_rest_eq_nil {c : Cursor} (h : c.rest = []) : c.kind = .mark .eof := by
  have := c.last_isEof
  simpa [Cursor.kind, current, h, Token.isEof] using this

end Cursor

end SlangScript
