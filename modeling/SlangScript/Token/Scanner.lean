import SlangScript.Token.Munch

/-!
A scanner walks over a source text and knows the place where it stands. Advancing past the end
still counts characters and columns. `Scanner.next` finds the next token by maximal munch, and
`tokenize` collects them all, up to and with the one that ends the text.
-/

namespace SlangScript

/-- A place in a source text, and the text from there on. -/
structure Scanner where
  rest : List Char
  pos : Nat := 0
  line : Nat := 1
  column : Nat := 1

namespace Scanner

def ofText (text : List Char) : Scanner := { rest := text }

def current? (s : Scanner) : Option Char := s.rest.head?

def peek? (s : Scanner) : Option Char := s.rest.tail.head?

/-- Takes one step; only a line feed starts a new line. -/
def advance (s : Scanner) : Scanner :=
  match s.rest with
  | [] => { s with pos := s.pos + 1, column := s.column + 1 }
  | c :: rest =>
    if c = '\n' then ⟨rest, s.pos + 1, s.line + 1, 1⟩
    else ⟨rest, s.pos + 1, s.line, s.column + 1⟩

/-- Takes as many steps as `count`. -/
def advanceBy (s : Scanner) : (count : Nat) → Scanner
  | 0 => s
  | count + 1 => s.advance.advanceBy count

/-- A token that starts where the scanner stands. -/
def tokenHere (s : Scanner) (lexeme : Lexeme) : Token := ⟨lexeme, s.line, s.column⟩

def endToken (s : Scanner) : Token := s.tokenHere (.mark .eof)

/-- Skips what separates tokens within a line. -/
def skipLayout (s : Scanner) : Scanner := s.advanceBy (s.rest.takeWhile isLayout).length

def skipLine (s : Scanner) : Scanner := s.advanceBy (lineAt s.rest).length

/-- Reads the word at the scanner, even an empty one. -/
def readWord (s : Scanner) : Token × Scanner :=
  let word := wordAt s.rest
  (s.tokenHere (.ofWord word), s.advanceBy word.length)

/-- Reads the digits and points at the scanner, even none. -/
def readNumber (s : Scanner) : Token × Scanner :=
  let run := numeralAt s.rest
  (s.tokenHere (.ofNumeral run), s.advanceBy run.length)

/-- Reads a text literal, whatever character stands in the place of its opening quote. -/
def readText (s : Scanner) : Token × Scanner :=
  let (said, taken) := textBody s.rest.tail
  (s.tokenHere (.text (String.ofList said)), s.advanceBy (taken + 1))

/-- Reads a sign of two characters, the current one and `second`, or else the sign `single` if the
current character is one on its own. -/
def readSign (s : Scanner) (second : Char) (double : Mark) (single : Option Mark) :
    Option Token × Scanner :=
  if s.peek? = some second then (some (s.tokenHere (.mark double)), s.advanceBy 2)
  else (single.map fun mark => s.tokenHere (.mark mark), s.advance)

/-- One munch at the scanner, which stands at `c :: rest`. -/
def munch (s : Scanner) (c : Char) (rest : List Char) : Option Token × Scanner :=
  let (lexeme?, count) := SlangScript.munch c rest
  (lexeme?.map s.tokenHere, s.advanceBy count)

/-- The next token within `steps` munches. -/
def nextWithin : (steps : Nat) → Scanner → Token × Scanner
  | 0, s => (s.endToken, s)
  | steps + 1, s =>
    match s.rest with
    | [] => (s.endToken, s)
    | c :: rest =>
      match s.munch c rest with
      | (some token, s) => (token, s)
      | (none, s) => nextWithin steps s

/-- The next token. Each munch takes a character, so there are no more munches than characters. -/
def next (s : Scanner) : Token × Scanner := nextWithin s.rest.length s

/-- The tokens found by `steps` munches, and the token that ends the text. -/
def tokensWithin : (steps : Nat) → Scanner → List Token × Scanner
  | 0, s => ([s.endToken], s)
  | steps + 1, s =>
    match s.rest with
    | [] => ([s.endToken], s)
    | c :: rest =>
      match s.munch c rest with
      | (some token, s) =>
        let (tokens, s) := tokensWithin steps s
        (token :: tokens, s)
      | (none, s) => tokensWithin steps s

/-- All tokens from the scanner on. -/
def tokens (s : Scanner) : List Token × Scanner := tokensWithin s.rest.length s

theorem advance_rest (s : Scanner) : s.advance.rest = s.rest.tail := by
  unfold advance
  split
  · rename_i h
    simp [h]
  · rename_i c rest h
    split <;> simp [h]

theorem advanceBy_rest (s : Scanner) (count : Nat) :
    (s.advanceBy count).rest = s.rest.drop count := by
  induction count generalizing s with
  | zero => rfl
  | succ count ih => rw [advanceBy, ih, advance_rest, List.drop_tail]

theorem munch_rest (s : Scanner) (c : Char) (rest : List Char) :
    (s.munch c rest).2.rest = s.rest.drop (SlangScript.munch c rest).2 := by
  simp [munch, advanceBy_rest]

/-- A munch leaves less of the text. -/
theorem munch_rest_length_lt {s : Scanner} {c : Char} {rest : List Char} (h : s.rest = c :: rest) :
    (s.munch c rest).2.rest.length < s.rest.length := by
  have := munch_pos c rest
  rw [munch_rest, List.length_drop, h, List.length_cons]
  omega

/-- Munches beyond the length of the text change nothing. -/
theorem nextWithin_of_le {s : Scanner} {steps : Nat} (h : s.rest.length ≤ steps) :
    nextWithin steps s = s.next := by
  have agree : ∀ (n m : Nat) (s : Scanner), s.rest.length ≤ n → s.rest.length ≤ m →
      nextWithin n s = nextWithin m s := by
    intro n
    induction n with
    | zero =>
      intro m s hn hm
      have empty : s.rest = [] := List.length_eq_zero_iff.1 (by omega)
      cases m <;> simp [nextWithin, empty]
    | succ n ih =>
      intro m s hn hm
      cases hr : s.rest with
      | nil => cases m <;> simp [nextWithin, hr]
      | cons c rest =>
        cases m with
        | zero => simp [hr] at hm
        | succ m =>
          have shorter := munch_rest_length_lt hr
          simp only [nextWithin, hr]
          split
          · rfl
          · rename_i token hmunch
            rw [hmunch] at shorter
            exact ih m _ (by simp only at shorter; omega) (by simp only at shorter; omega)
  exact agree _ _ s h (Nat.le_refl _)

end Scanner

def tokenize (source : String) : List Token := (Scanner.ofText source.toList).tokens.1

end SlangScript
