import SlangScript.Number.Numeral
import SlangScript.Token.Basic

/-!
Maximal munch: what stands at the front of a source text, and how many characters it takes.
Every step takes at least one character, so a source text is cut up from front to back; characters
that mean nothing are taken without a lexeme.
-/

namespace SlangScript

open SlangScript.Text

/-- The words with a meaning of their own. -/
def keyword? (word : String) : Option Lexeme :=
  match word with
  | "hayde" => some (.mark .letWord)
  | "hiyye" => some (.mark .assign)
  | "ong_no_cap" => some (.flag true)
  | "cap" => some (.flag false)
  | "eza" => some (.mark .ifWord)
  | "betshil" => some (.mark .cond)
  | "lakan" => some (.mark .thenWord)
  | "walla" => some (.mark .elseWord)
  | "deal" => some (.mark .endWord)
  | "3mol" => some (.mark .print)
  | "highkey" => some (.mark .highkey)
  | "lowkey" => some (.mark .lowkey)
  | "tool_ma" => some (.mark .whileWord)
  | "kammel" => some (.mark .continueWord)
  | "khalas" => some (.mark .breakWord)
  | _ => none

/-- The one keyword that starts with a digit. -/
def printWord : String := "3mol"

/-- The longest word at the front of a text, which may be empty. -/
def wordAt (text : List Char) : List Char := text.takeWhile isWordChar

/-- The lexeme of a word: a keyword or a name. -/
def Lexeme.ofWord (word : List Char) : Lexeme :=
  let word := String.ofList word
  (keyword? word).getD (.ident word)

/-- Whether `c` belongs to the digits and points of a number. -/
def isNumeralChar (c : Char) : Bool := isDigit c || c == '.'

/-- The longest run of digits and points at the front of a text, which may be empty. -/
def numeralAt (text : List Char) : List Char := text.takeWhile isNumeralChar

/-- The lexeme of a run of digits and points; a run that is no numeral counts as zero. -/
def Lexeme.ofNumeral (run : List Char) : Lexeme := .number ((Number.read? run).getD 0)

/-- What a text literal says from the character after its opening quote on, and how many characters
that takes with the closing quote. A backslash and an n stand for a line feed; a literal without a
closing quote takes all the rest. -/
def textBody : List Char → List Char × Nat
  | [] => ([], 0)
  | '\x22' :: _ => ([], 1)
  | '\\' :: 'n' :: rest =>
    let (said, taken) := textBody rest
    ('\n' :: said, taken + 2)
  | c :: rest =>
    let (said, taken) := textBody rest
    (c :: said, taken + 1)

def singleSign? (c : Char) : Option Mark :=
  match c with
  | '+' => some .plus
  | '-' => some .minus
  | '*' => some .star
  | '/' => some .slash
  | '%' => some .percent
  | '(' => some .lparen
  | ')' => some .rparen
  | _ => none

/-- A first character that starts a sign of two: its second, the sign of both, and the sign that it
is on its own, if it is one. -/
def doubleSign? (c : Char) : Option (Char × Mark × Option Mark) :=
  match c with
  | '=' => some ('=', .eqEq, none)
  | '!' => some ('=', .notEq, some .not)
  | '<' => some ('=', .lte, some .lt)
  | '>' => some ('=', .gte, some .gt)
  | '&' => some ('&', .and, none)
  | '|' => some ('|', .or, none)
  | _ => none

/-- Whether `c` only separates tokens within a line. -/
def isLayout (c : Char) : Bool := c == ' ' || c == '\t' || c == '\r'

/-- The rest of a line, without its line feed. -/
def lineAt (text : List Char) : List Char := text.takeWhile (· != '\n')

/-- What the text `c :: rest` starts with: a lexeme or nothing, and its number of characters. -/
def munch (c : Char) (rest : List Char) : Option Lexeme × Nat :=
  let text := c :: rest
  if isLayout c || c == '\n' then (none, 1)
  else if c == '/' && rest.head? == some '/' then (none, (lineAt text).length)
  else if isDigit c then
    let word := wordAt text
    if word = printWord.toList then (some (.ofWord word), word.length)
    else
      let run := numeralAt text
      (some (.ofNumeral run), run.length)
  else if isLetter c || c == '_' then
    let word := wordAt text
    (some (.ofWord word), word.length)
  else if c == '\x22' then
    let (said, taken) := textBody rest
    (some (.text (String.ofList said)), taken + 1)
  else
    match doubleSign? c with
    | some (second, double, single) =>
      if rest.head? = some second then (some (.mark double), 2)
      else (single.map .mark, 1)
    | none => ((singleSign? c).map .mark, 1)

/-- A step takes at least one character. -/
theorem munch_pos (c : Char) (rest : List Char) : 0 < (munch c rest).2 := by
  have word : (isDigit c || isLetter c || c == '_') = true → 0 < (wordAt (c :: rest)).length := by
    intro h
    have : isWordChar c = true := by
      simp only [isWordChar, Bool.or_eq_true] at h ⊢
      rcases h with (h | h) | h <;> simp [h]
    simp [wordAt, this]
  unfold munch
  simp only
  split
  · simp
  split
  · rename_i h
    simp only [Bool.and_eq_true, beq_iff_eq] at h
    simp [lineAt, h.1]
  split
  · rename_i h
    split
    · exact word (by simp [h])
    · simp [numeralAt, isNumeralChar, h]
  split
  · rename_i h
    exact word (by simp_all)
  split
  · simp
  split
  · split <;> simp
  · simp

end SlangScript
