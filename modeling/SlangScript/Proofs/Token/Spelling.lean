import SlangScript.Proofs.Token.Cut
import SlangScript.Proofs.Token.Munch

/-!
Spelling of lexemes, and of texts as lexemes with single spaces between them. Every lexeme that can
be spelled is what its spelling is cut up into, so such a text is cut up into its lexemes.
-/

namespace SlangScript

def Mark.spelling : Mark → String
  | .letWord => "hayde"
  | .assign => "hiyye"
  | .ifWord => "eza"
  | .cond => "betshil"
  | .thenWord => "lakan"
  | .elseWord => "walla"
  | .endWord => "deal"
  | .print => "3mol"
  | .highkey => "highkey"
  | .lowkey => "lowkey"
  | .whileWord => "tool_ma"
  | .continueWord => "kammel"
  | .breakWord => "khalas"
  | .eqEq => "=="
  | .notEq => "!="
  | .lte => "<="
  | .gte => ">="
  | .lt => "<"
  | .gt => ">"
  | .not => "!"
  | .and => "&&"
  | .or => "||"
  | .plus => "+"
  | .minus => "-"
  | .star => "*"
  | .slash => "/"
  | .percent => "%"
  | .lparen => "("
  | .rparen => ")"
  | .eof | .other _ => ""

def flagSpelling (value : Bool) : String := if value then "ong_no_cap" else "cap"

/-- The spelling of a lexeme, where `numeral` spells numbers. -/
def Lexeme.spelling (numeral : Float → List Char) : Lexeme → List Char
  | .ident name => name.toList
  | .number value => numeral value
  | .text value => '\x22' :: value.toList ++ ['\x22']
  | .flag value => (flagSpelling value).toList
  | .mark m => m.spelling.toList

/-- A name of a program: a word that is no keyword. -/
abbrev IsName (name : String) : Prop := IsWord name.toList ∧ keyword? name = none

theorem lexes_keyword {word : List Char} {lexeme : Lexeme} (h : IsWord word)
    (same : Lexeme.ofWord word = lexeme) : Lexes word lexeme :=
  same ▸ lexes_word h

theorem lexes_name {name : String} (h : IsName name) : Lexes name.toList (.ident name) := by
  refine lexes_keyword h.1 ?_
  rw [Lexeme.ofWord, String.ofList_toList, h.2]
  rfl

theorem lexes_flag (value : Bool) : Lexes (flagSpelling value).toList (.flag value) := by
  cases value with
  | true => exact lexes_keyword (by decide) (by decide)
  | false => exact lexes_keyword (by decide) (by decide)

theorem lexes_mark {mark : Mark} (known : mark ∈ Mark.known) (inside : mark ≠ .eof) :
    Lexes mark.spelling.toList (.mark mark) := by
  cases mark with
  | letWord | assign | ifWord | cond | thenWord | elseWord | endWord | highkey | lowkey | whileWord
  | continueWord | breakWord => exact lexes_keyword (by decide) (by decide)
  | print => exact lexes_printWord
  | eqEq | notEq | lte | gte | and | or => exact lexes_double (by decide) rfl (by decide)
  | lt | gt | not => exact lexes_single (by decide) rfl (by decide)
  | plus | minus | star | slash | percent | lparen | rparen =>
      exact lexes_alone (by decide) rfl rfl
  | eof => exact absurd rfl inside
  | other name => simp [Mark.known] at known

/-- A lexeme that can be spelled, if `numeral` spells its number. -/
def Lexeme.Spelled (numeral : Float → List Char) : Lexeme → Prop
  | .ident name => IsName name
  | .number value => IsRun (numeral value) ∧ Lexeme.ofNumeral (numeral value) = .number value
  | .text value => IsSayable value.toList
  | .flag _ => True
  | .mark m => m ∈ Mark.known ∧ m ≠ .eof

theorem Lexeme.Spelled.lexes {numeral : Float → List Char} {l : Lexeme} (h : l.Spelled numeral) :
    Lexes (l.spelling numeral) l := by
  cases l with
  | ident name => exact lexes_name h
  | number value =>
      have run := lexes_run h.1
      rwa [h.2] at run
  | text value =>
      have literal := lexes_text h
      rwa [String.ofList_toList] at literal
  | flag value => exact lexes_flag value
  | mark m => exact lexes_mark h.1 h.2

def spaced (numeral : Float → List Char) (lexemes : List Lexeme) : List Char :=
  [' '].intercalate (lexemes.map (Lexeme.spelling numeral))

theorem Cuts.lexes {written rest : List Char} {lexeme : Lexeme} {lexemes : List Lexeme}
    (h : Lexes written lexeme) (separated : Separated rest) (behind : Cuts rest lexemes) :
    Cuts (written ++ rest) (lexeme :: lexemes) := by
  obtain ⟨c, body, rfl, taken⟩ := h
  have drop : ((c :: body) ++ rest).drop (c :: body).length = rest := List.drop_left
  exact .take (taken rest separated) (drop.symm ▸ behind)

/-- A space behind a lexeme is cut off with no lexeme. -/
theorem Cuts.space {written rest : List Char} {lexeme : Lexeme} {lexemes : List Lexeme}
    (h : Lexes written lexeme) (behind : Cuts rest lexemes) :
    Cuts (written ++ ' ' :: rest) (lexeme :: lexemes) :=
  .lexes h (separated_space rest) (.skip (munch_of_parts (.inl rfl) rest) behind)

/-- The text of lexemes is cut up into the lexemes. -/
theorem cuts_spaced {numeral : Float → List Char} {lexemes : List Lexeme}
    (h : ∀ l ∈ lexemes, l.Spelled numeral) : Cuts (spaced numeral lexemes) lexemes := by
  induction lexemes with
  | nil => exact .nil
  | cons l lexemes ih =>
      rw [List.forall_mem_cons] at h
      cases lexemes with
      | nil =>
          simpa [spaced] using Cuts.whole h.1.lexes.alone
      | cons l' lexemes =>
          have front : spaced numeral (l :: l' :: lexemes) =
              l.spelling numeral ++ ' ' :: spaced numeral (l' :: lexemes) := by simp [spaced]
          rw [front]
          exact .space h.1.lexes (ih h.2)

/-- A text of lexemes has these lexemes, and the mark of its end. -/
theorem lexemes_tokenize {numeral : Float → List Char} {lexemes : List Lexeme}
    (h : ∀ l ∈ lexemes, l.Spelled numeral) :
    (tokenize (String.ofList (spaced numeral lexemes))).map Token.lexeme =
      lexemes ++ [.mark .eof] :=
  lexemes_tokenize_of_cuts (by simpa using cuts_spaced h)

end SlangScript
