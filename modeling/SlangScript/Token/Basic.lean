/-!
Tokens: the words, literals and signs of a source text, each with the line and column where it
starts. Parsing looks at kinds of tokens only, and takes names and literals out of their lexemes.
-/

namespace SlangScript

/-- The kinds of token that carry nothing but their kind. A token built by hand may be of a kind
that no source text has. -/
inductive Mark where
  | letWord | assign | ifWord | cond | thenWord | elseWord | endWord
  | print | highkey | lowkey | whileWord | continueWord | breakWord
  | eqEq | notEq | lte | gte | lt | gt | not | and | or
  | plus | minus | star | slash | percent | lparen | rparen
  | eof
  | other (name : String)
  deriving DecidableEq, Repr

/-- The name of a mark, as messages give it. -/
def Mark.name : Mark → String
  | .letWord => "LET"
  | .assign => "ASSIGN"
  | .ifWord => "IF"
  | .cond => "COND"
  | .thenWord => "THEN"
  | .elseWord => "ELSE"
  | .endWord => "END"
  | .print => "PRINT"
  | .highkey => "HIGHKEY"
  | .lowkey => "LOWKEY"
  | .whileWord => "WHILE"
  | .continueWord => "CONTINUE"
  | .breakWord => "BREAK"
  | .eqEq => "EQEQ"
  | .notEq => "NOTEQ"
  | .lte => "LTE"
  | .gte => "GTE"
  | .lt => "LT"
  | .gt => "GT"
  | .not => "NOT"
  | .and => "AND"
  | .or => "OR"
  | .plus => "PLUS"
  | .minus => "MINUS"
  | .star => "STAR"
  | .slash => "SLASH"
  | .percent => "PERCENT"
  | .lparen => "LPAREN"
  | .rparen => "RPAREN"
  | .eof => "EOF"
  | .other name => name

/-- The marks that a source text can have, and the end of one. -/
def Mark.known : List Mark :=
  [.letWord, .assign, .ifWord, .cond, .thenWord, .elseWord, .endWord,
   .print, .highkey, .lowkey, .whileWord, .continueWord, .breakWord,
   .eqEq, .notEq, .lte, .gte, .lt, .gt, .not, .and, .or,
   .plus, .minus, .star, .slash, .percent, .lparen, .rparen, .eof]

def Mark.ofName (name : String) : Mark :=
  (Mark.known.find? fun mark => mark.name == name).getD (.other name)

theorem Mark.name_ofName (name : String) : (Mark.ofName name).name = name := by
  unfold Mark.ofName
  cases h : Mark.known.find? fun mark => mark.name == name with
  | none => rfl
  | some mark => simpa using List.find?_some h

/-- A mark of a source text is the mark of its name. -/
theorem Mark.ofName_name {mark : Mark} (h : mark ∈ Mark.known) : Mark.ofName mark.name = mark := by
  have all : ∀ mark ∈ Mark.known, Mark.ofName mark.name = mark := by decide
  exact all mark h

/-- What a token is called: a name, a literal, or a mark. -/
inductive Kind where
  | ident
  | number
  | text
  | flag
  | mark (mark : Mark)
  deriving DecidableEq, Repr

def Kind.name : Kind → String
  | .ident => "IDENT"
  | .number => "NUMBER"
  | .text => "STRING"
  | .flag => "BOOL"
  | .mark m => m.name

def Kind.ofName (name : String) : Kind :=
  match name with
  | "IDENT" => .ident
  | "NUMBER" => .number
  | "STRING" => .text
  | "BOOL" => .flag
  | _ => .mark (.ofName name)

theorem Kind.name_ofName (name : String) : (Kind.ofName name).name = name := by
  unfold Kind.ofName
  split
  · rfl
  · rfl
  · rfl
  · rfl
  · exact Mark.name_ofName name

/-- What a token says: a kind, and with it a name or the value of a literal. -/
inductive Lexeme where
  | ident (name : String)
  | number (value : Float)
  | text (value : String)
  | flag (value : Bool)
  | mark (mark : Mark)
  deriving DecidableEq

def Lexeme.kind : Lexeme → Kind
  | .ident _ => .ident
  | .number _ => .number
  | .text _ => .text
  | .flag _ => .flag
  | .mark m => .mark m

/-- Whether two lexemes say the same; numbers are compared as numbers. -/
def Lexeme.same : Lexeme → Lexeme → Bool
  | .ident a, .ident b => a == b
  | .number a, .number b => a == b
  | .text a, .text b => a == b
  | .flag a, .flag b => a == b
  | .mark a, .mark b => a == b
  | _, _ => false

/-- A lexeme and where it starts. Scanning counts lines and columns from one; a token built by hand
may claim any place. -/
structure Token where
  lexeme : Lexeme
  line : Int := 1
  column : Int := 1
  deriving DecidableEq

def Token.kind (t : Token) : Kind := t.lexeme.kind

def Token.isEof (t : Token) : Bool := t.kind == .mark .eof

/-- Whether two tokens say the same, wherever they stand. -/
def Token.same (a b : Token) : Bool := a.lexeme.same b.lexeme

/-- How many different lexemes a list holds. -/
def distinctCount : List Lexeme → Nat
  | [] => 0
  | lexeme :: rest =>
    distinctCount rest + if rest.any lexeme.same then 0 else 1

end SlangScript
