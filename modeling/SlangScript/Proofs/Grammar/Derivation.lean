import SlangScript.Grammar.Statement

/-!
The grammar of programs, as derivations. A derivation leads from the tokens ahead to the tokens that
are left after a phrase, so the token behind the phrase is in sight where a rule depends on it: a
closing parenthesis may be missing in front of anything that could not go on the expression, and the
word that closes a block may be missing at the end of the text. Every derivation has a nesting,
which counts what its parentheses, unary operators and blocks cost.
-/

namespace SlangScript.Grammar

open Parse

/-- The levels of binary operators, the loosest first. -/
def levels : List Level := [disjunctionOps, conjunctionOps, comparisonOps, sumOps, productOps]

/-- A token at which a level has an operator does not end a text. -/
theorem inside_of_joins {level : Level} {kind : Kind} {op : BinaryOp}
    (atEnd : level (.mark .eof) = none) (joins : level kind = some op) : kind ≠ .mark .eof := by
  rintro rfl
  rw [atEnd] at joins
  cases joins

/-- No operator of one of the levels comes next. -/
def Stops (levels : List Level) (ahead : List Token) : Prop :=
  ∀ token ∈ ahead.head?, ∀ level ∈ levels, level token.kind = none

/-- An expression of some levels: `Expression levels a e b n` derives the tree `e` from the tokens
`a` up to `b`, with nesting `n`. Without a level it is unary. -/
inductive Expression : List Level → List Token → Node Int → List Token → Nat → Prop
  | number {t b x} : t.lexeme = .number x → Expression [] (t :: b) (.number t.line x) b 0
  | text {t b s} : t.lexeme = .text s → Expression [] (t :: b) (.text t.line s) b 0
  | flag {t b x} : t.lexeme = .flag x → Expression [] (t :: b) (.flag t.line x) b 0
  | var {t b name} : t.lexeme = .ident name → Expression [] (t :: b) (.var t.line name) b 0
  | closed {t u a b e n} : t.kind = .mark .lparen → Expression levels a e (u :: b) n →
      u.kind = .mark .rparen → Expression [] (t :: a) e b (n + expressionCost)
  | unclosed {t u a b e n} : t.kind = .mark .lparen → Expression levels a e (u :: b) n →
      u.kind ≠ .mark .rparen → Stops levels (u :: b) →
      Expression [] (t :: a) e (u :: b) (n + expressionCost)
  | unary {t op a b e n} : unaryOp? t.kind = some op → Expression [] a e b n →
      Expression [] (t :: a) (.unary t.line op e) b (n + 1)
  | tighter {level ls a b e n} : Expression ls a e b n → Expression (level :: ls) a e b n
  | binary {level ls t op a b c l r m n} : Expression (level :: ls) a l (t :: b) m →
      level t.kind = some op → Expression ls b r c n →
      Expression (level :: ls) a (.binary t.line l op r) c (max m n)

/-- A word that may be missing. -/
inductive Optional (word : Mark) : List Token → List Token → Prop
  | absent {a} : Optional word a a
  | present {t a} : t.kind = .mark word → Optional word (t :: a) a

/-- The condition of a conditional or a loop, with the words that may stand around it. -/
inductive Condition : List Token → Node Int → List Token → Nat → Prop
  | intro {a b c d e n} : Optional .cond a b → Expression levels b e c n → Optional .thenWord c d →
      Condition a e d (n + expressionCost)

/-- The word that closes a block. It is missing only at the end of the text. -/
inductive Close : List Token → List Token → Prop
  | written {t a} : t.kind = .mark .endWord → Close (t :: a) a
  | missing {t a} : t.kind = .mark .eof → Close (t :: a) (t :: a)

mutual

inductive Statement : List Token → Node Int → List Token → Nat → Prop
  | declare {t u v name a b e n} : t.kind = .mark .letWord → u.lexeme = .ident name →
      v.kind = .mark .assign → Expression levels a e b n →
      Statement (t :: u :: v :: a) (.declare t.line name e) b (n + expressionCost)
  | assign {u v name a b e n} : u.lexeme = .ident name → v.kind = .mark .assign →
      Expression levels a e b n →
      Statement (u :: v :: a) (.assign u.line name e) b (n + expressionCost)
  | print {t a b c e n} : t.kind = .mark .print → Optional .highkey a b →
      Expression levels b e c n → Statement (t :: a) (.print t.line e) c (n + expressionCost)
  | debugPrint {t a b e n} : t.kind = .mark .lowkey → Expression levels a e b n →
      Statement (t :: a) (.debugPrint t.line e) b (n + expressionCost)
  | breakOut {t a} : t.kind = .mark .breakWord → Statement (t :: a) (.breakOut t.line) a 0
  | continueOn {t a} : t.kind = .mark .continueWord → Statement (t :: a) (.continueOn t.line) a 0
  | ifThen {t a b c d e yes m n} : t.kind = .mark .ifWord → Condition a e b m → Block b yes c n →
      Close c d → Statement (t :: a) (.ifThen t.line e yes) d (max m (n + blockCost))
  | ifElse {t u a b c d f e yes no m n k} : t.kind = .mark .ifWord → Condition a e b m →
      Block b yes (u :: c) n → u.kind = .mark .elseWord → Block c no d k → Close d f →
      Statement (t :: a) (.ifElse t.line e yes no) f (max m (max n k + blockCost))
  | whileDo {t a b c d e body m n} : t.kind = .mark .whileWord → Condition a e b m →
      Block b body c n → Close c d →
      Statement (t :: a) (.whileDo t.line e body) d (max m (n + blockCost))

inductive Block : List Token → List (Node Int) → List Token → Nat → Prop
  | nil {a} : Block a [] a 0
  | cons {a b c s ss m n} : Statement a s b m → Block b ss c n → Block a (s :: ss) c (max m n)

end

/-- A whole program: statements up to the token that ends the text. -/
def Program (tokens : List Token) (statements : List (Node Int)) (nesting : Nat) : Prop :=
  ∃ last, last.isEof = true ∧ Block tokens statements [last] nesting

/-- Only the last token ends the text. -/
def EndsOnce (tokens : List Token) : Prop :=
  ∃ body last, tokens = body ++ [last] ∧ last.isEof = true ∧ ∀ t ∈ body, t.isEof = false

def expressionStarts : List Kind :=
  [.number, .text, .flag, .ident, .mark .lparen, .mark .not, .mark .minus]

def Starts (kinds : List Kind) (ahead : List Token) : Prop :=
  ∃ t rest, ahead = t :: rest ∧ t.kind ∈ kinds

theorem kind_of_unaryOp {t : Token} {op : UnaryOp} (h : unaryOp? t.kind = some op) :
    t.kind = .mark .not ∨ t.kind = .mark .minus := by
  unfold unaryOp? at h
  split at h
  · next same => exact .inl same
  · next same => exact .inr same
  · cases h

theorem Expression.starts {ls : List Level} {a b : List Token} {e : Node Int} {n : Nat}
    (h : Expression ls a e b n) : Starts expressionStarts a := by
  induction h with
  | number same | text same | flag same | var same =>
      exact ⟨_, _, rfl, by simp [Token.kind, same, Lexeme.kind, expressionStarts]⟩
  | closed paren | unclosed paren => exact ⟨_, _, rfl, by simp [paren, expressionStarts]⟩
  | unary op =>
      rcases kind_of_unaryOp op with same | same <;>
        exact ⟨_, _, rfl, by simp [same, expressionStarts]⟩
  | tighter _ ih => exact ih
  | binary _ _ _ left _ => exact left

/-- At least one token is passed from `a` to `b`. -/
def Passes (a b : List Token) : Prop := b <:+ a ∧ b.length < a.length

theorem Passes.one (t : Token) (a : List Token) : Passes (t :: a) a :=
  ⟨List.suffix_cons t a, Nat.lt_succ_self _⟩

theorem Passes.trans {a b c : List Token} (h : Passes a b) (h' : c <:+ b) : Passes a c :=
  ⟨h'.trans h.1, Nat.lt_of_le_of_lt h'.length_le h.2⟩

theorem Passes.after {a b c : List Token} (h : b <:+ a) (h' : Passes b c) : Passes a c :=
  ⟨h'.1.trans h, Nat.lt_of_lt_of_le h'.2 h.length_le⟩

theorem Expression.passes {ls : List Level} {a b : List Token} {e : Node Int} {n : Nat}
    (h : Expression ls a e b n) : Passes a b := by
  induction h with
  | @number t b | @text t b | @flag t b | @var t b => exact .one t b
  | @closed t u a b _ _ _ _ _ ih => exact (Passes.one t a).trans ((List.suffix_cons u b).trans ih.1)
  | @unclosed t _ a _ _ _ _ _ _ _ ih | @unary t _ a _ _ _ _ _ ih => exact (Passes.one t a).trans ih.1
  | tighter _ ih => exact ih
  | @binary _ _ t _ _ b _ _ _ _ _ _ _ _ left right =>
      exact left.trans ((Passes.one t b).trans right.1).1

theorem Optional.suffix {word : Mark} {a b : List Token} (h : Optional word a b) : b <:+ a := by
  cases h with
  | absent => exact List.suffix_refl a
  | present => exact List.suffix_cons _ b

theorem Close.suffix {a b : List Token} (h : Close a b) : b <:+ a := by
  cases h with
  | written => exact List.suffix_cons _ b
  | missing => exact List.suffix_refl _

theorem Condition.passes {a b : List Token} {e : Node Int} {n : Nat} (h : Condition a e b n) :
    Passes a b := by
  cases h with
  | intro before derived after => exact (derived.passes.trans after.suffix).after before.suffix

/-- A statement takes at least one token, and nothing is skipped between statements. -/
theorem Statement.passes {a b : List Token} {s : Node Int} {n : Nat} (h : Statement a s b n) :
    Passes a b := by
  induction h using Statement.rec (motive_2 := fun a _ b _ _ => b <:+ a) with
  | @declare t u v _ a b _ _ _ _ _ derived =>
      exact (Passes.one t _).trans (derived.passes.1.trans (List.suffix_append [u, v] a))
  | @assign u v _ a b _ _ _ _ derived =>
      exact (Passes.one u _).trans (derived.passes.1.trans (List.suffix_cons v a))
  | @print t a b c _ _ _ word derived =>
      exact (Passes.one t a).trans (derived.passes.1.trans word.suffix)
  | @debugPrint t a b _ _ _ derived => exact (Passes.one t a).trans derived.passes.1
  | @breakOut t a | @continueOn t a => exact .one t a
  | @ifThen t a b c d _ _ _ _ _ test _ close ih | @whileDo t a b c d _ _ _ _ _ test _ close ih =>
      exact (Passes.one t a).trans (close.suffix.trans (ih.trans test.passes.1))
  | @ifElse t u a b c d f _ _ _ _ _ _ _ test _ _ _ close ihy ihn =>
      have rest := ihn.trans ((List.suffix_cons u c).trans (ihy.trans test.passes.1))
      exact (Passes.one t a).trans (close.suffix.trans rest)
  | nil => exact List.suffix_refl _
  | cons _ _ ihs ihb => exact ihb.trans ihs.1

end SlangScript.Grammar
