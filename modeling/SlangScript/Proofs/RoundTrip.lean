import SlangScript.Proofs.Grammar.Printed
import SlangScript.Proofs.Grammar.Program
import SlangScript.Proofs.Number.Numeral
import SlangScript.Proofs.Token.Spelling

/-!
Programs are read back from their texts: a program whose names, texts and numbers can be written at
all, spelled with single spaces between its lexemes and with no more parentheses than it needs, is
read as that program, and nothing is wrong with it.
-/

namespace SlangScript

open Grammar Text

variable {ι : Type}

/-- A mark that a source text can have, apart from the one of its end; or no mark. -/
def Lexeme.Regular : Lexeme → Prop
  | .mark m => m ∈ Mark.known ∧ m ≠ .eof
  | _ => True

/-- A lexeme that can be written: a name is a word that is no keyword, a text is sayable, and a
number is what some run of digits and points counts as. -/
def Lexeme.Expressible : Lexeme → Prop
  | .ident name => IsName name
  | .number value => ∃ run, run ≠ [] ∧ run.all isNumeralChar = true ∧
      Lexeme.ofNumeral run = .number value
  | .text value => IsSayable value.toList
  | .flag _ | .mark _ => True

/-- The spelling `numeral` of the numbers among lexemes is a run of digits and points that counts as
the number and starts with a digit. -/
def SpellsNumbers (numeral : Float → List Char) (lexemes : List Lexeme) : Prop :=
  ∀ value, .number value ∈ lexemes →
    IsRun (numeral value) ∧ Lexeme.ofNumeral (numeral value) = .number value

theorem forall_mem_enclose {good : Lexeme → Prop} {inner : List Lexeme} (needed : Bool)
    (opening : good (.mark .lparen)) (closing : good (.mark .rparen)) (h : ∀ l ∈ inner, good l) :
    ∀ l ∈ enclose needed inner, good l := by
  cases needed with
  | false => exact h
  | true =>
      intro l member
      rcases List.mem_cons.mp member with rfl | member
      · exact opening
      · rcases List.mem_append.mp member with member | member
        · exact h l member
        · exact List.mem_singleton.mp member ▸ closing

theorem regular_enclose {inner : List Lexeme} (needed : Bool) (h : ∀ l ∈ inner, l.Regular) :
    ∀ l ∈ enclose needed inner, l.Regular :=
  forall_mem_enclose needed (by simp [Lexeme.Regular, Mark.known])
    (by simp [Lexeme.Regular, Mark.known]) h

theorem regular_binaryOp {op : BinaryOp} (known : op ∈ BinaryOp.known) :
    (Lexeme.mark op.mark).Regular := by
  cases op with
  | unknown name => simp [BinaryOp.known] at known
  | _ => simp [Lexeme.Regular, BinaryOp.mark, Mark.known]

theorem regular_unaryOp {op : UnaryOp} (known : op ∈ UnaryOp.known) :
    (Lexeme.mark op.mark).Regular := by
  cases op with
  | unknown name => simp [UnaryOp.known] at known
  | not | neg => simp [Lexeme.Regular, UnaryOp.mark, Mark.known]

theorem Node.IsExpression.regular {e : Node ι} (h : e.IsExpression) : ∀ l ∈ e.lexemes, l.Regular := by
  induction h with
  | number | text | flag | var => simp [Node.lexemes, Lexeme.Regular]
  | binary known _ _ ihl ihr =>
      rw [Node.lexemes, List.forall_mem_append, List.forall_mem_cons]
      exact ⟨regular_enclose _ ihl, regular_binaryOp known, regular_enclose _ ihr⟩
  | unary known _ ih =>
      rw [Node.lexemes, List.forall_mem_cons]
      exact ⟨regular_unaryOp known, regular_enclose _ ih⟩

theorem regular_lexemesAll {ss : List (Node ι)} (h : ∀ s ∈ ss, ∀ l ∈ s.lexemes, l.Regular) :
    ∀ l ∈ Node.lexemesAll ss, l.Regular := by
  induction ss with
  | nil => simp [Node.lexemesAll]
  | cons s ss ih =>
      rw [List.forall_mem_cons] at h
      rw [Node.lexemesAll, List.forall_mem_append]
      exact ⟨h.1, ih h.2⟩

theorem Node.IsStatement.regular {s : Node ι} (h : s.IsStatement) : ∀ l ∈ s.lexemes, l.Regular := by
  induction h with
  | declare h | assign h | print h | debugPrint h =>
      simpa [Node.lexemes, Lexeme.Regular, Mark.known] using h.regular
  | ifThen hc _ ih | whileDo hc _ ih =>
      simpa [Node.lexemes, Lexeme.Regular, Mark.known, or_imp, forall_and] using
        And.intro hc.regular (regular_lexemesAll ih)
  | ifElse hc _ _ ihy ihn =>
      simpa [Node.lexemes, Lexeme.Regular, Mark.known, or_imp, forall_and] using
        And.intro hc.regular (And.intro (regular_lexemesAll ihy) (regular_lexemesAll ihn))
  | breakOut | continueOn => simp [Node.lexemes, Lexeme.Regular, Mark.known]

/-- A run of digits and points counts as a number that a run with a digit in front counts as. -/
theorem exists_isRun {run : List Char} (nonempty : run ≠ [])
    (inside : run.all isNumeralChar = true) :
    ∃ run', IsRun run' ∧ Lexeme.ofNumeral run' = Lexeme.ofNumeral run := by
  obtain ⟨c, rest, rfl⟩ := List.exists_cons_of_ne_nil nonempty
  rcases Bool.or_eq_true_iff.mp (List.all_eq_true.mp inside c (.head _)) with digit | point
  · exact ⟨c :: rest, ⟨digit, inside⟩, rfl⟩
  -- A run with a point in front counts as the same number with a zero before it.
  · obtain rfl := beq_iff_eq.mp point
    have digit : isDigit '0' = true := by decide
    have zero : isNumeralChar '0' = true := by decide
    refine ⟨'0' :: '.' :: rest, ⟨digit, ?_⟩, ?_⟩
    · rw [List.all_cons, zero, inside]
      rfl
    · rw [List.all_cons, Bool.and_eq_true] at inside
      exact ofNumeral_zero_point (List.all_eq_true.mp inside.2)

theorem exists_spellsNumbers {lexemes : List Lexeme} (h : ∀ l ∈ lexemes, l.Expressible) :
    ∃ numeral, SpellsNumbers numeral lexemes := by
  have each (value : Float) : ∃ run, .number value ∈ lexemes →
      IsRun run ∧ Lexeme.ofNumeral run = .number value := by
    by_cases member : .number value ∈ lexemes
    · obtain ⟨run, nonempty, inside, counts⟩ := h _ member
      obtain ⟨run', isRun, same⟩ := exists_isRun nonempty inside
      exact ⟨run', fun _ => ⟨isRun, same.trans counts⟩⟩
    · exact ⟨[], fun member' => absurd member' member⟩
  exact Classical.skolem.mp each

theorem spelled_of_expressible {numeral : Float → List Char} {lexemes : List Lexeme}
    (expressible : ∀ l ∈ lexemes, l.Expressible) (regular : ∀ l ∈ lexemes, l.Regular)
    (numbers : SpellsNumbers numeral lexemes) : ∀ l ∈ lexemes, l.Spelled numeral := by
  intro l member
  cases l with
  | ident | text => exact expressible _ member
  | number value => exact numbers value member
  | flag => exact trivial
  | mark m => exact regular _ member

theorem endsOnce_of_regular {lexemes : List Lexeme} (regular : ∀ l ∈ lexemes, l.Regular)
    {tokens : List Token} (same : tokens.map Token.lexeme = lexemes ++ [.mark .eof]) :
    EndsOnce tokens := by
  refine endsOnce_of_lexemes (fun l member => ?_) same
  rintro rfl
  exact (regular _ member).2 rfl

/-- A program that can be written at all can be spelled, and however its numbers are spelled, its
text is read as the program, and nothing is wrong with it. -/
theorem parse_tokenize_spaced (program : List (Node ι)) (shape : ∀ s ∈ program, s.IsStatement)
    (expressible : ∀ l ∈ Node.lexemesAll program, l.Expressible)
    (shallow : Node.nestingAll program ≤ Parse.depthLimit) :
    (∃ numeral, SpellsNumbers numeral (Node.lexemesAll program)) ∧
      ∀ numeral, SpellsNumbers numeral (Node.lexemesAll program) →
        ∃ program' : List (Node Int), Node.untagAll program' = Node.untagAll program ∧
          parse (tokenize (String.ofList (spaced numeral (Node.lexemesAll program)))) =
            ⟨program', []⟩ := by
  have regular := regular_lexemesAll fun s member => (shape s member).regular
  refine ⟨exists_spellsNumbers expressible, fun numeral numbers => ?_⟩
  have tokens := lexemes_tokenize (spelled_of_expressible expressible regular numbers)
  obtain ⟨program', erased, derived⟩ := program_of_lexemes shape tokens
  exact ⟨program', erased, parse_of_program (endsOnce_of_regular regular tokens) shallow derived⟩

def twoAndHalf : Float := (Number.read? "2.5".toList).getD 0

/-- A program with a right operand as loose as its operator, a binary operator under a unary one, a
text that ends in a backslash, and an empty block that is written. -/
def parenthesized : List (Node Unit) :=
  [.declare () "x" (.binary () (.var () "y") .sub (.binary () (.number () twoAndHalf) .sub
    (.flag () true))),
    .ifElse () (.unary () .not (.binary () (.var () "x") .lt (.text () "\\"))) [.breakOut ()] []]

theorem parenthesized_isStatement : ∀ s ∈ parenthesized, s.IsStatement := by
  have minus : BinaryOp.sub ∈ BinaryOp.known := by decide
  have less : BinaryOp.lt ∈ BinaryOp.known := by decide
  have value : (Node.binary () (.var () "y") .sub (.binary () (.number () twoAndHalf) .sub
      (.flag () true))).IsExpression :=
    .binary minus (.var () "y") (.binary minus (.number () twoAndHalf) (.flag () true))
  have condition : (Node.unary () .not (.binary () (.var () "x") .lt (.text () "\\"))).IsExpression :=
    .unary (by decide) (.binary less (.var () "x") (.text () "\\"))
  have body : ∀ s ∈ [Node.breakOut ()], s.IsStatement :=
    List.forall_mem_singleton.mpr (.breakOut ())
  exact List.forall_mem_cons.mpr ⟨.declare value, List.forall_mem_singleton.mpr
    (.ifElse condition body fun _ member => nomatch member)⟩

theorem parenthesized_expressible : ∀ l ∈ Node.lexemesAll parenthesized, l.Expressible := by
  have x : IsName "x" := by decide
  have y : IsName "y" := by decide
  have number : (Lexeme.number twoAndHalf).Expressible :=
    ⟨"2.5".toList, by decide, by decide, rfl⟩
  have backslash : IsSayable ['\\'] := by simp [IsSayable]
  simpa [parenthesized, Node.lexemesAll, Node.lexemes, enclose, Node.level, BinaryOp.level,
    Lexeme.Expressible] using And.intro x (And.intro y (And.intro number (And.intro x backslash)))

theorem parse_tokenize_parenthesized : (∀ s ∈ parenthesized, s.IsStatement) ∧
    (∀ l ∈ Node.lexemesAll parenthesized, l.Expressible) ∧
    Node.nestingAll parenthesized ≤ Parse.depthLimit ∧
    (∃ numeral, SpellsNumbers numeral (Node.lexemesAll parenthesized)) ∧
    ∀ numeral, SpellsNumbers numeral (Node.lexemesAll parenthesized) →
      ∃ program' : List (Node Int), Node.untagAll program' = Node.untagAll parenthesized ∧
        parse (tokenize (String.ofList (spaced numeral (Node.lexemesAll parenthesized)))) =
          ⟨program', []⟩ :=
  ⟨parenthesized_isStatement, parenthesized_expressible, by decide,
    parse_tokenize_spaced parenthesized parenthesized_isStatement parenthesized_expressible
      (by decide)⟩

end SlangScript
