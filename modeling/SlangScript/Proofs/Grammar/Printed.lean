import SlangScript.Proofs.Grammar.Reader
import SlangScript.Proofs.Grammar.Spelled
import SlangScript.Proofs.Node.Printer
import SlangScript.Proofs.Node.Shape
import SlangScript.Proofs.Token.Cut

/-!
The lexemes of a program spell it out, so the grammar derives them as that program: the parentheses
that are written are enough, and where one is not written the levels of the operators make up for
it.
-/

namespace SlangScript.Grammar

open Parse

variable {ι : Type}

theorem Spells.looser {k : Nat} {ts : List Token} {e : Node Int} {n : Nat}
    (h : Spells (levels.drop (k + 1)) ts e n) : Spells (levels.drop k) ts e n := by
  by_cases more : k < levels.length
  · rw [List.drop_eq_getElem_cons more]
    exact .tighter h
  · rw [List.drop_eq_nil_of_le (by omega)] at h ⊢
    exact h

theorem Spells.loosen {j k : Nat} {ts : List Token} {e : Node Int} {n : Nat} (le : j ≤ k)
    (h : Spells (levels.drop k) ts e n) : Spells (levels.drop j) ts e n := by
  induction le with
  | refl => exact h
  | step _ ih => exact ih h.looser

theorem exists_level {op : BinaryOp} (known : op ∈ BinaryOp.known) :
    ∃ level : Level, levels.drop op.level = level :: levels.drop (op.level + 1) ∧
      level (.mark op.mark) = some op := by
  cases op with
  | unknown name => simp [BinaryOp.known] at known
  | _ => exact ⟨_, rfl, rfl⟩

theorem unaryOp?_mark {op : UnaryOp} (known : op ∈ UnaryOp.known) :
    unaryOp? (.mark op.mark) = some op := by
  cases op with
  | unknown name => simp [UnaryOp.known] at known
  | not | neg => rfl

theorem kind_of_lexeme {t : Token} {mark : Mark} (h : t.lexeme = .mark mark) :
    t.kind = .mark mark := by
  rw [Token.kind, h]
  rfl

/-- Tokens with the lexemes `lexemes` spell `e` at the level `k`, apart from its tags. -/
def Printed (e : Node ι) (lexemes : List Lexeme) (k n : Nat) : Prop :=
  ∀ ts : List Token, ts.map Token.lexeme = lexemes →
    ∃ e' : Node Int, e'.untag = e.untag ∧ Spells (levels.drop k) ts e' n

/-- An expression without parentheses around it is spelled at its own level, and one in parentheses
at every level. -/
theorem Printed.enclose {e : Node ι} (h : Printed e e.lexemes e.level e.nesting) {k : Nat}
    {needed : Bool} (loose : needed = false → k ≤ e.level) (tightest : k ≤ 5) :
    Printed e (enclose needed e.lexemes) k (e.nesting + encloseCost needed) := by
  intro ts same
  cases needed with
  | false =>
      obtain ⟨e', erased, spelled⟩ := h ts same
      exact ⟨e', erased, spelled.loosen (loose rfl)⟩
  | true =>
      obtain ⟨t, rest, rfl, opening, same⟩ := List.map_eq_cons_iff.mp same
      obtain ⟨inner, last, rfl, between, same⟩ := List.map_eq_append_iff.mp same
      obtain ⟨u, rfl, closing⟩ := List.map_eq_singleton_iff.mp same
      obtain ⟨e', erased, spelled⟩ := h inner between
      have whole : Spells levels inner e' e.nesting := spelled.loosen (Nat.zero_le _)
      -- In parentheses it is a unary expression, and so an expression of every level.
      have atom : Spells (levels.drop 5) (t :: (inner ++ [u])) e' (e.nesting + expressionCost) :=
        .closed (kind_of_lexeme opening) whole (kind_of_lexeme closing)
      exact ⟨e', erased, by simpa [encloseCost] using atom.loosen tightest⟩

theorem level_le {op : BinaryOp} (known : op ∈ BinaryOp.known) : op.level + 1 ≤ 5 := by
  revert op
  decide

theorem printed {e : Node ι} (h : e.IsExpression) : Printed e e.lexemes e.level e.nesting := by
  induction h with
  | number tag value =>
      intro ts same
      obtain ⟨t, rfl, single⟩ := List.map_eq_singleton_iff.mp same
      exact ⟨_, rfl, .number single⟩
  | text tag value =>
      intro ts same
      obtain ⟨t, rfl, single⟩ := List.map_eq_singleton_iff.mp same
      exact ⟨_, rfl, .text single⟩
  | flag tag value =>
      intro ts same
      obtain ⟨t, rfl, single⟩ := List.map_eq_singleton_iff.mp same
      exact ⟨_, rfl, .flag single⟩
  | var tag name =>
      intro ts same
      obtain ⟨t, rfl, single⟩ := List.map_eq_singleton_iff.mp same
      exact ⟨_, rfl, .var single⟩
  | @binary tag left right op known _ _ ihl ihr =>
      intro ts same
      obtain ⟨before, rest, rfl, sameL, same⟩ := List.map_eq_append_iff.mp same
      obtain ⟨t, after, rfl, sign, sameR⟩ := List.map_eq_cons_iff.mp same
      obtain ⟨level, here, found⟩ := exists_level known
      have tight := level_le known
      have left' : Printed left _ op.level _ :=
        ihl.enclose (fun needed => Nat.le_of_not_lt (of_decide_eq_false needed)) (by omega)
      have right' : Printed right _ (op.level + 1) _ :=
        ihr.enclose (fun needed => Nat.lt_of_not_le (of_decide_eq_false needed)) tight
      obtain ⟨l, erasedL, spelledL⟩ := left' before sameL
      obtain ⟨r, erasedR, spelledR⟩ := right' after sameR
      refine ⟨.binary t.line l op r, by simp only [Node.untag, erasedL, erasedR], ?_⟩
      rw [here] at spelledL
      have whole := Spells.binary spelledL (by rwa [kind_of_lexeme sign]) spelledR
      rw [Node.level, here]
      exact whole
  | @unary tag op operand known _ ih =>
      intro ts same
      obtain ⟨t, rest, rfl, sign, same⟩ := List.map_eq_cons_iff.mp same
      have operand' : Printed operand _ 5 _ :=
        ih.enclose (fun needed => Nat.le_of_not_lt (of_decide_eq_false needed)) (Nat.le_refl _)
      obtain ⟨e, erased, spelled⟩ := operand' rest same
      refine ⟨.unary t.line op e, by simp only [Node.untag, erased], ?_⟩
      exact .unary (by rw [kind_of_lexeme sign, unaryOp?_mark known]) spelled

theorem printed_whole {e : Node ι} (h : e.IsExpression) {ts : List Token}
    (same : ts.map Token.lexeme = e.lexemes) :
    ∃ e' : Node Int, e'.untag = e.untag ∧ Spells levels ts e' e.nesting := by
  obtain ⟨e', erased, spelled⟩ := printed h ts same
  exact ⟨e', erased, spelled.loosen (Nat.zero_le _)⟩

def PrintedStatement (s : Node ι) : Prop :=
  ∀ ts : List Token, ts.map Token.lexeme = s.lexemes →
    ∃ s' : Node Int, s'.untag = s.untag ∧ SpellsStatement ts s' s.nesting

def PrintedBlock (ss : List (Node ι)) : Prop :=
  ∀ ts : List Token, ts.map Token.lexeme = Node.lexemesAll ss →
    ∃ ss' : List (Node Int), Node.untagAll ss' = Node.untagAll ss ∧
      SpellsBlock ts ss' (Node.nestingAll ss)

theorem PrintedStatement.block {ss : List (Node ι)} (h : ∀ s ∈ ss, PrintedStatement s) :
    PrintedBlock ss := by
  induction ss with
  | nil =>
      intro ts same
      obtain rfl := List.map_eq_nil_iff.mp same
      exact ⟨[], rfl, .nil⟩
  | cons s ss ih =>
      rw [List.forall_mem_cons] at h
      intro ts same
      obtain ⟨first, rest, rfl, sameS, sameB⟩ := List.map_eq_append_iff.mp same
      obtain ⟨s', erasedS, spelledS⟩ := h.1 first sameS
      obtain ⟨ss', erasedB, spelledB⟩ := ih h.2 rest sameB
      exact ⟨s' :: ss', by simp only [Node.untagAll, erasedS, erasedB], .cons spelledS spelledB⟩

theorem printed_condition {e : Node ι} (h : e.IsExpression) {ts : List Token}
    {behind : List Lexeme}
    (same : ts.map Token.lexeme = .mark .cond :: (e.lexemes ++ .mark .thenWord :: behind)) :
    ∃ (c u : Token) (test rest : List Token) (e' : Node Int), ts = c :: (test ++ u :: rest) ∧
      c.kind = .mark .cond ∧ u.kind = .mark .thenWord ∧ rest.map Token.lexeme = behind ∧
      e'.untag = e.untag ∧ Spells levels test e' e.nesting := by
  obtain ⟨c, rest, rfl, cond, same⟩ := List.map_eq_cons_iff.mp same
  obtain ⟨test, after, rfl, inner, same⟩ := List.map_eq_append_iff.mp same
  obtain ⟨u, rest, rfl, thenWord, same⟩ := List.map_eq_cons_iff.mp same
  obtain ⟨e', erased, spelled⟩ := printed_whole h inner
  exact ⟨c, u, test, rest, e', rfl, kind_of_lexeme cond, kind_of_lexeme thenWord, same, erased,
    spelled⟩

theorem PrintedBlock.closed {ss : List (Node ι)} (h : PrintedBlock ss) {ts : List Token}
    (same : ts.map Token.lexeme = Node.lexemesAll ss ++ [.mark .endWord]) :
    ∃ (inner : List Token) (v : Token) (ss' : List (Node Int)), ts = inner ++ [v] ∧
      v.kind = .mark .endWord ∧ Node.untagAll ss' = Node.untagAll ss ∧
      SpellsBlock inner ss' (Node.nestingAll ss) := by
  obtain ⟨inner, last, rfl, body, same⟩ := List.map_eq_append_iff.mp same
  obtain ⟨v, rfl, closing⟩ := List.map_eq_singleton_iff.mp same
  obtain ⟨ss', erased, spelled⟩ := h inner body
  exact ⟨inner, v, ss', rfl, kind_of_lexeme closing, erased, spelled⟩

theorem printedStatement {s : Node ι} (h : s.IsStatement) : PrintedStatement s := by
  induction h with
  | @declare tag name value h =>
      intro ts same
      obtain ⟨t, rest, rfl, start, same⟩ := List.map_eq_cons_iff.mp same
      obtain ⟨u, rest, rfl, ident, same⟩ := List.map_eq_cons_iff.mp same
      obtain ⟨v, rest, rfl, assign, same⟩ := List.map_eq_cons_iff.mp same
      obtain ⟨e, erased, spelled⟩ := printed_whole h same
      exact ⟨.declare t.line name e, by simp only [Node.untag, erased],
        .declare (kind_of_lexeme start) ident (kind_of_lexeme assign) spelled⟩
  | @assign tag name value h =>
      intro ts same
      obtain ⟨u, rest, rfl, ident, same⟩ := List.map_eq_cons_iff.mp same
      obtain ⟨v, rest, rfl, assign, same⟩ := List.map_eq_cons_iff.mp same
      obtain ⟨e, erased, spelled⟩ := printed_whole h same
      exact ⟨.assign u.line name e, by simp only [Node.untag, erased],
        .assign ident (kind_of_lexeme assign) spelled⟩
  | print h =>
      intro ts same
      obtain ⟨t, rest, rfl, start, same⟩ := List.map_eq_cons_iff.mp same
      obtain ⟨e, erased, spelled⟩ := printed_whole h same
      exact ⟨.print t.line e, by simp only [Node.untag, erased],
        .print (kind_of_lexeme start) (fun u member => absurd member (Option.not_mem_none u)) spelled⟩
  | debugPrint h =>
      intro ts same
      obtain ⟨t, rest, rfl, start, same⟩ := List.map_eq_cons_iff.mp same
      obtain ⟨e, erased, spelled⟩ := printed_whole h same
      exact ⟨.debugPrint t.line e, by simp only [Node.untag, erased],
        .debugPrint (kind_of_lexeme start) spelled⟩
  | ifThen hc _ ih =>
      intro ts same
      obtain ⟨t, rest, rfl, start, same⟩ := List.map_eq_cons_iff.mp same
      obtain ⟨c, u, test, rest, e, rfl, cond, thenWord, same, erasedC, spelledC⟩ :=
        printed_condition hc same
      obtain ⟨inner, v, body, rfl, endWord, erasedB, spelledB⟩ :=
        (PrintedStatement.block ih).closed same
      exact ⟨.ifThen t.line e body, by simp only [Node.untag, erasedC, erasedB],
        .ifThen (kind_of_lexeme start) cond spelledC thenWord spelledB endWord⟩
  | ifElse hc _ _ ihy ihn =>
      intro ts same
      obtain ⟨t, rest, rfl, start, same⟩ := List.map_eq_cons_iff.mp same
      obtain ⟨c, u, test, rest, e, rfl, cond, thenWord, same, erasedC, spelledC⟩ :=
        printed_condition hc same
      obtain ⟨first, after, rfl, body, same⟩ := List.map_eq_append_iff.mp same
      obtain ⟨w, rest, rfl, elseWord, same⟩ := List.map_eq_cons_iff.mp same
      obtain ⟨second, v, no, rfl, endWord, erasedN, spelledN⟩ :=
        (PrintedStatement.block ihn).closed same
      obtain ⟨yes, erasedY, spelledY⟩ := PrintedStatement.block ihy first body
      exact ⟨.ifElse t.line e yes no, by simp only [Node.untag, erasedC, erasedY, erasedN],
        .ifElse (kind_of_lexeme start) cond spelledC thenWord spelledY (kind_of_lexeme elseWord)
          spelledN endWord⟩
  | whileDo hc _ ih =>
      intro ts same
      obtain ⟨t, rest, rfl, start, same⟩ := List.map_eq_cons_iff.mp same
      obtain ⟨c, u, test, rest, e, rfl, cond, thenWord, same, erasedC, spelledC⟩ :=
        printed_condition hc same
      obtain ⟨inner, v, body, rfl, endWord, erasedB, spelledB⟩ :=
        (PrintedStatement.block ih).closed same
      exact ⟨.whileDo t.line e body, by simp only [Node.untag, erasedC, erasedB],
        .whileDo (kind_of_lexeme start) cond spelledC thenWord spelledB endWord⟩
  | breakOut tag =>
      intro ts same
      obtain ⟨t, rfl, start⟩ := List.map_eq_singleton_iff.mp same
      exact ⟨_, rfl, .breakOut (kind_of_lexeme start)⟩
  | continueOn tag =>
      intro ts same
      obtain ⟨t, rfl, start⟩ := List.map_eq_singleton_iff.mp same
      exact ⟨_, rfl, .continueOn (kind_of_lexeme start)⟩

/-- The lexemes of a program spell that program, whatever places their tokens have. -/
theorem spells_of_lexemes {program : List (Node ι)} (h : ∀ s ∈ program, s.IsStatement)
    {ts : List Token} (same : ts.map Token.lexeme = Node.lexemesAll program) :
    ∃ program' : List (Node Int), Node.untagAll program' = Node.untagAll program ∧
      SpellsBlock ts program' (Node.nestingAll program) :=
  PrintedStatement.block (fun s member => printedStatement (h s member)) ts same

theorem exists_body_of_lexemes {tokens : List Token} {lexemes : List Lexeme}
    (same : tokens.map Token.lexeme = lexemes ++ [.mark .eof]) : ∃ (body : List Token)
      (last : Token), tokens = body ++ [last] ∧ body.map Token.lexeme = lexemes ∧
        last.isEof = true := by
  obtain ⟨body, rest, rfl, front, behind⟩ := List.map_eq_append_iff.mp same
  obtain ⟨last, rfl, ends⟩ := List.map_eq_singleton_iff.mp behind
  exact ⟨body, last, rfl, front, by simp [Token.isEof, kind_of_lexeme ends]⟩

/-- The lexemes of a program, with the mark that ends a text, are derived as that program. -/
theorem program_of_lexemes {program : List (Node ι)} (h : ∀ s ∈ program, s.IsStatement)
    {tokens : List Token}
    (same : tokens.map Token.lexeme = Node.lexemesAll program ++ [.mark .eof]) :
    ∃ program' : List (Node Int), Node.untagAll program' = Node.untagAll program ∧
      Program tokens program' (Node.nestingAll program) := by
  obtain ⟨body, last, rfl, front, ends⟩ := exists_body_of_lexemes same
  obtain ⟨program', erased, spelled⟩ := spells_of_lexemes h front
  exact ⟨program', erased, last, ends, spelled.derived [last]⟩

theorem not_isEof_of_lexeme {t : Token} (h : t.lexeme ≠ .mark .eof) : t.isEof = false := by
  rw [← Bool.not_eq_true]
  intro isEof
  exact h (Token.lexeme_of_kind (Token.kind_of_isEof isEof))

theorem endsOnce_of_lexemes {lexemes : List Lexeme} (inside : ∀ l ∈ lexemes, l ≠ .mark .eof)
    {tokens : List Token} (same : tokens.map Token.lexeme = lexemes ++ [.mark .eof]) :
    EndsOnce tokens := by
  obtain ⟨body, last, rfl, front, ends⟩ := exists_body_of_lexemes same
  refine ⟨body, last, rfl, ends, fun t member => ?_⟩
  exact not_isEof_of_lexeme (inside t.lexeme (front ▸ List.mem_map_of_mem member))

/-- No source text has the mark of the end anywhere but at its end. -/
theorem endsOnce_tokenize (source : String) : EndsOnce (tokenize source) := by
  obtain ⟨lexemes, cuts⟩ := exists_cuts source.toList
  exact endsOnce_of_lexemes cuts.ne_eof (lexemes_tokenize_of_cuts cuts)

end SlangScript.Grammar
