import SlangScript.Proofs.Grammar.Expression
import SlangScript.Proofs.Grammar.Recovery

/-!
What reading gives without a report is derived: a statement, a block up to its terminator, and a
list of statements. Every failure is reported, so in a list that reports nothing each turn gave a
statement.
-/

namespace SlangScript.Grammar

open Parse

/-- A block of at most some nesting, with the cost of a block, up to one of the terminators or to
the end of the text. -/
def BlockWithin (depth : Nat) (terminators : List Kind) (a : List Token) (ss : List (Node Int))
    (b : List Token) : Prop :=
  (∃ n, n + blockCost ≤ depth ∧ Block a ss b n) ∧ Starts (.mark .eof :: terminators) b

def StatementWithin (depth : Nat) (a : List Token) (s : Node Int) (b : List Token) : Prop :=
  ∃ n ≤ depth, Statement a s b n

theorem yields_declaration {depth : Nat} {expression : Parse (Node Int)}
    (h : Yields expression (Within depth)) :
    Yields (declaration expression) (StatementWithin depth) := by
  refine .of_expect (by decide) fun t start => .of_current fun u => ?_
  split
  · next name same =>
      refine .of_advance (by simp [Token.kind, same, Lexeme.kind]) ?_
      refine .of_expect (by decide) fun v assign => (h.map _).mono ?_
      rintro a s b ⟨e, ⟨⟨n, within, derived⟩, _⟩, rfl⟩
      exact ⟨_, within, .declare start same assign derived⟩
  · exact yields_failHere _

theorem yields_assignment {depth : Nat} {expression : Parse (Node Int)}
    (h : Yields expression (Within depth)) :
    Yields (assignment expression) (StatementWithin depth) := by
  refine .of_current fun u => ?_
  split
  · next name same =>
      refine .of_advance (by simp [Token.kind, same, Lexeme.kind]) (.of_current fun v => ?_)
      split
      · exact yields_failHere _
      · next assign =>
          have kind : v.kind = .mark .assign := Decidable.not_not.mp assign
          refine .of_advance (by simp [kind]) ((h.map _).mono ?_)
          rintro a s b ⟨e, ⟨⟨n, within, derived⟩, _⟩, rfl⟩
          exact ⟨_, within, .assign same kind derived⟩
  · exact yields_failHere _

theorem optional_of_takeIf {word : Mark} {a b : List Token} {taken : Bool}
    (h : ∃ t rest, a = t :: rest ∧ (taken = true ∧ t.kind = .mark word ∧ b = rest ∨
      taken = false ∧ t.kind ≠ .mark word ∧ b = a)) : Optional word a b := by
  obtain ⟨t, rest, rfl, ⟨_, same, rfl⟩ | ⟨_, _, rfl⟩⟩ := h
  · exact .present same
  · exact .absent

theorem yields_printStatement {depth : Nat} {expression : Parse (Node Int)}
    (h : Yields expression (Within depth)) :
    Yields (printStatement expression) (StatementWithin depth) := by
  refine .of_expect (by decide) fun t start => ?_
  refine ((yields_takeIf (by decide)).bind fun _ => h.map _).mono ?_
  rintro a s c ⟨taken, b, word, e, ⟨⟨n, within, derived⟩, _⟩, rfl⟩
  exact ⟨_, within, .print start (optional_of_takeIf word) derived⟩

theorem yields_debugStatement {depth : Nat} {expression : Parse (Node Int)}
    (h : Yields expression (Within depth)) :
    Yields (debugStatement expression) (StatementWithin depth) := by
  refine .of_expect (by decide) fun t start => (h.map _).mono ?_
  rintro a s b ⟨e, ⟨⟨n, within, derived⟩, _⟩, rfl⟩
  exact ⟨_, within, .debugPrint start derived⟩

theorem yields_condition {depth : Nat} {expression : Parse (Node Int)}
    (h : Yields expression (Within depth)) :
    Yields (condition expression) fun a e b => ∃ n ≤ depth, Condition a e b n := by
  refine ((yields_takeIf (by decide)).bind fun _ => h.bind fun e =>
    (yields_takeIf (by decide)).map fun _ => e).mono ?_
  rintro a e d ⟨_, b, before, _, c, ⟨⟨n, within, derived⟩, _⟩, _, after, rfl⟩
  exact ⟨_, within, .intro (optional_of_takeIf before) derived (optional_of_takeIf after)⟩

theorem close_of_takeIf {a b : List Token} {taken : Bool}
    (ends : Starts [.mark .eof, .mark .endWord] a)
    (h : ∃ t rest, a = t :: rest ∧ (taken = true ∧ t.kind = .mark .endWord ∧ b = rest ∨
      taken = false ∧ t.kind ≠ .mark .endWord ∧ b = a)) : Close a b := by
  obtain ⟨t, rest, rfl, ⟨_, same, rfl⟩ | ⟨_, other, rfl⟩⟩ := h
  · exact .written same
  · obtain ⟨_, _, same, member⟩ := ends
    cases same
    exact .missing (by simpa [other] using member)

def ConditionalRest (depth : Nat) (t : Token) (test : Node Int) (yes : List (Node Int))
    (c : List Token) (s : Node Int) (f : List Token) : Prop :=
  ∀ a b m n, Condition a test b m → m ≤ depth → Block b yes c n → n + blockCost ≤ depth →
    Starts [.mark .eof, .mark .endWord, .mark .elseWord] c → StatementWithin depth (t :: a) s f

theorem yields_conditional {depth : Nat} {expression : Parse (Node Int)}
    {block : List Kind → Parse (List (Node Int))} (h : Yields expression (Within depth))
    (hb : ∀ terminators, Yields (block terminators) (BlockWithin depth terminators)) :
    Yields (conditional expression block) (StatementWithin depth) := by
  refine .of_expect (by decide) fun t start => ?_
  refine ((yields_condition h).bind fun test => (hb _).bind fun yes =>
    Yields.of_takeIf (R := ConditionalRest depth t test yes) (by decide) ?_ ?_).mono ?_
  · refine ((hb _).bind fun no => (yields_takeIf (by decide)).map fun _ => _).mono ?_
    rintro c s f ⟨no, d, ⟨⟨k, within, inner⟩, ends⟩, taken, close, rfl⟩ u isElse
    intro a b m n condition within₁ first within₂ _
    exact ⟨_, by omega,
      .ifElse start condition first isElse inner (close_of_takeIf ends close)⟩
  · refine ((yields_takeIf (by decide)).map fun _ => _).mono ?_
    rintro c s d ⟨taken, close, rfl⟩ notElse a b m n condition within₁ first within₂ ends
    obtain ⟨u, rest, rfl, member⟩ := ends
    have ends' : Starts [.mark .eof, .mark .endWord] (u :: rest) :=
      ⟨u, rest, rfl, by simpa [notElse u rfl] using member⟩
    exact ⟨_, by omega, .ifThen start condition first (close_of_takeIf ends' close)⟩
  · rintro a s d ⟨test, b, ⟨m, within₁, condition⟩, yes, c, ⟨⟨n, within₂, first⟩, ends⟩, rest⟩
    exact rest a b m n condition within₁ first within₂ ends

theorem yields_repetition {depth : Nat} {expression : Parse (Node Int)}
    {block : List Kind → Parse (List (Node Int))} (h : Yields expression (Within depth))
    (hb : ∀ terminators, Yields (block terminators) (BlockWithin depth terminators)) :
    Yields (repetition expression block) (StatementWithin depth) := by
  refine .of_expect (by decide) fun t start => ?_
  refine ((yields_condition h).bind fun test => (hb _).bind fun body =>
    (yields_takeIf (by decide)).map fun _ => _).mono ?_
  rintro a s d ⟨test, b, ⟨m, within₁, condition⟩, body, c, ⟨⟨n, within₂, inner⟩, ends⟩, _, close,
    rfl⟩
  exact ⟨_, by omega, .whileDo start condition inner (close_of_takeIf ends close)⟩

theorem yields_statementWith {depth : Nat} {expression : Parse (Node Int)}
    {block : List Kind → Parse (List (Node Int))} (h : Yields expression (Within depth))
    (hb : ∀ terminators, Yields (block terminators) (BlockWithin depth terminators)) :
    Yields (statementWith expression block) (StatementWithin depth) := by
  refine .of_current fun t => ?_
  split
  · exact (yields_declaration h).mono fun derived _ _ => derived
  · exact (yields_printStatement h).mono fun derived _ _ => derived
  · exact (yields_debugStatement h).mono fun derived _ _ => derived
  · exact (yields_conditional h hb).mono fun derived _ _ => derived
  · exact (yields_repetition h hb).mono fun derived _ _ => derived
  · next same =>
      refine .of_advance (by simp [same]) ((Yields.pure _).mono ?_)
      rintro a s b ⟨rfl, rfl⟩
      exact ⟨0, Nat.zero_le _, .continueOn same⟩
  · next same =>
      refine .of_advance (by simp [same]) ((Yields.pure _).mono ?_)
      rintro a s b ⟨rfl, rfl⟩
      exact ⟨0, Nat.zero_le _, .breakOut same⟩
  · exact (yields_assignment h).mono fun derived _ _ => derived
  · exact yields_failHere _

theorem grows_statementsFrom {statement : Parse (Node Int)}
    (h : ∀ r, r.reported.size ≤ (outcome statement r).2.reported.size) (terminators : List Kind)
    (ahead : List Token) (r : Reading) : r.reported.size ≤
      ((statementsFrom statement terminators ahead).run r).2.reported.size := by
  induction ahead generalizing r with
  | nil => exact Nat.le_refl _
  | cons t ahead ih =>
      cases ends : endsAt terminators r.cursor.current with
      | true => exact Nat.le_of_eq (by rw [run_statementsFrom_end ends])
      | false =>
          have grows := h r
          rcases given : outcome statement r with ⟨failure | node, r₁⟩ <;> rw [given] at grows
          · have more := ih (recover terminators r failure r₁)
            rw [reported_recover] at more
            rw [run_statementsFrom_error ends given]
            exact Nat.le_trans grows (Nat.le_of_succ_le more)
          · rw [run_statementsFrom_ok ends given]
            exact Nat.le_trans grows (ih r₁)

/-- A turn that ends without a report, of itself or of what comes behind it, gave a statement. -/
theorem exists_of_statementsFrom {statement : Parse (Node Int)}
    (h : ∀ r, r.reported.size ≤ (outcome statement r).2.reported.size) {terminators : List Kind}
    {t : Token} {ahead : List Token} {r r₂ : Reading} {ss : List (Node Int)}
    (ends : endsAt terminators r.cursor.current = false)
    (same : (statementsFrom statement terminators (t :: ahead)).run r = (ss, r₂))
    (quiet : r₂.reported.size = r.reported.size) :
    ∃ s rest r₁, ss = s :: rest ∧ outcome statement r = (.ok s, r₁) ∧
      (statementsFrom statement terminators ahead).run r₁ = (rest, r₂) ∧
      r₁.reported.size = r.reported.size := by
  have grows := h r
  rcases given : outcome statement r with ⟨failure | s, r₁⟩ <;> rw [given] at grows
  -- A failure is reported, and no report is taken back.
  · rw [run_statementsFrom_error ends given] at same
    have more := grows_statementsFrom h terminators ahead (recover terminators r failure r₁)
    rw [same, reported_recover] at more
    simp only at grows more
    omega
  · rw [run_statementsFrom_ok ends given] at same
    obtain ⟨rfl, rfl⟩ := Prod.mk.inj same
    have more := grows_statementsFrom h terminators ahead r₁
    exact ⟨s, _, r₁, rfl, rfl, rfl, Nat.le_antisymm (Nat.le_trans more (Nat.le_of_eq quiet)) grows⟩

/-- A list of statements that reports nothing is a block; every failure would be reported. The
induction is on the tokens ahead, of which each statement takes at least one. -/
theorem yields_statementsFrom {depth : Nat} {statement : Parse (Node Int)}
    (h : Yields statement (StatementWithin depth)) (terminators : List Kind) (ahead : List Token) :
    Yields (liftM (statementsFrom statement terminators ahead)) fun a ss b =>
      a.length ≤ ahead.length + 1 → (∃ n ≤ depth, Block a ss b n) ∧
        Starts (.mark .eof :: terminators) b := by
  induction ahead with
  | nil =>
      refine Yields.ended ((Yields.pure []).mono ?_)
      rintro a ss b ⟨rfl, rfl⟩ ⟨body, last, rfl, ends⟩ bound
      have empty : body = [] := by simpa using bound
      have isEof : last.kind = .mark .eof := Token.kind_of_isEof ends
      subst empty
      exact ⟨⟨0, Nat.zero_le _, .nil⟩, last, [], rfl, by simp [isEof]⟩
  | cons t ahead ih =>
      refine ⟨grows_statementsFrom h.grows terminators (t :: ahead), ?_⟩
      intro r ss r₂ same quiet bound
      rw [outcome_liftM_eq_ok] at same
      cases ends : endsAt terminators r.cursor.current with
      | true =>
          rw [run_statementsFrom_end ends] at same
          cases same
          obtain ⟨rest, tokens⟩ := r.cursor.tokens_eq_current
          refine ⟨⟨0, Nat.zero_le _, .nil⟩, _, rest, tokens, ?_⟩
          simpa [endsAt, Token.isEof] using ends
      | false =>
          obtain ⟨s, rest, r₁, rfl, given, onward, quiet₁⟩ :=
            exists_of_statementsFrom h.grows ends same quiet
          obtain ⟨m, within, derived⟩ := h.gives given quiet₁
          have shorter := derived.passes.2
          rw [List.length_cons] at bound
          obtain ⟨⟨n, within', behind⟩, stop⟩ := ih.gives (outcome_liftM_eq_ok.mpr onward)
            (quiet.trans quiet₁.symm) (by omega)
          exact ⟨⟨max m n, Nat.max_le.mpr ⟨within, within'⟩, .cons derived behind⟩, stop⟩

theorem yields_statementsWith {depth : Nat} {statement : Parse (Node Int)}
    (h : Yields statement (StatementWithin depth)) (terminators : List Kind) :
    Yields (liftM (statementsWith statement terminators)) fun a ss b =>
      (∃ n ≤ depth, Block a ss b n) ∧ Starts (.mark .eof :: terminators) b := by
  refine (yields_ahead.bind fun ahead => yields_statementsFrom h terminators ahead).mono ?_
  rintro a ss b ⟨ahead, _, ⟨rfl, length⟩, derived⟩
  exact derived (by omega)

theorem yields_block_of {depth : Nat} (h : blockCost ≤ depth →
      Yields (statement (depth - blockCost)) (StatementWithin (depth - blockCost)))
    (terminators : List Kind) :
    Yields (block depth terminators) (BlockWithin depth terminators) := by
  by_cases enough : blockCost ≤ depth
  · rw [block, if_pos enough]
    refine (yields_statementsWith (h enough) terminators).mono ?_
    rintro a ss b ⟨⟨n, within, derived⟩, ends⟩
    exact ⟨⟨n, by omega, derived⟩, ends⟩
  · rw [block, if_neg enough]
    exact yields_tooDeep

theorem yields_statement (depth : Nat) : Yields (statement depth) (StatementWithin depth) := by
  induction depth using Nat.strongRecOn with
  | ind depth ih =>
      rw [statement_eq]
      refine yields_statementWith (yields_expression depth) (yields_block_of fun enough => ih _ ?_)
      simp only [blockCost] at enough ⊢
      omega

end SlangScript.Grammar
