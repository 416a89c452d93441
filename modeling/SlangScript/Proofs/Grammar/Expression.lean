import SlangScript.Proofs.Grammar.Derivation
import SlangScript.Proofs.Grammar.Reader

/-!
Expressions are read as the grammar derives them. What the reader gives within a depth has a
derivation of at most that nesting, behind which no operator goes on; and a derivation within the
depth, behind which no operator goes on, is what the reader gives.
-/

namespace SlangScript.Grammar

open Parse

theorem disjunctionWith_eq (unary : Parse (Node Int)) :
    disjunctionWith unary = levels.foldr chain unary := rfl

theorem expression_eq {depth : Nat} (h : expressionCost ≤ depth) :
    expression depth = levels.foldr chain (unary (depth - expressionCost)) := by
  rw [expression, if_pos h, disjunctionWith_eq]

def operandWithin : Nat → Parse (Node Int)
  | 0 => tooDeep
  | depth + 1 => unary depth

theorem unary_eq (depth : Nat) :
    unary depth = unaryWith (operandWithin depth) (expression depth) := by
  cases depth with
  | zero => exact unary_zero
  | succ depth => exact unary_succ depth

theorem stops_cons {ls : List Level} {t : Token} {rest : List Token} :
    Stops ls (t :: rest) ↔ ∀ level ∈ ls, level t.kind = none := by
  simp [Stops]

theorem levels_apart : levels.Pairwise fun looser tighter =>
    ∀ kind op, looser kind = some op → tighter kind = none := by
  simp only [levels, List.pairwise_cons, List.mem_cons, List.not_mem_nil, or_false,
    forall_eq_or_imp, forall_eq]
  refine ⟨⟨?_, ?_, ?_, ?_⟩, ⟨?_, ?_, ?_⟩, ⟨?_, ?_⟩, ?_, fun _ h => h.elim, .nil⟩ <;>
    intro kind op h
  all_goals
    cases kind with
    | mark m => cases m <;> first | rfl | cases h
    | ident | number | text | flag => rfl

theorem level_eof : ∀ level ∈ levels, level (.mark .eof) = none := by
  simp only [levels, List.mem_cons, List.not_mem_nil, or_false, forall_eq_or_imp, forall_eq]
  exact ⟨rfl, rfl, rfl, rfl, rfl⟩

/-! What the reader gives is derived. -/

/-- A derivation of at most some nesting, behind which no operator of its levels comes next. -/
def Derives (ls : List Level) (depth : Nat) (a : List Token) (e : Node Int) (b : List Token) :
    Prop :=
  (∃ n ≤ depth, Expression ls a e b n) ∧ Stops ls b

/-- What a chain gives that goes on after the operand `left`, with `bound` tokens ahead. -/
def Extends (level : Level) (ls : List Level) (depth bound : Nat) (left : Node Int)
    (b : List Token) (e : Node Int) (c : List Token) : Prop :=
  b.length ≤ bound + 1 → Stops ls b → ∀ a n, Expression (level :: ls) a left b n → n ≤ depth →
    Derives (level :: ls) depth a e c

theorem Extends.of_stop {level : Level} {ls : List Level} {depth bound : Nat} {left : Node Int}
    {t : Token} {rest : List Token} (next : level t.kind = none) :
    Extends level ls depth bound left (t :: rest) left (t :: rest) := by
  intro _ stops a n derived within
  refine ⟨⟨n, within, derived⟩, stops_cons.mpr ?_⟩
  intro other member
  rcases List.mem_cons.mp member with rfl | member
  · exact next
  · exact stops_cons.mp stops other member

theorem Extends.of_operator {level : Level} {ls : List Level} {depth bound : Nat} {op : BinaryOp}
    {left right e : Node Int} {t : Token} {b c d : List Token} (next : level t.kind = some op)
    (operand : Derives ls depth b right c)
    (h : Extends level ls depth bound (.binary t.line left op right) c e d) :
    Extends level ls depth (bound + 1) left (t :: b) e d := by
  intro length _ a n derived within
  obtain ⟨⟨m, within', derived'⟩, stops⟩ := operand
  have shorter := derived'.passes.2
  rw [List.length_cons] at length
  exact h (by omega) stops a (max n m) (.binary derived next derived') (by omega)

theorem yields_chainFrom {level : Level} {ls : List Level} {depth : Nat}
    {operand : Parse (Node Int)} (hop : Yields operand (Derives ls depth))
    (atEnd : level (.mark .eof) = none) (ahead : List Token) (left : Node Int) :
    Yields (chainFrom level operand ahead left) (Extends level ls depth ahead.length left) := by
  induction ahead generalizing left with
  | nil =>
      refine Yields.ended ((Yields.pure left).mono ?_)
      rintro b e c ⟨rfl, rfl⟩ ⟨body, last, rfl, ends⟩ bound
      -- Only the token that ends the text is left, and no level has it as an operator.
      have empty : body = [] := by simpa using bound
      have isEof : last.kind = .mark .eof := Token.kind_of_isEof ends
      subst empty
      exact Extends.of_stop (isEof ▸ atEnd) bound
  | cons _ ahead ih =>
      refine .of_current fun t => ?_
      cases next : level t.kind with
      | none =>
          refine (Yields.pure left).mono ?_
          rintro b e c ⟨rfl, rfl⟩ rest rfl
          exact .of_stop next
      | some op =>
          refine .of_advance (inside_of_joins atEnd next) ((hop.bind fun right => ih _).mono ?_)
          rintro b e d ⟨right, c, operand, onward⟩
          exact .of_operator next operand onward

theorem yields_chain {level : Level} {ls : List Level} {depth : Nat}
    {operand : Parse (Node Int)} (hop : Yields operand (Derives ls depth))
    (atEnd : level (.mark .eof) = none) :
    Yields (chain level operand) (Derives (level :: ls) depth) := by
  unfold chain
  refine (hop.bind fun first => yields_ahead.bind fun ahead =>
    yields_chainFrom hop atEnd ahead first).mono ?_
  rintro a e c ⟨first, b, ⟨⟨n, within, derived⟩, stops⟩, ahead, _, ⟨rfl, length⟩, onward⟩
  exact onward (by omega) stops a n (.tighter derived) within

theorem yields_levels {depth : Nat} {unary : Parse (Node Int)}
    (h : Yields unary (Derives [] depth)) (ls : List Level)
    (atEnd : ∀ level ∈ ls, level (.mark .eof) = none) :
    Yields (ls.foldr chain unary) (Derives ls depth) := by
  induction ls with
  | nil => exact h
  | cons level ls ih =>
      exact yields_chain (ih fun other member => atEnd other (List.mem_cons_of_mem level member))
        (atEnd level List.mem_cons_self)

/-- An expression of any level within a depth, behind which no operator comes next. -/
def Within (depth : Nat) (a : List Token) (e : Node Int) (b : List Token) : Prop :=
  (∃ n, n + expressionCost ≤ depth ∧ Expression levels a e b n) ∧ Stops levels b

theorem stops_nil (ahead : List Token) : Stops [] ahead := by simp [Stops]

theorem yields_tooDeep {α : Type} {R : List Token → α → List Token → Prop} :
    Yields (tooDeep : Parse α) R := (Yields.throw .tooDeep).mono False.elim

theorem yields_leaf {depth : Nat} {t : Token} {e : Node Int}
    (derived : ∀ b, Expression [] (t :: b) e b 0) (inside : t.kind ≠ .mark .eof) :
    Yields (do liftM advance; return e) fun a e b => ∀ rest, a = t :: rest →
      Derives [] depth a e b := by
  refine .of_advance inside ((Yields.pure e).mono ?_)
  rintro a e b ⟨rfl, rfl⟩
  exact ⟨⟨0, Nat.zero_le _, derived _⟩, stops_nil _⟩

theorem yields_parentheses {depth : Nat} {t : Token} {inner : Parse (Node Int)}
    (h : Yields inner (Within depth)) (paren : t.kind = .mark .lparen) :
    Yields (do
        liftM advance
        let node ← inner
        let _ ← liftM (takeIf (.mark .rparen))
        return node) fun a e b => ∀ rest, a = t :: rest → Derives [] depth a e b := by
  refine .of_advance (by simp [paren])
    ((h.bind fun e => (yields_takeIf (by decide)).map fun _ => e).mono ?_)
  rintro a e b ⟨node, c, ⟨⟨n, within, derived⟩, stops⟩, taken, ⟨u, rest, rfl, closing⟩, rfl⟩
  refine ⟨⟨n + expressionCost, within, ?_⟩, stops_nil _⟩
  rcases closing with ⟨_, close, rfl⟩ | ⟨_, other, rfl⟩
  · exact .closed paren derived close
  · exact .unclosed paren derived other stops

theorem yields_atomWith {depth : Nat} {inner : Parse (Node Int)} (h : Yields inner (Within depth)) :
    Yields (atomWith inner) (Derives [] depth) := by
  refine .of_current fun t => ?_
  split
  · next same => exact yields_leaf (fun b => .number same) (by simp [Token.kind, same, Lexeme.kind])
  · next same => exact yields_leaf (fun b => .text same) (by simp [Token.kind, same, Lexeme.kind])
  · next same => exact yields_leaf (fun b => .flag same) (by simp [Token.kind, same, Lexeme.kind])
  · next same => exact yields_leaf (fun b => .var same) (by simp [Token.kind, same, Lexeme.kind])
  · next same => exact yields_parentheses h (by simp [Token.kind, same, Lexeme.kind])
  · exact yields_failHere _

theorem yields_unaryWith {depth : Nat} {operand inner : Parse (Node Int)}
    (hop : Yields operand fun a e b => ∃ n, n + 1 ≤ depth ∧ Expression [] a e b n)
    (h : Yields inner (Within depth)) : Yields (unaryWith operand inner) (Derives [] depth) := by
  refine .of_current fun t => ?_
  split
  · next op same =>
      have inside : t.kind ≠ .mark .eof := by
        rcases kind_of_unaryOp same with kind | kind <;> simp [kind]
      refine .of_advance inside ((hop.map _).mono ?_)
      rintro a e b ⟨node, ⟨n, within, derived⟩, rfl⟩
      exact ⟨⟨n + 1, within, .unary same derived⟩, stops_nil _⟩
  · exact (yields_atomWith h).mono fun derived _ _ => derived

theorem yields_expression_of {depth : Nat}
    (h : expressionCost ≤ depth →
      Yields (unary (depth - expressionCost)) (Derives [] (depth - expressionCost))) :
    Yields (expression depth) (Within depth) := by
  by_cases enough : expressionCost ≤ depth
  · rw [expression_eq enough]
    refine (yields_levels (h enough) levels level_eof).mono ?_
    rintro a e b ⟨⟨n, within, derived⟩, stops⟩
    exact ⟨⟨n, by omega, derived⟩, stops⟩
  · rw [expression, if_neg enough]
    exact yields_tooDeep

/-- What a unary expression gives within a depth is derived within it. The induction is on the
depth, since both an operand and an expression in parentheses are read at a smaller one. -/
theorem yields_unary (depth : Nat) : Yields (unary depth) (Derives [] depth) := by
  induction depth using Nat.strongRecOn with
  | ind depth ih =>
      rw [unary_eq]
      refine yields_unaryWith ?_ (yields_expression_of fun enough => ih _ ?_)
      · cases depth with
        | zero => exact yields_tooDeep
        | succ depth =>
            refine (ih depth (Nat.lt_succ_self depth)).mono ?_
            rintro a e b ⟨⟨n, within, derived⟩, _⟩
            exact ⟨n, Nat.succ_le_succ within, derived⟩
      · simp only [expressionCost] at enough ⊢
        omega

theorem yields_expression (depth : Nat) : Yields (expression depth) (Within depth) :=
  yields_expression_of fun _ => yields_unary _

/-! What is derived is what the reader gives. -/

theorem outcome_chainFrom_stop {level : Level} {r : Reading} (operand : Parse (Node Int))
    (ahead : List Token) (left : Node Int) (next : level r.cursor.current.kind = none) :
    outcome (chainFrom level operand ahead left) r = (.ok left, r) := by
  cases ahead with
  | nil => rfl
  | cons _ ahead =>
      rw [chainFrom, outcome_current_bind, next]
      rfl

theorem outcome_chainFrom_operator {level : Level} {op : BinaryOp} {r : Reading}
    (next : level r.cursor.current.kind = some op) (operand : Parse (Node Int)) (skipped : Token)
    (ahead : List Token) (left : Node Int) :
    outcome (chainFrom level operand (skipped :: ahead) left) r =
      outcome (operand >>= fun right =>
          chainFrom level operand ahead (.binary r.cursor.current.line left op right))
        { r with cursor := r.cursor.advance } := by
  rw [chainFrom, outcome_current_bind, next]
  exact outcome_advance_bind _ r

/-- Reading a chain from `a` on comes behind the operand `e`, with `b` still ahead. -/
def Reaches (level : Level) (operand : Parse (Node Int)) (a : List Token) (e : Node Int)
    (b : List Token) : Prop :=
  ∀ r : Reading, r.cursor.tokens = a → ∃ c ahead, c.tokens = b ∧ b.length ≤ ahead.length + 1 ∧
    outcome (chain level operand) r = outcome (chainFrom level operand ahead e) { r with cursor := c }

theorem Reaches.first {level : Level} {operand : Parse (Node Int)} {a b : List Token} {e : Node Int}
    (h : Reads operand a e b) : Reaches level operand a e b := by
  intro r tokens
  obtain ⟨c, first, left⟩ := h r tokens
  refine ⟨c, c.rest, left, Nat.le_of_eq (by rw [← left, c.length_tokens]), ?_⟩
  rw [chain, outcome_bind_ok first]
  rfl

theorem Reaches.operator {level : Level} {operand : Parse (Node Int)} {a b c : List Token}
    {l right : Node Int} {t : Token} {op : BinaryOp} (h : Reaches level operand a l (t :: b))
    (next : level t.kind = some op) (inside : t.kind ≠ .mark .eof) (hop : Reads operand b right c)
    (shorter : c.length < b.length) : Reaches level operand a (.binary t.line l op right) c := by
  intro r tokens
  obtain ⟨c₁, ahead, left, enough, same⟩ := h r tokens
  obtain ⟨c₂, second, left₂⟩ :=
    hop { r with cursor := c₁.advance } (Cursor.advance_tokens left inside)
  have current : c₁.current = t := Cursor.current_of_tokens left
  subst current
  cases ahead with
  -- The operand took a token behind the operator, so a turn is left for it.
  | nil => simp only [List.length_cons, List.length_nil] at enough; omega
  | cons skipped ahead =>
      refine ⟨c₂, ahead, left₂, by simp only [List.length_cons] at enough; omega, same.trans ?_⟩
      exact (outcome_chainFrom_operator (r := { r with cursor := c₁ }) next operand skipped ahead
        l).trans (outcome_bind_ok second _)

theorem Reaches.reads {level : Level} {operand : Parse (Node Int)} {a b : List Token} {e : Node Int}
    (h : Reaches level operand a e b) (stops : Stops [level] b) :
    Reads (chain level operand) a e b := by
  intro r tokens
  obtain ⟨c, ahead, left, _, same⟩ := h r tokens
  obtain ⟨rest, left'⟩ := c.tokens_eq_current
  rw [← left, left', stops_cons] at stops
  exact ⟨c, same.trans (outcome_chainFrom_stop operand ahead e (stops level (.head _))), left⟩

/-- What reading does along a derivation: it reads a unary expression whole, and of a chain as much
as is derived, whatever operator of its own level comes next. -/
def Climbs (depth : Nat) : List Level → List Token → Node Int → List Token → Prop
  | [], a, e, b => Reads (unary depth) a e b
  | level :: ls, a, e, b => Stops ls b → Reaches level (ls.foldr chain (unary depth)) a e b

theorem Climbs.reads {depth : Nat} {ls : List Level} {a b : List Token} {e : Node Int}
    (h : Climbs depth ls a e b) (stops : Stops ls b) :
    Reads (ls.foldr chain (unary depth)) a e b := by
  cases ls with
  | nil => exact h
  | cons level ls =>
      refine (h fun t next other member => stops t next other (.tail level member)).reads ?_
      intro t next other member
      exact stops t next other (by simp_all)

theorem reads_unary_atom {depth : Nat} {t : Token} {a b : List Token} {e : Node Int}
    (none : unaryOp? t.kind = none) (h : Reads (atomWith (expression depth)) (t :: a) e b) :
    Reads (unary depth) (t :: a) e b := by
  rw [unary_eq, unaryWith]
  refine (reads_current t a).bind ?_
  rw [none]
  exact h

theorem reads_leaf {t : Token} {e : Node Int} (inside : t.kind ≠ .mark .eof) (b : List Token) :
    Reads (do liftM advance; return e) (t :: b) e b :=
  (reads_advance inside).bind (.pure e b)

theorem reads_parentheses {t : Token} {a b c : List Token} {e : Node Int} {taken : Bool}
    {inner : Parse (Node Int)} (paren : t.lexeme = .mark .lparen) (h : Reads inner a e b)
    (closing : Reads (liftM (takeIf (.mark .rparen))) b taken c) :
    Reads (atomWith inner) (t :: a) e c := by
  refine (reads_current t a).bind ?_
  rw [paren]
  exact (reads_advance (by simp [Token.kind, paren, Lexeme.kind])).bind
    (h.bind (closing.bind (.pure e c)))

theorem reads_operand {depth : Nat} {t : Token} {op : UnaryOp} {a b : List Token} {e : Node Int}
    (same : unaryOp? t.kind = some op) (h : Reads (unary depth) a e b) :
    Reads (unary (depth + 1)) (t :: a) (.unary t.line op e) b := by
  have inside : t.kind ≠ .mark .eof := by
    rcases kind_of_unaryOp same with kind | kind <;> simp [kind]
  rw [unary_eq, unaryWith]
  refine (reads_current t a).bind ?_
  rw [same]
  exact (reads_advance inside).bind (h.bind (.pure _ b))

theorem reads_expression_of {depth : Nat} {a b : List Token} {e : Node Int}
    (enough : expressionCost ≤ depth) (h : Climbs (depth - expressionCost) levels a e b)
    (stops : Stops levels b) : Reads (expression depth) a e b := by
  rw [expression_eq enough]
  exact h.reads stops

theorem stops_rparen {t : Token} (close : t.kind = .mark .rparen) (rest : List Token) :
    Stops levels (t :: rest) := by
  rw [stops_cons, close]
  simp only [levels, List.mem_cons, List.not_mem_nil, or_false, forall_eq_or_imp, forall_eq]
  exact ⟨rfl, rfl, rfl, rfl, rfl⟩

/-- Along every derivation within the depth reading climbs. A chain leans to the left, so its
derivation ends with the last operator, and what is said of a chain leaves open what comes next. -/
theorem Expression.climbs {ls : List Level} {a b : List Token} {e : Node Int} {n : Nat}
    (h : Expression ls a e b n) {depth : Nat} (within : n ≤ depth) (suffix : ls <:+ levels) :
    Climbs depth ls a e b := by
  induction h generalizing depth with
  | @number t b _ same | @text t b _ same | @flag t b _ same | @var t b _ same =>
      refine reads_unary_atom (by rw [Token.kind, same]; rfl) ((reads_current t b).bind ?_)
      rw [same]
      exact reads_leaf (by simp [Token.kind, same, Lexeme.kind]) b
  | closed paren _ close ih =>
      have inner := reads_expression_of (Nat.le_of_add_left_le within)
        (ih (Nat.le_sub_of_add_le within) (List.suffix_refl levels)) (stops_rparen close _)
      exact reads_unary_atom (by rw [paren]; rfl)
        (reads_parentheses (Token.lexeme_of_kind paren) inner (reads_takeIf_same close (by decide)))
  | unclosed paren _ other stops ih =>
      have inner := reads_expression_of (Nat.le_of_add_left_le within)
        (ih (Nat.le_sub_of_add_le within) (List.suffix_refl levels)) stops
      exact reads_unary_atom (by rw [paren]; rfl)
        (reads_parentheses (Token.lexeme_of_kind paren) inner (reads_takeIf_other other))
  | unary same _ ih =>
      obtain ⟨below, rfl⟩ := Nat.exists_eq_add_of_le' (Nat.le_of_add_left_le within)
      exact reads_operand same (ih (by omega) suffix)
  | tighter _ ih =>
      intro stops
      exact .first ((ih within ((List.suffix_cons _ _).trans suffix)).reads stops)
  | @binary level ls t op a b c l r m n left next right ihl ihr =>
      intro stops
      have inner : ls <:+ levels := (List.suffix_cons _ _).trans suffix
      have apart := List.pairwise_cons.mp (levels_apart.sublist suffix.sublist)
      have inside := inside_of_joins (level_eof level (suffix.subset (.head ls))) next
      -- An operator of this level is none of a tighter one, so the left operand ends in front of it.
      have stops' : Stops ls (t :: b) :=
        stops_cons.mpr fun other member => apart.1 other member t.kind op next
      exact (ihl (Nat.le_trans (Nat.le_max_left m n) within) suffix stops').operator next inside
        ((ihr (Nat.le_trans (Nat.le_max_right m n) within) inner).reads stops) right.passes.2

/-- An expression that is derived within the depth, behind which no operator comes next, is read. -/
theorem reads_expression {depth n : Nat} {a b : List Token} {e : Node Int}
    (h : Expression levels a e b n) (within : n + expressionCost ≤ depth) (stops : Stops levels b) :
    Reads (expression depth) a e b :=
  reads_expression_of (Nat.le_of_add_left_le within)
    (h.climbs (Nat.le_sub_of_add_le within) (List.suffix_refl levels)) stops

end SlangScript.Grammar
