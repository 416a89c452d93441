import SlangScript.Grammar.Statement
import SlangScript.Proofs.Grammar.Expression
import SlangScript.Proofs.Grammar.Reader

/-!
Laws of readers. A property that passes on to sequences and to a look at the current token with at
most one step past it passes from the parts of an expression or a statement to the whole; one that
passes to chains of operators too holds of the readers of all expressions, and one that passes to
lists of statements as well, of those of all statements. No reader steps past a token that ends a
text.
-/

namespace SlangScript.Parse

variable {α β : Type}

/-- How a reader goes on from a look at the token `t`: as the property allows, or so after a step
past `t`, which does not end the text. -/
inductive GoesOn (P : {α : Type} → Parse α → Prop) (t : Token) : {α : Type} → Parse α → Prop
  | stay {α : Type} {p : Parse α} : P p → GoesOn P t p
  | pass {α : Type} {f : Unit → Parse α} : t.kind ≠ .mark .eof → P (f ()) →
      GoesOn P t (liftM advance >>= f)

theorem GoesOn.mono {P Q : {α : Type} → Parse α → Prop} {t : Token} {p : Parse α}
    (h : GoesOn P t p) (implies : ∀ {α : Type} {p : Parse α}, P p → Q p) : GoesOn Q t p := by
  cases h with
  | stay h => exact .stay (implies h)
  | pass inside h => exact .pass inside (implies h)

/-- The reader starts with a token of a kind, and goes on from there as the property allows. -/
def Opens (P : {α : Type} → Parse α → Prop) (kind : Kind) (p : Parse α) : Prop :=
  ∃ f : Token → Parse α, p = expect kind >>= f ∧ ∀ t, P (f t)

/-- A property that passes from the parts of a reader to a sequence of them. -/
structure Closed (P : {α : Type} → Parse α → Prop) : Prop where
  pure : ∀ {α : Type} (a : α), P (pure a : Parse α)
  tooDeep : ∀ {α : Type}, P (tooDeep : Parse α)
  failHere : ∀ {α : Type} (problem : Kind → Problem), P (failHere problem : Parse α)
  bind : ∀ {α β : Type} {p : Parse α} {f : α → Parse β}, P p → (∀ a, P (f a)) → P (p >>= f)
  look : ∀ {α : Type} {f : Token → Parse α}, (∀ t, GoesOn P t (f t)) → P (liftM current >>= f)

/-- A property that passes to chains of operators too, in which the number of turns is the number of
tokens ahead. -/
structure Chained (P : {α : Type} → Parse α → Prop) : Prop extends Closed P where
  chain : ∀ {level : Level} {operand : Parse (Node Int)}, level (.mark .eof) = none →
    P operand → P (chain level operand)

/-- A property that passes to lists of statements too, with as many turns. -/
structure Law (P : {α : Type} → Parse α → Prop) : Prop extends Chained P where
  list : ∀ (depth : Nat) (terminators : List Kind), P (statement depth) →
    P (liftM (statementsWith (statement depth) terminators))

theorem takeIf_eq (kind : Kind) : (liftM (takeIf kind) : Parse Bool) = do
    let t ← liftM current
    if t.kind = kind then do
      liftM advance
      return true
    else return false := by
  refine funext fun r => ?_
  change outcome (liftM (takeIf kind) : Parse Bool) r = outcome (liftM current >>= _) r
  rw [outcome_liftM, run_takeIf, outcome_current_bind]
  split <;> rfl

variable {P : {α : Type} → Parse α → Prop}

namespace Closed

theorem chainFrom (closed : Closed P) {level : Level} {operand : Parse (Node Int)}
    (atEnd : level (.mark .eof) = none) (h : P operand)
    (ahead : List Token) (left : Node Int) : P (chainFrom level operand ahead left) := by
  induction ahead generalizing left with
  | nil => exact closed.pure left
  | cons _ ahead ih =>
      refine closed.look fun t => ?_
      split
      · exact .stay (closed.pure left)
      · next joins =>
          exact .pass (Grammar.inside_of_joins atEnd joins) (closed.bind h fun right => ih _)

/-- A property of the number of turns passes to chains. -/
theorem chain (closed : Closed P) (turns : P (liftM ahead : Parse (List Token))) {level : Level}
    {operand : Parse (Node Int)} (atEnd : level (.mark .eof) = none) (h : P operand) :
    P (chain level operand) :=
  closed.bind h fun first => closed.bind turns fun ahead => closed.chainFrom atEnd h ahead first

theorem expect (closed : Closed P) {kind : Kind} (inside : kind ≠ .mark .eof) :
    P (expect kind) := by
  refine closed.look fun t => ?_
  split
  · next same => exact .pass (same ▸ inside) (closed.pure t)
  · exact .stay (closed.failHere _)

theorem opens (closed : Closed P) {kind : Kind} (inside : kind ≠ .mark .eof) {p : Parse α}
    (h : Opens P kind p) : P p := by
  obtain ⟨f, rfl, rest⟩ := h
  exact closed.bind (closed.expect inside) rest

theorem takeIf (closed : Closed P) {kind : Kind} (inside : kind ≠ .mark .eof) :
    P (liftM (takeIf kind) : Parse Bool) := by
  rw [takeIf_eq]
  refine closed.look fun t => ?_
  split
  · next same => exact .pass (same ▸ inside) (closed.pure true)
  · exact .stay (closed.pure false)

theorem atomWith (closed : Closed P) {inner : Parse (Node Int)} (h : P inner) :
    P (atomWith inner) := by
  refine closed.look fun t => ?_
  split
  · next same => exact .pass (by simp [Token.kind, same, Lexeme.kind]) (closed.pure _)
  · next same => exact .pass (by simp [Token.kind, same, Lexeme.kind]) (closed.pure _)
  · next same => exact .pass (by simp [Token.kind, same, Lexeme.kind]) (closed.pure _)
  · next same => exact .pass (by simp [Token.kind, same, Lexeme.kind]) (closed.pure _)
  · next same =>
      exact .pass (by simp [Token.kind, same, Lexeme.kind])
        (closed.bind h fun _ => closed.bind (closed.takeIf (by decide)) fun _ => closed.pure _)
  · exact .stay (closed.failHere _)

theorem unaryWith (closed : Closed P) {operand inner : Parse (Node Int)} (ho : P operand)
    (hi : P inner) : P (unaryWith operand inner) := by
  refine closed.look fun t => ?_
  split
  · next op same =>
      have inside : t.kind ≠ .mark .eof := by
        rcases Grammar.kind_of_unaryOp same with kind | kind <;> simp [kind]
      exact .pass inside (closed.bind ho fun _ => closed.pure _)
  · exact .stay (closed.atomWith hi)

theorem condition (closed : Closed P) {expression : Parse (Node Int)} (h : P expression) :
    P (condition expression) :=
  closed.bind (closed.takeIf (by decide)) fun _ => closed.bind h fun _ =>
    closed.bind (closed.takeIf (by decide)) fun _ => closed.pure _

section

variable {expression : Parse (Node Int)} {block : List Kind → Parse (List (Node Int))}

theorem declaration (closed : Closed P) (h : P expression) :
    Opens P (.mark .letWord) (declaration expression) := by
  refine ⟨_, rfl, fun start => closed.look fun t => ?_⟩
  split
  · next same =>
      exact .pass (by simp [Token.kind, same, Lexeme.kind])
        (closed.bind (closed.expect (by decide)) fun _ => closed.bind h fun _ => closed.pure _)
  · exact .stay (closed.failHere _)

/-- What follows the name in an assignment. -/
theorem assigned (closed : Closed P) (h : P expression) (make : Node Int → Node Int) : P (do
    if (← liftM current).kind ≠ .mark .assign then Parse.failHere .assignMissing
    else do
      liftM advance
      return make (← expression)) := by
  refine closed.look fun t => ?_
  split
  · exact .stay (closed.failHere _)
  · next assign =>
      have kind : t.kind = .mark .assign := Decidable.not_not.mp assign
      exact .pass (by simp [kind]) (closed.bind h fun _ => closed.pure _)

theorem assignment (closed : Closed P) (h : P expression) : P (assignment expression) := by
  refine closed.look fun t => ?_
  split
  · next same => exact .pass (by simp [Token.kind, same, Lexeme.kind]) (closed.assigned h _)
  · exact .stay (closed.failHere _)

theorem printStatement (closed : Closed P) (h : P expression) :
    Opens P (.mark .print) (printStatement expression) :=
  ⟨_, rfl, fun _ => closed.bind (closed.takeIf (by decide)) fun _ => closed.bind h fun _ =>
    closed.pure _⟩

theorem debugStatement (closed : Closed P) (h : P expression) :
    Opens P (.mark .lowkey) (debugStatement expression) :=
  ⟨_, rfl, fun _ => closed.bind h fun _ => closed.pure _⟩

theorem conditional (closed : Closed P) (h : P expression)
    (hb : ∀ terminators, P (block terminators)) :
    Opens P (.mark .ifWord) (conditional expression block) := by
  refine ⟨_, rfl, fun start => closed.bind (closed.condition h) fun _ => closed.bind (hb _) fun _ =>
    closed.bind (closed.takeIf (by decide)) fun isElse => ?_⟩
  have close (node : Node Int) : P (do
      let _ ← liftM (Parse.takeIf (.mark .endWord))
      return node) := closed.bind (closed.takeIf (by decide)) fun _ => closed.pure _
  cases isElse with
  | true => exact closed.bind (hb _) fun _ => close _
  | false => exact close _

theorem repetition (closed : Closed P) (h : P expression)
    (hb : ∀ terminators, P (block terminators)) :
    Opens P (.mark .whileWord) (repetition expression block) :=
  ⟨_, rfl, fun _ => closed.bind (closed.condition h) fun _ => closed.bind (hb _) fun _ =>
    closed.bind (closed.takeIf (by decide)) fun _ => closed.pure _⟩

theorem statementWith (closed : Closed P) (h : P expression)
    (hb : ∀ terminators, P (block terminators)) :
    P (statementWith expression block) := by
  refine closed.look fun t => ?_
  split
  · exact .stay (closed.opens (by decide) (closed.declaration h))
  · exact .stay (closed.opens (by decide) (closed.printStatement h))
  · exact .stay (closed.opens (by decide) (closed.debugStatement h))
  · exact .stay (closed.opens (by decide) (closed.conditional h hb))
  · exact .stay (closed.opens (by decide) (closed.repetition h hb))
  · next same => exact .pass (by simp [same]) (closed.pure _)
  · next same => exact .pass (by simp [same]) (closed.pure _)
  · exact .stay (closed.assignment h)
  · exact .stay (closed.failHere _)

end

end Closed

namespace Chained

theorem levels (chained : Chained P) {unary : Parse (Node Int)} (h : P unary) (ls : List Level)
    (atEnd : ∀ level ∈ ls, level (.mark .eof) = none) : P (ls.foldr Parse.chain unary) := by
  induction ls with
  | nil => exact h
  | cons level ls ih =>
      rw [List.forall_mem_cons] at atEnd
      exact chained.chain atEnd.1 (ih atEnd.2)

theorem unary (chained : Chained P) (depth : Nat) : P (unary depth) := by
  induction depth using Nat.strongRecOn with
  | ind depth ih =>
      cases depth with
      | zero => exact chained.unaryWith chained.tooDeep chained.tooDeep
      | succ depth =>
          rw [unary_succ]
          refine chained.unaryWith (ih depth (Nat.lt_succ_self depth)) ?_
          rw [expression]
          split
          · exact chained.levels (ih _ (by simp only [expressionCost]; omega)) Grammar.levels
              Grammar.level_eof
          · exact chained.tooDeep

theorem expression (chained : Chained P) (depth : Nat) : P (expression depth) := by
  rw [Parse.expression]
  split
  · exact chained.levels (chained.unary _) Grammar.levels Grammar.level_eof
  · exact chained.tooDeep

end Chained

namespace Law

theorem block_of (law : Law P) {depth : Nat}
    (h : blockCost ≤ depth → P (statement (depth - blockCost))) (terminators : List Kind) :
    P (block depth terminators) := by
  rw [block]
  split
  · next enough => exact law.list _ terminators (h enough)
  · exact law.tooDeep

/-- A law holds of every statement. The induction is on the depth, which a block makes smaller. -/
theorem statement (law : Law P) (depth : Nat) : P (statement depth) := by
  induction depth using Nat.strongRecOn with
  | ind depth ih =>
      rw [statement_eq]
      refine law.statementWith (law.expression depth) (law.block_of fun enough => ih _ ?_)
      simp only [blockCost] at enough ⊢
      omega

theorem block (law : Law P) (depth : Nat) (terminators : List Kind) : P (block depth terminators) :=
  law.block_of (fun _ => law.statement _) terminators

end Law

/-- The reader keeps what holds of the reading before it. -/
def Preserves (holds : Reading → Prop) (p : Parse α) : Prop := ∀ r, holds r → holds (outcome p r).2

namespace Preserves

variable {holds : Reading → Prop}

theorem bind {p : Parse α} {f : α → Parse β} (hp : Preserves holds p)
    (hf : ∀ a, Preserves holds (f a)) : Preserves holds (p >>= f) := by
  intro r given
  have first := hp r given
  rcases same : outcome p r with ⟨failure | a, r₁⟩ <;> rw [same] at first
  · rw [outcome_bind_error same]
    exact first
  · rw [outcome_bind_ok same]
    exact hf a r₁ first

theorem look (step : ∀ r, holds r → holds { r with cursor := r.cursor.advance })
    {f : Token → Parse α} (h : ∀ t, GoesOn (Preserves holds) t (f t)) :
    Preserves holds (liftM current >>= f) := by
  intro r given
  rw [outcome_current_bind]
  generalize f r.cursor.current = p, h r.cursor.current = goes
  cases goes with
  | stay h => exact h r given
  | pass _ h =>
      rw [outcome_advance_bind]
      exact h _ (step r given)

end Preserves

/-- Where a step keeps something, it passes from the parts of a reader to the whole that they keep
it. -/
theorem preserves_closed {holds : Reading → Prop}
    (step : ∀ r, holds r → holds { r with cursor := r.cursor.advance }) :
    Closed (Preserves holds) where
  pure _ _ given := given
  tooDeep _ given := given
  failHere _ := .look step fun _ => .stay fun _ given => given
  bind := .bind
  look := .look step

end SlangScript.Parse
