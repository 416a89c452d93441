import SlangScript.Proofs.Grammar.Derivation
import SlangScript.Proofs.Grammar.Recovery
import SlangScript.Proofs.Node.Shape

/-!
Whatever the tokens are, what is read of them is a program: also behind a mistake, expressions stand
where expressions belong, statements where statements belong, and the operators are those that there
are.
-/

namespace SlangScript.Parse

open Node

variable {α β : Type}

/-- All that a reader gives is in `good`. -/
def Gives (p : Parse α) (good : α → Prop) : Prop :=
  ∀ r x r₁, outcome p r = (.ok x, r₁) → good x

namespace Gives

theorem pure {good : α → Prop} {x : α} (h : good x) : Gives (pure x) good := by
  intro r y r₁ same
  cases same
  exact h

theorem throw {good : α → Prop} (failure : Failure) : Gives (throw failure : Parse α) good := by
  intro r y r₁ same
  cases same

theorem bind {p : Parse α} {f : α → Parse β} {first : α → Prop} {good : β → Prop}
    (hp : Gives p first) (hf : ∀ x, first x → Gives (f x) good) : Gives (p >>= f) good := by
  intro r y r₂ same
  obtain ⟨x, r₁, given, rest⟩ := outcome_bind_eq_ok same
  exact hf x (hp r x r₁ given) r₁ y r₂ rest

theorem skip {p : Parse α} {f : α → Parse β} {good : β → Prop} (hf : ∀ x, Gives (f x) good) :
    Gives (p >>= f) good :=
  have first : Gives p fun _ => True := fun _ _ _ _ => trivial
  first.bind fun x _ => hf x

end Gives

theorem gives_failHere {good : α → Prop} (problem : Kind → Problem) :
    Gives (failHere problem) good :=
  .skip fun _ => .throw _

def Level.Known (level : Level) : Prop := ∀ kind, ∀ op ∈ level kind, op ∈ BinaryOp.known

theorem gives_chainFrom {level : Level} {operand : Parse (Node Int)} (known : level.Known)
    (h : Gives operand IsExpression) (ahead : List Token) {left : Node Int}
    (hl : left.IsExpression) : Gives (chainFrom level operand ahead left) IsExpression := by
  induction ahead generalizing left with
  | nil => exact .pure hl
  | cons _ ahead ih =>
      refine .skip fun token => ?_
      split
      · exact .pure hl
      · next op same => exact .skip fun _ => h.bind fun right hr => ih (.binary (known _ op same) hl hr)

theorem gives_chain {level : Level} {operand : Parse (Node Int)} (known : level.Known)
    (h : Gives operand IsExpression) : Gives (chain level operand) IsExpression :=
  h.bind fun _ hl => .skip fun ahead => gives_chainFrom known h ahead hl

theorem known_of_mem_levels : ∀ level ∈ Grammar.levels, Level.Known level := by
  simp only [Grammar.levels, List.forall_mem_cons]
  refine ⟨?_, ?_, ?_, ?_, ?_, fun _ member => nomatch member⟩
  all_goals
    intro kind op same
    cases kind with
    | mark m => cases m <;> cases same <;> decide
    | ident | number | text | flag => cases same

theorem gives_levels {unary : Parse (Node Int)} (h : Gives unary IsExpression) {ls : List Level}
    (known : ∀ level ∈ ls, level.Known) : Gives (ls.foldr chain unary) IsExpression := by
  induction ls with
  | nil => exact h
  | cons level ls ih =>
      rw [List.forall_mem_cons] at known
      exact gives_chain known.1 (ih known.2)

theorem gives_disjunctionWith {unary : Parse (Node Int)} (h : Gives unary IsExpression) :
    Gives (disjunctionWith unary) IsExpression :=
  gives_levels h known_of_mem_levels

theorem gives_atomWith {inner : Parse (Node Int)} (h : Gives inner IsExpression) :
    Gives (atomWith inner) IsExpression := by
  refine .skip fun token => ?_
  split
  · exact .skip fun _ => .pure (.number _ _)
  · exact .skip fun _ => .pure (.text _ _)
  · exact .skip fun _ => .pure (.flag _ _)
  · exact .skip fun _ => .pure (.var _ _)
  · exact .skip fun _ => h.bind fun _ hn => .skip fun _ => .pure hn
  · exact gives_failHere _

theorem gives_unaryWith {operand inner : Parse (Node Int)} (ho : Gives operand IsExpression)
    (hi : Gives inner IsExpression) : Gives (unaryWith operand inner) IsExpression := by
  refine .skip fun token => ?_
  split
  · next op same =>
      have known : op ∈ UnaryOp.known := by
        unfold unaryOp? at same
        split at same <;> cases same <;> decide
      exact .skip fun _ => ho.bind fun _ h => .pure (.unary known h)
  · exact gives_atomWith hi

theorem gives_unary (depth : Nat) : Gives (unary depth) IsExpression := by
  induction depth using Nat.strongRecOn with
  | ind depth ih =>
      cases depth with
      | zero => exact gives_unaryWith (.throw _) (.throw _)
      | succ depth =>
          rw [unary_succ]
          refine gives_unaryWith (ih depth (by omega)) ?_
          rw [expression]
          split
          · exact gives_disjunctionWith (ih _ (by simp only [expressionCost]; omega))
          · exact .throw _

theorem gives_expression (depth : Nat) : Gives (expression depth) IsExpression := by
  rw [expression]
  split
  · exact gives_disjunctionWith (gives_unary _)
  · exact .throw _

theorem forall_mem_statementsFrom {good : Node Int → Prop} {statement : Parse (Node Int)}
    (h : Gives statement good) (terminators : List Kind) (ahead : List Token) (r : Reading) :
    ∀ s ∈ ((statementsFrom statement terminators ahead).run r).1, good s := by
  induction ahead generalizing r with
  | nil => exact fun _ member => nomatch member
  | cons t ahead ih =>
      cases ends : endsAt terminators r.cursor.current with
      | true =>
          rw [run_statementsFrom_end ends]
          exact fun _ member => nomatch member
      | false =>
          rcases given : outcome statement r with ⟨failure | node, r₁⟩
          · rw [run_statementsFrom_error ends given]
            exact ih _
          · rw [run_statementsFrom_ok ends given]
            exact List.forall_mem_cons.mpr ⟨h r node r₁ given, ih r₁⟩

theorem gives_condition {good : Node Int → Prop} {expression : Parse (Node Int)}
    (h : Gives expression good) : Gives (condition expression) good :=
  .skip fun _ => h.bind fun _ hc => .skip fun _ => .pure hc

/-- What is made of such expressions and such blocks is a good statement. -/
structure Makes (value : Node Int → Prop) (blocks : List (Node Int) → Prop)
    (good : Node Int → Prop) : Prop where
  declare : ∀ {line name e}, value e → good (.declare line name e)
  assign : ∀ {line name e}, value e → good (.assign line name e)
  print : ∀ {line e}, value e → good (.print line e)
  debugPrint : ∀ {line e}, value e → good (.debugPrint line e)
  ifThen : ∀ {line e body}, value e → blocks body → good (.ifThen line e body)
  ifElse : ∀ {line e yes no}, value e → blocks yes → blocks no → good (.ifElse line e yes no)
  whileDo : ∀ {line e body}, value e → blocks body → good (.whileDo line e body)
  breakOut : ∀ line, good (.breakOut line)
  continueOn : ∀ line, good (.continueOn line)

namespace Makes

theorem statementWith {value good : Node Int → Prop} {blocks : List (Node Int) → Prop}
    (makes : Makes value blocks good) {expression : Parse (Node Int)}
    {block : List Kind → Parse (List (Node Int))} (h : Gives expression value)
    (hb : ∀ terminators, Gives (block terminators) blocks) :
    Gives (statementWith expression block) good := by
  have test := gives_condition h
  refine .skip fun token => ?_
  split
  · refine .skip fun start => .skip fun t => ?_
    split
    · exact .skip fun _ => .skip fun _ => h.bind fun _ hv => .pure (makes.declare hv)
    · exact gives_failHere _
  · exact .skip fun start => .skip fun _ => h.bind fun _ hv => .pure (makes.print hv)
  · exact .skip fun start => h.bind fun _ hv => .pure (makes.debugPrint hv)
  · refine .skip fun start => test.bind fun _ hc => (hb _).bind fun _ hy => .skip fun isElse => ?_
    split
    · exact (hb _).bind fun _ hn => .skip fun _ => .pure (makes.ifElse hc hy hn)
    · exact .skip fun _ => .pure (makes.ifThen hc hy)
  · exact .skip fun start => test.bind fun _ hc => (hb _).bind fun _ hy =>
      .skip fun _ => .pure (makes.whileDo hc hy)
  · exact .skip fun _ => .pure (makes.continueOn _)
  · exact .skip fun _ => .pure (makes.breakOut _)
  · refine .skip fun token => ?_
    split
    · refine .skip fun _ => .skip fun t => ?_
      split
      · exact gives_failHere _
      · exact .skip fun _ => h.bind fun _ hv => .pure (makes.assign hv)
    · exact gives_failHere _
  · exact gives_failHere _

/-- What statements are within a depth: the induction is on the depth, of which a block has less. -/
theorem statement {value good : Nat → Node Int → Prop}
    (he : ∀ depth, Gives (expression depth) (value depth))
    (makes : ∀ depth, Makes (value depth)
      (fun nodes => blockCost ≤ depth ∧ ∀ s ∈ nodes, good (depth - blockCost) s) (good depth))
    (depth : Nat) : Gives (statement depth) (good depth) := by
  induction depth using Nat.strongRecOn with
  | ind depth ih =>
      rw [statement_eq]
      refine (makes depth).statementWith (he depth) fun terminators => ?_
      rw [block]
      split
      · next enough =>
          have smaller : depth - blockCost < depth := by
            simp only [blockCost] at enough ⊢
            omega
          intro r nodes r₁ same
          rw [outcome_liftM] at same
          cases same
          exact ⟨enough, forall_mem_statementsFrom (ih _ smaller) terminators r.cursor.rest r⟩
      · exact .throw _

end Makes

theorem makes_isStatement (depth : Nat) :
    Makes IsExpression (fun nodes => blockCost ≤ depth ∧ ∀ s ∈ nodes, s.IsStatement)
      IsStatement where
  declare := .declare
  assign := .assign
  print := .print
  debugPrint := .debugPrint
  ifThen hc hb := .ifThen hc hb.2
  ifElse hc hy hn := .ifElse hc hy.2 hn.2
  whileDo hc hb := .whileDo hc hb.2
  breakOut := .breakOut
  continueOn := .continueOn

theorem gives_statement (depth : Nat) : Gives (statement depth) IsStatement :=
  @Makes.statement (fun _ => IsExpression) (fun _ => IsStatement) gives_expression
    makes_isStatement depth

end SlangScript.Parse

namespace SlangScript

/-- What is given of every statement within the limit holds of all statements of a program. -/
theorem forall_mem_parse {good : Node Int → Prop}
    (h : Parse.Gives (Parse.statement Parse.depthLimit) good) (tokens : List Token) :
    ∀ s ∈ (parse tokens).statements, good s :=
  Parse.forall_mem_statementsFrom h [] _ (.ofTokens tokens)

/-- Every list of tokens is read as a program. -/
theorem parse_isStatement (tokens : List Token) :
    ∀ s ∈ (parse tokens).statements, s.IsStatement :=
  forall_mem_parse (Parse.gives_statement Parse.depthLimit) tokens

end SlangScript
