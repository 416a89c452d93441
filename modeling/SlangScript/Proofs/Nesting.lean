import SlangScript.Proofs.Grammar.Expression
import SlangScript.Proofs.Grammar.Reports
import SlangScript.Proofs.Grammar.Shape
import SlangScript.Proofs.Run.Depth
import SlangScript.Run.Source

/-!
What could be read can be executed. Reading spends more depth than execution on all that nests:
thirteen on parentheses, inside which evaluation goes down once for each level of operators, one on a
unary operator as evaluation does, and three on a block, where execution spends two or three. So a
statement that was read within the limit never runs out of depth when it is executed within the same
limit, and what is caught at the outermost level never comes there from a text.
-/

namespace SlangScript

namespace Grammar

/-- Evaluation goes down once for each unary operator, and from each level of binary operators to the
next tighter one; parentheses leave nothing behind in the tree. -/
theorem Expression.evaluationDepth_le {ls : List Parse.Level} {a b : List Token} {e : Node Int}
    {n : Nat} (h : Expression ls a e b n) :
    e.evaluationDepth + min ls.length e.chainCost ≤ n + ls.length + 1 := by
  induction h with
  | number | text | flag | var =>
      rw [List.length_nil, Nat.zero_min]
      exact Nat.le_refl 1
  | closed _ _ _ ih | unclosed _ _ _ _ ih =>
      rw [List.length_nil, Nat.zero_min]
      simp only [levels, List.length_cons, List.length_nil, Parse.expressionCost] at ih ⊢
      omega
  | unary _ _ ih =>
      rw [List.length_nil, Nat.zero_min] at ih ⊢
      exact Nat.succ_le_succ ih
  | tighter _ ih =>
      rw [List.length_cons]
      omega
  | @binary _ _ _ _ _ _ _ l r _ _ _ _ _ ihl ihr =>
      -- A chain on the left goes on at the depth of the whole; any other operand costs one.
      have onLeft := l.chainCost_le_one
      rw [Node.evaluationDepth, Node.chainCost]
      rw [List.length_cons] at ihl ⊢
      omega

end Grammar

namespace Parse

/-- An expression that is read within a depth is evaluated within seven less. -/
theorem gives_expression_depth (depth : Nat) : Gives (expression depth) fun e =>
    expressionCost ≤ depth ∧ e.evaluationDepth + 7 ≤ depth := by
  intro r e r₁ given
  -- Expressions report nothing, so whatever is read as one is derived.
  have quiet := quiet_chained.expression depth r
  rw [given] at quiet
  obtain ⟨⟨n, within, derived⟩, -⟩ :=
    (Grammar.yields_expression depth).gives given (congrArg Array.size quiet)
  have deep := derived.evaluationDepth_le
  simp only [Grammar.levels, List.length_cons, List.length_nil, expressionCost] at deep within ⊢
  omega

/-- The execution of the statement takes less than the depth by seven, unless the statement is a word
that leaves a loop or starts its next round, which takes none. -/
def Spares (depth : Nat) (s : Node Int) : Prop :=
  (∃ line, s = .breakOut line ∨ s = .continueOn line) ∨ s.executionDepth + 7 ≤ depth

theorem Spares.eq_zero_or {depth : Nat} {s : Node Int} (h : Spares depth s) :
    s.executionDepth = 0 ∨ s.executionDepth + 7 ≤ depth := by
  rcases h with ⟨_, rfl | rfl⟩ | less
  · exact .inl rfl
  · exact .inl rfl
  · exact .inr less

theorem Spares.all {depth : Nat} {nodes : List (Node Int)} (h : ∀ s ∈ nodes, Spares depth s) :
    Node.executionDepthAll nodes = 0 ∨ Node.executionDepthAll nodes + 7 ≤ depth := by
  induction nodes with
  | nil => exact .inl rfl
  | cons s rest ih =>
      obtain ⟨here, behind⟩ := List.forall_mem_cons.mp h
      have first := here.eq_zero_or
      have others := ih behind
      rw [Node.executionDepthAll]
      omega

/-- A block is read three deeper than its condition, and executed at most three deeper; without any
statement it takes no more than is left over from the condition. -/
theorem Spares.block {depth : Nat} {nodes : List (Node Int)} (enough : expressionCost ≤ depth)
    (h : blockCost ≤ depth ∧ ∀ s ∈ nodes, Spares (depth - blockCost) s) :
    Node.executionDepthAll nodes + 3 + 7 ≤ depth := by
  have inside := Spares.all h.2
  rw [expressionCost] at enough
  rw [blockCost] at inside
  omega

theorem makes_spares (depth : Nat) :
    Makes (fun e => expressionCost ≤ depth ∧ e.evaluationDepth + 7 ≤ depth)
      (fun nodes => blockCost ≤ depth ∧ ∀ s ∈ nodes, Spares (depth - blockCost) s)
      (Spares depth) where
  declare value := .inr value.2
  assign value := .inr value.2
  print value := .inr value.2
  debugPrint value := .inr value.2
  ifThen value body := by
    have inside := Spares.block value.1 body
    refine .inr ?_
    rw [Node.executionDepth]
    omega
  ifElse value yes no := by
    have first := Spares.block value.1 yes
    have second := Spares.block value.1 no
    refine .inr ?_
    rw [Node.executionDepth]
    omega
  whileDo value body := by
    have inside := Spares.block value.1 body
    refine .inr ?_
    rw [Node.executionDepth]
    omega
  breakOut line := .inl ⟨line, .inl rfl⟩
  continueOn line := .inl ⟨line, .inr rfl⟩

theorem gives_statement_spares (depth : Nat) : Gives (statement depth) (Spares depth) :=
  Makes.statement gives_expression_depth makes_spares depth

end Parse

/-- The execution of what was read stays below the limit. -/
theorem executionDepth_parse (tokens : List Token) :
    ∀ s ∈ (parse tokens).statements, s.executionDepth < Machine.depthLimit := by
  intro s member
  have spares := forall_mem_parse (Parse.gives_statement_spares Parse.depthLimit) tokens s member
  have bound := spares.eq_zero_or
  simp only [Parse.depthLimit, Machine.depthLimit] at bound ⊢
  omega

namespace Machine

/-- What could be read can be executed. The execution of a statement takes less depth than was needed
to read it, by seven, and that of a word that leaves a loop or starts its next round takes none. At the
depth that it takes, a statement does not run out of depth, whatever the machine. So a program that was
read from a text is executed as if nesting beyond the limit were not caught, on every machine and for
as many rounds as one likes, and never nests beyond it. -/
theorem executes_what_was_read :
    (∀ (depth : Nat) (r r' : Reading) (s : Node Int),
      outcome (Parse.statement depth) r = (.ok s, r') →
        (∃ line, s = .breakOut line ∨ s = .continueOn line) ∨ s.executionDepth + 7 ≤ depth) ∧
    (∀ (s : Node Int) (rounds depth : Nat) (m : Machine), s.executionDepth ≤ depth →
      (outcome (step rounds s depth) m).1 ≠ .error .tooDeep) ∧
    ∀ (source : String) (rounds : Nat) (m : Machine),
      (∀ s ∈ (parse (tokenize source)).statements, s.executionDepth < depthLimit ∧
        outcome (executeTop rounds s) m = outcome (step rounds s depthLimit) m) ∧
      outcome (execute rounds (parse (tokenize source)).statements) m =
        outcome (executeUncaught rounds (parse (tokenize source)).statements) m ∧
      (outcome (executeUncaught rounds (parse (tokenize source)).statements) m).1 ≠
        .error .tooDeep := by
  refine ⟨fun depth r r' s given => Parse.gives_statement_spares depth r s r' given,
    fun s rounds depth m enough => (step_shallow rounds s depth enough).outcome_ne m,
    fun source rounds m => ?_⟩
  have below := executionDepth_parse (tokenize source)
  have enough : ∀ s ∈ (parse (tokenize source)).statements, s.executionDepth ≤ depthLimit :=
    fun s member => Nat.le_of_lt (below s member)
  exact ⟨fun s member => ⟨below s member, outcome_executeTop (enough s member) rounds m⟩,
    outcome_execute_uncaught enough rounds m, (shallow_executeUncaught enough rounds).outcome_ne m⟩

/-- A loop with a chain in its body that goes up through all levels of operators to a unary one. -/
def climbing : String :=
  "tool_ma \"on\" 3mol \"\" || \"up\" && !\"up\" == cap + \"\" * !a khalas deal"

def climbingNode : Node Int :=
  .whileDo 1 (.text 1 "on")
    [.print 1 (.binary 1 (.text 1 "") .or (.binary 1 (.text 1 "up") .and
      (.binary 1 (.unary 1 .not (.text 1 "up")) .eq (.binary 1 (.flag 1 false) .add
        (.binary 1 (.text 1 "") .mul (.unary 1 .not (.var 1 "a"))))))),
      .breakOut 1]

theorem executes_what_was_read_climbing :
    (∃ r', outcome (Parse.statement 17) (.ofTokens (tokenize climbing)) = (.ok climbingNode, r') ∧
      ((∃ line, climbingNode = .breakOut line ∨ climbingNode = .continueOn line) ∨
        climbingNode.executionDepth + 7 ≤ 17)) ∧
    (climbingNode.executionDepth ≤ 10 ∧ (outcome (step 1 climbingNode 10) {}).1 ≠ .error .tooDeep) ∧
    outcome (execute 1 (parse (tokenize climbing)).statements) {} =
      (.ok (), { out := "cap\n" }) ∧
    outcome (executeUncaught 1 (parse (tokenize climbing)).statements) {} =
      (.ok (), { out := "cap\n" }) := by
  obtain ⟨spares, shallow, uncaught⟩ := executes_what_was_read
  have deep : climbingNode.executionDepth ≤ 10 := Nat.le_refl 10
  have run : outcome (execute 1 (parse (tokenize climbing)).statements) {} =
      (.ok (), { out := "cap\n" }) := by decide +kernel
  exact ⟨⟨_, rfl, spares 17 (.ofTokens (tokenize climbing)) _ climbingNode rfl⟩,
    ⟨deep, shallow climbingNode 1 10 {} deep⟩, run,
    (uncaught climbing 1 {}).2.1.symm.trans run⟩

/-- With one less of either depth, it runs out of it in the line that is printed. -/
example :
    (∃ r', outcome (Parse.statement 16) (.ofTokens (tokenize climbing)) =
      (.ok (.whileDo 1 (.text 1 "on") [.breakOut 1]), r')) ∧
    outcome (step 1 climbingNode 9) {} = (.error .tooDeep, {}) :=
  ⟨⟨_, rfl⟩, rfl⟩

end Machine

end SlangScript
