import SlangScript.Proofs.Run.Evaluate

/-!
The value of an expression as a plain recursion over its tree, operand by operand and without a
limit to its depth. The loop that evaluates a chain takes the operands in the same order and applies
the operators in between, so evaluation is that recursion, with its values and its faults, wherever
the depth is enough.
-/

namespace SlangScript

variable {ι α β : Type}

/-- The value of an expression. Of a binary operator the left operand is evaluated first, then the
right one, and then the operator applies. -/
def meaning (store : Store) : Node ι → Except Fault Value
  | .number _ value => .ok (.number value)
  | .text _ value => .ok (.text value)
  | .flag _ value => .ok (.flag value)
  | .var _ name => .ok (store.lookup name)
  | .unary _ op operand => do
    let value ← meaning store operand
    ofOperation (value.unary op)
  | .binary _ left op right => do
    let value ← meaning store left
    let other ← meaning store right
    ofOperation (value.binary op other)
  | other => .error (.strayExpression other.typeName)

/-- Applies an operator and its right operand to the value of what stands on their left. -/
def applyOperand (store : Store) (value : Value) (entry : BinaryOp × Node ι) :
    Except Fault Value := do
  let other ← meaning store entry.2
  ofOperation (value.binary entry.1 other)

/-- The loop over a chain gives the meaning of the chain, before the operators that come later. -/
theorem meaning_spine (store : Store) (node : Node ι) (later : List (BinaryOp × Node ι)) :
    (do
      let value ← meaning store (node.spine later).1
      (node.spine later).2.foldlM (applyOperand store) value) =
    (do
      let value ← meaning store node
      later.foldlM (applyOperand store) value) := by
  fun_induction Node.spine node later with
  | case1 later _ left op right ih =>
      rw [ih, meaning]
      simp only [List.foldlM_cons, applyOperand, bind_assoc]
  | case2 => rfl

/-- What a left operand adds to the depth of its chain: nothing if it is a chain itself. -/
def Node.chainCost : Node ι → Nat
  | .binary .. => 0
  | _ => 1

/-- The depth that the evaluation of an expression takes. The length of a chain does not matter, only
its deepest operand. -/
def Node.evaluationDepth : Node ι → Nat
  | .unary _ _ operand => operand.evaluationDepth + 1
  | .binary _ left _ right =>
    max (left.evaluationDepth + left.chainCost) (right.evaluationDepth + 1)
  | _ => 1

/-- The first result is the second one, unless the depth was short: then it may have run out. -/
def DepthAside (short : Prop) (result result' : Except Fault α) : Prop :=
  result = result' ∨ short ∧ result = .error .tooDeep

namespace DepthAside

variable {short short' : Prop} {result result' : Except Fault α}

theorem refl (result : Except Fault α) : DepthAside short result result := .inl rfl

theorem mono (h : DepthAside short result result') (weaker : short → short') :
    DepthAside short' result result' :=
  h.imp_right fun ⟨given, same⟩ => ⟨weaker given, same⟩

theorem bind {f f' : α → Except Fault β} (h : DepthAside short result result')
    (hf : ∀ a, DepthAside short (f a) (f' a)) :
    DepthAside short (result >>= f) (result' >>= f') := by
  rcases h with rfl | ⟨given, rfl⟩
  · cases result with
    | error => exact .refl _
    | ok a => exact hf a
  · exact .inr ⟨given, rfl⟩

theorem foldlM {f f' : β → α → Except Fault β} {items : List α} (start : β)
    (h : ∀ item ∈ items, ∀ b, DepthAside short (f b item) (f' b item)) :
    DepthAside short (items.foldlM f start) (items.foldlM f' start) := by
  induction items generalizing start with
  | nil => exact .refl _
  | cons item items ih =>
      rw [List.foldlM_cons, List.foldlM_cons]
      exact (h item (.head _) start).bind fun next =>
        ih next fun other member => h other (.tail _ member)

end DepthAside

theorem Node.chainCost_le_one (node : Node ι) : node.chainCost ≤ 1 := by
  cases node with
  | binary => exact Nat.zero_le 1
  | _ => exact Nat.le_refl 1

theorem Node.evaluationDepth_pos (node : Node ι) : 0 < node.evaluationDepth := by
  cases node with
  | unary => exact Nat.succ_pos _
  | binary => exact Nat.lt_of_lt_of_le (Nat.succ_pos _) (Nat.le_max_right _ _)
  | _ => exact Nat.one_pos

/-- The operands of a chain take less depth than the chain, and so do those that come later. -/
theorem Node.evaluationDepth_spine {node : Node ι} {later : List (BinaryOp × Node ι)} {depth : Nat}
    (h : node.evaluationDepth + node.chainCost ≤ depth)
    (behind : ∀ entry ∈ later, entry.2.evaluationDepth + 1 ≤ depth) :
    (node.spine later).1.evaluationDepth + 1 ≤ depth ∧
      ∀ entry ∈ (node.spine later).2, entry.2.evaluationDepth + 1 ≤ depth := by
  fun_induction Node.spine node later with
  | case1 later _ left op right ih =>
      rw [evaluationDepth, chainCost] at h
      exact ih (by omega) (List.forall_mem_cons.mpr ⟨by dsimp only; omega, behind⟩)
  | case2 node later notBinary =>
      refine ⟨?_, behind⟩
      cases node with
      | binary => exact absurd rfl (notBinary _ _ _ _)
      | _ => exact h

/-- Evaluation gives the meaning of an expression, unless the depth is short. -/
theorem evaluate_depthAside (store : Store) (depth : Nat) (node : Node ι) :
    DepthAside (depth < node.evaluationDepth) (evaluate store depth node) (meaning store node) := by
  induction depth generalizing node with
  | zero => exact .inr ⟨node.evaluationDepth_pos, rfl⟩
  | succ depth ih =>
      cases node with
      | unary tag op operand =>
          rw [evaluate, meaning]
          refine ((ih operand).mono fun short => ?_).bind fun _ => .refl _
          rw [Node.evaluationDepth]
          omega
      | binary tag left op right =>
          -- The operands of the chain are all evaluated at one depth, which is enough for them if
          -- the depth of the chain is.
          obtain ⟨first, others⟩ := @Node.evaluationDepth_spine _ (.binary tag left op right) [] _
            (Nat.le_refl _) (List.forall_mem_nil _)
          have aside {operand : Node ι} (inside : operand.evaluationDepth + 1 ≤
              (Node.binary tag left op right).evaluationDepth) :
              DepthAside (depth + 1 < (Node.binary tag left op right).evaluationDepth)
                (evaluate store depth operand) (meaning store operand) :=
            (ih operand).mono fun short => by omega
          have chain := meaning_spine store (.binary tag left op right) []
          simp only [List.foldlM_nil, bind_pure] at chain
          rw [evaluate, ← chain]
          refine (aside first).bind fun value => .foldlM value fun entry member value => ?_
          exact (aside (others entry member)).bind fun _ => .refl _
      | _ => exact .refl _

/-- The plain recursion never runs out of depth. -/
theorem meaning_refuses (store : Store) (node : Node ι) :
    Refuses (fun fault => fault ≠ .tooDeep) (meaning store node) := by
  have operation (result : Except OperationError Value) :
      Refuses (fun fault => fault ≠ .tooDeep) (ofOperation result) :=
    .ofOperation fun _ _ => nofun
  fun_induction meaning store node with
  | case1 | case2 | case3 | case4 => exact .ok _
  | case5 tag op operand ih => exact ih.bind fun _ => operation _
  | case6 tag left op right ihl ihr => exact ihl.bind fun _ => ihr.bind fun _ => operation _
  | case7 => exact .error nofun

/-- At the depth that an expression takes, its evaluation does not run out of depth. -/
theorem evaluate_ne_tooDeep (store : Store) {depth : Nat} {node : Node ι}
    (enough : node.evaluationDepth ≤ depth) : evaluate store depth node ≠ .error .tooDeep := by
  rw [(evaluate_depthAside store depth node).resolve_right fun short =>
    absurd short.1 (Nat.not_lt.mpr enough)]
  exact fun same => meaning_refuses store node _ same rfl

/-- Evaluation, which goes through chains in a loop, gives the value of the plain recursion or stops
for its fault, whatever the tree and the store; only at less than the depth that the tree takes may it
run out of depth instead, which the plain recursion never does. -/
theorem evaluate_eq_meaning (store : Store) (depth : Nat) (node : Node ι) :
    (evaluate store depth node = meaning store node ∨
      depth < node.evaluationDepth ∧ evaluate store depth node = .error .tooDeep) ∧
    meaning store node ≠ .error .tooDeep :=
  ⟨evaluate_depthAside store depth node, fun same => meaning_refuses store node _ same rfl⟩

end SlangScript
