import SlangScript.Proofs.Node.Printer
import SlangScript.Run.Execute

/-!
Running looks at no tag, so programs that differ in their lines only run the same.
-/

namespace SlangScript

variable {ι : Type}

theorem spine_untag : ∀ (node : Node ι) (later : List (BinaryOp × Node ι)),
    node.untag.spine (later.map fun (op, right) => (op, right.untag)) =
      ((node.spine later).1.untag, (node.spine later).2.map fun (op, right) => (op, right.untag))
  | .binary _ left op right, later => spine_untag left ((op, right) :: later)
  | .number .., _ | .text .., _ | .flag .., _ | .var .., _ | .unary .., _ | .declare .., _
  | .assign .., _ | .print .., _ | .debugPrint .., _ | .ifThen .., _ | .ifElse .., _
  | .whileDo .., _ | .breakOut _, _ | .continueOn _, _ | .bare _, _ | .missing, _ => rfl

theorem evaluate_untag (store : Store) (depth : Nat) (node : Node ι) :
    evaluate store depth node.untag = evaluate store depth node := by
  induction depth generalizing node with
  | zero => rfl
  | succ depth ih =>
      cases node with
      | unary tag op operand => simp only [Node.untag, evaluate, ih]
      | binary tag left op right =>
          have spine := spine_untag (.binary tag left op right) []
          rw [List.map_nil] at spine
          simp only [Node.untag] at spine ⊢
          simp only [evaluate, spine, ih, List.foldlM_map]
      | _ => rfl

namespace Machine

theorem valueOf_untag (depth : Nat) (node : Node ι) :
    valueOf depth node.untag = valueOf depth node := by
  simp only [valueOf, evaluate_untag]

theorem act_untag (node : Node ι) (depth : Nat) : act node.untag depth = act node depth := by
  cases node <;> simp only [Node.untag, act, bindTo, valueOf_untag, Node.typeName]

mutual

theorem step_untag (rounds : Nat) (node : Node ι) (depth : Nat) :
    step rounds node.untag depth = step rounds node depth := by
  cases node with
  | ifThen tag condition body =>
      have inner := funext (block_untag rounds body)
      simp only [Node.untag, step, valueOf_untag, inner]
  | ifElse tag condition yes no =>
      have first := funext (block_untag rounds yes)
      have second := funext (block_untag rounds no)
      simp only [Node.untag, step, valueOf_untag, first, second]
  | whileDo tag condition body =>
      have inner := funext (block_untag rounds body)
      simp only [Node.untag, step, valueOf_untag, inner]
  | _ => exact congrArg (fun p => countStep >>= fun _ => p) (act_untag _ depth)

theorem block_untag (rounds : Nat) (nodes : List (Node ι)) (depth : Nat) :
    block rounds (Node.untagAll nodes) depth = block rounds nodes depth := by
  cases nodes with
  | nil => rfl
  | cons statement rest =>
      simp only [Node.untagAll, block, step_untag rounds statement, block_untag rounds rest]

end

theorem executeTop_untag (rounds : Nat) (statement : Node ι) :
    executeTop rounds statement.untag = executeTop rounds statement := by
  simp only [executeTop, step_untag]

theorem execute_untag (rounds : Nat) (program : List (Node ι)) :
    execute rounds (Node.untagAll program) = execute rounds program := by
  induction program with
  | nil => rfl
  | cons statement rest ih => simp only [Node.untagAll, execute, executeTop_untag, ih]

end Machine

end SlangScript
