import SlangScript.Proofs.Value.Operation
import SlangScript.Run.Evaluate

/-!
What can go wrong when an expression is evaluated. Whatever the tree is like, evaluation ends with a
value or with a fault of its own: never because steps are spent, nor for want of rounds. In an
expression of a program only texts that no number is read from can go wrong, and nesting.
-/

namespace SlangScript

variable {ι : Type}

theorem Refuses.ofOperation {faults : Fault → Prop} {result : Except OperationError Value}
    (h : Refuses (fun error => faults (.operation error)) result) :
    Refuses faults (ofOperation result) :=
  h.mapError

/-- A fault that the evaluation of an expression, or a stray node, can cause. -/
def Fault.Local : Fault → Prop
  | .stepLimit _ | .unfinished => False
  | .operation _ | .strayStatement _ | .strayExpression _ | .tooDeep => True

theorem Fault.Local.ne_unfinished {fault : Fault} (h : fault.Local) : fault ≠ .unfinished := by
  rintro rfl
  exact h

theorem Fault.Local.ne_stepLimit {fault : Fault} (h : fault.Local) (cap : Int) :
    fault ≠ .stepLimit cap := by
  rintro rfl
  exact h

/-- Whatever the tree is like, evaluation fails for reasons of its own only. -/
theorem evaluate_local (store : Store) (depth : Nat) (node : Node ι) :
    Refuses Fault.Local (evaluate store depth node) := by
  induction depth generalizing node with
  | zero => exact .error trivial
  | succ depth ih =>
      cases node with
      | number | text | flag | var => exact .ok _
      | unary tag op operand =>
          rw [evaluate]
          exact (ih operand).bind fun _ => .ofOperation fun _ _ => trivial
      | binary tag left op right =>
          rw [evaluate]
          exact (ih _).bind fun value => .foldlM value fun _ _ _ =>
            (ih _).bind fun _ => .ofOperation fun _ _ => trivial
      | _ => exact .error trivial

/-- What a chain passes on to the chain on its left and to the operand on its right holds of the
whole of its spine. -/
theorem Node.forall_spine {onLeft : Node ι → Prop} {onRight : BinaryOp × Node ι → Prop}
    (parts : ∀ {tag left op right}, onLeft (.binary tag left op right) →
      onLeft left ∧ onRight (op, right)) {node : Node ι} (h : onLeft node)
    {later : List (BinaryOp × Node ι)} (behind : ∀ entry ∈ later, onRight entry) :
    onLeft (node.spine later).1 ∧ ∀ entry ∈ (node.spine later).2, onRight entry := by
  fun_induction Node.spine node later with
  | case1 later _ left op right ih =>
      exact ih (parts h).1 (List.forall_mem_cons.mpr ⟨(parts h).2, behind⟩)
  | case2 => exact ⟨h, behind⟩

/-- The operators of a chain are those that there are, and their operands are expressions. -/
def SoundSpine (later : List (BinaryOp × Node ι)) : Prop :=
  ∀ entry ∈ later, entry.1 ∈ BinaryOp.known ∧ entry.2.IsExpression

theorem Node.IsExpression.spine {node : Node ι} (h : node.IsExpression)
    {later : List (BinaryOp × Node ι)} (sound : SoundSpine later) :
    (node.spine later).1.IsExpression ∧ SoundSpine (node.spine later).2 :=
  Node.forall_spine (fun h => by cases h with | binary known hl hr => exact ⟨hl, known, hr⟩) h sound

/-- An operand is a text that is plain numeric text by its letters, but that no number is read
from. -/
def Fault.Unreadable (fault : Fault) : Prop :=
  ∃ error : OperationError, fault = .operation error ∧ error.Unreadable

/-- The evaluation of an expression of a program fails for an unreadable text or for nesting. -/
theorem evaluate_refuses (store : Store) (depth : Nat) {node : Node ι} (h : node.IsExpression) :
    Refuses (fun fault => fault = .tooDeep ∨ fault.Unreadable) (evaluate store depth node) := by
  induction depth generalizing node with
  | zero => exact .error (.inl rfl)
  | succ depth ih =>
      have operation {result : Except OperationError Value}
          (refuses : Refuses OperationError.Unreadable result) :
          Refuses (fun fault => fault = .tooDeep ∨ fault.Unreadable) (ofOperation result) :=
        .ofOperation fun error same => .inr ⟨error, rfl, refuses error same⟩
      have spine : (node.spine []).1.IsExpression ∧ SoundSpine (node.spine []).2 :=
        h.spine fun _ member => nomatch member
      cases h with
      | number | text | flag | var => exact .ok _
      | unary known h =>
          rw [evaluate]
          exact (ih h).bind fun value => operation (value.unary_refuses known)
      | binary known hl hr =>
          -- A chain is evaluated from its leftmost operand on, all of it at one depth.
          obtain ⟨first, later⟩ := spine
          rw [evaluate]
          refine (ih first).bind fun value => .foldlM value fun entry member left => ?_
          obtain ⟨known, right⟩ := later entry member
          exact (ih right).bind fun other => operation (left.binary_refuses known other)

end SlangScript
