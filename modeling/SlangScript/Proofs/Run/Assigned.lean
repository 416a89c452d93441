import SlangScript.Run.Execute

/-!
Declaring a name does what assigning to it does, so a program runs the same with its declarations
made assignments.
-/

namespace SlangScript

variable {ι : Type}

namespace Node

mutual

/-- A statement with the declarations in it made assignments. -/
def assigned : Node ι → Node ι
  | .declare tag name value => .assign tag name value
  | .ifThen tag condition body => .ifThen tag condition (assignedAll body)
  | .ifElse tag condition yes no => .ifElse tag condition (assignedAll yes) (assignedAll no)
  | .whileDo tag condition body => .whileDo tag condition (assignedAll body)
  | simple => simple

def assignedAll : List (Node ι) → List (Node ι)
  | [] => []
  | node :: nodes => assigned node :: assignedAll nodes

end

end Node

namespace Machine

mutual

theorem step_assigned (rounds : Nat) (node : Node ι) :
    step rounds node.assigned = step rounds node := by
  funext depth
  cases node with
  | ifThen tag condition body => simp only [Node.assigned, step, block_assigned rounds body]
  | ifElse tag condition yes no =>
      simp only [Node.assigned, step, block_assigned rounds yes, block_assigned rounds no]
  | whileDo tag condition body => simp only [Node.assigned, step, block_assigned rounds body]
  | _ => rfl

theorem block_assigned (rounds : Nat) (nodes : List (Node ι)) :
    block rounds (Node.assignedAll nodes) = block rounds nodes := by
  funext depth
  cases nodes with
  | nil => rfl
  | cons statement rest =>
      simp only [Node.assignedAll, block, step_assigned rounds statement, block_assigned rounds rest]

end

theorem execute_assigned (rounds : Nat) (program : List (Node ι)) :
    execute rounds (Node.assignedAll program) = execute rounds program := by
  induction program with
  | nil => rfl
  | cons statement rest ih =>
      simp only [Node.assignedAll, execute, executeTop, step_assigned, ih]

end Machine

end SlangScript
