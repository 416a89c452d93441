import SlangScript.Proofs.Run.Rounds
import SlangScript.Proofs.Run.Steps
import SlangScript.Proofs.Run.Untag

/-!
What stands behind a word that leaves its block is never reached. A block ends with the first word
that leaves a loop or starts its next round, and a program with the first that leaves a loop; so
programs that differ in nothing but what follows such words run the same.
-/

namespace SlangScript

variable {ι κ : Type}

namespace Node

/-- The signal of a word that leaves the block it stands in. -/
def word? : Node ι → Option Signal
  | .breakOut _ => some .breakOut
  | .continueOn _ => some .continueOn
  | _ => none

mutual

/-- The statement without what its blocks hold behind a word that leaves them. -/
def pruned : Node ι → Node ι
  | .ifThen tag condition body => .ifThen tag condition (prunedBlock body)
  | .ifElse tag condition yes no => .ifElse tag condition (prunedBlock yes) (prunedBlock no)
  | .whileDo tag condition body => .whileDo tag condition (prunedBlock body)
  | simple => simple

/-- The statements of a block up to the first word that leaves it. -/
def prunedBlock : List (Node ι) → List (Node ι)
  | [] => []
  | s :: rest => pruned s :: if s.word?.isSome then [] else prunedBlock rest

end

/-- The statements of a program up to the first word that leaves a loop. -/
def prunedProgram : List (Node ι) → List (Node ι)
  | [] => []
  | s :: rest => s.pruned :: if s.word? = some .breakOut then [] else prunedProgram rest

theorem word?_pruned (s : Node ι) : s.pruned.word? = s.word? := by
  cases s <;> simp only [pruned, word?]

end Node

namespace Machine

variable {rounds : Nat} {s : Node ι} {signal : Signal}

/-- A word takes its step and tells its signal. -/
theorem step_word (h : s.word? = some signal) (depth : Nat) :
    step rounds s depth = do
      countStep
      return signal := by
  cases s <;> cases h <;> rfl

theorem block_word (h : s.word? = some signal) (rest : List (Node ι)) (depth : Nat) :
    block rounds (s :: rest) depth = do
      countStep
      return signal := by
  have leaves : signal ≠ .goOn := by
    cases s <;> cases h <;> simp
  rw [block, step_word h]
  cases signal with
  | goOn => exact absurd rfl leaves
  | breakOut | continueOn => simp only [bind_assoc, pure_bind]

/-- At the outermost level too: only a cap stops a word. -/
theorem executeTop_word (h : s.word? = some signal) :
    executeTop rounds s = do
      countStep
      return signal := by
  refine funext fun m => ?_
  change outcome (executeTop rounds s) m = outcome (countStep >>= _) m
  rw [executeTop, step_word h]
  rcases capped : m.cap with _ | cap
  · have counted := outcome_countStep_none capped
    rw [outcome_tryCatch_ok (outcome_bind_ok counted _), outcome_bind_ok counted]
    rfl
  · have counted := outcome_countStep_some capped
    split at counted
    · rw [outcome_tryCatch_error (outcome_bind_error counted _), outcome_bind_error counted]
      rfl
    · rw [outcome_tryCatch_ok (outcome_bind_ok counted _), outcome_bind_ok counted]
      rfl

mutual

theorem step_pruned (rounds : Nat) (node : Node ι) :
    step rounds node.pruned = step rounds node := by
  funext depth
  cases node with
  | ifThen tag condition body => simp only [Node.pruned, step, block_pruned rounds body]
  | ifElse tag condition yes no =>
      simp only [Node.pruned, step, block_pruned rounds yes, block_pruned rounds no]
  | whileDo tag condition body => simp only [Node.pruned, step, block_pruned rounds body]
  | _ => rfl

theorem block_pruned (rounds : Nat) (nodes : List (Node ι)) :
    block rounds (Node.prunedBlock nodes) = block rounds nodes := by
  funext depth
  cases nodes with
  | nil => rfl
  | cons statement rest =>
      cases leaves : statement.word? with
      | none =>
          simp only [Node.prunedBlock, leaves, Option.isSome_none, Bool.false_eq_true, if_false,
            block, step_pruned rounds statement, block_pruned rounds rest]
      | some signal =>
          rw [Node.prunedBlock, block_word leaves,
            block_word ((Node.word?_pruned statement).trans leaves)]

end

theorem execute_pruned (rounds : Nat) (program : List (Node ι)) :
    execute rounds (Node.prunedProgram program) = execute rounds program := by
  induction program with
  | nil => rfl
  | cons statement rest ih =>
      rw [Node.prunedProgram]
      split
      · next leaves =>
          have leaves' := (Node.word?_pruned statement).trans leaves
          simp only [execute, executeTop_word leaves, executeTop_word leaves', bind_assoc, pure_bind]
      · simp only [execute, executeTop, step_pruned, ih]

/-- Programs that differ only in what follows words that leave their blocks, or in their tags, run
the same: so many rounds on a machine give the same result and leave the same machine. -/
theorem run_pruned {p : List (Node ι)} {q : List (Node κ)}
    (same : Node.prunedProgram (Node.untagAll p) = Node.prunedProgram (Node.untagAll q))
    (m : Machine) :
    (∀ rounds, outcome (execute rounds p) m = outcome (execute rounds q) m) ∧
      m.run p = m.run q ∧ ∀ result m', m.Ends p result m' ↔ m.Ends q result m' := by
  have actions (rounds : Nat) : execute rounds p = execute rounds q :=
    calc execute rounds p
      _ = execute rounds (Node.prunedProgram (Node.untagAll p)) := by
          rw [execute_pruned, execute_untag]
      _ = execute rounds q := by rw [same, execute_pruned, execute_untag]
  refine ⟨fun rounds => by rw [actions], ?_, fun result m' => ?_⟩
  · rw [run, run, perform, perform, actions]
  · simp only [Ends, actions]

/-- A loop that is left in its second round, and a word that ends the program, with statements
behind every word. -/
def littered (litter : List (Node Unit)) : List (Node Unit) :=
  .whileDo () (.flag () true)
      [.ifElse () (.var () "x") (.breakOut () :: litter)
        (.assign () "x" (.flag () true) :: .continueOn () :: litter)] ::
    .breakOut () :: litter

theorem run_pruned_littered :
    Node.prunedProgram (Node.untagAll (littered [])) =
      Node.prunedProgram (Node.untagAll (littered [.print () (.text () "unsaid"), .missing])) ∧
    (∀ rounds, outcome (execute rounds (littered [])) { cap := some 20 } =
      outcome (execute rounds (littered [.print () (.text () "unsaid"), .missing]))
        { cap := some 20 }) ∧
    Machine.run { cap := some 20 } (littered []) =
      Machine.run { cap := some 20 } (littered [.print () (.text () "unsaid"), .missing]) ∧
    ∀ result m', Machine.Ends { cap := some 20 } (littered []) result m' ↔
      Machine.Ends { cap := some 20 } (littered [.print () (.text () "unsaid"), .missing]) result
        m' :=
  have same : Node.prunedProgram (Node.untagAll (littered [])) =
      Node.prunedProgram (Node.untagAll (littered [.print () (.text () "unsaid"), .missing])) := rfl
  ⟨same, run_pruned same { cap := some 20 }⟩

end Machine

end SlangScript
