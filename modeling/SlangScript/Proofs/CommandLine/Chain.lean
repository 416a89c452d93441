import SlangScript.CommandLine.Trace
import SlangScript.Proofs.Grammar.Printed
import SlangScript.Proofs.Grammar.Program
import SlangScript.Proofs.Node.Frames
import SlangScript.Proofs.Run.Frame
import SlangScript.Proofs.Run.Meaning
import SlangScript.Proofs.Run.Untag
import SlangScript.Proofs.Token.Spelling

/-!
A flat chain of additions. Its tree leans to the left and is as high as the chain is long, but the
chain is read and runs at any length.
-/

namespace SlangScript

open Grammar

variable {ι : Type}

namespace Node

mutual

/-- The height of a tree is the number of frames it takes to make its outline. -/
theorem frames_describing : (node : Node ι) → frames .describing node = node.height
  | .binary _ left _ right => by
      simp only [frames, height, frames_describing left, frames_describing right]
      rfl
  | .unary _ _ operand => by
      simp only [frames, height, frames_describing operand]
      rfl
  | .declare _ _ value | .assign _ _ value | .print _ value | .debugPrint _ value => by
      simp only [frames, height, frames_describing value]
      rfl
  | .ifThen _ condition body | .whileDo _ condition body => by
      simp only [frames, height, frames_describing condition, ← framesAll_describing body, framesAll]
      rfl
  | .ifElse _ condition yes no => by
      simp only [frames, height, frames_describing condition, ← framesAll_describing yes,
        ← framesAll_describing no, framesAll]
      rfl
  | .number .. | .text .. | .flag .. | .var .. | .breakOut _ | .continueOn _ | .bare _
  | .missing => rfl

theorem framesAll_describing : (nodes : List (Node ι)) →
    framesAll .describing nodes = heightAll nodes
  | [] => rfl
  | node :: nodes => by
      rw [heightAll, ← framesAll_describing nodes, ← frames_describing node, framesAll, framesAll,
        framesEach]
      exact (Nat.add_max_add_left ..).symm

end

/-- A zero with so many zeros added to it. -/
def zeros : Nat → Node Unit
  | 0 => .number () 0
  | count + 1 => .binary () (zeros count) .add (.number () 0)

theorem isExpression_zeros (count : Nat) : (zeros count).IsExpression := by
  induction count with
  | zero => exact .number () 0
  | succ count ih => exact .binary (by decide) ih (.number () 0)

/-- A chain needs no parentheses to its left. -/
theorem not_loose_zeros (count : Nat) :
    decide ((zeros count).level < BinaryOp.add.level) = false := by
  cases count <;> rfl

theorem lexemes_zeros (count : Nat) : (zeros count).lexemes =
    .number 0 :: (List.replicate count [.mark .plus, .number 0]).flatten := by
  induction count with
  | zero => rfl
  | succ count ih =>
      rw [zeros, lexemes, ih, not_loose_zeros, List.replicate_succ', List.flatten_append]
      rfl

theorem nesting_zeros (count : Nat) : (zeros count).nesting = 0 := by
  induction count with
  | zero => rfl
  | succ count ih =>
      rw [zeros, nesting, ih, not_loose_zeros]
      rfl

/-- The chain takes no depth, only its operands do. -/
theorem evaluationDepth_zeros (count : Nat) :
    (zeros count).evaluationDepth + (zeros count).chainCost ≤ 2 := by
  induction count with
  | zero => exact Nat.le_refl _
  | succ count ih =>
      rw [zeros, evaluationDepth, chainCost]
      exact Nat.max_le.mpr ⟨ih, Nat.le_refl _⟩

theorem frames_zeros (walk : Walk) (count : Nat) :
    frames walk (zeros count) = walk.node * (count + 1) := by
  induction count with
  | zero => exact (Nat.mul_one _).symm
  | succ count ih =>
      have leaf : frames walk (.number () 0) = walk.node := rfl
      rw [zeros, frames, ih, leaf, Nat.max_eq_left (Nat.le_mul_of_pos_right _ count.succ_pos),
        Nat.add_comm, ← Nat.mul_succ]

end Node

open Node

theorem meaning_zeros (store : Store) (count : Nat) :
    meaning store (zeros count) = .ok (.number 0) := by
  induction count with
  | zero => rfl
  | succ count ih =>
      have sum : (0 : Float) + 0 = 0 := by decide
      rw [zeros, meaning, ih]
      exact congrArg (fun x => Except.ok (Value.number x)) sum

theorem evaluate_zeros (store : Store) (count : Nat) :
    evaluate store Machine.depthLimit (zeros count) = .ok (.number 0) := by
  have enough := evaluationDepth_zeros count
  have deep : 2 ≤ Machine.depthLimit := by decide
  rcases evaluate_depthAside store Machine.depthLimit (zeros count) with same | ⟨short, _⟩
  · rw [same, meaning_zeros]
  · omega

/-- The text of so many zeros that are added. -/
def addedText (count : Nat) : List Char := (List.replicate count [' ', '+', ' ', '0']).flatten

/-- The text of a program that prints a chain of zeros. -/
def zerosText (count : Nat) : List Char := "3mol".toList ++ ' ' :: '0' :: addedText count

theorem separated_addedText (count : Nat) : Separated (addedText count) := by
  cases count with
  | zero => exact separated_nil
  | succ count => exact separated_space _

theorem lexes_zero : Lexes ['0'] (.number 0) := lexes_run (by decide)

theorem cuts_addedText (count : Nat) :
    Cuts (addedText count) (List.replicate count [.mark .plus, .number 0]).flatten := by
  have plus : Lexes ['+'] (.mark .plus) := lexes_alone (by decide) rfl rfl
  have blank (rest : List Char) : munch ' ' rest = (none, 1) := munch_of_parts (.inl rfl) rest
  induction count with
  | zero => exact .nil
  | succ count ih =>
      have front : addedText (count + 1) =
          ' ' :: (['+'] ++ ' ' :: (['0'] ++ addedText count)) := rfl
      rw [front]
      exact .skip (blank _) (.lexes plus (separated_space _)
        (.skip (blank _) (.lexes lexes_zero (separated_addedText count) ih)))

theorem cuts_zerosText (count : Nat) :
    Cuts (zerosText count) (Node.lexemesAll [.print () (zeros count)]) := by
  have chain : Cuts ('0' :: addedText count) (zeros count).lexemes := by
    rw [lexemes_zeros]
    exact .lexes lexes_zero (separated_addedText count) (cuts_addedText count)
  rw [Node.lexemesAll, Node.lexemesAll, List.append_nil, Node.lexemes]
  exact .space lexes_printWord chain

/-- The characters of the texts of chains. -/
def zerosAlphabet : List Char := ['3', 'm', 'o', 'l', ' ', '0', '+']

theorem zerosText_subset (count : Nat) : zerosText count ⊆ zerosAlphabet := by
  have front : "3mol".toList ++ [' ', '0'] ⊆ zerosAlphabet := by decide
  have piece : [' ', '+', ' ', '0'] ⊆ zerosAlphabet := by decide
  have added : addedText count ⊆ zerosAlphabet := by
    intro c member
    obtain ⟨_, copy, inside⟩ := List.mem_flatten.mp member
    exact piece (List.eq_of_mem_replicate copy ▸ inside)
  have whole : zerosText count = ("3mol".toList ++ [' ', '0']) ++ addedText count := by
    simp [zerosText]
  rw [whole]
  exact List.append_subset.mpr ⟨front, added⟩

/-- The text is read at any length. -/
theorem parse_zerosText (count : Nat) : ∃ program : List (Node Int),
    Node.untagAll program = Node.untagAll [.print () (zeros count)] ∧
      parse (tokenize (String.ofList (zerosText count))) = ⟨program, []⟩ := by
  have shape : ∀ s ∈ [Node.print () (zeros count)], s.IsStatement :=
    List.forall_mem_singleton.mpr (.print (isExpression_zeros count))
  have nesting : Node.nestingAll [Node.print () (zeros count)] ≤ Parse.depthLimit := by
    simp only [Node.nestingAll, Node.nesting, nesting_zeros]
    decide
  have cuts : Cuts (String.ofList (zerosText count)).toList
      (Node.lexemesAll [Node.print () (zeros count)]) := by
    simpa using cuts_zerosText count
  have tokens := lexemes_tokenize_of_cuts cuts
  obtain ⟨program, erased, derived⟩ := program_of_lexemes shape tokens
  have inside : ∀ l ∈ Node.lexemesAll [Node.print () (zeros count)], l ≠ .mark .eof := by
    simp [Node.lexemesAll, Node.lexemes, lexemes_zeros, List.mem_flatten, or_imp, forall_and]
  exact ⟨program, erased, parse_of_program (endsOnce_of_lexemes inside tokens) nesting derived⟩

/-- The program of that text. -/
def zerosProgram (count : Nat) : List (Node Int) :=
  (parse (tokenize (String.ofList (zerosText count)))).statements

theorem framesAll_zerosProgram (walk : Walk) (count : Nat) :
    framesAll walk (zerosProgram count) = walk.list + walk.node * (count + 2) := by
  obtain ⟨program, erased, parsed⟩ := parse_zerosText count
  have same : zerosProgram count = program := congrArg Parsed.statements parsed
  rw [same, ← framesAll_untag, erased, framesAll_untag]
  simp only [framesAll, framesEach, frames, frames_zeros, Nat.max_zero]
  rw [Nat.add_comm walk.node, ← Nat.mul_succ]

theorem heightAll_zerosText (count : Nat) :
    Node.heightAll (parse (tokenize (String.ofList (zerosText count)))).statements = count + 4 := by
  have frames := framesAll_zerosProgram .describing count
  rw [framesAll_describing] at frames
  refine frames.trans ?_
  simp only [Walk.describing]
  omega

namespace Machine

theorem outcome_valueOf (depth : Nat) (expression : Node ι) (m : Machine) :
    outcome (valueOf depth expression) m = (evaluate m.store depth expression, m) := rfl

/-- The chain runs at any length. -/
theorem runTextWithin_zerosText (rounds count : Nat) {m : Machine} (uncapped : m.cap = none) :
    m.runTextWithin rounds (String.ofList (zerosText count)) =
      (.ok (), { m with out := m.out ++ "0" ++ "\n" }) := by
  obtain ⟨program, erased, parsed⟩ := parse_zerosText count
  have value : outcome (valueOf depthLimit (zeros count)) m = (.ok (.number 0), m) := by
    rw [outcome_valueOf, evaluate_zeros]
  have acted : outcome (act (.print () (zeros count)) depthLimit) m =
      (.ok .goOn, { m with out := m.out ++ "0" ++ "\n" }) := by
    rw [act, outcome_bind_ok value]
    have shown : (Value.number 0).printed = "0" := by decide +kernel
    rw [shown]
    rfl
  have statement : outcome (executeTop rounds (.print () (zeros count))) m =
      (.ok .goOn, { m with out := m.out ++ "0" ++ "\n" }) := by
    refine outcome_tryCatch_ok ?_ _
    exact (outcome_bind_ok (outcome_countStep_none uncapped) _).trans acted
  have noted : m.note "" = m := by simp [note]
  rw [runTextWithin, parsed, ← execute_untag, erased, execute_untag]
  change outcome (execute rounds [.print () (zeros count)]) (m.note "") = _
  rw [noted, execute, outcome_bind_ok statement]
  rfl

end Machine

end SlangScript
