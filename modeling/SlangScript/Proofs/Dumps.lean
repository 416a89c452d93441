import SlangScript.Proofs.CommandLine.Chain
import SlangScript.Proofs.Node.Comparison
import SlangScript.Proofs.Node.Outline
import SlangScript.Proofs.Token.Span

/-!
Dumps tell programs apart. Both dumps of a tree leave out its tags and nothing else, and no number of
a source text is one that a comparison would take for another; so two programs are equal exactly if
they are written alike, and exactly if they are drawn alike. But each of these recurses into the
trees and fails on a chain that is too long for the host's stack, although chains of any length are
read and run.
-/

namespace SlangScript

namespace Node

variable {ι : Type}

/-! ## Dumps have no tags -/

mutual

theorem written_untag : (node : Node ι) → written node.untag = written node
  | .binary _ left _ right => by simp only [untag, written, written_untag left, written_untag right]
  | .unary _ _ operand => by simp only [untag, written, written_untag operand]
  | .declare _ _ value | .assign _ _ value | .print _ value | .debugPrint _ value => by
      simp only [untag, written, written_untag value]
  | .ifThen _ condition body | .whileDo _ condition body => by
      simp only [untag, written, written_untag condition, writtenEach_untag body]
  | .ifElse _ condition yes no => by
      simp only [untag, written, written_untag condition, writtenEach_untag yes,
        writtenEach_untag no]
  | .number .. | .text .. | .flag .. | .var .. | .breakOut _ | .continueOn _ | .bare _
  | .missing => rfl

theorem writtenEach_untag : (nodes : List (Node ι)) →
    writtenEach (untagAll nodes) = writtenEach nodes
  | [] => rfl
  | node :: nodes => by
      simp only [untagAll, writtenEach, written_untag node, writtenEach_untag nodes]

end

mutual

theorem outline_untag : (node : Node ι) → outline node.untag = outline node
  | .binary _ left _ right => by simp only [untag, outline, outline_untag left, outline_untag right]
  | .unary _ _ operand => by simp only [untag, outline, outline_untag operand]
  | .declare _ _ value | .assign _ _ value | .print _ value | .debugPrint _ value => by
      simp only [untag, outline, outline_untag value]
  | .ifThen _ condition body | .whileDo _ condition body => by
      simp only [untag, outline, outline_untag condition, outlineEach_untag body]
  | .ifElse _ condition yes no => by
      simp only [untag, outline, outline_untag condition, outlineEach_untag yes,
        outlineEach_untag no]
  | .number .. | .text .. | .flag .. | .var .. | .breakOut _ | .continueOn _ | .bare _
  | .missing => rfl

theorem outlineEach_untag : (nodes : List (Node ι)) →
    outlineEach (untagAll nodes) = outlineEach nodes
  | [] => rfl
  | node :: nodes => by
      simp only [untagAll, outlineEach, outline_untag node, outlineEach_untag nodes]

end

theorem writtenAll_eq_iff {nodes nodes' : List (Node ι)}
    (statements : ∀ node ∈ nodes, node.IsStatement)
    (statements' : ∀ node ∈ nodes', node.IsStatement) :
    writtenAll nodes = writtenAll nodes' ↔ untagAll nodes = untagAll nodes' := by
  refine ⟨untagAll_of_writtenAll statements statements', fun same => ?_⟩
  rw [writtenAll, writtenAll, ← writtenEach_untag nodes, same, writtenEach_untag]

theorem render_eq_iff {nodes nodes' : List (Node ι)}
    (statements : ∀ node ∈ nodes, node.IsStatement)
    (statements' : ∀ node ∈ nodes', node.IsStatement) (indent : Nat) :
    (outlineAll nodes).render indent = (outlineAll nodes').render indent ↔
      untagAll nodes = untagAll nodes' := by
  refine ⟨untagAll_of_render statements statements', fun same => ?_⟩
  rw [outlineAll, outlineAll, ← outlineEach_untag nodes, same, outlineEach_untag]

end Node

/-! ## Parsed programs -/

theorem noMinus_parse (source : String) :
    Node.NoMinus (Node.itemsAll (parse (tokenize source)).statements) := by
  intro item member x same
  obtain ⟨place, -, fits⟩ := (Parse.drawn_parse (tokenize source)).places
  obtain ⟨i, rfl⟩ := List.get_of_mem member
  have lexeme := (fits i).1.trans same
  have other : ((tokenize source).get (place i)).lexeme ≠ .mark .eof := by
    rw [lexeme]
    exact Lexeme.noConfusion
  obtain ⟨slice, behind, denotes⟩ := denoted_of_mem_tokenize (List.get_mem _ (place i)) other
  exact signless_of_denotes (lexeme ▸ denotes)

namespace Stacked

/-- Makes two texts and compares them. -/
def sameTexts (x y : Stacked String) : Stacked Bool := return (← x) == (← y)

theorem Takes.sameTexts {x y : Stacked String} {frames frames' : Nat} {text text' : String}
    (h : Takes x frames text) (h' : Takes y frames' text') :
    Takes (sameTexts x y) (max frames frames') (text == text') := h.bind h'.last

theorem Takes.sameTexts_self {x : Stacked String} {frames : Nat} {text : String}
    (h : Takes x frames text) : Takes (Stacked.sameTexts x x) frames true := by
  have both := h.sameTexts h
  rwa [Nat.max_self, beq_self_eq_true] at both

end Stacked

open Node Stacked

theorem decides_compareAll_parse (source source' : String) :
    let program := (parse (tokenize source)).statements
    let program' := (parse (tokenize source')).statements
    Decides (compareAll program program') (framesAll .comparing program)
      (framesAll .comparing program') (untagAll program = untagAll program') :=
  decides_compareAll (parse_isStatement _) (parse_isStatement _) (noMinus_parse source)
    (noMinus_parse source')

/-- There is one verdict on two programs that are read from source texts: whether they are the same
but for their tags. It is found by comparing them, by comparing how they are written, and by
comparing how their outlines are drawn, each as long as there is room for the frames it takes; and
none of them ever finds the other verdict. -/
theorem dumps_identify (source source' : String) :
    let program := (parse (tokenize source)).statements
    let program' := (parse (tokenize source')).statements
    ∃ verdict : Bool, (verdict = true ↔ untagAll program = untagAll program') ∧
      Decides (compareAll program program') (framesAll .comparing program)
        (framesAll .comparing program') (verdict = true) ∧
      Takes (sameTexts (writeAll program) (writeAll program'))
        (max (framesAll .writing program) (framesAll .writing program')) verdict ∧
      Takes (sameTexts (drawAll 1 program) (drawAll 1 program'))
        (max (framesAll .describing program) (framesAll .describing program')) verdict := by
  intro program program'
  have statements := parse_isStatement (tokenize source)
  have statements' := parse_isStatement (tokenize source')
  have written : (writtenAll program == writtenAll program') = true ↔
      untagAll program = untagAll program' :=
    beq_iff_eq.trans (writtenAll_eq_iff statements statements')
  have drawn : (writtenAll program == writtenAll program') =
      ((outlineAll program).render 1 == (outlineAll program').render 1) := by
    rw [Bool.eq_iff_iff, written, beq_iff_eq, render_eq_iff statements statements']
  refine ⟨writtenAll program == writtenAll program', written,
    (decides_compareAll_parse source source').congr written.symm,
    (takes_writeAll program).sameTexts (takes_writeAll program'), ?_⟩
  rw [drawn]
  exact (takes_drawAll 1 program).sameTexts (takes_drawAll 1 program')

/-- Flat chains of additions, which are read at any length. With the whole stack of the host the
shorter one is drawn like itself, but it is neither written nor compared; and with the longer one
none of it is done. -/
theorem dumps_fail_zeros :
    sameTexts (drawAll 1 (zerosProgram 400)) (drawAll 1 (zerosProgram 400)) recursionLimit =
        some true ∧
      sameTexts (writeAll (zerosProgram 400)) (writeAll (zerosProgram 400)) recursionLimit = none ∧
      compareAll (zerosProgram 400) (zerosProgram 400) recursionLimit = none ∧
    sameTexts (drawAll 1 (zerosProgram 1000)) (drawAll 1 (zerosProgram 1000)) recursionLimit =
        none ∧
      sameTexts (writeAll (zerosProgram 1000)) (writeAll (zerosProgram 1000)) recursionLimit =
        none ∧
      compareAll (zerosProgram 1000) (zerosProgram 1000) recursionLimit = none := by
  have drawn (count : Nat) : Takes
      (sameTexts (drawAll 1 (zerosProgram count)) (drawAll 1 (zerosProgram count)))
      (2 + 1 * (count + 2)) true := by
    have takes := takes_drawAll 1 (zerosProgram count)
    rw [framesAll_zerosProgram] at takes
    exact takes.sameTexts_self
  have written (count : Nat) : Takes
      (sameTexts (writeAll (zerosProgram count)) (writeAll (zerosProgram count)))
      (1 + 4 * (count + 2)) true := by
    have takes := takes_writeAll (zerosProgram count)
    rw [framesAll_zerosProgram] at takes
    exact takes.sameTexts_self
  have compared (count : Nat) : Takes (compareAll (zerosProgram count) (zerosProgram count))
      (1 + 3 * (count + 2)) true := by
    have takes := (decides_compareAll_parse (String.ofList (zerosText count)) _).takes rfl rfl
    rwa [← zerosProgram, framesAll_zerosProgram] at takes
  exact ⟨drawn 400 _, written 400 _, compared 400 _, drawn 1000 _, written 1000 _, compared 1000 _⟩

end SlangScript
