import SlangScript.Proofs.Run.Action
import SlangScript.Proofs.Run.Meaning
import SlangScript.Proofs.Run.Steps

/-!
The depth that an execution takes. A statement takes the depth of the expressions in it, and that of
its blocks below what a block costs, whether or not a run comes to them. Within that depth it never
runs out of depth, whatever the store, the cap and the number of rounds, so there is nothing to catch
at the outermost level.
-/

namespace SlangScript

variable {ι α β : Type}

namespace Node

mutual

/-- The depth that the execution of a statement takes. A block of a conditional stands two deeper than
the statement, and the body of a loop three. -/
def executionDepth : Node ι → Nat
  | .declare _ _ value | .assign _ _ value | .print _ value | .debugPrint _ value =>
    value.evaluationDepth
  | .ifThen _ condition body => max condition.evaluationDepth (executionDepthAll body + 2)
  | .ifElse _ condition yes no =>
    max condition.evaluationDepth (max (executionDepthAll yes) (executionDepthAll no) + 2)
  | .whileDo _ condition body => max condition.evaluationDepth (executionDepthAll body + 3)
  | _ => 0

def executionDepthAll : List (Node ι) → Nat
  | [] => 0
  | node :: nodes => max node.executionDepth (executionDepthAll nodes)

end

end Node

namespace Machine

/-- The action never runs out of depth. -/
def Shallow (p : Run α) : Prop :=
  Leads (fun _ => True) p (fun _ _ => True) fun fault _ => fault ≠ .tooDeep

namespace Shallow

theorem outcome_ne {p : Run α} (h : Shallow p) (m : Machine) :
    (outcome p m).1 ≠ .error .tooDeep := by
  rcases h m trivial with ⟨a, m', same, _⟩ | ⟨fault, m', same, other⟩ <;> rw [same]
  · exact fun absent => nomatch absent
  · exact fun deep => other (Except.error.inj deep)

theorem of_outcome {p : Run α} (h : ∀ m, (outcome p m).1 ≠ .error .tooDeep) : Shallow p := by
  intro m _
  rcases same : outcome p m with ⟨fault | a, m'⟩
  · refine .inr ⟨fault, m', rfl, fun deep => h m ?_⟩
    rw [same, deep]
  · exact .inl ⟨a, m', rfl, trivial⟩

theorem pure (a : α) : Shallow (pure a) := Leads.pure fun _ _ => trivial

theorem throw {fault : Fault} (other : fault ≠ .tooDeep) : Shallow (throw fault : Run α) :=
  Leads.throw fun _ _ => other

theorem bind {p : Run α} {f : α → Run β} (hp : Shallow p) (hf : ∀ a, Shallow (f a)) :
    Shallow (p >>= f) :=
  Leads.bind hp hf

theorem ite {p q : Run α} (c : Prop) [Decidable c] (hp : Shallow p) (hq : Shallow q) :
    Shallow (if c then p else q) :=
  Leads.ite c hp hq

theorem modify (f : Machine → Machine) : Shallow (modify f : Run Unit) :=
  of_outcome fun _ => nofun

theorem countStep : Shallow countStep := by
  refine of_outcome fun m => ?_
  rcases capped : m.cap with _ | cap
  · rw [outcome_countStep_none capped]
    exact nofun
  · rw [outcome_countStep_some capped]
    split <;> exact nofun

theorem valueOf {depth : Nat} {e : Node ι} (enough : e.evaluationDepth ≤ depth) :
    Shallow (valueOf depth e) :=
  of_outcome fun m => evaluate_ne_tooDeep m.store enough

theorem bindTo {depth : Nat} {e : Node ι} (enough : e.evaluationDepth ≤ depth) (name : String) :
    Shallow (bindTo depth name e) :=
  (valueOf enough).bind fun _ => modify _

theorem spend {cost depth : Nat} {action : Nat → Run α} (enough : cost ≤ depth)
    (h : Shallow (action (depth - cost))) : Shallow (spend cost depth action) := by
  rw [Machine.spend, if_pos enough]
  exact h

theorem loop {round : Run Bool} (h : Shallow round) (rounds : Nat) : Shallow (loop round rounds) :=
  Leads.loop_of_kept h (fun _ _ => nofun) rounds

end Shallow

theorem shallow_act {node : Node ι} {depth : Nat} (enough : node.executionDepth ≤ depth) :
    Shallow (act node depth) := by
  cases node with
  | declare tag name value | assign tag name value =>
      exact (Shallow.bindTo enough name).bind fun _ => .pure _
  | print tag value | debugPrint tag value =>
      exact (Shallow.valueOf enough).bind fun _ => (Shallow.modify _).bind fun _ => .pure _
  | breakOut | continueOn => exact .pure _
  | _ => exact .throw nofun

def StepShallow (rounds : Nat) (node : Node ι) : Prop :=
  ∀ depth, node.executionDepth ≤ depth → Shallow (step rounds node depth)

def BlockShallow (rounds : Nat) (nodes : List (Node ι)) : Prop :=
  ∀ depth, Node.executionDepthAll nodes ≤ depth → Shallow (block rounds nodes depth)

theorem BlockShallow.spend {rounds cost depth : Nat} {nodes : List (Node ι)}
    (h : BlockShallow rounds nodes) (enough : Node.executionDepthAll nodes + cost ≤ depth) :
    Shallow (spend cost depth (block rounds nodes)) :=
  .spend (Nat.le_of_add_left_le enough) (h _ (Nat.le_sub_of_add_le enough))

/-- Within the depth that its execution takes no statement runs out of depth. -/
theorem step_shallow (rounds : Nat) (node : Node ι) : StepShallow rounds node := by
  induction node using Node.rec (motive_2 := BlockShallow rounds) with
  | ifThen _ condition body _ ih =>
      intro depth enough
      obtain ⟨test, inside⟩ := Nat.max_le.mp enough
      rw [step]
      exact Shallow.countStep.bind fun _ => (Shallow.valueOf test).bind fun _ =>
        .ite _ (ih.spend inside) (.pure _)
  | ifElse _ condition yes no _ ihy ihn =>
      intro depth enough
      obtain ⟨test, inside⟩ := Nat.max_le.mp enough
      rw [← Nat.add_max_add_right] at inside
      obtain ⟨first, second⟩ := Nat.max_le.mp inside
      rw [step]
      exact Shallow.countStep.bind fun _ => (Shallow.valueOf test).bind fun _ =>
        .ite _ (ihy.spend first) (ihn.spend second)
  | whileDo _ condition body _ ih =>
      intro depth enough
      obtain ⟨test, inside⟩ := Nat.max_le.mp enough
      rw [step]
      refine Shallow.countStep.bind fun _ => (Shallow.loop ?_ rounds).bind fun _ => .pure _
      exact Shallow.countStep.bind fun _ => (Shallow.valueOf test).bind fun _ =>
        .ite _ ((ih.spend inside).bind fun _ => .pure _) (.pure _)
  | nil => exact fun _ _ => .pure _
  | cons statement rest ihs ihb =>
      intro depth enough
      obtain ⟨first, others⟩ := Nat.max_le.mp enough
      rw [block]
      refine (ihs depth first).bind fun signal => ?_
      cases signal with
      | goOn => exact ihb depth others
      | breakOut | continueOn => exact .pure _
  | _ => exact fun depth enough => Shallow.countStep.bind fun _ => shallow_act enough

/-- Executes a program and catches nothing: a statement that nests too deeply stops it, and there is
no note on one. -/
def executeUncaught (rounds : Nat) : List (Node ι) → Run Unit
  | [] => return
  | statement :: rest => do
    match ← step rounds statement depthLimit with
    | .breakOut => return
    | _ => executeUncaught rounds rest

theorem outcome_executeTop {statement : Node ι} (enough : statement.executionDepth ≤ depthLimit)
    (rounds : Nat) (m : Machine) :
    outcome (executeTop rounds statement) m = outcome (step rounds statement depthLimit) m := by
  have shallow := (step_shallow rounds statement depthLimit enough).outcome_ne m
  rw [executeTop]
  rcases same : outcome (step rounds statement depthLimit) m with ⟨fault | signal, m'⟩
  · rw [outcome_tryCatch_error same]
    rw [same] at shallow
    cases fault with
    | tooDeep => exact absurd rfl shallow
    | _ => rfl
  · exact outcome_tryCatch_ok same _

/-- Within the limit there is nothing to catch. -/
theorem outcome_execute_uncaught {program : List (Node ι)}
    (enough : ∀ s ∈ program, s.executionDepth ≤ depthLimit) (rounds : Nat) (m : Machine) :
    outcome (execute rounds program) m = outcome (executeUncaught rounds program) m := by
  induction program generalizing m with
  | nil => rfl
  | cons statement rest ih =>
      obtain ⟨here, behind⟩ := List.forall_mem_cons.mp enough
      have top := outcome_executeTop here rounds m
      rw [execute, executeUncaught]
      rcases same : outcome (step rounds statement depthLimit) m with ⟨fault | signal, m₁⟩ <;>
        rw [same] at top
      · rw [outcome_bind_error same, outcome_bind_error top]
      · rw [outcome_bind_ok same, outcome_bind_ok top]
        cases signal with
        | breakOut => rfl
        | goOn | continueOn => exact ih behind m₁

theorem shallow_executeUncaught {program : List (Node ι)}
    (enough : ∀ s ∈ program, s.executionDepth ≤ depthLimit) (rounds : Nat) :
    Shallow (executeUncaught rounds program) := by
  induction program with
  | nil => exact .pure ()
  | cons statement rest ih =>
      obtain ⟨here, behind⟩ := List.forall_mem_cons.mp enough
      rw [executeUncaught]
      refine (step_shallow rounds statement depthLimit here).bind fun signal => ?_
      cases signal with
      | breakOut => exact .pure ()
      | goOn | continueOn => exact ih behind

end Machine

end SlangScript
