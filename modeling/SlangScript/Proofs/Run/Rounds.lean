import SlangScript.Proofs.Run.Action

/-!
How many rounds a run is given does not matter once there are enough of them: more rounds keep
whatever finished. So a program ends on a machine in one way at most, and what it ends in does not
depend on rounds.
-/

namespace SlangScript.Machine

variable {ι : Type} {rounds rounds' : Nat}

/-- With more rounds, a statement that finishes does the same. -/
def StepLasts (rounds rounds' : Nat) (node : Node ι) : Prop :=
  ∀ depth, Follows (· = ·) (step rounds node depth) (step rounds' node depth)

def BlockLasts (rounds rounds' : Nat) (nodes : List (Node ι)) : Prop :=
  ∀ depth, Follows (· = ·) (block rounds nodes depth) (block rounds' nodes depth)

theorem step_lasts (le : rounds ≤ rounds') (node : Node ι) : StepLasts rounds rounds' node := by
  induction node using Node.rec (motive_2 := BlockLasts rounds rounds') with
  | ifThen _ condition body _ ih =>
      intro depth
      rw [step, step]
      exact (Follows.refl _).bind fun _ => (Follows.refl _).bind fun _ =>
        .ite _ (.spend ih 2 depth) (.refl _)
  | ifElse _ condition yes no _ ihy ihn =>
      intro depth
      rw [step, step]
      exact (Follows.refl _).bind fun _ => (Follows.refl _).bind fun _ =>
        .ite _ (.spend ihy 2 depth) (.spend ihn 2 depth)
  | whileDo _ condition body _ ih =>
      intro depth
      rw [step, step]
      refine (Follows.refl _).bind fun _ => (Follows.loop ?_ le).bind fun _ => .refl _
      exact (Follows.refl _).bind fun _ => (Follows.refl _).bind fun _ =>
        .ite _ ((Follows.spend ih 3 depth).bind fun _ => .refl _) (.refl _)
  | nil => exact fun _ => .refl _
  | cons statement rest ihs ihb =>
      intro depth
      rw [block, block]
      refine (ihs depth).bind fun signal => ?_
      cases signal with
      | goOn => exact ihb depth
      | breakOut | continueOn => exact .refl _
  | _ => exact fun _ => .refl _

theorem executeTop_lasts (le : rounds ≤ rounds') (statement : Node ι) :
    Follows (· = ·) (executeTop rounds statement) (executeTop rounds' statement) :=
  (step_lasts le statement depthLimit).tryCatch (fun _ => .refl _) rfl

theorem execute_lasts (le : rounds ≤ rounds') (program : List (Node ι)) :
    Follows (· = ·) (execute rounds program) (execute rounds' program) := by
  induction program with
  | nil => exact .refl _
  | cons statement rest ih =>
      rw [execute, execute]
      refine (executeTop_lasts le statement).bind fun signal => ?_
      cases signal with
      | breakOut => exact .refl _
      | goOn | continueOn => exact ih

/-- The program ends on the machine `m`, in `result` and the machine `m'`: so it does with rounds
enough. -/
def Ends (m : Machine) (program : List (Node ι)) (result : Except Fault Unit) (m' : Machine) :
    Prop :=
  result ≠ .error .unfinished ∧ ∃ rounds, outcome (execute rounds program) m = (result, m')

/-- A program ends in one way at most. -/
theorem Ends.unique {m m₁ m₂ : Machine} {program : List (Node ι)}
    {result₁ result₂ : Except Fault Unit} (h₁ : m.Ends program result₁ m₁)
    (h₂ : m.Ends program result₂ m₂) : result₁ = result₂ ∧ m₁ = m₂ := by
  obtain ⟨finished₁, rounds₁, same₁⟩ := h₁
  obtain ⟨finished₂, rounds₂, same₂⟩ := h₂
  -- Both runs are repeated with as many rounds as the longer one had.
  obtain ⟨_, more₁, rfl⟩ :=
    execute_lasts (Nat.le_max_left rounds₁ rounds₂) program m m rfl _ _ same₁ finished₁
  obtain ⟨_, more₂, rfl⟩ :=
    execute_lasts (Nat.le_max_right rounds₁ rounds₂) program m m rfl _ _ same₂ finished₂
  rw [more₁] at more₂
  exact Prod.mk.inj more₂

/-- What finishes with the rounds that a machine has is how the program ends. -/
theorem ends_run {m m' : Machine} {program : List (Node ι)} {result : Except Fault Unit}
    (same : m.run program = (result, m')) (finished : result ≠ .error .unfinished) :
    m.Ends program result m' :=
  ⟨finished, m.rounds, same⟩

end SlangScript.Machine
