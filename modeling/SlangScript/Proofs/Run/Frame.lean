import SlangScript.Proofs.Run.Law
import SlangScript.Run.Source

/-!
What was printed on a machine before does not matter to a run: it does the same, and prints the same
behind it.
-/

namespace SlangScript.Machine

variable {ι α : Type}

/-- The action does the same whatever was printed before it. -/
def Framed (p : Run α) : Prop := ∀ m out err, outcome p (m.behind out err) =
  ((outcome p m).1, (outcome p m).2.behind out err)

theorem framed_law : Law Framed where
  blind h := h.behind
  unfinished _ _ _ := rfl
  countStep := by
    intro m out err
    rcases capped : m.cap with _ | cap
    · rw [outcome_countStep_none capped, outcome_countStep_none]
      exact capped
    · rw [outcome_countStep_some capped]
      exact outcome_countStep_some capped
  bind {_ _ p f} hp hf m out err := by
    have behind := hp m out err
    rcases first : outcome p m with ⟨fault | a, m₁⟩ <;> rw [first] at behind
    · rw [outcome_bind_error behind, outcome_bind_error first]
    · rw [outcome_bind_ok behind, outcome_bind_ok first, hf a m₁]
  tryCatch {_ p handle} hp hh passes m out err := by
    have behind := hp m out err
    rcases first : outcome p m with ⟨fault | a, m₁⟩ <;> rw [first] at behind
    · rw [outcome_tryCatch_error behind, outcome_tryCatch_error first]
      cases fault with
      | stepLimit cap => rw [passes]; rfl
      | _ => exact hh _ (fun _ => by simp) m₁ out err
    · rw [outcome_tryCatch_ok behind, outcome_tryCatch_ok first]

section

variable (m : Machine) (out err : String)

theorem execute_behind (rounds : Nat) (program : List (Node ι)) :
    outcome (execute rounds program) (m.behind out err) =
      ((outcome (execute rounds program) m).1,
        (outcome (execute rounds program) m).2.behind out err) :=
  framed_law.execute rounds program m out err

theorem cleared_behind : m.cleared.behind m.out m.err = m := by
  simp [cleared, behind]

theorem behind_behind (out' err' : String) :
    (m.behind out err).behind out' err' = m.behind (out' ++ out) (err' ++ err) := by
  simp [behind, String.append_assoc]

theorem note_behind (text : String) :
    (m.behind out err).note text = (m.note text).behind out err := by
  simp [note, behind, String.append_assoc]

end

/-- Runs a text with so many rounds for each loop. -/
def runTextWithin (rounds : Nat) (m : Machine) (source : String) : Except Fault Unit × Machine :=
  let parsed := parse (tokenize source)
  outcome (execute rounds parsed.statements) (m.note parsed.report)

theorem runText_eq (m : Machine) (source : String) :
    m.runText source = m.runTextWithin m.rounds source := rfl

theorem runTextWithin_behind (rounds : Nat) (m : Machine) (out err source : String) :
    (m.behind out err).runTextWithin rounds source =
      ((m.runTextWithin rounds source).1, (m.runTextWithin rounds source).2.behind out err) := by
  rw [runTextWithin, note_behind, execute_behind]
  rfl

end SlangScript.Machine
