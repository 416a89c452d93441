import SlangScript.Proofs.Run.Rounds
import SlangScript.Proofs.Run.Signal

/-!
Programs one after the other. A program that is not broken off leaves the machine to what comes
behind it, so two programs in turn run as the one that is put together from them. Where every word
that leaves a loop stands in a loop, nothing is broken off.
-/

namespace SlangScript

theorem outcome_bind_congr {ε σ α β : Type} {p p' : ExceptT ε (StateM σ) α} {s s' : σ}
    (same : outcome p s = outcome p' s') (f : α → ExceptT ε (StateM σ) β) :
    outcome (p >>= f) s = outcome (p' >>= f) s' := by
  rcases given : outcome p' s' with ⟨e | a, s₁⟩ <;> rw [given] at same
  · rw [outcome_bind_error same, outcome_bind_error given]
  · rw [outcome_bind_ok same, outcome_bind_ok given]

namespace Machine

variable {ι : Type} {rounds : Nat}

/-- On the way through the program a statement tells to leave a loop, and there is none. -/
inductive BreaksOff (rounds : Nat) : List (Node ι) → Machine → Prop
  | here {s ss m m'} : outcome (executeTop rounds s) m = (.ok .breakOut, m') →
      BreaksOff rounds (s :: ss) m
  | later {s ss m m' signal} : outcome (executeTop rounds s) m = (.ok signal, m') →
      signal ≠ .breakOut → BreaksOff rounds ss m' → BreaksOff rounds (s :: ss) m

theorem outcome_execute_append {p : List (Node ι)} {m : Machine} (h : ¬BreaksOff rounds p m)
    (q : List (Node ι)) : outcome (execute rounds (p ++ q)) m =
      outcome (execute rounds p >>= fun _ => execute rounds q) m := by
  induction p generalizing m with
  | nil => rfl
  | cons s p ih =>
      rcases first : outcome (executeTop rounds s) m with ⟨fault | signal, m₁⟩
      · have stops (program : List (Node ι)) :
            outcome (execute rounds (s :: program)) m = (.error fault, m₁) := by
          rw [execute, outcome_bind_error first]
        rw [List.cons_append, stops, outcome_bind_error (stops p)]
      · have goes : signal ≠ .breakOut := fun same => h (.here (same ▸ first))
        have onward := outcome_execute_cons first goes
        rw [List.cons_append, onward, ih fun broken => h (.later first goes broken)]
        exact (outcome_bind_congr (onward p) _).symm

section

variable {p q : List (Node ι)} {m m₁ m' : Machine} {result : Except Fault Unit}

theorem Ends.stop {fault : Fault} (unbroken : ∀ rounds, ¬BreaksOff rounds p m)
    (h : m.Ends p (.error fault) m') : m.Ends (p ++ q) (.error fault) m' := by
  obtain ⟨finished, rounds, same⟩ := h
  refine ⟨by simpa using finished, rounds, ?_⟩
  rw [outcome_execute_append (unbroken rounds), outcome_bind_error same]

/-- Both programs are given the rounds of the one that needs more. -/
theorem Ends.append (unbroken : ∀ rounds, ¬BreaksOff rounds p m) (h : m.Ends p (.ok ()) m₁)
    (h' : m₁.Ends q result m') : m.Ends (p ++ q) result m' := by
  obtain ⟨finished₁, rounds₁, same₁⟩ := h
  obtain ⟨finished₂, rounds₂, same₂⟩ := h'
  obtain ⟨_, more₁, rfl⟩ :=
    execute_lasts (Nat.le_max_left rounds₁ rounds₂) p m m rfl _ _ same₁ finished₁
  obtain ⟨_, more₂, rfl⟩ :=
    execute_lasts (Nat.le_max_right rounds₁ rounds₂) q m₁ m₁ rfl _ _ same₂ finished₂
  refine ⟨finished₂, max rounds₁ rounds₂, ?_⟩
  rw [outcome_execute_append (unbroken _), outcome_bind_ok more₁, more₂]

/-- A program in two parts stops in the first, or goes on with the second. -/
theorem Ends.parts (unbroken : ∀ rounds, ¬BreaksOff rounds p m) (h : m.Ends (p ++ q) result m') :
    (∃ fault, result = .error fault ∧ m.Ends p (.error fault) m') ∨
      ∃ m₁, m.Ends p (.ok ()) m₁ ∧ m₁.Ends q result m' := by
  obtain ⟨finished, rounds, same⟩ := h
  rw [outcome_execute_append (unbroken rounds)] at same
  rcases first : outcome (execute rounds p) m with ⟨fault | _, m₁⟩
  · rw [outcome_bind_error first] at same
    obtain ⟨rfl, rfl⟩ := Prod.mk.inj same
    exact .inl ⟨fault, rfl, by simpa using finished, rounds, first⟩
  · rw [outcome_bind_ok first] at same
    exact .inr ⟨m₁, ⟨by simp, rounds, first⟩, finished, rounds, same⟩

end
end Machine

namespace Node

variable {ι : Type}

mutual

/-- Whether every word in the statement that leaves a loop stands in a loop. -/
def leavesLoopsOnly : Node ι → Bool
  | .breakOut _ => false
  | .ifThen _ _ body => allLeaveLoopsOnly body
  | .ifElse _ _ yes no => allLeaveLoopsOnly yes && allLeaveLoopsOnly no
  | _ => true

/-- Whether every word in the statements that leaves a loop stands in a loop. -/
def allLeaveLoopsOnly : List (Node ι) → Bool
  | [] => true
  | statement :: rest => leavesLoopsOnly statement && allLeaveLoopsOnly rest

end

theorem leavesLoopsOnly_of_mem {nodes : List (Node ι)} {s : Node ι}
    (h : allLeaveLoopsOnly nodes = true) (member : s ∈ nodes) : s.leavesLoopsOnly = true := by
  induction nodes with
  | nil => cases member
  | cons statement rest ih =>
      obtain ⟨first, others⟩ := Bool.and_eq_true_iff.mp h
      rcases List.mem_cons.mp member with rfl | later
      · exact first
      · exact ih others later

/-- A word that leaves a loop and stands in a loop is not exposed. -/
theorem Exposes.ne_breakOut {s : Node ι} {signal : Signal} (h : s.Exposes signal)
    (only : s.leavesLoopsOnly = true) : signal ≠ .breakOut := by
  induction h with
  | breakOut => cases only
  | continueOn => simp
  | ifThen member _ ih => exact ih (leavesLoopsOnly_of_mem only member)
  | yes member _ ih =>
      exact ih (leavesLoopsOnly_of_mem (Bool.and_eq_true_iff.mp only).1 member)
  | no member _ ih =>
      exact ih (leavesLoopsOnly_of_mem (Bool.and_eq_true_iff.mp only).2 member)

end Node

theorem Machine.not_breaksOff {ι : Type} {program : List (Node ι)}
    (h : Node.allLeaveLoopsOnly program = true) (rounds : Nat) (m : Machine) :
    ¬BreaksOff rounds program m := by
  intro broken
  induction broken with
  | here stops =>
      have exposed := (executeTop_tells rounds _ _ _ _ stops).resolve_left (by simp)
      exact exposed.ne_breakOut (Bool.and_eq_true_iff.mp h).1 rfl
  | later _ _ _ ih => exact ih (Bool.and_eq_true_iff.mp h).2

end SlangScript
