import SlangScript.Proofs.Run.Cap
import SlangScript.Proofs.Run.Law
import SlangScript.Proofs.Run.Sequence
import SlangScript.Run.Source

/-!
Texts that run in turn on one machine, until one of them stops. On a machine with a cap each of them
ends, and the cap stays; without one the texts need not end.
-/

namespace SlangScript.Machine

variable {ι : Type}

/-- The text ends on the machine `m`, in `result` and the machine `m'`: what is wrong with it is
reported, and what could be read is run. -/
def EndsText (m : Machine) (source : String) (result : Except Fault Unit) (m' : Machine) : Prop :=
  (m.note (parse (tokenize source)).report).Ends (parse (tokenize source)).statements result m'

/-- The texts end in turn, the first of them that stops being the last. -/
inductive EndsTexts : Machine → List String → Except Fault Unit → Machine → Prop
  | done {m} : EndsTexts m [] (.ok ()) m
  | stop {m m' source sources fault} : m.EndsText source (.error fault) m' →
      EndsTexts m (source :: sources) (.error fault) m'
  | next {m m₁ m' source sources result} : m.EndsText source (.ok ()) m₁ →
      EndsTexts m₁ sources result m' → EndsTexts m (source :: sources) result m'

/-- Runs texts in turn, until one of them stops. -/
def runTexts (m : Machine) : List String → Except Fault Unit × Machine
  | [] => (.ok (), m)
  | source :: sources =>
    match m.runText source with
    | (.ok _, m₁) => m₁.runTexts sources
    | (.error fault, m₁) => (.error fault, m₁)

/-- None of the texts is broken off when they run in turn. -/
def Unbroken : Machine → List String → Prop
  | _, [] => True
  | m, source :: sources =>
    (∀ rounds, ¬BreaksOff rounds (parse (tokenize source)).statements
      (m.note (parse (tokenize source)).report)) ∧
    ∀ m₁, m.EndsText source (.ok ()) m₁ → Unbroken m₁ sources

theorem unbroken_of_leavesLoopsOnly {sources : List String} (h : ∀ source ∈ sources,
    Node.allLeaveLoopsOnly (parse (tokenize source)).statements = true) (m : Machine) :
    m.Unbroken sources := by
  induction sources generalizing m with
  | nil => trivial
  | cons source sources ih =>
      obtain ⟨first, others⟩ := List.forall_mem_cons.mp h
      exact ⟨fun rounds => not_breaksOff first rounds _, fun m₁ _ => ih others m₁⟩

/-- The action leaves the cap alone. -/
def KeepsCap {α : Type} (p : Run α) : Prop := ∀ m, (outcome p m).2.cap = m.cap

theorem keepsCap_iff {α : Type} {p : Run α} :
    KeepsCap p ↔ Along (fun m m' : Machine => m'.cap = m.cap) p := Iff.rfl

theorem keepsCap_law : Law KeepsCap where
  blind h := h.cap
  unfinished := fun _ => rfl
  countStep := by
    intro m
    rcases capped : m.cap with _ | cap
    · rw [outcome_countStep_none capped, capped]
    · rw [outcome_countStep_some capped, capped]
  bind hp hf := Along.bind (keepsCap_iff.mp hp) hf fun _ _ _ kept kept' => kept'.trans kept
  tryCatch {_ _ handle} hp hh passes := by
    refine Along.tryCatch (keepsCap_iff.mp hp) (fun fault => ?_)
      fun _ _ _ kept kept' => kept'.trans kept
    cases fault with
    | stepLimit cap =>
        rw [passes]
        exact fun _ => rfl
    | _ => exact hh _ fun _ => by simp

theorem step_eq (rounds : Nat) (node : Node ι) (depth : Nat) :
    ∃ onward : Run Signal, step rounds node depth = countStep >>= fun _ => onward := by
  cases node <;> exact ⟨_, rfl⟩

/-- A machine that has used up its cap takes no statement. -/
theorem run_cons_of_lt {cap : Int} {m : Machine} (capped : m.cap = some cap)
    (spent : cap < m.steps + 1) (s : Node ι) (ss : List (Node ι)) :
    (m.run (s :: ss)).1 = .error (.stepLimit cap) := by
  obtain ⟨onward, step⟩ := step_eq m.rounds s depthLimit
  have counted := outcome_countStep_some capped
  rw [if_pos spent] at counted
  have stopped : outcome (executeTop m.rounds s) m =
      (.error (.stepLimit cap), { m with steps := m.steps + 1 }) := by
    rw [executeTop, step, outcome_tryCatch_error (outcome_bind_error counted _)]
    rfl
  change (outcome (execute m.rounds (s :: ss)) m).1 = _
  rw [execute, outcome_bind_error stopped]

/-- On a machine with a cap no run wants for rounds, wherever its count stands. -/
theorem finished_of_cap {m : Machine} (capped : m.cap ≠ none) (program : List (Node ι)) :
    (m.run program).1 ≠ .error .unfinished := by
  obtain ⟨cap, capped⟩ := Option.ne_none_iff_exists'.mp capped
  by_cases spent : cap < m.steps + 1
  · cases program with
    | nil => simp [Machine.run, perform, execute]
    | cons s ss => simp [run_cons_of_lt capped spent]
  · obtain ⟨limit, rfl⟩ : ∃ limit : Nat, cap = limit := ⟨cap.toNat, by omega⟩
    exact (run_bounded rfl capped (by omega)).1

section

variable {m : Machine}

theorem endsText_runText (capped : m.cap ≠ none) (source : String) :
    m.EndsText source (m.runText source).1 (m.runText source).2 :=
  ends_run rfl (finished_of_cap (show (m.note _).cap ≠ none from capped) _)

theorem cap_runText (m : Machine) (source : String) : (m.runText source).2.cap = m.cap :=
  keepsCap_law.execute _ _ (m.note _)

theorem endsTexts_runTexts (capped : m.cap ≠ none) (sources : List String) :
    m.EndsTexts sources (m.runTexts sources).1 (m.runTexts sources).2 := by
  induction sources generalizing m with
  | nil => exact .done
  | cons source sources ih =>
      have ends := endsText_runText capped source
      have kept := cap_runText m source
      rw [runTexts]
      rcases first : m.runText source with ⟨fault | _, m₁⟩ <;> rw [first] at ends kept
      · exact .stop ends
      · exact .next ends (ih (kept ▸ capped))

end

end SlangScript.Machine
