import SlangScript.CommandLine.Prompt
import SlangScript.Proofs.Run.Frame
import SlangScript.Proofs.Run.Session

/-!
The prompt runs its lines as texts, one after another on one machine. It goes through the statements
of a line in a loop of its own and holds the output of each line apart; what it leaves behind is what
the texts leave, where trouble in one is told and the steps are counted anew for the next.
-/

namespace SlangScript

namespace Machine

/-- The machine on which a text has ended: a fault is told, and the steps are counted anew. -/
def told : Except Fault Unit × Machine → Machine
  | (.ok _, m) => m.resetSteps
  | (.error fault, m) => (m.note (fault.message ++ "\n")).resetSteps

theorem told_behind (result : Except Fault Unit) (m : Machine) (out err : String) :
    told (result, m.behind out err) = (told (result, m)).behind out err := by
  cases result with
  | ok => rfl
  | error fault =>
      rw [told, note_behind]
      rfl

theorem steps_told (ended : Except Fault Unit × Machine) : (told ended).steps = 0 := by
  rcases ended with ⟨_ | _, m⟩ <;> rfl

theorem cap_told (ended : Except Fault Unit × Machine) : (told ended).cap = ended.2.cap := by
  rcases ended with ⟨_ | _, m⟩ <;> rfl

/-- Texts in turn, with the rounds of the first machine for each loop: after each of them the machine
has those rounds again. -/
theorem foldl_runText (sources : List String) {m : Machine} (fresh : m.steps = 0) :
    sources.foldl (fun m source => told (m.runText source)) m =
      sources.foldl (fun m' source => told (m'.runTextWithin m.rounds source)) m := by
  induction sources generalizing m with
  | nil => rw [List.foldl_nil, List.foldl_nil]
  | cons source sources ih =>
      have steps := steps_told (m.runText source)
      have cap := (cap_told (m.runText source)).trans (cap_runText m source)
      have rounds : (told (m.runText source)).rounds = m.rounds := by
        simp only [Machine.rounds, steps, cap, fresh]
      rw [List.foldl_cons, List.foldl_cons, ih steps, rounds, runText_eq]

end Machine

namespace Prompt

open Machine

/-- The loop of the prompt over the statements of a line executes them as a program. -/
theorem executeLine_eq {ι : Type} (rounds : Nat) (statements : List (Node ι)) :
    executeLine rounds statements = execute rounds statements := by
  induction statements with
  | nil => rfl
  | cons statement rest ih =>
      unfold executeLine at ih ⊢
      rw [List.forIn_cons, execute]
      simp only [bind_assoc]
      congr 1
      funext signal
      cases signal with
      | breakOut => rfl
      | goOn | continueOn => simpa using ih

theorem answer_eq (rounds : Nat) (cap : Option Int) (m : Machine) (source : String) :
    answer rounds { cap } m source = told (m.cleared.runTextWithin rounds source) := by
  have same : m.cleared.runTraced false source (executeLine rounds) =
      ((m.cleared.runTextWithin rounds source).1.mapError .stopped,
        (m.cleared.runTextWithin rounds source).2) := by
    rw [runTraced, executeLine_eq]
    rfl
  rw [answer, same]
  rcases m.cleared.runTextWithin rounds source with ⟨_ | _, m'⟩ <;> rfl

theorem steps_answer (rounds : Nat) (options : Options) (m : Machine) (source : String) :
    (answer rounds options m source).steps = 0 := rfl

/-- At every prompt the steps are counted anew. -/
theorem steps_visit (rounds : Nat) (options : Options) (lines : List (List Char)) {m : Machine}
    (fresh : m.steps = 0) : (visit rounds options m lines).machine.steps = 0 := by
  induction lines generalizing m with
  | nil => exact fresh
  | cons line rest ih =>
      rw [visit]
      split
      · exact fresh
      · exact ih fresh
      · exact ih (steps_answer ..)

/-- The texts that lines stand for, up to the first line that leaves. Blank lines stand for none. -/
def sources (lines : List (List Char)) : List String :=
  ((lines.takeWhile fun line => Text.trim line != "exit".toList).filter
    fun line => !(Text.trim line).isEmpty).map String.ofList

theorem sources_cons (line : List Char) (rest : List (List Char)) : sources (line :: rest) =
    match Line.ofText line with
    | .leave => []
    | .blank => sources rest
    | .source text => text :: sources rest := by
  unfold sources Line.ofText
  rw [List.takeWhile_cons]
  by_cases leaves : Text.trim line = "exit".toList
  · rw [if_pos leaves, if_neg (by rw [leaves]; decide)]
    rfl
  · rw [if_neg leaves, if_pos (bne_iff_ne.mpr leaves)]
    by_cases blank : (Text.trim line).isEmpty
    · rw [if_pos blank, List.filter_cons_of_neg (by rw [blank]; decide)]
    · rw [if_neg blank, List.filter_cons_of_pos (by simpa using blank)]
      rfl

/-- The machine of a visit, with all that was printed over the visit. -/
def Visit.whole (visit : Visit) : Machine :=
  { visit.machine with
    out := String.join (visit.turns.map Turn.out)
    err := String.join (visit.turns.map Turn.err) }

theorem Visit.whole_behind (visit : Visit) (turn : Turn) :
    (visit.behind turn).whole = visit.whole.behind turn.out turn.err := by
  simp [whole, Visit.behind, Machine.behind]

theorem Visit.whole_behind_blank (visit : Visit) : (visit.behind {}).whole = visit.whole := by
  rw [whole_behind]
  simp [Machine.behind]

/-- The texts run on a machine with the output of earlier ones print behind it what the visit
prints. -/
theorem foldl_sources (rounds : Nat) (cap : Option Int) (lines : List (List Char))
    {m whole : Machine} (same : whole.cleared = m.cleared) :
    (sources lines).foldl (fun m source => told (m.runTextWithin rounds source)) whole =
      (visit rounds { cap } m lines).whole.behind whole.out whole.err := by
  induction lines generalizing m whole with
  | nil =>
      change whole = m.cleared.behind whole.out whole.err
      rw [← same, cleared_behind]
  | cons line rest ih =>
      rw [sources_cons, visit]
      cases Line.ofText line with
      | leave =>
          change whole = m.cleared.behind whole.out whole.err
          rw [← same, cleared_behind]
      | blank =>
          simp only [Visit.whole_behind_blank]
          exact ih same
      | source text =>
          -- The line runs on the cleared machine, so what the texts before it printed is in front.
          have next : told (whole.runTextWithin rounds text) =
              (answer rounds { cap } m text).behind whole.out whole.err := by
            rw [answer_eq, ← same, ← told_behind, ← runTextWithin_behind, cleared_behind]
          simp only [List.foldl_cons, next, Visit.whole_behind, behind_behind]
          generalize answer rounds { cap } m text = m'
          exact ih rfl

/-- The prompt is the running of its lines as texts. At each prompt the steps are counted anew,
whatever came before, and over all the lines the prompt leaves what the texts leave. -/
theorem visit_runs_texts (cap : Option Int) (lines : List (List Char)) :
    (∀ rounds debug taken,
      (visit rounds { debug, cap } { cap } (lines.take taken)).machine.steps = 0) ∧
    (∀ rounds, (visit rounds { cap } { cap } lines).whole =
      (sources lines).foldl (fun m source => told (m.runTextWithin rounds source)) { cap }) ∧
    (visit ({ cap } : Machine).rounds { cap } { cap } lines).whole =
      (sources lines).foldl (fun m source => told (m.runText source)) { cap } := by
  have whole (rounds : Nat) : (visit rounds { cap } { cap } lines).whole =
      (sources lines).foldl (fun m source => told (m.runTextWithin rounds source)) { cap } := by
    rw [foldl_sources rounds cap lines rfl]
    simp [behind]
  refine ⟨fun rounds debug taken => steps_visit rounds _ _ rfl, whole, ?_⟩
  rw [foldl_runText _ rfl, whole]

end Prompt

end SlangScript
