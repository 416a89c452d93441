import SlangScript.Grammar.Statement
import SlangScript.Proofs.Grammar.Reader

/-!
One turn of a list of statements: it ends at a terminator or at the end of the text, goes on behind
a statement that could be read, and recovers from one that could not.
-/

namespace SlangScript.Parse

/-- Where reading goes on after a statement that failed. The statement started at `start` and
stopped at `stop`. -/
def recover (terminators : List Kind) (start : Reading) : Failure → (stop : Reading) → Reading
  | .wrong diagnostic, stop =>
    { cursor := if stop.cursor.pos = start.cursor.pos then stop.cursor.advance else stop.cursor
      reported := stop.reported.push diagnostic }
  | .tooDeep, stop =>
    { cursor := stop.cursor.advance.skipUntil fun kind =>
        statementStarts.contains kind || terminators.contains kind || kind == .mark .eof
      reported := stop.reported.push ⟨.tooDeep, start.cursor.current⟩ }

theorem reported_recover (terminators : List Kind) (start : Reading) (failure : Failure)
    (stop : Reading) :
    (recover terminators start failure stop).reported.size = stop.reported.size + 1 := by
  cases failure <;> simp [recover]

theorem run_position (r : Reading) : StateT.run position r = (r.cursor.pos, r) := rfl

def endsAt (terminators : List Kind) (t : Token) : Bool :=
  t.isEof || terminators.contains t.kind

theorem run_statementsFrom_end {terminators : List Kind} {r : Reading}
    (h : endsAt terminators r.cursor.current = true) (statement : Parse (Node Int))
    (ahead : List Token) : (statementsFrom statement terminators ahead).run r = ([], r) := by
  cases ahead with
  | nil => rfl
  | cons t ahead =>
      rw [statementsFrom]
      change StateT.run (if endsAt terminators r.cursor.current = true then _ else _) r = _
      rw [if_pos h]
      rfl

theorem run_statementsFrom_ok {terminators : List Kind} {statement : Parse (Node Int)}
    {node : Node Int} {r r₁ : Reading} (h : endsAt terminators r.cursor.current = false)
    (given : outcome statement r = (.ok node, r₁)) (t : Token) (ahead : List Token) :
    (statementsFrom statement terminators (t :: ahead)).run r =
      (node :: ((statementsFrom statement terminators ahead).run r₁).1,
        ((statementsFrom statement terminators ahead).run r₁).2) := by
  have same : (attempt statement).run r = (.ok node, r₁) := given
  rw [statementsFrom]
  change StateT.run (if endsAt terminators r.cursor.current = true then _ else _) r = _
  rw [if_neg (by simp [h]), run_stateM_bind, run_position, run_stateM_bind, same]
  rfl

theorem run_statementsFrom_error {terminators : List Kind} {statement : Parse (Node Int)}
    {failure : Failure} {r r₁ : Reading} (h : endsAt terminators r.cursor.current = false)
    (given : outcome statement r = (.error failure, r₁)) (t : Token) (ahead : List Token) :
    (statementsFrom statement terminators (t :: ahead)).run r =
      (statementsFrom statement terminators ahead).run (recover terminators r failure r₁) := by
  have same : (attempt statement).run r = (.error failure, r₁) := given
  rw [statementsFrom]
  change StateT.run (if endsAt terminators r.cursor.current = true then _ else _) r = _
  rw [if_neg (by simp [h]), run_stateM_bind, run_position, run_stateM_bind, same]
  cases failure with
  | tooDeep => rfl
  | wrong diagnostic =>
      change StateT.run (if r₁.cursor.pos = r.cursor.pos then _ else _) _ = _
      by_cases stuck : r₁.cursor.pos = r.cursor.pos
      · simp only [recover, if_pos stuck]
        rfl
      · simp only [recover, if_neg stuck]

/-- One turn: what it found, if anything, and where reading goes on. -/
def turn (statement : Parse (Node Int)) (terminators : List Kind) (r : Reading) :
    Option (Node Int) × Reading :=
  match outcome statement r with
  | (.ok node, r₁) => (some node, r₁)
  | (.error failure, r₁) => (none, recover terminators r failure r₁)

theorem run_statementsFrom_turn {terminators : List Kind} {r : Reading}
    (h : endsAt terminators r.cursor.current = false) (statement : Parse (Node Int)) (t : Token)
    (ahead : List Token) :
    (statementsFrom statement terminators (t :: ahead)).run r =
      ((turn statement terminators r).1.toList ++
          ((statementsFrom statement terminators ahead).run (turn statement terminators r).2).1,
        ((statementsFrom statement terminators ahead).run (turn statement terminators r).2).2) := by
  unfold turn
  rcases given : outcome statement r with ⟨failure | node, r₁⟩
  · rw [run_statementsFrom_error h given]
    rfl
  · rw [run_statementsFrom_ok h given]
    rfl

/-- What every turn keeps, a list keeps. -/
theorem statementsFrom_induction {holds : Reading → Prop} {statement : Parse (Node Int)}
    {terminators : List Kind}
    (turns : ∀ r, endsAt terminators r.cursor.current = false → holds r →
      holds (turn statement terminators r).2) (ahead : List Token) {r : Reading} (start : holds r) :
    holds ((statementsFrom statement terminators ahead).run r).2 := by
  induction ahead generalizing r with
  | nil => exact start
  | cons t ahead ih =>
      cases ends : endsAt terminators r.cursor.current with
      | true => rwa [run_statementsFrom_end ends]
      | false =>
          rw [run_statementsFrom_turn ends]
          exact ih (turns r ends start)

end SlangScript.Parse
