import SlangScript.Proofs.Grammar.Law
import SlangScript.Proofs.Grammar.Recovery

/-!
Reading makes progress. The cursor only moves forward, a statement that is read takes a token at
least, and recovery from one that is not leaves one behind too; so a list of statements is read to a
terminator or to the end of the text, whatever the tokens are.
-/

namespace SlangScript

namespace Cursor

/-- The cursor moved on by so many places, of which there are as many. -/
def skip (c : Cursor) (count : Nat) : Cursor :=
  { c with pos := c.pos + count, rest := c.rest.drop count }

theorem skip_zero (c : Cursor) : c.skip 0 = c := rfl

theorem skip_skip (c : Cursor) (m n : Nat) : (c.skip m).skip n = c.skip (m + n) := by
  simp [skip, Nat.add_assoc]

theorem advance_eq_skip {c : Cursor} (h : c.rest ≠ []) : c.advance = c.skip 1 := by
  obtain ⟨t, rest, same⟩ := List.exists_cons_of_ne_nil h
  simp [advance, skip, same]

/-- The cursor moves from `c` to `c'` along its tokens, or stays. -/
def Moves (c c' : Cursor) : Prop := ∃ count ≤ c.rest.length, c' = c.skip count

theorem Moves.refl (c : Cursor) : c.Moves c := ⟨0, Nat.zero_le _, c.skip_zero.symm⟩

theorem Moves.trans {c₁ c₂ c₃ : Cursor} (h : c₁.Moves c₂) (h' : c₂.Moves c₃) : c₁.Moves c₃ := by
  obtain ⟨m, le, rfl⟩ := h
  obtain ⟨n, le', rfl⟩ := h'
  refine ⟨m + n, ?_, skip_skip c₁ m n⟩
  simp only [skip, List.length_drop] at le'
  omega

theorem moves_advance (c : Cursor) : c.Moves c.advance := by
  by_cases h : c.rest = []
  · have same : c.advance = c := by simp [advance, h]
    rw [same]
    exact .refl c
  · exact ⟨1, List.length_pos_iff.mpr h, advance_eq_skip h⟩

theorem moves_skipUntil (c : Cursor) (stops : Kind → Bool) : c.Moves (c.skipUntil stops) :=
  ⟨_, (List.takeWhile_sublist _).length_le, rfl⟩

theorem Moves.pos_le {c c' : Cursor} (h : c.Moves c') : c.pos ≤ c'.pos := by
  obtain ⟨count, _, rfl⟩ := h
  exact Nat.le_add_right _ _

theorem Moves.eq_of_pos {c c' : Cursor} (h : c.Moves c') (same : c'.pos = c.pos) : c' = c := by
  obtain ⟨count, _, rfl⟩ := h
  have still : count = 0 := by simpa [skip] using same
  rw [still, skip_zero]

/-- What the position gains, the tokens ahead lose. -/
theorem Moves.length {c c' : Cursor} (h : c.Moves c') :
    c'.pos + c'.rest.length = c.pos + c.rest.length := by
  obtain ⟨count, le, rfl⟩ := h
  simp only [skip, List.length_drop]
  omega

theorem rest_ne_nil {c : Cursor} (h : c.current.kind ≠ .mark .eof) : c.rest ≠ [] :=
  fun empty => h (kind_of_rest_eq_nil empty)

end Cursor

namespace Parse

variable {α β : Type}

/-- The reader only moves the cursor forward. -/
def Forward (p : Parse α) : Prop := ∀ r : Reading, r.cursor.Moves (outcome p r).2.cursor

namespace Forward

theorem bind {p : Parse α} {f : α → Parse β} (hp : Forward p) (hf : ∀ a, Forward (f a)) :
    Forward (p >>= f) := by
  intro r
  have first := hp r
  rcases same : outcome p r with ⟨failure | a, r₁⟩ <;> rw [same] at first
  · rw [outcome_bind_error same]
    exact first
  · rw [outcome_bind_ok same]
    exact first.trans (hf a r₁)

theorem advance {f : Unit → Parse α} (h : Forward (f ())) : Forward (liftM advance >>= f) := by
  intro r
  have onward := h { r with cursor := r.cursor.advance }
  rw [outcome_advance_bind]
  exact r.cursor.moves_advance.trans onward

theorem look {f : Token → Parse α} (h : ∀ t, GoesOn Forward t (f t)) :
    Forward (liftM current >>= f) := by
  intro r
  rw [outcome_current_bind]
  generalize f r.cursor.current = p, h r.cursor.current = goes
  cases goes with
  | stay h => exact h r
  | pass _ h => exact advance h r

theorem closed : Closed Forward where
  pure _ := fun r => .refl r.cursor
  tooDeep := fun r => .refl r.cursor
  failHere _ := look fun _ => .stay fun r => .refl r.cursor
  bind := bind
  look := look

end Forward

theorem moves_recover (terminators : List Kind) (start : Reading) (failure : Failure)
    (stop : Reading) : stop.cursor.Moves (recover terminators start failure stop).cursor := by
  cases failure with
  | wrong diagnostic =>
      simp only [recover]
      split
      · exact stop.cursor.moves_advance
      · exact .refl stop.cursor
  | tooDeep =>
      simp only [recover]
      exact stop.cursor.moves_advance.trans (Cursor.moves_skipUntil _ _)

theorem Forward.turn {statement : Parse (Node Int)} (h : Forward statement)
    (terminators : List Kind) (r : Reading) :
    r.cursor.Moves (turn statement terminators r).2.cursor := by
  unfold Parse.turn
  have first := h r
  rcases given : outcome statement r with ⟨failure | node, r₁⟩ <;> rw [given] at first
  · exact first.trans (moves_recover terminators r failure r₁)
  · exact first

theorem moves_statementsFrom {statement : Parse (Node Int)} (h : Forward statement)
    (terminators : List Kind) (ahead : List Token) (r : Reading) :
    r.cursor.Moves ((statementsFrom statement terminators ahead).run r).2.cursor :=
  @statementsFrom_induction (r.cursor.Moves ·.cursor) _ _
    (fun r₁ _ moved => moved.trans (h.turn terminators r₁)) ahead r (.refl r.cursor)

theorem forward_law : Law Forward where
  toClosed := Forward.closed
  chain := Forward.closed.chain fun r => .refl r.cursor
  list _depth terminators h := fun r => moves_statementsFrom h terminators r.cursor.rest r

/-- Whatever the reader gives, it leaves a token that is no operator of the levels. -/
def Settles (ls : List Level) (p : Parse α) : Prop :=
  ∀ r x r₁, outcome p r = (.ok x, r₁) → ∀ level ∈ ls, level r₁.cursor.current.kind = none

/-- A chain ends where there is no operator of its level: there are turns enough for all that there
are before. -/
theorem Settles.chainFrom {ls : List Level} {level : Level} {operand : Parse (Node Int)}
    (atEnd : level (.mark .eof) = none) (forward : Forward operand) (settles : Settles ls operand)
    {ahead : List Token} {left x : Node Int} {r r₁ : Reading}
    (enough : r.cursor.rest.length ≤ ahead.length)
    (start : ∀ tighter ∈ ls, tighter r.cursor.current.kind = none)
    (given : outcome (chainFrom level operand ahead left) r = (.ok x, r₁)) :
    ∀ passed ∈ level :: ls, passed r₁.cursor.current.kind = none := by
  induction ahead generalizing left r with
  | nil =>
      have empty : r.cursor.rest = [] := List.length_eq_zero_iff.mp (Nat.le_zero.mp enough)
      have kind : r.cursor.current.kind = .mark .eof := Cursor.kind_of_rest_eq_nil empty
      cases given
      exact List.forall_mem_cons.mpr ⟨kind ▸ atEnd, start⟩
  | cons t ahead ih =>
      cases joins : level r.cursor.current.kind with
      | none =>
          rw [Grammar.outcome_chainFrom_stop operand _ _ joins] at given
          cases given
          exact List.forall_mem_cons.mpr ⟨joins, start⟩
      | some op =>
          rw [Grammar.outcome_chainFrom_operator joins] at given
          obtain ⟨right, r₂, first, rest⟩ := outcome_bind_eq_ok given
          have passed : r.cursor.rest ≠ [] := Cursor.rest_ne_nil (Grammar.inside_of_joins atEnd joins)
          have onward := forward { r with cursor := r.cursor.advance }
          rw [first] at onward
          refine ih ?_ (settles _ _ _ first) rest
          have same := onward.length
          have le := onward.pos_le
          have less : r.cursor.advance.rest.length + 1 = r.cursor.rest.length := by
            rw [Cursor.advance_rest, List.length_tail]
            have := List.length_pos_iff.mpr passed
            omega
          simp only [List.length_cons] at enough
          simp only at same le
          omega

theorem Settles.levels {unary : Parse (Node Int)} (h : Forward unary) (ls : List Level)
    (atEnd : ∀ level ∈ ls, level (.mark .eof) = none) :
    Settles ls (ls.foldr Parse.chain unary) := by
  induction ls with
  | nil => intro r x r₁ _ level member; cases member
  | cons level ls ih =>
      rw [List.forall_mem_cons] at atEnd
      intro r x r₁ given
      obtain ⟨left, r₂, first, rest⟩ := outcome_bind_eq_ok given
      exact Settles.chainFrom atEnd.1 (forward_law.levels h ls atEnd.2) (ih atEnd.2)
        (Nat.le_refl _) (ih atEnd.2 _ _ _ first) rest

/-- An expression is read to its end: behind it stands no operator that could join another. -/
theorem settles_expression (depth : Nat) : Settles Grammar.levels (expression depth) := by
  rw [expression]
  split
  · exact .levels (forward_law.unary _) Grammar.levels Grammar.level_eof
  · intro r x r₁ given
    cases given

/-- Whatever the reader gives, it took a token at least. -/
def Takes (p : Parse α) : Prop :=
  ∀ r x r₁, outcome p r = (.ok x, r₁) → r.cursor.pos < r₁.cursor.pos

namespace Takes

theorem failHere (problem : Kind → Problem) : Takes (failHere problem : Parse α) := by
  intro r x r₁ same
  cases same

/-- A step past the current token, which does not end the text. -/
theorem pass {f : Unit → Parse α} (h : Forward (f ())) {r r₁ : Reading} {x : α}
    (inside : r.cursor.current.kind ≠ .mark .eof)
    (same : outcome (liftM advance >>= f) r = (.ok x, r₁)) : r.cursor.pos < r₁.cursor.pos := by
  have onward := h { r with cursor := r.cursor.advance }
  rw [outcome_advance_bind] at same
  rw [same] at onward
  calc r.cursor.pos < r.cursor.pos + 1 := Nat.lt_succ_self _
    _ = r.cursor.advance.pos := (Cursor.advance_pos (Cursor.rest_ne_nil inside)).symm
    _ ≤ r₁.cursor.pos := onward.pos_le

theorem expect {kind : Kind} (inside : kind ≠ .mark .eof) : Takes (expect kind) := by
  intro r t r₁ same
  by_cases h : r.cursor.current.kind = kind
  · rw [outcome_expect_same h] at same
    cases same
    rw [Cursor.advance_pos (Cursor.rest_ne_nil (h ▸ inside))]
    exact Nat.lt_succ_self _
  · rw [outcome_expect_other h] at same
    cases same

theorem opens {kind : Kind} (inside : kind ≠ .mark .eof) {p : Parse α}
    (h : Opens Forward kind p) : Takes p := by
  obtain ⟨f, rfl, rest⟩ := h
  intro r x r₂ same
  obtain ⟨t, r₁, first, second⟩ := outcome_bind_eq_ok same
  have onward := rest t r₁
  rw [second] at onward
  exact Nat.lt_of_lt_of_le (expect inside r t r₁ first) onward.pos_le

theorem assignment {expression : Parse (Node Int)} (h : Forward expression) :
    Takes (assignment expression) := by
  intro r x r₁ same
  rw [Parse.assignment, outcome_current_bind] at same
  split at same
  · next name ident =>
      exact pass (forward_law.assigned h _) (by simp [Token.kind, ident, Lexeme.kind]) same
  · exact failHere _ r x r₁ same

theorem statementWith {expression : Parse (Node Int)} {block : List Kind → Parse (List (Node Int))}
    (h : Forward expression) (hb : ∀ terminators, Forward (block terminators)) :
    Takes (statementWith expression block) := by
  intro r x r₁ same
  rw [Parse.statementWith, outcome_current_bind] at same
  split at same
  · exact opens (by decide) (forward_law.declaration h) r x r₁ same
  · exact opens (by decide) (forward_law.printStatement h) r x r₁ same
  · exact opens (by decide) (forward_law.debugStatement h) r x r₁ same
  · exact opens (by decide) (forward_law.conditional h hb) r x r₁ same
  · exact opens (by decide) (forward_law.repetition h hb) r x r₁ same
  · next kind => exact pass (forward_law.pure (_ : Node Int)) (by simp [kind]) same
  · next kind => exact pass (forward_law.pure (_ : Node Int)) (by simp [kind]) same
  · exact assignment h r x r₁ same
  · exact failHere _ r x r₁ same

theorem statement (depth : Nat) : Takes (statement depth) := by
  rw [statement_eq]
  exact statementWith (forward_law.expression depth) (forward_law.block depth)

end Takes

section

variable {statement : Parse (Node Int)} {terminators : List Kind} {r : Reading}

theorem inside_of_endsAt {t : Token} (going : endsAt terminators t = false) :
    t.kind ≠ .mark .eof := by
  intro kind
  simp [endsAt, Token.isEof, kind] at going

/-- A turn moves on, however it ends: a statement that could be read took a token, one that failed
at its first token loses it, and one that nests too deeply is left behind with its first token. -/
theorem pos_lt_turn (forward : Forward statement) (takes : Takes statement)
    (going : endsAt terminators r.cursor.current = false) :
    r.cursor.pos < (turn statement terminators r).2.cursor.pos := by
  have first := forward r
  unfold turn
  rcases given : outcome statement r with ⟨failure | node, r₁⟩ <;> rw [given] at first
  · have leaves (same : r₁.cursor.pos = r.cursor.pos) : r.cursor.pos < r₁.cursor.advance.pos := by
      rw [first.eq_of_pos same, Cursor.advance_pos (Cursor.rest_ne_nil (inside_of_endsAt going))]
      exact Nat.lt_succ_self _
    cases failure with
    | wrong diagnostic =>
        simp only [recover]
        split
        · next same => exact leaves same
        · next moved => exact Nat.lt_of_le_of_ne first.pos_le (Ne.symm moved)
    | tooDeep =>
        have onward := (Cursor.moves_skipUntil r₁.cursor.advance fun kind =>
          statementStarts.contains kind || terminators.contains kind || kind == .mark .eof).pos_le
        refine Nat.lt_of_lt_of_le ?_ onward
        by_cases same : r₁.cursor.pos = r.cursor.pos
        · exact leaves same
        · exact Nat.lt_of_lt_of_le (Nat.lt_of_le_of_ne first.pos_le (Ne.symm same))
            r₁.cursor.moves_advance.pos_le
  · exact takes r node r₁ given

/-- A turn leaves fewer tokens ahead. -/
theorem rest_turn_lt (forward : Forward statement) (takes : Takes statement)
    (going : endsAt terminators r.cursor.current = false) :
    (turn statement terminators r).2.cursor.rest.length < r.cursor.rest.length := by
  have moved := pos_lt_turn forward takes going
  have same := (forward.turn terminators r).length
  omega

theorem endsAt_of_rest_eq_nil (empty : r.cursor.rest = []) :
    endsAt terminators r.cursor.current = true := by
  have kind : r.cursor.current.kind = .mark .eof := Cursor.kind_of_rest_eq_nil empty
  simp [endsAt, Token.isEof, kind]

/-- A list is read up to where it ends: there are turns enough. -/
theorem endsAt_statementsFrom (forward : Forward statement) (takes : Takes statement)
    {ahead : List Token} (enough : r.cursor.rest.length ≤ ahead.length) :
    endsAt terminators ((statementsFrom statement terminators ahead).run r).2.cursor.current =
      true := by
  induction ahead generalizing r with
  | nil => exact endsAt_of_rest_eq_nil (List.length_eq_zero_iff.mp (Nat.le_zero.mp enough))
  | cons t ahead ih =>
      cases ends : endsAt terminators r.cursor.current with
      | true => rwa [run_statementsFrom_end ends]
      | false =>
          rw [run_statementsFrom_turn ends]
          have fewer := rest_turn_lt forward takes ends
          simp only [List.length_cons] at enough
          exact ih (by omega)

/-- More turns than enough change nothing. -/
theorem statementsFrom_enough (forward : Forward statement) (takes : Takes statement)
    {ahead ahead' : List Token} (enough : r.cursor.rest.length ≤ ahead.length)
    (enough' : r.cursor.rest.length ≤ ahead'.length) :
    (statementsFrom statement terminators ahead).run r =
      (statementsFrom statement terminators ahead').run r := by
  induction ahead generalizing r ahead' with
  | nil =>
      have ends : endsAt terminators r.cursor.current = true := endsAt_of_rest_eq_nil
        (List.length_eq_zero_iff.mp (Nat.le_zero.mp enough))
      rw [run_statementsFrom_end ends, run_statementsFrom_end ends]
  | cons t ahead ih =>
      cases ends : endsAt terminators r.cursor.current with
      | true => rw [run_statementsFrom_end ends, run_statementsFrom_end ends]
      | false =>
          have fewer := rest_turn_lt forward takes ends
          cases ahead' with
          | nil => simp only [List.length_nil] at enough'; omega
          | cons t' ahead' =>
              simp only [List.length_cons] at enough enough'
              have left : (turn statement terminators r).2.cursor.rest.length ≤ ahead'.length := by
                omega
              rw [run_statementsFrom_turn ends, run_statementsFrom_turn ends, ih (by omega) left]

theorem run_statementsWith_end (h : endsAt terminators r.cursor.current = true) :
    (statementsWith statement terminators).run r = ([], r) := run_statementsFrom_end h _ _

/-- A list is a turn and the list from there on. -/
theorem run_statementsWith_turn (forward : Forward statement) (takes : Takes statement)
    (going : endsAt terminators r.cursor.current = false) :
    (statementsWith statement terminators).run r =
      ((turn statement terminators r).1.toList ++
          ((statementsWith statement terminators).run (turn statement terminators r).2).1,
        ((statementsWith statement terminators).run (turn statement terminators r).2).2) := by
  have fewer := rest_turn_lt forward takes going
  change (statementsFrom statement terminators r.cursor.rest).run r = _
  obtain ⟨t, rest, ahead⟩ := List.exists_cons_of_length_pos (Nat.zero_lt_of_lt fewer)
  rw [ahead, run_statementsFrom_turn going]
  rw [ahead, List.length_cons] at fewer
  have onward : (statementsFrom statement terminators rest).run (turn statement terminators r).2 =
      (statementsWith statement terminators).run (turn statement terminators r).2 :=
    statementsFrom_enough forward takes (Nat.le_of_lt_succ fewer) (Nat.le_refl _)
  rw [onward]

theorem endsAt_statementsWith (forward : Forward statement) (takes : Takes statement) :
    endsAt terminators ((statementsWith statement terminators).run r).2.cursor.current = true :=
  endsAt_statementsFrom forward takes (Nat.le_refl _)

end

end Parse

end SlangScript
