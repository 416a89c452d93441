import SlangScript.Proofs.Grammar.Gap

/-!
A stray token between two statements costs nothing but itself. In a program that is spelled out a
statement ends at its last token, so the token stands where a statement is to be read; it is
reported and left behind, and reading goes on with the next statement.
-/

namespace SlangScript.Grammar

open Parse

/-- A token of which a list of statements with such terminators can make nothing: it starts no
statement, is no binary operator, and ends neither the list nor the text. -/
structure Stray (terminators : List Kind) (t : Token) : Prop where
  noStart : t.kind ∉ statementStarts
  noOperator : ∀ level ∈ levels, level t.kind = none
  noEnd : t.kind ≠ .mark .eof
  noTerminator : t.kind ∉ terminators

theorem outcome_statement_stray {t : Token} {r : Reading} (here : r.cursor.current = t)
    (noStart : t.kind ∉ statementStarts) (noName : t.kind ≠ .ident) (depth : Nat) :
    outcome (statement depth) r = (.error (.wrong ⟨.strayInStatement t.kind, t⟩), r) := by
  rw [statement_eq, statementWith, outcome_current_bind, here]
  split
  -- A statement of the other forms would start with one of their words.
  case h_8 kind => exact absurd kind noName
  case h_9 =>
    rw [failHere, outcome_current_bind, here]
    rfl
  all_goals next kind => exact absurd (by rw [kind]; decide) noStart

theorem outcome_statement_name {t u : Token} {a : List Token} {r : Reading}
    (tokens : r.cursor.tokens = t :: u :: a) (name : t.kind = .ident)
    (unassigned : u.kind ≠ .mark .assign) (depth : Nat) :
    outcome (statement depth) r =
      (.error (.wrong ⟨.assignMissing u.kind, u⟩), { r with cursor := r.cursor.advance }) := by
  have here := Cursor.current_of_tokens tokens
  have next : r.cursor.advance.current = u :=
    Cursor.current_of_tokens (Cursor.advance_tokens tokens (by simp [name]))
  obtain ⟨text, ident⟩ : ∃ text, t.lexeme = .ident text := by
    unfold Token.kind at name
    cases same : t.lexeme with
    | ident text => exact ⟨text, rfl⟩
    | number | text | flag | mark => simp [same, Lexeme.kind] at name
  rw [statement_eq, statementWith, outcome_current_bind, here, name]
  change outcome (assignment (expression depth)) r = _
  rw [assignment, outcome_current_bind, here, ident]
  change outcome (liftM advance >>= fun _ => _) r = _
  rw [outcome_advance_bind, outcome_current_bind]
  simp only [next, if_pos unassigned]
  rw [failHere, outcome_current_bind]
  simp only [next]
  rfl

/-- What is reported of a stray token in front of `a`: that nothing is assigned to a name, and that
another token starts no statement. -/
def strayReport (t : Token) (a : List Token) : Diagnostic :=
  let next := a.headD t
  if t.kind = .ident then ⟨.assignMissing next.kind, next⟩ else ⟨.strayInStatement t.kind, t⟩

/-- A stray token is the only one that the turn takes, and it is reported. -/
theorem turn_stray {terminators : List Kind} {t u : Token} {a : List Token} {r : Reading}
    (tokens : r.cursor.tokens = t :: u :: a) (stray : Stray terminators t)
    (unassigned : u.kind ≠ .mark .assign) (depth : Nat) :
    turn (statement depth) terminators r = (none,
      { cursor := r.cursor.advance, reported := r.reported.push (strayReport t (u :: a)) }) := by
  have here := Cursor.current_of_tokens tokens
  have moved := Cursor.advance_pos (Cursor.rest_ne_nil (here ▸ stray.noEnd))
  by_cases name : t.kind = .ident
  · rw [turn, outcome_statement_name tokens name unassigned]
    simp [recover, moved, strayReport, name]
  · rw [turn, outcome_statement_stray here stray.noStart name]
    simp [recover, strayReport, name]

theorem Stray.costs {terminators : List Kind} {t : Token} (stray : Stray terminators t)
    (a : List Token) : Costs terminators [t] a (strayReport t a) where
  stops := stops_cons.mpr stray.noOperator
  notes subset first {depth ss b} _ rest := by
    have apart : .mark .assign ∉ follows := by decide
    obtain ⟨u, a, rfl, member⟩ := first.mono (subset_follows subset)
    have unassigned : u.kind ≠ .mark .assign := fun same => apart (same ▸ member)
    intro r tokens
    have here := Cursor.current_of_tokens tokens
    have going : endsAt terminators r.cursor.current = false := by
      simp [endsAt, Token.isEof, here, stray.noEnd, stray.noTerminator]
    obtain ⟨c, given, left⟩ := rest
      { cursor := r.cursor.advance, reported := r.reported.push (strayReport t (u :: a)) }
      (Cursor.advance_tokens tokens stray.noEnd)
    refine ⟨c, ?_, left⟩
    rw [outcome_liftM_eq_ok] at given ⊢
    rw [run_list_turn going, turn_stray tokens stray unassigned depth, given]
    rfl

/-- With a stray token in the gap a program is read as it is without, and one report is made. -/
theorem Gap.notes {terminators own : List Kind} {before after : List Token} {ss : List (Node Int)}
    {n : Nat} (h : Gap terminators own before after ss n) {t : Token}
    (stray : Stray terminators t) (subset : own ⊆ [.mark .endWord, .mark .elseWord])
    (within : n ≤ depthLimit) {b : List Token} (ends : Starts (.mark .eof :: own) b) :
    ∀ r : Reading, r.cursor.tokens = before ++ t :: (after ++ b) →
      ∃ (c : Cursor) (d : Diagnostic),
        outcome (liftM (statementsWith (statement depthLimit) own) : Parse (List (Node Int))) r =
          (.ok ss, { cursor := c, reported := r.reported.push d }) ∧ c.tokens = b := by
  intro r tokens
  obtain ⟨c, given, left⟩ :=
    h.reports (stray.costs _) subset within (Nat.le_refl _) ends r tokens
  exact ⟨c, _, given, left⟩

/-- A stray token between two statements of any list in a program that is spelled out is reported,
and the program is read as it is without. -/
theorem parse_stray {terminators : List Kind} {before after : List Token} {P : List (Node Int)}
    {n : Nat} {t last : Token} (gap : Gap terminators [] before after P n) (within : n ≤ depthLimit)
    (stray : Stray terminators t) (ends : last.isEof = true) :
    parse (before ++ after ++ [last]) = ⟨P, []⟩ ∧
      ∃ d, parse (before ++ t :: after ++ [last]) = ⟨P, [d]⟩ := by
  have stop : Starts [.mark .eof] [last] := ⟨last, [], rfl, by simpa [Token.isEof] using ends⟩
  have whole : (Reading.ofTokens (before ++ after ++ [last])).cursor.tokens =
      before ++ after ++ [last] := ofTokens_tokens rfl ends
  have whole' : (Reading.ofTokens (before ++ t :: after ++ [last])).cursor.tokens =
      before ++ t :: after ++ [last] := ofTokens_tokens rfl ends
  constructor
  · obtain ⟨c, given, _⟩ := reads_spelled_block gap.spells within (by simp) stop _ whole
    exact parse_of_outcome given
  · rw [List.append_assoc] at whole'
    obtain ⟨c, d, given, _⟩ := gap.notes stray (by simp) within stop _ whole'
    rw [List.append_assoc]
    exact ⟨d, parse_of_outcome given⟩

/-- A name at the start of the block of a loop. -/
theorem parse_stray_name :
    ∃ d, parse [⟨.mark .whileWord, 1, 1⟩, ⟨.mark .cond, 1, 9⟩, ⟨.flag true, 1, 17⟩,
        ⟨.mark .thenWord, 1, 22⟩, ⟨.ident "x", 1, 28⟩, ⟨.mark .print, 2, 1⟩, ⟨.ident "x", 2, 7⟩,
        ⟨.mark .endWord, 3, 1⟩, ⟨.mark .eof, 3, 5⟩] =
      ⟨[.whileDo 1 (.flag 1 true) [.print 2 (.var 2 "x")]], [d]⟩ := by
  have test : Spells levels [⟨.flag true, 1, 17⟩] (.flag 1 true) 0 :=
    .tighter (.tighter (.tighter (.tighter (.tighter (.flag rfl)))))
  have value : Spells levels [⟨.ident "x", 2, 7⟩] (.var 2 "x") 0 :=
    .tighter (.tighter (.tighter (.tighter (.tighter (.var rfl)))))
  have print : SpellsStatement [⟨.mark .print, 2, 1⟩, ⟨.ident "x", 2, 7⟩] (.print 2 (.var 2 "x"))
      (0 + expressionCost) := .print rfl (fun u (member : u ∈ none) => nomatch member) value
  have loop : GapWithin [.mark .endWord] [⟨.mark .whileWord, 1, 1⟩, ⟨.mark .cond, 1, 9⟩,
      ⟨.flag true, 1, 17⟩, ⟨.mark .thenWord, 1, 22⟩] [⟨.mark .print, 2, 1⟩, ⟨.ident "x", 2, 7⟩,
      ⟨.mark .endWord, 3, 1⟩] (.whileDo 1 (.flag 1 true) [.print 2 (.var 2 "x")]) 16 :=
    .whileDo (a := [_]) rfl rfl test rfl (.here (.cons print .nil)) rfl
  exact (parse_stray (.within loop .nil) (by decide) ⟨by decide, by decide, by decide, by decide⟩
    rfl).2

end SlangScript.Grammar
