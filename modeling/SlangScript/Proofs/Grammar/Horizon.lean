import SlangScript.Proofs.Grammar.Progress
import SlangScript.Proofs.Grammar.Program

/-!
Nothing behind the first token that ends a text matters, unless something nests too deeply. Two
readings that see the same tokens up to there read the same and stay abreast; the horizon is the
place of that token.
-/

namespace SlangScript

namespace Parse

variable {α β : Type}

/-- The same tokens, up to and with the first that ends a text, which is so far away. -/
inductive Shared : (distance : Nat) → List Token → List Token → Prop
  | last {t : Token} {a a' : List Token} : t.kind = .mark .eof → Shared 0 (t :: a) (t :: a')
  | next {t : Token} {n : Nat} {a a' : List Token} : t.kind ≠ .mark .eof → Shared n a a' →
      Shared (n + 1) (t :: a) (t :: a')

theorem shared_append {body : List Token} {last : Token} (inside : ∀ t ∈ body, t.kind ≠ .mark .eof)
    (ends : last.kind = .mark .eof) (rest rest' : List Token) :
    Shared body.length (body ++ last :: rest) (body ++ last :: rest') := by
  induction body with
  | nil => exact .last ends
  | cons t body ih =>
      rw [List.forall_mem_cons] at inside
      exact .next inside.1 (ih inside.2)

theorem Shared.lt_length {n : Nat} {a a' : List Token} (h : Shared n a a') :
    n < a.length ∧ n < a'.length := by
  induction h with
  | last => simp
  | next _ _ ih => simpa using ih

/-- Two readings at one place, with the same reports, that share what is ahead up to the horizon. -/
structure Abreast (horizon : Nat) (r r' : Reading) : Prop where
  shared : ∃ n, r.cursor.pos + n = horizon ∧ Shared n r.cursor.tokens r'.cursor.tokens
  pos : r'.cursor.pos = r.cursor.pos
  reported : r'.reported = r.reported

namespace Abreast

variable {horizon : Nat} {r r' : Reading}

theorem current (h : Abreast horizon r r') : r'.cursor.current = r.cursor.current := by
  obtain ⟨n, _, shared⟩ := h.shared
  generalize same : r.cursor.tokens = a, same' : r'.cursor.tokens = a' at shared
  cases shared <;>
    rw [Cursor.current_of_tokens same, Cursor.current_of_tokens same']

theorem pos_le (h : Abreast horizon r r') : r.cursor.pos ≤ horizon := by
  obtain ⟨n, far, _⟩ := h.shared
  omega

/-- Neither reading is without tokens before the horizon. -/
theorem reach (h : Abreast horizon r r') : horizon ≤ r.cursor.pos + r.cursor.rest.length ∧
    horizon ≤ r.cursor.pos + r'.cursor.rest.length := by
  obtain ⟨n, far, shared⟩ := h.shared
  have lt := shared.lt_length
  rw [Cursor.length_tokens, Cursor.length_tokens] at lt
  omega

/-- The horizon is where the text ends. -/
theorem atEnd_iff (h : Abreast horizon r r') :
    r.cursor.current.kind = .mark .eof ↔ r.cursor.pos = horizon := by
  obtain ⟨n, far, shared⟩ := h.shared
  generalize same : r.cursor.tokens = a, r'.cursor.tokens = a' at shared
  cases shared with
  | last ends =>
      rw [Cursor.current_of_tokens same]
      exact ⟨fun _ => by omega, fun _ => ends⟩
  | next inside _ =>
      rw [Cursor.current_of_tokens same]
      exact ⟨fun kind => absurd kind inside, fun here => by omega⟩

theorem advance (h : Abreast horizon r r') (inside : r.cursor.current.kind ≠ .mark .eof) :
    Abreast horizon { r with cursor := r.cursor.advance }
      { r' with cursor := r'.cursor.advance } := by
  have moved := Cursor.advance_pos (Cursor.rest_ne_nil inside)
  have moved' := Cursor.advance_pos (Cursor.rest_ne_nil (h.current.symm ▸ inside))
  refine ⟨?_, by simp only [moved, moved', h.pos], h.reported⟩
  obtain ⟨n, far, shared⟩ := h.shared
  generalize same : r.cursor.tokens = a, same' : r'.cursor.tokens = a' at shared
  cases shared with
  | last ends => exact absurd (Cursor.current_of_tokens same ▸ ends) inside
  | @next t n a a' inside shared =>
      refine ⟨n, by simp only [moved]; omega, ?_⟩
      rw [Cursor.advance_tokens same inside, Cursor.advance_tokens same' inside]
      exact shared

theorem report (h : Abreast horizon r r') (d : Diagnostic) :
    Abreast horizon { r with reported := r.reported.push d }
      { r' with reported := r'.reported.push d } :=
  ⟨h.shared, h.pos, by simp only [h.reported]⟩

end Abreast

/-- Something was reported that nests too deeply. -/
def Overrun (reported : Array Diagnostic) : Prop := ∃ d ∈ reported, d.problem = .tooDeep

theorem Overrun.push {reported : Array Diagnostic} (h : Overrun reported) (d : Diagnostic) :
    Overrun (reported.push d) := by
  obtain ⟨found, member, deep⟩ := h
  exact ⟨found, Array.mem_push_of_mem d member, deep⟩

theorem overrun_push {reported : Array Diagnostic} {d : Diagnostic} (deep : d.problem = .tooDeep) :
    Overrun (reported.push d) := ⟨d, Array.mem_push_self, deep⟩

/-- The reader takes no report back. -/
def Keeps (p : Parse α) : Prop :=
  ∀ r : Reading, Overrun r.reported → Overrun (outcome p r).2.reported

namespace Keeps

theorem closed : Closed Keeps := preserves_closed fun _ lost => lost

theorem turn {statement : Parse (Node Int)} (h : Keeps statement) (terminators : List Kind)
    {r : Reading} (lost : Overrun r.reported) :
    Overrun (turn statement terminators r).2.reported := by
  have first := h r lost
  unfold Parse.turn
  rcases given : outcome statement r with ⟨failure | node, r₁⟩ <;> rw [given] at first
  · cases failure <;> exact first.push _
  · exact first

theorem statementsFrom {statement : Parse (Node Int)} (h : Keeps statement)
    (terminators : List Kind) (ahead : List Token) {r : Reading} (lost : Overrun r.reported) :
    Overrun ((statementsFrom statement terminators ahead).run r).2.reported :=
  @statementsFrom_induction (Overrun ·.reported) _ _
    (fun _ _ lost => h.turn terminators lost) ahead r lost

end Keeps

/-- How two readings come out of one reader: something nests too deeply, or they give the same and
are abreast. -/
inductive Agree (horizon : Nat) : Except Failure α × Reading → Except Failure α × Reading → Prop
  | lost {x x' : Except Failure α} {r r' : Reading} : Overrun r.reported →
      Agree horizon (x, r) (x', r')
  | deep {x' : Except Failure α} {r r' : Reading} : Agree horizon (.error .tooDeep, r) (x', r')
  | same {x : Except Failure α} {r r' : Reading} : Abreast horizon r r' →
      Agree horizon (x, r) (x, r')

/-- The reader keeps two readings abreast. -/
structure Parallel (p : Parse α) : Prop where
  forward : Forward p
  keeps : Keeps p
  agree : ∀ {horizon : Nat} {r r' : Reading}, Abreast horizon r r' →
    Agree horizon (outcome p r) (outcome p r')

namespace Parallel

variable {horizon : Nat} {r r' : Reading}

/-- Two ways to go on that agree wherever the first part leads. -/
theorem agree_bind {p : Parse α} (hp : Parallel p) {f f' : α → Parse β} (keeps : ∀ a, Keeps (f a))
    (h : Abreast horizon r r')
    (onward : ∀ a r₁ r₁', r.cursor.pos ≤ r₁.cursor.pos → Abreast horizon r₁ r₁' →
      Agree horizon (outcome (f a) r₁) (outcome (f' a) r₁')) :
    Agree horizon (outcome (p >>= f) r) (outcome (p >>= f') r') := by
  have moved := (hp.forward r).pos_le
  have first := hp.agree h
  rcases given : outcome p r with ⟨failure | a, r₁⟩ <;>
    rcases given' : outcome p r' with ⟨failure' | a', r₁'⟩ <;> rw [given] at first moved <;>
    rw [given'] at first
  · rw [outcome_bind_error given, outcome_bind_error given']
    cases first with
    | lost lost => exact .lost lost
    | deep => exact .deep
    | same abreast => exact .same abreast
  · rw [outcome_bind_error given]
    cases first with
    | lost lost => exact .lost lost
    | deep => exact .deep
  · rw [outcome_bind_ok given]
    cases first with
    | lost lost => exact .lost (keeps a r₁ lost)
  · rw [outcome_bind_ok given, outcome_bind_ok given']
    cases first with
    | lost lost => exact .lost (keeps a r₁ lost)
    | same abreast => exact onward a r₁ r₁' moved abreast

theorem bind {p : Parse α} {f : α → Parse β} (hp : Parallel p) (hf : ∀ a, Parallel (f a)) :
    Parallel (p >>= f) where
  forward := hp.forward.bind fun a => (hf a).forward
  keeps := Keeps.closed.bind hp.keeps fun a => (hf a).keeps
  agree h := hp.agree_bind (fun a => (hf a).keeps) h fun a _ _ _ abreast => (hf a).agree abreast

theorem look {f : Token → Parse α} (h : ∀ t, GoesOn Parallel t (f t)) :
    Parallel (liftM current >>= f) where
  forward := Forward.look fun t => (h t).mono Parallel.forward
  keeps := Keeps.closed.look fun t => (h t).mono Parallel.keeps
  agree := by
    intro horizon r r' abreast
    rw [outcome_current_bind, outcome_current_bind, abreast.current]
    have inside := abreast.advance
    revert inside
    generalize f r.cursor.current = p, h r.cursor.current = goes
    intro inside
    cases goes with
    | stay h => exact h.agree abreast
    | pass kind h =>
        rw [outcome_advance_bind, outcome_advance_bind]
        exact h.agree (inside kind)

theorem closed : Closed Parallel where
  pure a := ⟨Forward.closed.pure a, Keeps.closed.pure a, .same⟩
  tooDeep := ⟨Forward.closed.tooDeep, Keeps.closed.tooDeep, .same⟩
  failHere _ := look fun _ => .stay ⟨fun r => .refl r.cursor, fun _ lost => lost, .same⟩
  bind := bind
  look := look

/-- The number of turns does not matter, as long as it reaches the horizon. -/
theorem agree_chainFrom {level : Level} {operand : Parse (Node Int)}
    (atEnd : level (.mark .eof) = none) (hp : Parallel operand) {ahead ahead' : List Token}
    {left : Node Int} (h : Abreast horizon r r') (enough : horizon ≤ r.cursor.pos + ahead.length)
    (enough' : horizon ≤ r.cursor.pos + ahead'.length) :
    Agree horizon (outcome (chainFrom level operand ahead left) r)
      (outcome (chainFrom level operand ahead' left) r') := by
  induction ahead generalizing ahead' left r r' with
  | nil =>
      have here : r.cursor.pos = horizon := Nat.le_antisymm h.pos_le enough
      have stop : level r.cursor.current.kind = none := h.atEnd_iff.mpr here ▸ atEnd
      rw [Grammar.outcome_chainFrom_stop operand [] left stop,
        Grammar.outcome_chainFrom_stop operand ahead' left (h.current.symm ▸ stop)]
      exact .same h
  | cons t ahead ih =>
      cases joins : level r.cursor.current.kind with
      | none =>
          rw [Grammar.outcome_chainFrom_stop operand (t :: ahead) left joins,
            Grammar.outcome_chainFrom_stop operand ahead' left (h.current.symm ▸ joins)]
          exact .same h
      | some op =>
          have inside := Grammar.inside_of_joins atEnd joins
          have before : r.cursor.pos < horizon :=
            Nat.lt_of_le_of_ne h.pos_le (mt h.atEnd_iff.mpr inside)
          have moved := Cursor.advance_pos (Cursor.rest_ne_nil inside)
          cases ahead' with
          | nil => simp only [List.length_nil] at enough'; omega
          | cons t' ahead' =>
              simp only [List.length_cons] at enough enough'
              rw [Grammar.outcome_chainFrom_operator joins,
                Grammar.outcome_chainFrom_operator (h.current.symm ▸ joins), h.current]
              refine hp.agree_bind (fun right => Keeps.closed.chainFrom atEnd hp.keeps ahead _)
                (h.advance inside) fun right r₁ r₁' le abreast => ih abreast ?_ ?_
              all_goals simp only [moved] at le; omega

theorem chain {level : Level} {operand : Parse (Node Int)} (atEnd : level (.mark .eof) = none)
    (hp : Parallel operand) : Parallel (chain level operand) := by
  refine hp.bind fun left => ⟨?_, ?_, ?_⟩
  · exact .bind (fun r => .refl r.cursor) fun ahead =>
      Forward.closed.chainFrom atEnd hp.forward ahead left
  · exact Keeps.closed.bind (fun _ lost => lost) fun ahead =>
      Keeps.closed.chainFrom atEnd hp.keeps ahead left
  · intro horizon r r' h
    rw [outcome_liftM_bind, outcome_liftM_bind]
    exact hp.agree_chainFrom atEnd h h.reach.1 h.reach.2

/-- A turn leaves two readings abreast and finds the same, or reports that it nests too deeply. -/
theorem agree_turn {statement : Parse (Node Int)} {terminators : List Kind}
    (hp : Parallel statement) (h : Abreast horizon r r')
    (going : endsAt terminators r.cursor.current = false) :
    Overrun (turn statement terminators r).2.reported ∨
      (turn statement terminators r').1 = (turn statement terminators r).1 ∧
        Abreast horizon (turn statement terminators r).2 (turn statement terminators r').2 := by
  have forward := hp.forward r
  have first := hp.agree h
  unfold turn
  rcases given : outcome statement r with ⟨failure | node, r₁⟩ <;>
    rcases given' : outcome statement r' with ⟨failure' | node', r₁'⟩ <;>
    rw [given] at first forward <;> rw [given'] at first
  · cases first with
    | lost lost => exact .inl (by cases failure <;> exact lost.push _)
    | deep => exact .inl (overrun_push rfl)
    | same abreast =>
        cases failure with
        | tooDeep => exact .inl (overrun_push rfl)
        | wrong diagnostic =>
            refine .inr ⟨rfl, ?_⟩
            simp only [recover, abreast.pos, h.pos]
            split
            · next stuck =>
                have inside : r₁.cursor.current.kind ≠ .mark .eof :=
                  (forward.eq_of_pos stuck).symm ▸ inside_of_endsAt going
                exact (abreast.advance inside).report diagnostic
            · exact abreast.report diagnostic
  · cases first with
    | lost lost => exact .inl (by cases failure <;> exact lost.push _)
    | deep => exact .inl (overrun_push rfl)
  · cases first with
    | lost lost => exact .inl lost
  · cases first with
    | lost lost => exact .inl lost
    | same abreast => exact .inr ⟨rfl, abreast⟩

theorem agree_statementsFrom {statement : Parse (Node Int)} {terminators : List Kind}
    (hp : Parallel statement) (takes : Takes statement) {ahead ahead' : List Token}
    (h : Abreast horizon r r') (enough : horizon ≤ r.cursor.pos + ahead.length)
    (enough' : horizon ≤ r.cursor.pos + ahead'.length) :
    Overrun ((statementsFrom statement terminators ahead).run r).2.reported ∨
      ((statementsFrom statement terminators ahead').run r').1 =
          ((statementsFrom statement terminators ahead).run r).1 ∧
        Abreast horizon ((statementsFrom statement terminators ahead).run r).2
          ((statementsFrom statement terminators ahead').run r').2 := by
  induction ahead generalizing ahead' r r' with
  | nil =>
      have here : r.cursor.pos = horizon := Nat.le_antisymm h.pos_le enough
      have ends : endsAt terminators r.cursor.current = true := by
        simp [endsAt, Token.isEof, h.atEnd_iff.mpr here]
      rw [run_statementsFrom_end ends, run_statementsFrom_end (h.current.symm ▸ ends)]
      exact .inr ⟨rfl, h⟩
  | cons t ahead ih =>
      cases ends : endsAt terminators r.cursor.current with
      | true =>
          rw [run_statementsFrom_end ends, run_statementsFrom_end (h.current.symm ▸ ends)]
          exact .inr ⟨rfl, h⟩
      | false =>
          have inside := inside_of_endsAt ends
          have before : r.cursor.pos < horizon :=
            Nat.lt_of_le_of_ne h.pos_le (mt h.atEnd_iff.mpr inside)
          have moved := pos_lt_turn hp.forward takes ends
          cases ahead' with
          | nil => simp only [List.length_nil] at enough'; omega
          | cons t' ahead' =>
              simp only [List.length_cons] at enough enough'
              rw [run_statementsFrom_turn ends, run_statementsFrom_turn (h.current.symm ▸ ends)]
              have left : horizon ≤ (turn statement terminators r).2.cursor.pos + ahead'.length := by
                omega
              rcases hp.agree_turn h ends with lost | ⟨found, abreast⟩
              · exact .inl (hp.keeps.statementsFrom terminators ahead lost)
              · rcases ih abreast (by omega) left with lost | ⟨rest, abreast⟩
                · exact .inl lost
                · exact .inr ⟨by rw [found, rest], abreast⟩

theorem list {statement : Parse (Node Int)} (hp : Parallel statement) (takes : Takes statement)
    (terminators : List Kind) : Parallel (liftM (statementsWith statement terminators)) where
  forward r := moves_statementsFrom hp.forward terminators r.cursor.rest r
  keeps r lost := hp.keeps.statementsFrom terminators r.cursor.rest lost
  agree := by
    intro horizon r r' h
    rw [outcome_liftM, outcome_liftM]
    rcases hp.agree_statementsFrom takes h h.reach.1 h.reach.2 with
      lost | ⟨found, abreast⟩
    · exact .lost lost
    · rw [show ((statementsWith statement terminators).run r').1 = _ from found]
      exact .same abreast

end Parallel

theorem parallel_law : Law Parallel where
  toClosed := Parallel.closed
  chain := Parallel.chain
  list depth terminators h := h.list (Takes.statement depth) terminators

theorem ofTokens_starts (tokens : List Token) :
    ∃ more, (Cursor.ofTokens tokens).tokens = tokens ++ more := by
  rw [Cursor.tokens_ofTokens, ended]
  split
  · exact ⟨[], (List.append_nil tokens).symm⟩
  · exact ⟨_, rfl⟩

section

variable {body : List Token} {last : Token}

theorem abreast_ofTokens (inside : ∀ t ∈ body, t.kind ≠ .mark .eof) (ends : last.kind = .mark .eof)
    (rest rest' : List Token) :
    Abreast body.length (.ofTokens (body ++ last :: rest)) (.ofTokens (body ++ last :: rest')) := by
  obtain ⟨more, same⟩ := ofTokens_starts (body ++ last :: rest)
  obtain ⟨more', same'⟩ := ofTokens_starts (body ++ last :: rest')
  refine ⟨⟨body.length, ?_, ?_⟩, ?_, rfl⟩
  · simp only [Reading.ofTokens, Cursor.ofTokens_pos, Nat.zero_add]
  · simp only [Reading.ofTokens, same, same', List.append_assoc, List.cons_append]
    exact shared_append inside ends _ _
  · simp only [Reading.ofTokens, Cursor.ofTokens_pos]

/-- The whole program is read, and not a token more. -/
theorem current_program (tokens : List Token) :
    (program.run (.ofTokens tokens)).2.cursor.current.isEof = true := by
  have ends : endsAt [] (program.run (.ofTokens tokens)).2.cursor.current = true :=
    endsAt_statementsWith (forward_law.statement depthLimit) (Takes.statement depthLimit)
  simpa [endsAt] using ends

/-- Unless something nests too deeply, reading ends at the first token that ends a text, and nothing
behind that changes what is read. -/
theorem parse_behind (inside : ∀ t ∈ body, t.isEof = false) (ends : last.isEof = true)
    {rest : List Token}
    (shallow : ∀ d ∈ (parse (body ++ last :: rest)).diagnostics, d.problem ≠ .tooDeep)
    (rest' : List Token) :
    (program.run (.ofTokens (body ++ last :: rest))).2.cursor.pos = body.length ∧
      parse (body ++ last :: rest') = parse (body ++ last :: rest) := by
  have start : Abreast body.length (.ofTokens (body ++ last :: rest))
      (.ofTokens (body ++ last :: rest')) :=
    abreast_ofTokens (by simpa [Token.isEof] using inside) (by simpa [Token.isEof] using ends)
      rest rest'
  have agree : Agree body.length (outcome (liftM program) (.ofTokens (body ++ last :: rest)))
      (outcome (liftM program) (.ofTokens (body ++ last :: rest'))) :=
    (parallel_law.list depthLimit [] (parallel_law.statement depthLimit)).agree start
  have ended := current_program (body ++ last :: rest)
  rw [outcome_liftM, outcome_liftM] at agree
  rw [Grammar.parse_eq] at shallow ⊢
  rw [Grammar.parse_eq]
  generalize program.run (.ofTokens (body ++ last :: rest)) = read,
    program.run (.ofTokens (body ++ last :: rest')) = read' at agree ended shallow ⊢
  obtain ⟨nodes, r⟩ := read
  obtain ⟨nodes', r'⟩ := read'
  cases agree with
  | lost lost =>
      obtain ⟨d, member, deep⟩ := lost
      exact absurd deep (shallow d (Array.mem_toList_iff.mpr member))
  | same abreast =>
      refine ⟨abreast.atEnd_iff.mp (by simpa [Token.isEof] using ended), ?_⟩
      rw [abreast.reported]

end

/-- Reading always ends, and always makes progress. -/
theorem parse_progress :
    (∀ tokens : List Token, (program.run (.ofTokens tokens)).2.cursor.current.isEof = true) ∧
    (∀ (depth : Nat) (terminators : List Kind) (r : Reading),
      endsAt terminators
          ((statementsWith (statement depth) terminators).run r).2.cursor.current = true ∧
        (endsAt terminators r.cursor.current = true →
          (statementsWith (statement depth) terminators).run r = ([], r)) ∧
        (endsAt terminators r.cursor.current = false →
          r.cursor.pos < (turn (statement depth) terminators r).2.cursor.pos ∧
          (statementsWith (statement depth) terminators).run r =
            let (found, next) := turn (statement depth) terminators r
            let (rest, after) := (statementsWith (statement depth) terminators).run next
            (found.toList ++ rest, after))) ∧
    (∀ (depth : Nat) (r : Reading), r.cursor.pos ≤ (outcome (statement depth) r).2.cursor.pos) ∧
    (∀ (depth : Nat) (r r₁ : Reading) (node : Node Int),
      outcome (expression depth) r = (.ok node, r₁) →
        ∀ level ∈ Grammar.levels, level r₁.cursor.current.kind = none) ∧
    (∀ (body : List Token) (last : Token) (rest rest' : List Token),
      (∀ t ∈ body, t.isEof = false) → last.isEof = true →
      (∀ d ∈ (parse (body ++ last :: rest)).diagnostics, d.problem ≠ .tooDeep) →
        (program.run (.ofTokens (body ++ last :: rest))).2.cursor.pos = body.length ∧
          parse (body ++ last :: rest') = parse (body ++ last :: rest)) := by
  refine ⟨current_program, fun depth terminators r => ?_, fun depth r => ?_, ?_, ?_⟩
  · have forward : Forward (statement depth) := forward_law.statement depth
    have takes := Takes.statement depth
    exact ⟨endsAt_statementsWith forward takes, run_statementsWith_end, fun going =>
      ⟨pos_lt_turn forward takes going, run_statementsWith_turn forward takes going⟩⟩
  · have forward : Forward (statement depth) := forward_law.statement depth
    exact (forward r).pos_le
  · exact fun depth r r₁ node given => settles_expression depth r node r₁ given
  · exact fun body last rest rest' inside ends shallow => parse_behind inside ends shallow rest'

/-- A text that ends in the middle of its tokens, with a report before the end. -/
theorem parse_beyond :
    parse [⟨.mark .print, 1, 1⟩, ⟨.mark .star, 1, 7⟩, ⟨.mark .eof, 1, 8⟩, ⟨.mark .breakWord, 2, 1⟩] =
      parse [⟨.mark .print, 1, 1⟩, ⟨.mark .star, 1, 7⟩, ⟨.mark .eof, 1, 8⟩] :=
  (parse_progress.2.2.2.2 [⟨.mark .print, 1, 1⟩, ⟨.mark .star, 1, 7⟩] ⟨.mark .eof, 1, 8⟩ []
    [⟨.mark .breakWord, 2, 1⟩] (by decide) rfl (by decide)).2

end Parse

end SlangScript
