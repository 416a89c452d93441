import SlangScript.Proofs.Joined
import SlangScript.Proofs.Run.Assigned

/-!
Words that carry no meaning: those around a condition, the one behind the word for printing, and the
one in front of a declaration. Without them no phrase begins or ends elsewhere, since what can stand
behind an expression still can when such a word in between is gone. So a program with which nothing
is wrong is read as the same program, with its declarations made assignments, and runs the same.
-/

namespace SlangScript

namespace Grammar

open Parse

def optionalWords : List Kind := [.mark .cond, .mark .thenWord, .mark .highkey, .mark .letWord]

/-- The tokens without the optional words. -/
def bare (tokens : List Token) : List Token := tokens.filter (·.kind ∉ optionalWords)

theorem bare_append (a b : List Token) : bare (a ++ b) = bare a ++ bare b :=
  List.filter_append a b

section

variable {t : Token} {a b : List Token}

theorem bare_dropped {kind : Kind} (same : t.kind = kind) (optional : kind ∈ optionalWords) :
    bare (t :: a) = bare a := by
  apply List.filter_cons_of_neg
  simpa [same] using optional

theorem bare_kept {kind : Kind} (same : t.kind = kind) (needed : kind ∉ optionalWords) :
    bare (t :: a) = t :: bare a := by
  apply List.filter_cons_of_pos
  simpa [same] using needed

/-- A name or a literal stays. -/
theorem bare_lexeme {lexeme : Lexeme} (same : t.lexeme = lexeme)
    (needed : ∀ mark, lexeme ≠ .mark mark) : bare (t :: a) = t :: bare a := by
  apply bare_kept rfl
  rw [Token.kind, same]
  cases lexeme with
  | mark mark => exact absurd rfl (needed mark)
  | ident | number | text | flag => simp [Lexeme.kind, optionalWords]

theorem needed_of_joins {level : Level} {kind : Kind} {op : BinaryOp} (member : level ∈ levels)
    (joins : level kind = some op) : kind ∉ optionalWords := by
  have none : ∀ level ∈ levels, ∀ kind ∈ optionalWords, level kind = none := by decide
  intro optional
  rw [none level member kind optional] at joins
  cases joins

/-- What comes next stays in sight without the optional words, or else something does that can
follow a statement. -/
inductive Settled : List Token → Prop
  | kept {t : Token} {a : List Token} : t.kind ∉ optionalWords → Settled (t :: a)
  | dropped {a : List Token} : Starts follows (bare a) → Settled a

/-- What could stand behind an expression without a closing parenthesis still can. -/
theorem Settled.head (h : Settled (t :: a)) (other : t.kind ≠ .mark .rparen)
    (stops : Stops levels (t :: a)) :
    ∃ u b, bare (t :: a) = u :: b ∧ u.kind ≠ .mark .rparen ∧ Stops levels (u :: b) := by
  cases h with
  | kept needed =>
      exact ⟨t, bare a, bare_kept rfl needed, other, stops_cons.mpr (stops_cons.mp stops)⟩
  | dropped follow => exact exists_head_of_follows follow

theorem Expression.bare {ls : List Level} {e : Node Int} {n : Nat} (h : Expression ls a e b n)
    (suffix : ls <:+ levels) (settled : Settled b) : Expression ls (bare a) e (bare b) n := by
  induction h with
  | number value =>
      rw [bare_lexeme value nofun]
      exact .number value
  | text value =>
      rw [bare_lexeme value nofun]
      exact .text value
  | flag value =>
      rw [bare_lexeme value nofun]
      exact .flag value
  | var name =>
      rw [bare_lexeme name nofun]
      exact .var name
  | closed opening _ closing ih =>
      have inner := ih (List.suffix_refl levels) (.kept (closing ▸ by decide))
      rw [bare_kept closing (by decide)] at inner
      rw [bare_kept opening (by decide)]
      exact .closed opening inner closing
  | unclosed opening _ other stops ih =>
      have inner := ih (List.suffix_refl levels) settled
      obtain ⟨u, b, same, other, stops⟩ := settled.head other stops
      rw [same] at inner ⊢
      rw [bare_kept opening (by decide)]
      exact .unclosed opening inner other stops
  | @unary t op _ _ _ _ sign _ ih =>
      have needed : t.kind ∉ optionalWords := by
        rcases kind_of_unaryOp sign with kind | kind <;> rw [kind] <;> decide
      rw [bare_kept rfl needed]
      exact .unary sign (ih suffix settled)
  | tighter _ ih => exact .tighter (ih ((List.suffix_cons _ _).trans suffix) settled)
  | binary _ joins _ ihl ihr =>
      have needed := needed_of_joins (suffix.subset (.head _)) joins
      have left := ihl suffix (.kept needed)
      rw [bare_kept rfl needed] at left
      exact .binary left joins (ihr ((List.suffix_cons _ _).trans suffix) settled)

theorem Expression.bare_whole {e : Node Int} {n : Nat} (h : Expression levels a e b n)
    (follow : Starts follows (Grammar.bare b)) :
    Expression levels (Grammar.bare a) e (Grammar.bare b) n :=
  h.bare (List.suffix_refl levels) (.dropped follow)

theorem Optional.bare_eq {word : Mark} (h : Optional word a b)
    (optional : .mark word ∈ optionalWords) : bare a = bare b := by
  cases h with
  | absent => rfl
  | present same => exact bare_dropped same optional

theorem Condition.bare {e : Node Int} {n : Nat} (h : Condition a e b n)
    (follow : Starts follows (bare b)) : Condition (bare a) e (bare b) n := by
  cases h with
  | intro before derived after =>
      rw [before.bare_eq (by decide)]
      rw [← after.bare_eq (by decide)] at follow ⊢
      exact .intro .absent (derived.bare_whole follow) .absent

theorem Close.bare (h : Close a b) : Close (bare a) (bare b) := by
  cases h with
  | written same =>
      rw [bare_kept same (by decide)]
      exact .written same
  | missing same =>
      rw [bare_kept same (by decide)]
      exact .missing same

end

mutual

/-- Without the optional words a statement is derived as it was, but that a declaration is an
assignment. -/
theorem Statement.bare {a b : List Token} {s : Node Int} {n : Nat} (h : Statement a s b n)
    (follow : Starts follows (bare b)) :
    ∃ s' : Node Int, s'.untag = s.assigned.untag ∧ Statement (bare a) s' (bare b) n := by
  cases h with
  | declare start ident assign derived =>
      rw [bare_dropped start (by decide), bare_lexeme ident nofun,
        bare_kept assign (by decide)]
      refine ⟨_, ?_, .assign ident assign (derived.bare_whole follow)⟩
      rfl
  | assign ident assign derived =>
      rw [bare_lexeme ident nofun, bare_kept assign (by decide)]
      exact ⟨_, rfl, .assign ident assign (derived.bare_whole follow)⟩
  | print start word derived =>
      rw [bare_kept start (by decide), word.bare_eq (by decide)]
      exact ⟨_, rfl, .print start .absent (derived.bare_whole follow)⟩
  | debugPrint start derived =>
      rw [bare_kept start (by decide)]
      exact ⟨_, rfl, .debugPrint start (derived.bare_whole follow)⟩
  | breakOut start =>
      rw [bare_kept start (by decide)]
      exact ⟨_, rfl, .breakOut start⟩
  | continueOn start =>
      rw [bare_kept start (by decide)]
      exact ⟨_, rfl, .continueOn start⟩
  | ifThen start test body close =>
      have ends := close.bare.ends
      obtain ⟨yes, erased, body'⟩ := body.bare ends
      rw [bare_kept start (by decide)]
      refine ⟨.ifThen _ _ yes, ?_, .ifThen start (test.bare (body'.starts ends)) body' close.bare⟩
      simp only [Node.assigned, Node.untag, erased]
  | @ifElse _ u _ _ c _ _ _ _ _ _ _ _ start test yes isElse no close =>
      have ends := close.bare.ends
      have same : Grammar.bare (u :: c) = u :: Grammar.bare c := bare_kept isElse (by decide)
      have ends' : Starts [.mark .eof, .mark .endWord, .mark .elseWord] (Grammar.bare (u :: c)) :=
        ⟨u, Grammar.bare c, same, by simp [isElse]⟩
      obtain ⟨ss, erased, yes'⟩ := yes.bare ends'
      obtain ⟨ss', erased', no'⟩ := no.bare ends
      have test' := test.bare (yes'.starts ends')
      rw [same] at yes'
      rw [bare_kept start (by decide)]
      refine ⟨.ifElse _ _ ss ss', ?_, .ifElse start test' yes' isElse no' close.bare⟩
      simp only [Node.assigned, Node.untag, erased, erased']
  | whileDo start test body close =>
      have ends := close.bare.ends
      obtain ⟨inner, erased, body'⟩ := body.bare ends
      rw [bare_kept start (by decide)]
      refine ⟨.whileDo _ _ inner, ?_,
        .whileDo start (test.bare (body'.starts ends)) body' close.bare⟩
      simp only [Node.assigned, Node.untag, erased]

theorem Block.bare {a b : List Token} {ss : List (Node Int)} {n : Nat} (h : Block a ss b n)
    (ends : Starts [.mark .eof, .mark .endWord, .mark .elseWord] (bare b)) :
    ∃ ss' : List (Node Int), Node.untagAll ss' = Node.untagAll (Node.assignedAll ss) ∧
      Block (bare a) ss' (bare b) n := by
  cases h with
  | nil => exact ⟨[], rfl, .nil⟩
  | cons first rest =>
      -- The rest tells what comes behind the first statement.
      obtain ⟨ss', erased', rest'⟩ := rest.bare ends
      obtain ⟨s', erased, first'⟩ := first.bare (rest'.starts ends)
      refine ⟨s' :: ss', ?_, .cons first' rest'⟩
      simp only [Node.assignedAll, Node.untagAll, erased, erased']

end

theorem Program.bare {tokens : List Token} {S : List (Node Int)} {n : Nat}
    (h : Program tokens S n) : ∃ S' : List (Node Int),
      Node.untagAll S' = Node.untagAll (Node.assignedAll S) ∧ Program (bare tokens) S' n := by
  obtain ⟨last, ends, derived⟩ := h
  have kind : last.kind = .mark .eof := Token.kind_of_isEof ends
  have same : Grammar.bare [last] = [last] := bare_kept kind (by decide)
  obtain ⟨S', erased, derived'⟩ := derived.bare ⟨last, [], same, by simp [kind]⟩
  exact ⟨S', erased, last, ends, same ▸ derived'⟩

theorem EndsOnce.bare {tokens : List Token} (once : EndsOnce tokens) : EndsOnce (bare tokens) := by
  obtain ⟨body, last, rfl, ends, inside⟩ := once
  have kind : last.kind = .mark .eof := Token.kind_of_isEof ends
  refine ⟨Grammar.bare body, last, ?_, ends, ?_⟩
  · rw [bare_append]
    exact congrArg _ (bare_kept kind (by decide))
  · intro t member
    exact inside t (List.mem_filter.mp member).1

/-- Without its optional words, a text with which nothing is wrong is read with nothing wrong, as
the same statements with the declarations made assignments, and these run the same on every
machine. -/
theorem parse_bare {tokens : List Token} (once : EndsOnce tokens)
    (silent : (parse tokens).diagnostics = []) : ∃ S : List (Node Int),
      parse (bare tokens) = ⟨S, []⟩ ∧
      Node.untagAll S = Node.untagAll (Node.assignedAll (parse tokens).statements) ∧
      (∀ (m : Machine) result m', m.Ends S result m' ↔
        m.Ends (parse tokens).statements result m') ∧
      ∀ m : Machine, m.run S = m.run (parse tokens).statements := by
  have whole : parse tokens = ⟨(parse tokens).statements, []⟩ := by rw [← silent]
  obtain ⟨n, within, derived⟩ := program_of_parse once whole
  obtain ⟨S, erased, derived'⟩ := derived.bare
  have runs (rounds : Nat) :
      Machine.execute rounds S = Machine.execute rounds (parse tokens).statements := by
    rw [← Machine.execute_untag, erased, Machine.execute_untag, Machine.execute_assigned]
  refine ⟨S, parse_of_program once.bare within derived', erased, fun m result m' => ?_, fun m => ?_⟩
  · simp only [Machine.Ends, runs]
  · simp only [Machine.run, runs]

/-- A condition with an open parenthesis and both words around it, in front of a declaration and a
word for printing with the one behind it. -/
def wordy : List Token :=
  [⟨.mark .ifWord, 1, 1⟩, ⟨.mark .cond, 1, 5⟩, ⟨.mark .lparen, 1, 10⟩, ⟨.ident "x", 1, 11⟩,
    ⟨.mark .thenWord, 1, 13⟩, ⟨.mark .letWord, 2, 1⟩, ⟨.ident "y", 2, 7⟩, ⟨.mark .assign, 2, 9⟩,
    ⟨.ident "x", 2, 15⟩, ⟨.mark .print, 3, 1⟩, ⟨.mark .highkey, 3, 6⟩, ⟨.ident "y", 3, 14⟩,
    ⟨.mark .endWord, 4, 1⟩, ⟨.mark .eof, 4, 7⟩]

theorem endsOnce_wordy : EndsOnce wordy :=
  ⟨wordy.dropLast, ⟨.mark .eof, 4, 7⟩, rfl, rfl, by decide⟩

theorem parse_bare_wordy : EndsOnce wordy ∧ (parse wordy).diagnostics = [] ∧
    ∃ S : List (Node Int), parse (bare wordy) = ⟨S, []⟩ ∧
      Node.untagAll S =
        [.ifThen () (.var () "x") [.assign () "y" (.var () "x"), .print () (.var () "y")]] ∧
      (∀ (m : Machine) result m', m.Ends S result m' ↔ m.Ends (parse wordy).statements result m') ∧
      ∀ m : Machine, m.run S = m.run (parse wordy).statements :=
  ⟨endsOnce_wordy, rfl, parse_bare endsOnce_wordy rfl⟩

end Grammar

end SlangScript
