import SlangScript.Proofs.Grammar.Printed
import SlangScript.Proofs.Grammar.Retold
import SlangScript.Proofs.Run.Session
import SlangScript.Proofs.Run.Untag
import SlangScript.Proofs.Token.Cut

/-!
Texts that run piecewise as they run joined. A text in which every text literal and every block is
closed, and with which nothing is wrong, is read in the same way in front of another one on the next
line. So a session of such texts is one text, on any machine and however it ends, as long as none of
them is broken off.
-/

namespace SlangScript

open Grammar Parse

/-- The number of tokens of a kind. -/
def countKind (kind : Kind) (ts : List Token) : Nat := ts.countP (·.kind == kind)

/-- A text that nothing behind it can reach into: every text literal is closed, nothing is wrong
with it, and there are as many words that close a block as blocks. -/
structure SelfContained (source : String) : Prop where
  closed : Closed source.toList
  silent : (parse (tokenize source)).diagnostics = []
  even : countKind (.mark .endWord) (tokenize source) =
    countKind (.mark .ifWord) (tokenize source) + countKind (.mark .whileWord) (tokenize source)

theorem weight_eq_indicators (kind : Kind) : weight kind =
    ((if kind == .mark .ifWord then 1 else 0) + (if kind == .mark .whileWord then 1 else 0) : Nat) -
      (if kind == .mark .endWord then 1 else 0 : Nat) := by
  unfold weight
  split <;> simp_all

theorem balance_eq_countKind (ts : List Token) : balance ts =
    (countKind (.mark .ifWord) ts + countKind (.mark .whileWord) ts : Nat) -
      countKind (.mark .endWord) ts := by
  induction ts with
  | nil => rfl
  | cons t ts ih =>
      rw [balance_cons, ih, weight_eq_indicators]
      simp only [countKind, List.countP_cons]
      omega

/-- The statements of the texts, one text after the other. -/
def statementsOf (sources : List String) : List (Node Int) :=
  sources.flatMap fun source => (parse (tokenize source)).statements

/-- The lexemes of the texts are read as their statements, wherever the tokens stand. -/
def ReadAs (lexemes : List Lexeme) (sources : List String) : Prop :=
  ∀ ⦃body : List Token⦄ ⦃last : Token⦄, body.map Token.lexeme = lexemes →
    last.isEof = true → ∃ (S : List (Node Int)) (n : Nat), n ≤ depthLimit ∧
      Node.untagAll S = Node.untagAll (statementsOf sources) ∧ Program (body ++ [last]) S n

theorem readAs_nil : ReadAs [] [] := by
  intro body last same ends
  obtain rfl := List.map_eq_nil_iff.mp same
  exact ⟨[], 0, Nat.zero_le _, rfl, last, ends, .nil⟩

section

variable {source : String} {lexemes lexemes' : List Lexeme} {sources : List String}

theorem SelfContained.program (h : SelfContained source) (cuts : Cuts source.toList lexemes) :
    ∃ (body : List Token) (last : Token) (n : Nat), body.map Token.lexeme = lexemes ∧
      balance body = 0 ∧ last.isEof = true ∧ n ≤ depthLimit ∧
      Program (body ++ [last]) (parse (tokenize source)).statements n := by
  obtain ⟨body, last, whole, front, ends⟩ :=
    exists_body_of_lexemes (lexemes_tokenize_of_cuts cuts)
  have kind : last.kind = .mark .eof := Token.kind_of_isEof ends
  have quiet : parse (tokenize source) = ⟨(parse (tokenize source)).statements, []⟩ := by
    rw [← h.silent]
  obtain ⟨n, within, derived⟩ := program_of_parse (endsOnce_tokenize source) quiet
  have closes : balance (tokenize source) = 0 := by
    rw [balance_eq_countKind, h.even]
    omega
  refine ⟨body, last, n, front, ?_, ends, within, whole ▸ derived⟩
  rw [whole] at closes
  simpa [kind, weight] using closes

theorem SelfContained.readAs_cons (h : SelfContained source) (cuts : Cuts source.toList lexemes)
    (h' : ReadAs lexemes' sources) : ReadAs (lexemes ++ lexemes') (source :: sources) := by
  intro body last same ends
  obtain ⟨front, back, rfl, same, same'⟩ := List.map_eq_append_iff.mp same
  obtain ⟨body, stop, m, spelled, even, stops, within, derived⟩ := h.program cuts
  obtain ⟨S', n, within', erased', derived'⟩ := h' same' ends
  obtain ⟨S, erased, whole⟩ := derived.append stops even (same.trans spelled.symm) derived'
  refine ⟨S ++ S', max m n, Nat.max_le.mpr ⟨within, within'⟩, ?_, by simpa using whole⟩
  rw [Node.untagAll_append, erased, erased', ← Node.untagAll_append]
  rfl

/-- What the texts are cut up into when they are joined is read as their statements. -/
theorem exists_readAs (h : ∀ source ∈ sources, SelfContained source) :
    ∃ lexemes, Cuts ("\n".intercalate sources).toList lexemes ∧ ReadAs lexemes sources := by
  induction sources with
  | nil => exact ⟨[], .nil, readAs_nil⟩
  | cons source sources ih =>
      obtain ⟨first, others⟩ := List.forall_mem_cons.mp h
      obtain ⟨lexemes, cuts⟩ := exists_cuts source.toList
      obtain ⟨lexemes', cuts', reads⟩ := ih others
      cases sources with
      | nil =>
          rw [String.intercalate_singleton]
          have whole := first.readAs_cons cuts readAs_nil
          rw [List.append_nil] at whole
          exact ⟨lexemes, cuts, whole⟩
      | cons =>
          refine ⟨lexemes ++ lexemes', ?_, first.readAs_cons cuts reads⟩
          rw [String.intercalate_cons_cons]
          simpa using cuts.append first.closed cuts'

/-- Self-contained texts read the same joined as in turn, but for the lines. -/
theorem parse_joined (h : ∀ source ∈ sources, SelfContained source) :
    ∃ S : List (Node Int), Node.untagAll S = Node.untagAll (statementsOf sources) ∧
      parse (tokenize ("\n".intercalate sources)) = ⟨S, []⟩ := by
  obtain ⟨lexemes, cuts, reads⟩ := exists_readAs h
  obtain ⟨body, last, whole, front, ends⟩ :=
    exists_body_of_lexemes (lexemes_tokenize_of_cuts cuts)
  obtain ⟨S, n, within, erased, derived⟩ := reads front ends
  rw [← whole] at derived
  exact ⟨S, erased, parse_of_program (endsOnce_tokenize _) within derived⟩

end

namespace Machine

section

variable {m m' : Machine} {source : String} {sources : List String} {result : Except Fault Unit}

theorem note_report (h : (parse (tokenize source)).diagnostics = []) :
    m.note (parse (tokenize source)).report = m := by
  have quiet : (parse (tokenize source)).report = "" := by
    rw [Parsed.report, h]
    rfl
  simp [quiet, note]

theorem ends_untag {ι κ : Type} {program : List (Node ι)} {program' : List (Node κ)}
    (same : Node.untagAll program = Node.untagAll program') :
    m.Ends program result m' ↔ m.Ends program' result m' := by
  have runs (rounds : Nat) : execute rounds program = execute rounds program' := by
    rw [← execute_untag, same, execute_untag]
  simp only [Ends, runs]

theorem endsText_iff (silent : (parse (tokenize source)).diagnostics = []) :
    m.EndsText source result m' ↔ m.Ends (parse (tokenize source)).statements result m' := by
  rw [EndsText, note_report silent]

/-- Texts with which nothing is wrong, and which are not broken off, end in turn as all of their
statements do. -/
theorem ends_statementsOf (silent : ∀ source ∈ sources, (parse (tokenize source)).diagnostics = [])
    (unbroken : m.Unbroken sources) :
    m.Ends (statementsOf sources) result m' ↔ m.EndsTexts sources result m' := by
  induction sources generalizing m with
  | nil =>
      constructor
      · rintro ⟨_, _, ran⟩
        obtain ⟨rfl, rfl⟩ := Prod.mk.inj ran
        exact .done
      · rintro ⟨⟩
        exact ⟨by simp, 0, rfl⟩
  | cons source sources ih =>
      obtain ⟨first, others⟩ := List.forall_mem_cons.mp silent
      obtain ⟨goes, onward⟩ := unbroken
      rw [note_report first] at goes
      constructor
      · intro ends
        rcases ends.parts goes with ⟨fault, rfl, stops⟩ | ⟨m₁, passes, behind⟩
        · exact .stop ((endsText_iff first).mpr stops)
        · have passes' := (endsText_iff first).mpr passes
          exact .next passes' ((ih others (onward m₁ passes')).mp behind)
      · intro ends
        cases ends with
        | stop stops => exact ((endsText_iff first).mp stops).stop goes
        | next passes behind =>
            exact ((endsText_iff first).mp passes).append goes
              ((ih others (onward _ passes)).mpr behind)

/-- Self-contained texts that are not broken off run joined, by line feeds, as they run in turn: they
end in the same result and leave the same machine, whether or not there is a cap. -/
theorem runs_joined (h : ∀ source ∈ sources, SelfContained source) (unbroken : m.Unbroken sources) :
    (∀ result m', m.EndsText ("\n".intercalate sources) result m' ↔
      m.EndsTexts sources result m') ∧
    (m.cap ≠ none → m.runText ("\n".intercalate sources) = m.runTexts sources) := by
  obtain ⟨S, erased, whole⟩ := parse_joined h
  have same (result : Except Fault Unit) (m' : Machine) :
      m.EndsText ("\n".intercalate sources) result m' ↔ m.EndsTexts sources result m' := by
    rw [endsText_iff (by rw [whole]), whole, ends_untag erased,
      ends_statementsOf (fun source member => (h source member).silent) unbroken]
  refine ⟨same, fun capped => ?_⟩
  have inTurn := (same _ _).mpr (endsTexts_runTexts capped sources)
  obtain ⟨results, machines⟩ := Ends.unique (endsText_runText capped _) inTurn
  exact Prod.ext results machines

end

/-- A text with a parenthesis that is not closed, a loop that is left, and another text. -/
def session : List String :=
  ["hayde x hiyye (cap", "tool_ma betshil !x lakan x hiyye ong_no_cap khalas deal", "3mol x"]

theorem selfContained_session : ∀ source ∈ session, SelfContained source := by
  have closed : ∀ source ∈ session, '\x22' ∉ source.toList := by decide +kernel
  have silent : ∀ source ∈ session, (parse (tokenize source)).diagnostics = [] := by
    decide +kernel
  have even : ∀ source ∈ session, countKind (.mark .endWord) (tokenize source) =
      countKind (.mark .ifWord) (tokenize source) + countKind (.mark .whileWord) (tokenize source) := by
    decide +kernel
  exact fun source member => ⟨closed_of_not_mem (closed source member), silent source member,
    even source member⟩

theorem unbroken_session : capped.Unbroken session := by
  refine unbroken_of_leavesLoopsOnly ?_ capped
  decide +kernel

theorem runs_joined_session : (∀ source ∈ session, SelfContained source) ∧
    capped.Unbroken session ∧ capped.cap ≠ none ∧
    (∀ result m', capped.EndsText ("\n".intercalate session) result m' ↔
      capped.EndsTexts session result m') ∧
    capped.runText ("\n".intercalate session) = capped.runTexts session :=
  ⟨selfContained_session, unbroken_session, by simp [capped],
    (runs_joined selfContained_session unbroken_session).1,
    (runs_joined selfContained_session unbroken_session).2 (by simp [capped])⟩

end Machine

end SlangScript
