import SlangScript.Proofs.Joined
import SlangScript.Proofs.Reported
import SlangScript.Proofs.Token.Span

/-!
Texts without layout. The slices that the tokens of a text stand in, with single spaces between
them, have the same tokens but for their places: nothing is cut differently for the comments, the
layout and the useless characters that are gone. Texts with the same tokens are read alike, and if
nothing is wrong with them they run alike.
-/

namespace SlangScript

open Grammar Parse

/-! ## Slices -/

def Span.slice (text : List Char) (span : Span) : List Char := text.extract span.start span.stop

/-- The slices of the tokens of a text, with single spaces between them. -/
def respaced (source : String) : String :=
  String.ofList ([' '].intercalate ((spans source.toList).map (Span.slice source.toList)))

/-- Only the last token can be a text literal without an end, and nothing is put behind that one. -/
theorem cuts_slices {text : List Char} {spans : List Span} {lexemes : List Lexeme}
    (fits : List.Forall₂ (Span.Fits text) spans lexemes)
    (ordered : spans.Pairwise fun s s' => s.stop ≤ s'.start) :
    Cuts ([' '].intercalate (spans.map (Span.slice text))) lexemes := by
  induction fits with
  | nil => exact .nil
  | @cons span lexeme spans lexemes first rest ih =>
      obtain ⟨onward, ordered⟩ := List.pairwise_cons.mp ordered
      have behind := ih ordered
      cases rest with
      | nil =>
          rw [List.map_singleton, List.intercalate_singleton]
          exact .whole first.denotes.alone
      | @cons next _ _ _ second _ =>
          have apart := onward next List.mem_cons_self
          have more : text.drop span.stop ≠ [] := by
            intro none
            have past := List.drop_eq_nil_iff.mp none
            have nonempty := second.nonempty
            have within := second.within
            omega
          rcases first.denotes.lexes with lexes | ⟨_, _, _, none, _⟩
          · rw [List.map_cons, List.map_cons, List.intercalate_cons_cons, List.append_assoc,
              List.singleton_append]
            exact .space lexes behind
          · exact absurd none more

/-- The slices are those of the tokens, and they keep their tokens. -/
theorem spanned_tokenize (source : String) :
    Spanned source.toList 0 (spans source.toList) ((tokenize source).dropLast.map Token.lexeme) ∧
      (tokenize (respaced source)).map Token.lexeme = (tokenize source).map Token.lexeme := by
  have enough : source.toList.length ≤ 0 + source.toList.length := Nat.le_add_left _ _
  obtain ⟨lexemes, cuts, spanned⟩ := exists_spanned enough
  have whole := lexemes_tokenize_of_cuts cuts
  have respaced_cuts : Cuts (respaced source).toList lexemes := by
    rw [respaced, String.toList_ofList]
    exact cuts_slices spanned.fits spanned.ordered
  refine ⟨?_, (lexemes_tokenize_of_cuts respaced_cuts).trans whole.symm⟩
  rw [List.map_dropLast, whole, List.dropLast_concat]
  exact spanned

/-! ## Reading and running -/

section

variable {source source' : String}

/-- Texts with the same tokens, wherever these stand, are read alike, with the same problems. -/
theorem parse_alike
    (same : (tokenize source').map Token.lexeme = (tokenize source).map Token.lexeme) :
    AllAlike (parse (tokenize source')).statements (parse (tokenize source)).statements ∧
      (parse (tokenize source')).diagnostics.map Diagnostic.problem =
        (parse (tokenize source)).diagnostics.map Diagnostic.problem := by
  have paired : List.Forall₂ (Pairing.byPlace same).paired (ended (tokenize source'))
      (ended (tokenize source)) := by
    rw [ended_tokenize, ended_tokenize]
    exact Pairing.forall₂_byPlace same
  obtain ⟨alike, found⟩ := parse_paired _ paired
  refine ⟨alike, ?_⟩
  rw [← List.forall₂_eq_eq_eq, List.forall₂_map_left_iff, List.forall₂_map_right_iff]
  exact found.imp fun _ _ diagnostics => diagnostics.problem

namespace Machine

/-- So they run alike on every machine if nothing is wrong with them. -/
theorem runs_alike (same : (tokenize source').map Token.lexeme = (tokenize source).map Token.lexeme)
    (silent : (parse (tokenize source)).diagnostics = []) (m : Machine) :
    (∀ result m', m.EndsText source' result m' ↔ m.EndsText source result m') ∧
      m.runText source' = m.runText source := by
  obtain ⟨alike, problems⟩ := parse_alike same
  rw [silent, List.map_nil, List.map_eq_nil_iff] at problems
  have runs (rounds : Nat) : execute rounds (parse (tokenize source')).statements =
      execute rounds (parse (tokenize source)).statements := by
    rw [← execute_untag, alike, execute_untag]
  constructor
  · intro result m'
    rw [endsText_iff problems, endsText_iff silent, ends_untag alike]
  · simp only [runText, note_report problems, note_report silent, run, runs]

end Machine

end

/-- A text without its layout, its comments and its useless characters, the slices of its tokens
with single spaces between them, has the same tokens. It is read as the same statements but for
their lines, with the same problems; and if nothing is wrong with the text it runs the same on every
machine. -/
theorem tokenize_respaced (source : String) :
    Spanned source.toList 0 (spans source.toList) ((tokenize source).dropLast.map Token.lexeme) ∧
      (tokenize (respaced source)).map Token.lexeme = (tokenize source).map Token.lexeme ∧
      Node.untagAll (parse (tokenize (respaced source))).statements =
        Node.untagAll (parse (tokenize source)).statements ∧
      (parse (tokenize (respaced source))).diagnostics.map Diagnostic.problem =
        (parse (tokenize source)).diagnostics.map Diagnostic.problem ∧
      ((parse (tokenize source)).diagnostics = [] → ∀ m : Machine,
        (∀ result m', m.EndsText (respaced source) result m' ↔ m.EndsText source result m') ∧
        m.runText (respaced source) = m.runText source) := by
  obtain ⟨spanned, same⟩ := spanned_tokenize source
  obtain ⟨alike, problems⟩ := parse_alike same
  exact ⟨spanned, same, alike, problems, Machine.runs_alike same⟩

/-- Words that touch numbers and signs, a comment, half of a sign and a text literal without an
end. -/
def cluttered : String := "hayde a hiyye .5.// x\n\t3mol a==-1lowkey&\x22y  z"

theorem tokenize_respaced_cluttered :
    respaced cluttered = "hayde a hiyye 5. 3mol a == - 1 lowkey \x22y  z" ∧
      (parse (tokenize cluttered)).diagnostics = [] ∧
      ∀ m : Machine, m.runText (respaced cluttered) = m.runText cluttered := by
  have silent : (parse (tokenize cluttered)).diagnostics = [] := by decide +kernel
  refine ⟨by decide +kernel, silent, fun m => ?_⟩
  exact ((tokenize_respaced cluttered).2.2.2.2 silent m).2

end SlangScript
