import Mathlib.Algebra.Order.BigOperators.Group.Finset
import SlangScript.Proofs.Grammar.Printed
import SlangScript.Proofs.Grammar.Program
import SlangScript.Proofs.Grammar.Relocated
import SlangScript.Proofs.Grammar.Reports
import SlangScript.Proofs.Token.Place

/-!
What is wrong with a text is reported in its order. The places of the tokens that are reported rise,
and what the tokens say decides them alone; so the reports of a text go from line to line and from
column to column, and there are fewer than two for every token.
-/

namespace SlangScript

open Grammar Parse

/-- The tokens, each on a line that is its place in the list. -/
def numbered (tokens : List Token) : List Token :=
  tokens.zipIdx.map fun (t, place) => { t with line := (place : ℤ) }

theorem line_of_numbered {tokens : List Token} {place : Nat} {t : Token}
    (h : (numbered tokens)[place]? = some t) : t.line = place := by
  rw [numbered, List.getElem?_map, List.getElem?_zipIdx, Option.map_map,
    Option.map_eq_some_iff] at h
  obtain ⟨_, _, rfl⟩ := h
  exact congrArg _ (Nat.zero_add place)

theorem lexemes_numbered (tokens : List Token) :
    (numbered tokens).map Token.lexeme = tokens.map Token.lexeme :=
  calc (numbered tokens).map Token.lexeme
    _ = (tokens.zipIdx.map Prod.fst).map Token.lexeme := by
        rw [numbered, List.map_map, List.map_map]
        rfl
    _ = tokens.map Token.lexeme := by rw [List.zipIdx_map_fst]

/-- Tokens that say what a list says as it is read are read as they are. -/
theorem ended_of_lexemes {tokens tokens' : List Token}
    (same : tokens'.map Token.lexeme = (ended tokens).map Token.lexeme) :
    ended tokens' = tokens' := by
  rw [← Cursor.tokens_ofTokens, Cursor.tokens, List.map_append, List.map_singleton,
    Token.lexeme_of_kind (Token.kind_of_isEof (Cursor.last_isEof _))] at same
  obtain ⟨body, last, rfl, _, ends⟩ := exists_body_of_lexemes same
  exact ended_of_isEof ends

theorem forall₂_trans {α β γ : Type} {first : α → β → Prop} {second : β → γ → Prop}
    {both : α → γ → Prop} (step : ∀ a b c, first a b → second b c → both a c) {as : List α}
    {bs : List β} {cs : List γ} (h : List.Forall₂ first as bs) (h' : List.Forall₂ second bs cs) :
    List.Forall₂ both as cs := by
  induction h generalizing cs with
  | nil =>
      cases h'
      exact .nil
  | cons head _ ih =>
      cases h' with
      | cons head' tail' => exact .cons (step _ _ _ head head') (ih tail')

/-- The places that are reported are the same for all tokens that say the same. -/
theorem exists_places_of_lexemes (tokens : List Token) : ∃ places : List Nat,
    places.Pairwise (· ≤ ·) ∧ (∀ place ∈ places, place < (ended tokens).length) ∧
      (∀ place, places.count place ≤ 2) ∧ places.count ((ended tokens).length - 1) ≤ 1 ∧
      ∀ tokens', (ended tokens').map Token.lexeme = (ended tokens).map Token.lexeme →
        List.Forall₂ (fun place d => (ended tokens')[place]? = some d.token) places
          (parse tokens').diagnostics := by
  -- On tokens whose lines are their places, a report shows the place of its token.
  have whole : ended (numbered (ended tokens)) = numbered (ended tokens) :=
    ended_of_lexemes (lexemes_numbered (ended tokens))
  obtain ⟨places, found, rising, within, twice, once⟩ := exists_places (numbered (ended tokens))
  have length : (numbered (ended tokens)).length = (ended tokens).length := by
    rw [numbered, List.length_map, List.length_zipIdx]
  rw [whole] at found within once
  rw [length] at within once
  refine ⟨places, rising, within, twice, once, fun tokens' same => ?_⟩
  have lexemes : (ended (numbered (ended tokens))).map Token.lexeme =
      (ended tokens').map Token.lexeme := by
    rw [whole, lexemes_numbered, same]
  refine forall₂_trans ?_ found (parse_paired _ (Pairing.forall₂_byPlace lexemes)).2
  rintro place d d' here ⟨_, place', left, right⟩
  rw [whole] at left
  have line : (place : ℤ) = place' := (line_of_numbered here).symm.trans (line_of_numbered left)
  rwa [Int.ofNat_inj.mp line]

/-- Of `n` places, none of which occurs three times and the last not twice, there are fewer than
`2 * n`. -/
theorem length_lt_of_count {places : List Nat} {n : Nat} (pos : 0 < n)
    (within : ∀ place ∈ places, place < n) (twice : ∀ place, places.count place ≤ 2)
    (once : places.count (n - 1) ≤ 1) : places.length < 2 * n := by
  obtain ⟨m, rfl⟩ := Nat.exists_eq_add_one.mpr pos
  have inside : ∀ place ∈ (places : Multiset Nat), place ∈ Finset.range (m + 1) :=
    fun place member => Finset.mem_range.mpr (within place member)
  have total := Multiset.sum_count_eq_card inside
  have front : ∑ place ∈ Finset.range m, places.count place ≤ m * 2 :=
    calc ∑ place ∈ Finset.range m, places.count place
      _ ≤ ∑ _ ∈ Finset.range m, 2 := Finset.sum_le_sum fun place _ => twice place
      _ = m * 2 := by rw [Finset.sum_const_nat fun _ _ => rfl, Finset.card_range]
  simp only [Multiset.coe_count, Multiset.coe_card, Finset.sum_range_succ] at total
  rw [Nat.add_sub_cancel] at once
  omega

theorem ended_tokenize (source : String) : ended (tokenize source) = tokenize source := by
  obtain ⟨body, last, same, ends, _⟩ := endsOnce_tokenize source
  rw [same, ended_of_isEof ends]

/-- What is found at rising places of a text stands one behind the other, or at one place. -/
theorem places_of_rising {source : String} {places : List Nat} {ds : List Diagnostic}
    (found : List.Forall₂ (fun place d => (tokenize source)[place]? = some d.token) places ds)
    (rising : places.Pairwise (· ≤ ·)) : (ds.map fun d => d.token.place).Pairwise (· ≤ ·) := by
  obtain ⟨length, each⟩ := List.forall₂_iff_get.mp found
  rw [List.pairwise_map, List.pairwise_iff_getElem]
  intro i j hi hj less
  obtain ⟨_, left⟩ := List.getElem?_eq_some_iff.mp (each i (length ▸ hi) hi)
  obtain ⟨_, right⟩ := List.getElem?_eq_some_iff.mp (each j (length ▸ hj) hj)
  simp only [List.get_eq_getElem] at left right
  rw [← left, ← right]
  rcases Nat.eq_or_lt_of_le (List.pairwise_iff_getElem.mp rising i j _ _ less) with same | onward
  · simp only [same, le_refl]
  · exact (List.pairwise_iff_getElem.mp (places_tokenize source) _ _ _ _ onward).le

theorem report_eq (p : Parsed) : p.report = String.join (p.diagnostics.map fun d =>
    "Parse error: " ++ d.problem.message ++ " at line " ++ d.token.line.repr ++ ", col " ++
      d.token.column.repr ++ "\n") := by
  refine congrArg (fun line => String.join (p.diagnostics.map line)) (funext fun d => ?_)
  simp only [Diagnostic.report, Diagnostic.text, located, String.append_assoc]

/-- Reports come in the order of the tokens and do not pile up. The tokens that are reported, the end
among them where it is missing, are at rising places of the list, which what the tokens say decides;
none of the places occurs three times, and the last one not twice. What is printed is what is wrong,
each with the line and the column of its token. So the reports of a text go on from line to line and
from column to column, and there are fewer than two for each of its tokens. -/
theorem parse_reports :
    (∀ tokens : List Token, (∃ places : List Nat, places.Pairwise (· ≤ ·) ∧
        (∀ place, places.count place ≤ 2) ∧ places.count ((ended tokens).length - 1) ≤ 1 ∧
        ∀ tokens', (ended tokens').map Token.lexeme = (ended tokens).map Token.lexeme →
          List.Forall₂ (fun place d => (ended tokens')[place]? = some d.token) places
            (parse tokens').diagnostics) ∧
      (parse tokens).report = String.join ((parse tokens).diagnostics.map fun d =>
        "Parse error: " ++ d.problem.message ++ " at line " ++ d.token.line.repr ++ ", col " ++
          d.token.column.repr ++ "\n")) ∧
    ∀ source : String,
      ((parse (tokenize source)).diagnostics.map fun d => d.token.place).Pairwise (· ≤ ·) ∧
      (parse (tokenize source)).diagnostics.length < 2 * (tokenize source).length := by
  refine ⟨fun tokens => ⟨?_, report_eq _⟩, fun source => ?_⟩
  · obtain ⟨places, rising, _, twice, once, found⟩ := exists_places_of_lexemes tokens
    exact ⟨places, rising, twice, once, found⟩
  · obtain ⟨places, rising, within, twice, once, found⟩ :=
      exists_places_of_lexemes (tokenize source)
    have here := found (tokenize source) rfl
    rw [ended_tokenize] at here within once
    have nonempty : 0 < (tokenize source).length :=
      List.length_pos_iff.mpr (Scanner.tokens_ne_nil _)
    exact ⟨places_of_rising here rising,
      here.length_eq ▸ length_lt_of_count nonempty within twice once⟩

/-- A statement that stops at a token which starts none either. -/
theorem parse_reports_doubled :
    (ended [⟨.mark .print, 7, 1⟩, ⟨.mark .rparen, 9, 2⟩]).map Token.lexeme =
      (ended [⟨.mark .print, 1, 1⟩, ⟨.mark .rparen, 1, 6⟩, ⟨.mark .eof, 1, 7⟩]).map Token.lexeme ∧
    (∃ places : List Nat, places.Pairwise (· ≤ ·) ∧ (∀ place, places.count place ≤ 2) ∧
      places.count 2 ≤ 1 ∧
      List.Forall₂ (fun place d => (ended [⟨.mark .print, 7, 1⟩, ⟨.mark .rparen, 9, 2⟩])[place]? =
        some d.token) places (parse [⟨.mark .print, 7, 1⟩, ⟨.mark .rparen, 9, 2⟩]).diagnostics) ∧
    (parse [⟨.mark .print, 7, 1⟩, ⟨.mark .rparen, 9, 2⟩]).report =
      "Parse error: Unexpected token in expression: RPAREN at line 9, col 2\n" ++
        "Parse error: Unexpected token in statement: RPAREN at line 9, col 2\n" := by
  obtain ⟨places, rising, twice, once, found⟩ :=
    (parse_reports.1 [⟨.mark .print, 1, 1⟩, ⟨.mark .rparen, 1, 6⟩, ⟨.mark .eof, 1, 7⟩]).1
  exact ⟨rfl, ⟨places, rising, twice, once, found _ rfl⟩, by decide⟩

end SlangScript
