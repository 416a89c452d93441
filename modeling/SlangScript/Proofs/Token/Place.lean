import Mathlib.Data.Prod.Lex
import SlangScript.Proofs.Token.Lines

/-!
Where tokens stand. A step of the scanner leads to a later column, or to a later line; so the tokens
of a text stand one behind the other, and no two of them at one place.
-/

namespace SlangScript

/-- Where the token starts: by its line, and within that by its column. -/
def Token.place (t : Token) : ℤ ×ₗ ℤ := toLex (t.line, t.column)

namespace Scanner

variable {s : Scanner}

/-- Where the scanner stands. -/
def place (s : Scanner) : ℤ ×ₗ ℤ := toLex ((s.line : ℤ), (s.column : ℤ))

theorem place_tokenHere (s : Scanner) (lexeme : Lexeme) : (s.tokenHere lexeme).place = s.place :=
  rfl

theorem place_lt_advance (s : Scanner) : s.place < s.advance.place := by
  rw [place, place, Prod.Lex.toLex_lt_toLex]
  unfold advance
  split
  · exact .inr ⟨rfl, Int.lt_succ _⟩
  · split
    · exact .inl (Int.lt_succ _)
    · exact .inr ⟨rfl, Int.lt_succ _⟩

theorem place_le_advanceBy (s : Scanner) (count : Nat) : s.place ≤ (s.advanceBy count).place := by
  induction count generalizing s with
  | zero => exact le_refl _
  | succ count ih => exact s.place_lt_advance.le.trans (ih s.advance)

theorem place_lt_advanceBy (s : Scanner) {count : Nat} (h : 0 < count) :
    s.place < (s.advanceBy count).place := by
  obtain ⟨count, rfl⟩ := Nat.exists_eq_add_one.mpr h
  exact s.place_lt_advance.trans_le (s.advance.place_le_advanceBy count)

/-- From the scanner on the tokens stand one behind the other. -/
theorem places_tokens (s : Scanner) : (∀ t ∈ s.tokens.1, s.place ≤ t.place) ∧
    s.tokens.1.Pairwise fun t u => t.place < u.place := by
  induction same : s.rest using munch_induction generalizing s with
  | nil =>
      rw [tokens_nil same]
      exact ⟨by simp [endToken, place_tokenHere], List.pairwise_singleton _ _⟩
  | munch c rest ih =>
      obtain ⟨behind, rising⟩ := ih _ (advanceBy_munch_rest same)
      have onward := s.place_lt_advanceBy (munch_pos c rest)
      have later := fun t member => onward.trans_le (behind t member)
      rw [tokens_cons same]
      cases (SlangScript.munch c rest).1 with
      | none => exact ⟨fun t member => (later t member).le, rising⟩
      | some lexeme =>
          refine ⟨List.forall_mem_cons.mpr ⟨le_refl _, fun t member => (later t member).le⟩, ?_⟩
          exact List.pairwise_cons.mpr ⟨later, rising⟩

end Scanner

/-- The tokens of a text stand one behind the other. -/
theorem places_tokenize (source : String) :
    (tokenize source).Pairwise fun t u => t.place < u.place :=
  (Scanner.ofText source.toList).places_tokens.2

end SlangScript
