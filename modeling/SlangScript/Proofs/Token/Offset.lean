import SlangScript.Proofs.Token.Place
import SlangScript.Proofs.Token.Span

/-!
Where a scanner stands is decided by its offset alone. Whatever it is asked for, in any order and
past the end of the text too, it only takes steps; so its line and its column are those of the place
in the text that it has come to. A token has the line and the column of its first character.
-/

namespace SlangScript

/-! ## Places of a text -/

/-- The place right behind the last line feed in front of the offset, or the start of the text. -/
structure StartsLine (text : List Char) (pos start : Nat) : Prop where
  le : start ≤ pos
  behind : start = 0 ∨ ∃ place, start = place + 1 ∧ text[place]? = some '\n'
  last : ∀ place, start ≤ place → place < pos → text[place]? ≠ some '\n'

def lineStart (text : List Char) : (pos : Nat) → Nat
  | 0 => 0
  | pos + 1 => if text[pos]? = some '\n' then pos + 1 else lineStart text pos

theorem startsLine_lineStart (text : List Char) (pos : Nat) :
    StartsLine text pos (lineStart text pos) := by
  induction pos with
  | zero => exact ⟨Nat.le_refl 0, .inl rfl, fun place _ less => absurd less (Nat.not_lt_zero place)⟩
  | succ pos ih =>
      rw [lineStart]
      split
      · next feed =>
          refine ⟨Nat.le_refl _, .inr ⟨pos, rfl, feed⟩, fun place least less => ?_⟩
          exact absurd less (Nat.not_lt_of_le least)
      · next other =>
          refine ⟨Nat.le_succ_of_le ih.le, ih.behind, fun place least less => ?_⟩
          rcases Nat.lt_succ_iff_lt_or_eq.mp less with before | rfl
          · exact ih.last place least before
          · exact other

/-- From one place of the text to another there is only what is skipped. -/
inductive SkippedTo (text : List Char) : (start stop : Nat) → Prop
  | here {place} : SkippedTo text place place
  | onward {start count stop} : Skips (text.drop start) count →
      SkippedTo text (start + count) stop → SkippedTo text start stop

namespace Scanner

/-- The scanner that has come to the offset, or past the end of the text. -/
def standAt (text : List Char) (pos : Nat) : Scanner where
  rest := text.drop pos
  pos := pos
  line := 1 + (text.take pos).count '\n'
  column := 1 + (pos - lineStart text pos)

/-! ## Steps -/

theorem standAt_zero (text : List Char) : standAt text 0 = ofText text := rfl

theorem advance_standAt (text : List Char) (pos : Nat) :
    (standAt text pos).advance = standAt text (pos + 1) := by
  have start := (startsLine_lineStart text pos).le
  cases left : text[pos]? with
  | none =>
      have past : text.length ≤ pos := List.getElem?_eq_none_iff.mp left
      have empty : (standAt text pos).rest = [] := List.drop_of_length_le past
      have next : text.drop (pos + 1) = [] := List.drop_of_length_le (Nat.le_succ_of_le past)
      have whole : text.take (pos + 1) = text.take pos := by
        rw [List.take_of_length_le past, List.take_of_length_le (Nat.le_succ_of_le past)]
      unfold advance
      rw [empty]
      simp only [standAt, lineStart, left, next, whole, reduceCtorEq, if_false, mk.injEq, true_and]
      omega
  | some c =>
      obtain ⟨inside, same⟩ := List.getElem?_eq_some_iff.mp left
      have cut : (standAt text pos).rest = c :: text.drop (pos + 1) := by
        rw [← same]
        exact List.drop_eq_getElem_cons inside
      have taken : text.take (pos + 1) = text.take pos ++ [c] := by
        rw [← same]
        exact List.take_succ_eq_append_getElem inside
      unfold advance
      rw [cut]
      simp only [standAt, lineStart, left, taken, List.count_append, Option.some.injEq]
      split
      · next feed =>
          subst feed
          simp [Nat.add_assoc]
      · next other =>
          simp only [List.count_singleton, beq_eq_false_iff_ne.mpr other, mk.injEq, true_and]
          refine ⟨rfl, ?_⟩
          omega

theorem advanceBy_standAt (text : List Char) (pos count : Nat) :
    (standAt text pos).advanceBy count = standAt text (pos + count) := by
  induction count generalizing pos with
  | zero => rfl
  | succ count ih => rw [advanceBy, advance_standAt, ih, Nat.add_right_comm, Nat.add_assoc]

/-! ## The next token -/

section

variable {s : Scanner} {c : Char} {rest : List Char} {lexeme : Lexeme} {count : Nat}

theorem next_nil (h : s.rest = []) : s.next = (s.endToken, s) := by
  rw [next, h]
  rfl

theorem next_take (h : s.rest = c :: rest)
    (taken : SlangScript.munch c rest = (some lexeme, count)) :
    s.next = (s.tokenHere lexeme, s.advanceBy count) := by
  rw [next, h, List.length_cons, nextWithin]
  simp only [h, munch, taken, Option.map_some]

theorem next_skip (h : s.rest = c :: rest) (taken : SlangScript.munch c rest = (none, count)) :
    s.next = (s.advanceBy count).next := by
  have shorter := munch_rest_length_lt h
  simp only [munch, taken, Option.map_none, h, List.length_cons] at shorter
  rw [next, h, List.length_cons, nextWithin]
  simp only [h, munch, taken, Option.map_none]
  exact nextWithin_of_le (Nat.le_of_lt_succ shorter)

end

/-- What the next token is from the offset on, and where the scanner comes to with it: a token
stands where the span that denotes it starts, and only where the text is exhausted is it the end. -/
inductive Finds (text : List Char) (pos : Nat) : Token × Scanner → Prop
  | token {span : Span} {lexeme} : SkippedTo text pos span.start → span.Fits text lexeme →
      lexeme ≠ .mark .eof →
      Finds text pos ((standAt text span.start).tokenHere lexeme, standAt text span.stop)
  | exhausted {stop} : SkippedTo text pos stop → stop = max pos text.length →
      Finds text pos ((standAt text stop).endToken, standAt text stop)

theorem Finds.onward {text : List Char} {pos count : Nat} {found : Token × Scanner}
    (skips : Skips (text.drop pos) count) (within : pos + count ≤ text.length)
    (h : Finds text (pos + count) found) : Finds text pos found := by
  cases h with
  | token skipped fits inside => exact .token (.onward skips skipped) fits inside
  | exhausted skipped stop => exact .exhausted (.onward skips skipped) (by omega)

theorem finds_next (text : List Char) (pos : Nat) : Finds text pos (standAt text pos).next := by
  induction left : text.drop pos using munch_induction generalizing pos with
  | nil =>
      have past : text.length ≤ pos := List.drop_eq_nil_iff.mp left
      rw [next_nil left]
      exact .exhausted .here (Nat.max_eq_left past).symm
  | munch c rest ih =>
      have onward := ih (pos + (SlangScript.munch c rest).2) (by rw [← left, List.drop_drop])
      have found := munched c rest
      have positive := munch_pos c rest
      have within := munch_le c rest
      rw [← left, List.length_drop] at within
      have inside := munch_ne_eof c rest
      rcases taken : SlangScript.munch c rest with ⟨lexeme?, count⟩
      simp only [taken] at onward found positive within inside
      cases found with
      | skipped skips =>
          rw [next_skip left taken, advanceBy_standAt]
          exact onward.onward (left ▸ skips) (by omega)
      | token whole long denotes =>
          subst long
          rw [next_take left taken, advanceBy_standAt]
          have nonempty := List.ne_nil_of_length_pos positive
          have fits := fits_of_drop (left.trans whole) nonempty denotes
          exact .token .here fits fun same => inside (congrArg some same)

/-! ## Requests -/

/-- What a scanner can be asked for: a move, a look ahead, a part of a token, or tokens. -/
inductive Request where
  | advance
  | peek
  | skipLayout
  | skipLine
  | readWord
  | readNumber
  | readText
  | readSign (second : Char) (double : Mark) (single : Option Mark)
  | next
  | tokens
  | wordAt (place : Nat)

/-- The scanner after a request. To look ahead, or at the word at some place, moves it nowhere. -/
def asked (s : Scanner) : Request → Scanner
  | .advance => s.advance
  | .peek | .wordAt _ => s
  | .skipLayout => s.skipLayout
  | .skipLine => s.skipLine
  | .readWord => s.readWord.2
  | .readNumber => s.readNumber.2
  | .readText => s.readText.2
  | .readSign second double single => (s.readSign second double single).2
  | .next => s.next.2
  | .tokens => s.tokens.2

/-- The scanner of a text after requests in turn. -/
def after (text : List Char) (requests : List Request) : Scanner :=
  requests.foldl asked (ofText text)

theorem exists_tokensWithin (text : List Char) (steps pos : Nat) :
    ∃ stop, (tokensWithin steps (standAt text pos)).2 = standAt text stop := by
  induction steps generalizing pos with
  | zero => exact ⟨pos, rfl⟩
  | succ steps ih =>
      rw [tokensWithin]
      split
      · exact ⟨pos, rfl⟩
      · next c rest _ =>
          rcases taken : SlangScript.munch c rest with ⟨_ | lexeme, count⟩ <;>
            simp only [munch, taken, Option.map_none, Option.map_some, advanceBy_standAt] <;>
            exact ih (pos + count)

/-- A request leaves the scanner at some offset of its text. -/
theorem exists_asked (text : List Char) (pos : Nat) (request : Request) :
    ∃ stop, (standAt text pos).asked request = standAt text stop := by
  cases request with
  | advance => exact ⟨_, advance_standAt text pos⟩
  | peek | wordAt place => exact ⟨pos, rfl⟩
  | skipLayout | skipLine | readWord | readNumber | readText =>
      exact ⟨_, advanceBy_standAt text pos _⟩
  | readSign second double single =>
      simp only [asked, readSign]
      split
      · exact ⟨_, advanceBy_standAt text pos 2⟩
      · exact ⟨_, advance_standAt text pos⟩
  | next =>
      have found := finds_next text pos
      simp only [asked]
      generalize (standAt text pos).next = next at found ⊢
      cases found with
      | token => exact ⟨_, rfl⟩
      | exhausted => exact ⟨_, rfl⟩
  | tokens => exact exists_tokensWithin text _ pos

theorem exists_after (text : List Char) (requests : List Request) :
    ∃ pos, after text requests = standAt text pos := by
  rw [after, ← standAt_zero]
  generalize 0 = pos
  induction requests generalizing pos with
  | nil => exact ⟨pos, rfl⟩
  | cons request requests ih =>
      obtain ⟨stop, same⟩ := exists_asked text pos request
      rw [List.foldl_cons, same]
      exact ih stop

/-- What is known of a scanner by its offset in the text. -/
structure Stands (text : List Char) (s : Scanner) : Prop where
  current : s.current? = text[s.pos]?
  line : s.line = 1 + (text.take s.pos).count '\n'
  column : ∃ start, StartsLine text s.pos start ∧ s.column = 1 + (s.pos - start)
  determined : s = standAt text s.pos
  next : Finds text s.pos s.next
  tokens : s.tokens.1 = s.next.1 :: if s.next.1.isEof then [] else s.next.2.tokens.1
  rising : s.tokens.1.Pairwise fun t u => t.place < u.place

theorem tokens_next (s : Scanner) :
    s.tokens.1 = s.next.1 :: if s.next.1.isEof then [] else s.next.2.tokens.1 := by
  induction same : s.rest using munch_induction generalizing s with
  | nil =>
      rw [tokens_nil same, next_nil same]
      rfl
  | munch c rest ih =>
      have onward := ih _ (advanceBy_munch_rest same)
      have inside := munch_ne_eof c rest
      rw [tokens_cons same]
      rcases taken : SlangScript.munch c rest with ⟨lexeme?, count⟩
      simp only [taken] at onward inside
      cases lexeme? with
      | none => rw [next_skip same taken, ← onward]; rfl
      | some lexeme =>
          have other : (s.tokenHere lexeme).isEof = false :=
            Grammar.not_isEof_of_lexeme fun same => inside (congrArg some same)
          rw [next_take same taken, if_neg (by simp [other])]
          rfl

/-- Whatever a scanner is asked for, where it stands afterwards, and on which line and in which
column, is a function of its offset. The next token has the line and the column of its first
character, and the end of the text those of the place where the text is exhausted; so tokens stand
one behind the other. -/
theorem stands_after (text : List Char) (requests : List Request) :
    Stands text (after text requests) := by
  obtain ⟨pos, same⟩ := exists_after text requests
  rw [same]
  constructor
  · exact List.head?_drop
  · rfl
  · exact ⟨lineStart text pos, startsLine_lineStart text pos, rfl⟩
  · rfl
  · exact finds_next text pos
  · exact tokens_next _
  · exact (places_tokens _).2

end Scanner

end SlangScript
