import SlangScript.Proofs.Token.Cut
import SlangScript.Proofs.Token.Munch

/-!
Texts on lines of their own. Where every text literal of a text is closed, another one behind the
end of its line has the tokens that it has alone, further down: what stands before decides on which
line it starts and nothing else.
-/

namespace SlangScript

/-- The token so many lines further down. -/
def Token.below (lines : Nat) (t : Token) : Token := { t with line := t.line + (lines : Int) }

/-- What ends a line: a line feed, perhaps with a space and a comment before it. -/
inductive LineEnd : String → Prop
  | feed : LineEnd "\n"
  | comment {said : String} : '\n' ∉ said.toList → LineEnd (" //" ++ said ++ "\n")

namespace Scanner

variable {s s' : Scanner} {c : Char} {rest more : List Char}

/-! One munch after the other. -/

theorem advanceBy_munch_rest (h : s.rest = c :: rest) :
    (s.advanceBy (SlangScript.munch c rest).2).rest =
      (c :: rest).drop (SlangScript.munch c rest).2 := by
  rw [advanceBy_rest, h]

/-- Munches beyond the length of the text find no more tokens. -/
theorem tokensWithin_of_le {steps : Nat} (h : s.rest.length ≤ steps) :
    (tokensWithin steps s).1 = s.tokens.1 := by
  have agree : ∀ (n m : Nat) (s : Scanner), s.rest.length ≤ n → s.rest.length ≤ m →
      (tokensWithin n s).1 = (tokensWithin m s).1 := by
    intro n
    induction n with
    | zero =>
        intro m s none _
        have empty : s.rest = [] := List.length_eq_zero_iff.mp (Nat.le_zero.mp none)
        rw [tokensWithin_nil empty, tokensWithin_nil empty]
    | succ n ih =>
        intro m s enough enough'
        cases same : s.rest with
        | nil => rw [tokensWithin_nil same, tokensWithin_nil same]
        | cons c rest =>
            have shorter := length_drop_munch_lt c rest
            rw [← advanceBy_munch_rest same, ← same] at shorter
            obtain ⟨m, rfl⟩ : ∃ k, m = k + 1 := Nat.exists_eq_add_one.mpr (by omega)
            rw [tokensWithin_cons same, tokensWithin_cons same, ih m _ (by omega) (by omega)]
  exact agree steps _ s h (Nat.le_refl _)

theorem tokens_nil (h : s.rest = []) : s.tokens.1 = [s.endToken] := tokensWithin_nil h _

theorem tokens_cons (h : s.rest = c :: rest) : s.tokens.1 =
    ((SlangScript.munch c rest).1.map s.tokenHere).toList ++
      (s.advanceBy (SlangScript.munch c rest).2).tokens.1 := by
  have shorter := length_drop_munch_lt c rest
  rw [← advanceBy_munch_rest h, List.length_cons] at shorter
  rw [tokens, h, List.length_cons, tokensWithin_cons h,
    tokensWithin_of_le (Nat.le_of_lt_succ shorter)]

theorem tokens_skip {count : Nat} (h : s.rest = c :: rest)
    (taken : SlangScript.munch c rest = (none, count)) :
    s.tokens.1 = (s.advanceBy count).tokens.1 := by
  rw [tokens_cons h, taken]
  rfl

theorem tokens_ne_nil (s : Scanner) : s.tokens.1 ≠ [] := by
  induction same : s.rest using munch_induction generalizing s with
  | nil => simp [tokens_nil same]
  | munch c rest ih =>
      rw [tokens_cons same]
      exact List.append_ne_nil_of_right_ne_nil _ (ih _ (advanceBy_munch_rest same))

/-! Places. -/

/-- The scanner `s'` stands before the same text as `s`, so many lines further down. -/
structure Below (lines : Nat) (s s' : Scanner) : Prop where
  rest : s'.rest = s.rest
  line : s'.line = s.line + lines
  column : s'.column = s.column

namespace Below

variable {lines : Nat}

theorem advance (h : Below lines s s') : Below lines s.advance s'.advance := by
  have line := h.line
  constructor
  · rw [advance_rest, advance_rest, h.rest]
  · unfold Scanner.advance
    rw [h.rest]
    split
    · exact line
    · split
      · simp only [line]
        omega
      · exact line
  · unfold Scanner.advance
    rw [h.rest]
    split
    · exact congrArg (· + 1) h.column
    · split
      · rfl
      · exact congrArg (· + 1) h.column

theorem advanceBy (h : Below lines s s') (count : Nat) :
    Below lines (s.advanceBy count) (s'.advanceBy count) := by
  induction count generalizing s s' with
  | zero => exact h
  | succ count ih => exact ih h.advance

theorem tokenHere (h : Below lines s s') (lexeme : Lexeme) :
    s'.tokenHere lexeme = (s.tokenHere lexeme).below lines := by
  simp only [Scanner.tokenHere, Token.below, h.line, h.column, Int.natCast_add]

/-- Further down there are the same tokens, further down. -/
theorem tokens (h : Below lines s s') : s'.tokens.1 = s.tokens.1.map (Token.below lines) := by
  induction same : s.rest using munch_induction generalizing s s' with
  | nil =>
      rw [tokens_nil same, tokens_nil (h.rest.trans same)]
      exact congrArg (fun t => [t]) (h.tokenHere _)
  | munch c rest ih =>
      have behind := ih (h.advanceBy _) (advanceBy_munch_rest same)
      rw [tokens_cons same, tokens_cons (h.rest.trans same), behind, List.map_append]
      cases (SlangScript.munch c rest).1 with
      | none => rfl
      | some lexeme => simp [h.tokenHere]

end Below

/-- The line on which the text ends. -/
def lastLine (s : Scanner) : Nat := s.line + s.rest.count '\n'

theorem lastLine_advance (s : Scanner) : s.advance.lastLine = s.lastLine := by
  unfold advance lastLine
  split
  · next same => simp only [same]
  · next c rest same =>
      rw [same]
      split
      · next feed =>
          simp only [feed, List.count_cons_self]
          omega
      · next other => simp only [List.count_cons_of_ne other]

theorem lastLine_advanceBy (s : Scanner) (count : Nat) :
    (s.advanceBy count).lastLine = s.lastLine := by
  induction count generalizing s with
  | zero => rfl
  | succ count ih => rw [advanceBy, ih, lastLine_advance]

/-- A line feed that comes next is passed, and what is behind it starts on the next line. -/
theorem tokens_feed (h : s.rest = '\n' :: more) :
    s.tokens.1 = (ofText more).tokens.1.map (Token.below s.line) := by
  rw [tokens_skip h (munch_of_parts (.inr rfl) more)]
  apply Below.tokens
  have next : s.advanceBy 1 = ⟨more, s.pos + 1, s.line + 1, 1⟩ := by
    simp [advanceBy, advance, h]
  rw [next]
  constructor
  · rfl
  · exact Nat.add_comm s.line 1
  · rfl

/-- So it is after a part of the line is passed. -/
theorem tokens_advanceBy_feed {front : List Char} (h : s.rest = front ++ '\n' :: more)
    (inside : '\n' ∉ front) :
    (s.advanceBy front.length).tokens.1 = (ofText more).tokens.1.map (Token.below s.line) := by
  have left : (s.advanceBy front.length).rest = '\n' :: more := by
    rw [advanceBy_rest, h, List.drop_left]
  have line := lastLine_advanceBy s front.length
  simp only [lastLine, left, h, List.count_append, List.count_eq_zero.mpr inside] at line
  rw [tokens_feed left]
  congr 2
  omega

/-- A comment goes on to the next line feed or the end of the text. -/
theorem munch_comment {said behind : List Char} (inside : '\n' ∉ said)
    (ends : ∀ c ∈ behind.head?, c = '\n') :
    SlangScript.munch '/' ('/' :: (said ++ behind)) = (none, ('/' :: '/' :: said).length) := by
  have line : lineAt (('/' :: '/' :: said) ++ behind) = '/' :: '/' :: said :=
    lineAt_of_not_mem (by simpa using inside) ends
  have plain : (isLayout '/' || '/' == '\n') = false := by decide
  rw [List.cons_append, List.cons_append] at line
  simp only [SlangScript.munch, plain, line, List.head?_cons, beq_self_eq_true, Bool.and_self,
    Bool.false_eq_true, if_false, if_true]

theorem tokens_comment {said : List Char} (h : s.rest = '/' :: '/' :: (said ++ '\n' :: more))
    (inside : '\n' ∉ said) : s.tokens.1 = (ofText more).tokens.1.map (Token.below s.line) := by
  rw [tokens_skip h (munch_comment inside fun c member => (Option.some.inj member).symm)]
  exact tokens_advanceBy_feed h (by simpa using inside)

theorem tokens_lineEnd {ending : String} (ends : LineEnd ending)
    (h : s.rest = ending.toList ++ more) :
    s.tokens.1 = (ofText more).tokens.1.map (Token.below s.line) := by
  cases ends with
  | feed => exact tokens_feed (by simpa using h)
  | @comment said inside =>
      have written : s.rest = ' ' :: '/' :: '/' :: (said.toList ++ '\n' :: more) := by simpa using h
      have next : s.advanceBy 1 =
          ⟨'/' :: '/' :: (said.toList ++ '\n' :: more), s.pos + 1, s.line, s.column + 1⟩ := by
        simp [advanceBy, advance, written]
      rw [tokens_skip written (munch_of_parts (.inl rfl) _), next]
      exact tokens_comment rfl inside

/-! What comes behind a text. -/

/-- The scanner with more text behind what it stands before. -/
def onto (s : Scanner) (more : List Char) : Scanner := { s with rest := s.rest ++ more }

theorem onto_advanceBy {count : Nat} (h : count ≤ s.rest.length) (more : List Char) :
    (s.onto more).advanceBy count = (s.advanceBy count).onto more := by
  induction count generalizing s with
  | zero => rfl
  | succ count ih =>
      have next : (s.onto more).advance = s.advance.onto more := by
        cases same : s.rest with
        | nil => simp [same] at h
        | cons c rest =>
            simp only [advance, onto, same, List.cons_append]
            split <;> rfl
      have enough : count ≤ s.advance.rest.length := by
        rw [advance_rest, List.length_tail]
        omega
      rw [advanceBy, advanceBy, next, ih enough]

/-- A line ends in a line feed, with none before it. -/
theorem exists_gap_of_lineEnd {ending : String} (ends : LineEnd ending) :
    ∃ gap, ending.toList = gap ++ ['\n'] ∧ '\n' ∉ gap := by
  cases ends with
  | feed => exact ⟨[], rfl, by simp⟩
  | @comment said inside => exact ⟨' ' :: '/' :: '/' :: said.toList, by simp, by simpa using inside⟩

theorem exists_parts_of_lineEnd {ending : String} (ends : LineEnd ending) :
    ∃ stop after, Parts stop ∧ ending.toList = stop :: after := by
  cases ends with
  | feed => exact ⟨'\n', [], .inr rfl, rfl⟩
  | @comment said inside =>
      exact ⟨' ', '/' :: '/' :: (said.toList ++ ['\n']), .inl rfl, by simp⟩

/-- A line that holds a line feed is not longer for what comes behind. -/
theorem lineAt_append {text : List Char} (h : '\n' ∈ text) (more : List Char) :
    lineAt (text ++ more) = lineAt text := by
  obtain ⟨front, back, rfl⟩ := List.append_of_mem h
  rw [List.append_assoc, List.cons_append, lineAt, lineAt, takeWhile_append_stop (by decide),
    takeWhile_append_stop (by decide)]

/-- What stands at the front is cut off in the same way before the end of a line, unless it is a
comment to the end of the text. -/
theorem munch_append_lineEnd {ending : String} (quote : c = '\x22' → '\x22' ∈ rest)
    (ends : LineEnd ending) (stops : c = '/' → rest.head? = some '/' → '\n' ∈ rest)
    (more : List Char) :
    SlangScript.munch c (rest ++ (ending.toList ++ more)) = SlangScript.munch c rest := by
  have line : c = '/' → rest.head? = some '/' →
      lineAt (c :: (rest ++ (ending.toList ++ more))) = lineAt (c :: rest) := by
    intro slash slash'
    exact lineAt_append (List.mem_cons_of_mem c (stops slash slash')) _
  obtain ⟨stop, after, parts, written⟩ := exists_parts_of_lineEnd ends
  rw [written] at line ⊢
  exact munch_append quote parts line

/-- A comment to the end of the text goes on to the end of the line. -/
theorem tokens_onto_comment {ending : String} (h : s.rest = '/' :: '/' :: rest)
    (inside : '\n' ∉ rest) (ends : LineEnd ending) (more : List Char) :
    (s.onto (ending.toList ++ more)).tokens.1 =
      s.tokens.1.dropLast ++ (ofText more).tokens.1.map (Token.below s.lastLine) := by
  obtain ⟨gap, written, inside'⟩ := exists_gap_of_lineEnd ends
  have line : s.lastLine = s.line := by simp [lastLine, h, List.count_eq_zero, inside]
  have taken : SlangScript.munch '/' ('/' :: rest) = (none, ('/' :: '/' :: rest).length) := by
    have alone := @munch_comment rest [] inside nofun
    rwa [List.append_nil] at alone
  have left : (s.advanceBy ('/' :: '/' :: rest).length).rest = [] := by
    rw [advanceBy_rest, h, List.drop_length]
  have whole : (s.onto (ending.toList ++ more)).rest =
      '/' :: '/' :: ((rest ++ gap) ++ '\n' :: more) := by simp [onto, h, written]
  rw [tokens_skip h taken, tokens_nil left, line]
  exact tokens_comment whole (by simp [inside, inside'])

/-- A text in which every text literal is closed has the same tokens before the end of a line, and
what is behind has its own, further down. -/
theorem tokens_onto {text : List Char} (closed : Closed text) (same : s.rest = text)
    {ending : String} (ends : LineEnd ending) (more : List Char) :
    (s.onto (ending.toList ++ more)).tokens.1 =
      s.tokens.1.dropLast ++ (ofText more).tokens.1.map (Token.below s.lastLine) := by
  induction closed generalizing s with
  | nil =>
      have line : s.lastLine = s.line := by simp [lastLine, same]
      rw [tokens_nil same, line]
      exact tokens_lineEnd ends (by simp [onto, same])
  | @munch c rest quote closed ih =>
      by_cases swallows : c = '/' ∧ rest.head? = some '/' ∧ '\n' ∉ rest
      · obtain ⟨rfl, slash, inside⟩ := swallows
        obtain ⟨rest, rfl⟩ := List.head?_eq_some_iff.mp slash
        exact tokens_onto_comment same (by simpa using inside) ends more
      · have stops : c = '/' → rest.head? = some '/' → '\n' ∈ rest := by
          intro slash slash'
          apply Classical.byContradiction
          exact fun inside => swallows ⟨slash, slash', inside⟩
        have whole : (s.onto (ending.toList ++ more)).rest =
            c :: (rest ++ (ending.toList ++ more)) := by simp [onto, same]
        have enough := munch_le c rest
        rw [← same] at enough
        -- The same is cut off from both, and the rest is left in both.
        rw [tokens_cons whole, tokens_cons same, munch_append_lineEnd quote ends stops,
          onto_advanceBy enough, ih (advanceBy_munch_rest same), lastLine_advanceBy,
          List.dropLast_append_of_ne_nil (tokens_ne_nil _), List.append_assoc]
        rfl

end Scanner

/-- A text in which every text literal is closed, with another one behind the end of its line, has
its own tokens but the end, and then those of the other one, as many lines further down as it has
line feeds and one more. -/
theorem tokenize_append {source source' ending : String} (closed : Closed source.toList)
    (ends : LineEnd ending) : tokenize (source ++ ending ++ source') =
      (tokenize source).dropLast ++
        (tokenize source').map (Token.below (1 + source.toList.count '\n')) := by
  have whole : Scanner.ofText (source ++ ending ++ source').toList =
      (Scanner.ofText source.toList).onto (ending.toList ++ source'.toList) := by
    simp [Scanner.ofText, Scanner.onto]
  rw [tokenize, whole]
  exact Scanner.tokens_onto closed rfl ends source'.toList

/-- A text that ends in a comment, with a quote behind it. -/
theorem tokenize_append_commented : Closed "3mol x\n// y".toList ∧
    LineEnd (" //" ++ " \x22z" ++ "\n") ∧
    tokenize ("3mol x\n// y" ++ (" //" ++ " \x22z" ++ "\n") ++ "deal") =
      [⟨.mark .print, 1, 1⟩, ⟨.ident "x", 1, 6⟩, ⟨.mark .endWord, 3, 1⟩, ⟨.mark .eof, 3, 5⟩] := by
  have closed : Closed "3mol x\n// y".toList := closed_of_not_mem (by decide)
  have ends : LineEnd (" //" ++ " \x22z" ++ "\n") := .comment (by decide)
  refine ⟨closed, ends, (tokenize_append closed ends).trans ?_⟩
  decide

end SlangScript
