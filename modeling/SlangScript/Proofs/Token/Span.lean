import Mathlib.Data.List.Forall2
import SlangScript.Proofs.Grammar.Printed
import SlangScript.Proofs.Token.Spelling

/-!
Where the tokens of a source text stand. Each is denoted by a span of the text, and by that span
alone; the spans come one after the other, and between them only blanks, comments, halves of signs
and characters without a use are skipped.
-/

namespace SlangScript

open Text

/-- The signs that a text can have. -/
def signs : List Mark :=
  [.eqEq, .notEq, .lte, .gte, .lt, .gt, .not, .and, .or, .plus, .minus, .star, .slash, .percent,
    .lparen, .rparen]

/-- With `behind` following, the characters of a slice denote the lexeme. A run goes on as far as it
can, a text literal ends at the next quote or else with the text, and no longer sign stands where a
sign does, nor a comment. -/
inductive Denotes : (slice behind : List Char) → Lexeme → Prop
  | word {slice behind} : IsWord slice → RunEnds isWordChar behind →
      Denotes slice behind (.ofWord slice)
  | print {behind} : RunEnds isWordChar behind → Denotes printWord.toList behind (.mark .print)
  | numeral {slice behind} : IsRun slice → RunEnds isNumeralChar behind →
      wordAt (slice ++ behind) ≠ printWord.toList → Denotes slice behind (.ofNumeral slice)
  | closed {body behind} : '\x22' ∉ body →
      Denotes ('\x22' :: (body ++ ['\x22'])) behind (.text (String.ofList (unescaped body)))
  | unclosed {body} : '\x22' ∉ body →
      Denotes ('\x22' :: body) [] (.text (String.ofList (unescaped body)))
  | sign {mark behind} : mark ∈ signs →
      (∀ other ∈ signs, other.spelling.toList <+: mark.spelling.toList ++ behind →
        other.spelling.toList.length ≤ mark.spelling.toList.length) →
      ¬ ['/', '/'] <+: mark.spelling.toList ++ behind →
      Denotes mark.spelling.toList behind (.mark mark)

/-- A character that no word, numeral, text literal or sign starts with. -/
structure Useless (c : Char) : Prop where
  word : startsWord c = false
  numeral : isDigit c = false
  quote : c ≠ '\x22'
  sign : ∀ mark ∈ signs, mark.spelling.toList.head? ≠ some c

/-- So many characters at the front of a text are no part of a token: a blank, a comment up to the
end of its line, half of a sign that is none on its own, or a character without a use. -/
inductive Skips : List Char → Nat → Prop
  | blank {c rest} : c ∈ [' ', '\t', '\r', '\n'] → Skips (c :: rest) 1
  | comment {said behind} : '\n' ∉ said → (∀ c ∈ behind.head?, c = '\n') →
      Skips ('/' :: '/' :: (said ++ behind)) (said.length + 2)
  | half {c rest} : c ∈ ['=', '&', '|'] → rest.head? ≠ some c → Skips (c :: rest) 1
  | useless {c rest} : Useless c → Skips (c :: rest) 1

/-- What a munch finds: a lexeme that the front of the text denotes, or something to skip. -/
inductive Munched : List Char → Option Lexeme × Nat → Prop
  | token {text slice behind lexeme count} : text = slice ++ behind → slice.length = count →
      Denotes slice behind lexeme → Munched text (some lexeme, count)
  | skipped {text count} : Skips text count → Munched text (none, count)

/-! Runs. -/

theorem exists_run (p : Char → Bool) (text : List Char) :
    ∃ run behind, text = run ++ behind ∧ run.all p = true ∧ RunEnds p behind := by
  refine ⟨text.takeWhile p, text.dropWhile p, List.takeWhile_append_dropWhile.symm,
    List.all_takeWhile, ?_⟩
  intro c next
  have ends := List.head?_dropWhile_not p text
  rw [Option.mem_def.mp next] at ends
  exact ends

/-- Up to a character, a text holds it nowhere. -/
theorem exists_up_to (stop : Char) (text : List Char) :
    ∃ front behind, text = front ++ behind ∧ stop ∉ front ∧ ∀ c ∈ behind.head?, c = stop := by
  obtain ⟨front, behind, whole, inside, ends⟩ := exists_run (· != stop) text
  refine ⟨front, behind, whole, fun member => ?_, fun c next => by simpa using ends c next⟩
  have other := List.all_eq_true.mp inside stop member
  simp at other

theorem isWordChar_of_startsWord {c : Char} (h : startsWord c = true) : isWordChar c = true := by
  rw [startsWord, Bool.or_eq_true] at h
  rcases h with letter | line
  · simp [isWordChar, letter]
  · simp [isWordChar, line]

theorem munched_word {c : Char} (starts : startsWord c = true) (rest : List Char) :
    Munched (c :: rest)
      (some (.ofWord (wordAt (c :: rest))), (wordAt (c :: rest)).length) := by
  obtain ⟨run, behind, rfl, inside, ends⟩ := exists_run isWordChar rest
  have inside : (c :: run).all isWordChar = true := by
    simpa [isWordChar_of_startsWord starts] using inside
  have taken : wordAt (c :: (run ++ behind)) = c :: run := takeWhile_of_runEnds inside ends
  rw [taken]
  exact .token rfl rfl (.word ⟨by simpa using starts, inside⟩ ends)

/-- A digit starts the one keyword that does, or else a numeral. -/
theorem munched_digit {c : Char} (starts : isDigit c = true) (rest : List Char) :
    Munched (c :: rest)
      (if wordAt (c :: rest) = printWord.toList then
        (some (.ofWord (wordAt (c :: rest))), (wordAt (c :: rest)).length)
      else (some (.ofNumeral (numeralAt (c :: rest))), (numeralAt (c :: rest)).length)) := by
  split
  · next keyword =>
      obtain ⟨run, behind, whole, inside, ends⟩ := exists_run isWordChar (c :: rest)
      have taken : wordAt (c :: rest) = run := by
        rw [whole]
        exact takeWhile_of_runEnds inside ends
      rw [keyword, ofWord_printWord]
      rw [← taken, keyword] at whole
      exact .token whole rfl (.print ends)
  · next other =>
      obtain ⟨run, behind, rfl, inside, ends⟩ := exists_run isNumeralChar rest
      have inside : (c :: run).all isNumeralChar = true := by
        simpa [isNumeralChar, starts] using inside
      have taken : numeralAt (c :: (run ++ behind)) = c :: run := takeWhile_of_runEnds inside ends
      rw [taken]
      exact .token rfl rfl (.numeral ⟨by simpa using starts, inside⟩ ends other)

theorem munched_comment (rest : List Char) :
    Munched ('/' :: '/' :: rest) (none, (lineAt ('/' :: '/' :: rest)).length) := by
  obtain ⟨said, behind, rfl, inside, ends⟩ := exists_up_to '\n' rest
  have line : lineAt (('/' :: '/' :: said) ++ behind) = '/' :: '/' :: said :=
    lineAt_of_not_mem (by simpa using inside) ends
  rw [List.cons_append, List.cons_append] at line
  rw [line]
  exact .skipped (.comment inside ends)

/-! Text literals. -/

theorem munched_literal (rest : List Char) : Munched ('\x22' :: rest)
    (some (.text (String.ofList (textBody rest).1)), (textBody rest).2 + 1) := by
  obtain ⟨body, behind, rfl, inside, ends⟩ := exists_up_to '\x22' rest
  rw [textBody_of_not_mem inside ends]
  cases behind with
  | nil => exact .token (by simp) (by simp) (.unclosed inside)
  | cons c behind =>
      obtain rfl := ends c rfl
      exact .token (by simp) (by simp) (@Denotes.closed body behind inside)

/-! Signs. -/

theorem sign_of_double {c second : Char} {double : Mark} {single : Option Mark}
    (h : doubleSign? c = some (second, double, single)) :
    double ∈ signs ∧ double.spelling.toList = [c, second] ∧
      ∀ mark ∈ single, mark ∈ signs ∧ mark.spelling.toList = [c] := by
  unfold doubleSign? at h
  split at h <;> cases h <;> decide

/-- A sign of two whose first character is no sign has it twice. -/
theorem half_of_double {c second : Char} {double : Mark}
    (h : doubleSign? c = some (second, double, none)) : c ∈ ['=', '&', '|'] ∧ second = c := by
  unfold doubleSign? at h
  split at h <;> cases h <;> decide

theorem sign_of_single {c : Char} {mark : Mark} (h : singleSign? c = some mark) :
    mark ∈ signs ∧ mark.spelling.toList = [c] := by
  unfold singleSign? at h
  split at h <;> cases h <;> decide

/-- A sign has one character or two, and is found by them. -/
theorem spelling_of_sign {mark : Mark} (h : mark ∈ signs) :
    (∃ c, mark.spelling.toList = [c] ∧ ((doubleSign? c).isSome ∨ (singleSign? c).isSome)) ∨
      ∃ c second single, mark.spelling.toList = [c, second] ∧
        doubleSign? c = some (second, mark, single) := by
  cases mark with
  | eqEq | notEq | lte | gte | and | or => exact .inr ⟨_, _, _, rfl, rfl⟩
  | not | lt | gt | plus | minus | star | slash | percent | lparen | rparen =>
      exact .inl ⟨_, rfl, by decide⟩
  | _ => simp [signs] at h

/-- A sign at the front of a text has one character, or two that are found as a sign of two. -/
theorem length_of_sign_prefix {mark : Mark} {c : Char} {rest : List Char} (h : mark ∈ signs)
    (front : mark.spelling.toList <+: c :: rest) :
    mark.spelling.toList.length = 1 ∨ mark.spelling.toList.length = 2 ∧ ∃ second single,
      rest.head? = some second ∧ doubleSign? c = some (second, mark, single) := by
  rcases spelling_of_sign h with ⟨d, written, _⟩ | ⟨d, second, single, written, found⟩
  · exact .inl (by rw [written]; rfl)
  · right
    rw [written] at front ⊢
    obtain ⟨rfl, behind⟩ := List.cons_prefix_cons.mp front
    obtain ⟨more, rfl⟩ := behind
    exact ⟨rfl, second, single, rfl, found⟩

theorem munched_of_sign {mark : Mark} {slice behind : List Char} (isSign : mark ∈ signs)
    (written : mark.spelling.toList = slice)
    (longest : ∀ other ∈ signs, other.spelling.toList <+: slice ++ behind →
      other.spelling.toList.length ≤ slice.length)
    (comment : ¬['/', '/'] <+: slice ++ behind) :
    Munched (slice ++ behind) (some (.mark mark), slice.length) := by
  subst written
  exact .token rfl rfl (.sign isSign longest comment)

/-- A sign of one character, if no sign of two stands there. -/
theorem munched_of_single {mark : Mark} {c : Char} {rest : List Char} (isSign : mark ∈ signs)
    (written : mark.spelling.toList = [c]) (comment : ¬['/', '/'] <+: c :: rest)
    (alone : ∀ second double single, doubleSign? c = some (second, double, single) →
      rest.head? ≠ some second) : Munched (c :: rest) (some (.mark mark), 1) := by
  refine munched_of_sign isSign written (fun other member front => ?_) comment
  rcases length_of_sign_prefix member front with one | ⟨-, second, single, next, found⟩
  · exact Nat.le_of_eq one
  · exact absurd next (alone second other single found)

/-- A character that no sign of either length starts with is without a use. -/
theorem useless_of_isSign {c : Char} (h : IsSign c) (noDouble : doubleSign? c = none)
    (noSingle : singleSign? c = none) : Useless c := by
  obtain ⟨-, digit, word, quote⟩ := h
  refine ⟨word, digit, quote, fun mark member front => ?_⟩
  rcases spelling_of_sign member with ⟨d, written, found⟩ | ⟨d, second, single, written, found⟩
  all_goals
    rw [written] at front
    obtain rfl := Option.some.inj front
    simp [noDouble, noSingle] at found

theorem munched_sign {c : Char} {rest : List Char} (h : IsSign c)
    (comment : ¬['/', '/'] <+: c :: rest) : Munched (c :: rest)
      (match doubleSign? c with
      | some (second, double, single) =>
        if rest.head? = some second then (some (.mark double), 2) else (single.map .mark, 1)
      | none => ((singleSign? c).map .mark, 1)) := by
  split
  · next second double single found =>
      obtain ⟨isSign, written, ofSingle⟩ := sign_of_double found
      split
      · next same =>
          obtain ⟨rest, rfl⟩ := List.head?_eq_some_iff.mp same
          refine munched_of_sign isSign written (fun other member front => ?_) comment
          rcases length_of_sign_prefix member front with one | ⟨two, -⟩
          · exact Nat.le_trans (Nat.le_of_eq one) (Nat.le_succ 1)
          · exact Nat.le_of_eq two
      · next other =>
          cases single with
          | none =>
              obtain ⟨half, rfl⟩ := half_of_double found
              exact .skipped (.half half other)
          | some mark =>
              obtain ⟨isSign, written⟩ := ofSingle mark rfl
              apply munched_of_single isSign written comment
              intro _ _ _ found'
              rw [found] at found'
              cases found'
              exact other
  · next none =>
      cases found : singleSign? c with
      | none => exact .skipped (.useless (useless_of_isSign h none found))
      | some mark =>
          obtain ⟨isSign, written⟩ := sign_of_single found
          apply munched_of_single isSign written comment
          intro _ _ _ found'
          rw [none] at found'
          cases found'

theorem munched (c : Char) (rest : List Char) : Munched (c :: rest) (munch c rest) := by
  unfold munch
  simp only
  split
  · next blank => exact .skipped (.blank (by simpa [isLayout, or_assoc] using blank))
  split
  · next slashes =>
      obtain ⟨rfl, slash⟩ : c = '/' ∧ rest.head? = some '/' := by simpa using slashes
      obtain ⟨rest, rfl⟩ := List.head?_eq_some_iff.mp slash
      exact munched_comment rest
  split
  · next digit => exact munched_digit digit rest
  split
  · next starts => exact munched_word starts rest
  split
  · next quote =>
      obtain rfl := beq_iff_eq.mp quote
      exact munched_literal rest
  · next layout slashes digit word quote =>
      apply munched_sign
      · refine ⟨by simpa using layout, by simpa using digit, ?_, by simpa using quote⟩
        rw [startsWord]
        simpa using word
      · intro front
        obtain ⟨rfl, behind⟩ := List.cons_prefix_cons.mp front
        obtain ⟨more, rfl⟩ := behind
        exact slashes rfl

/-! Spans. -/

/-- The places from `start` on, in front of `stop`. -/
structure Span where
  start : Nat
  stop : Nat
  deriving DecidableEq, Repr

/-- The span of the text, which is not empty, denotes the lexeme. -/
structure Span.Fits (text : List Char) (span : Span) (lexeme : Lexeme) : Prop where
  nonempty : span.start < span.stop
  within : span.stop ≤ text.length
  denotes : Denotes (text.extract span.start span.stop) (text.drop span.stop) lexeme

/-- The place is in a piece of the text from `start` on that is skipped, away from the spans. -/
def Skipped (text : List Char) (start : Nat) (spans : List Span) (place : Nat) : Prop :=
  ∃ first count, start ≤ first ∧ first ≤ place ∧ place < first + count ∧
    Skips (text.drop first) count ∧ ∀ s ∈ spans, s.stop ≤ first ∨ first + count ≤ s.start

/-- From `start` on the text is cut up into the spans, one after the other, which denote the
lexemes; what is in none of them is skipped. -/
structure Spanned (text : List Char) (start : Nat) (spans : List Span) (lexemes : List Lexeme) :
    Prop where
  fits : List.Forall₂ (Span.Fits text) spans lexemes
  behind : ∀ s ∈ spans, start ≤ s.start
  ordered : spans.Pairwise fun s s' => s.stop ≤ s'.start
  skipped : ∀ place, start ≤ place → place < text.length →
    (∀ s ∈ spans, place < s.start ∨ s.stop ≤ place) → Skipped text start spans place

section

variable {text slice behind : List Char} {start count : Nat} {spans : List Span}
  {lexemes : List Lexeme} {lexeme : Lexeme}

theorem fits_of_drop (cut : text.drop start = slice ++ behind) (nonempty : slice ≠ [])
    (denotes : Denotes slice behind lexeme) :
    Span.Fits text ⟨start, start + slice.length⟩ lexeme := by
  have long : 0 < slice.length := List.length_pos_iff.mpr nonempty
  have whole : text.length - start = slice.length + behind.length := by
    rw [← List.length_drop, cut, List.length_append]
  have front : text.extract start (start + slice.length) = slice := by
    rw [List.extract_eq_take_drop, cut, Nat.add_sub_cancel_left, List.take_left]
  have back : text.drop (start + slice.length) = behind := by
    rw [← List.drop_drop, cut, List.drop_left]
  constructor
  · exact Nat.lt_add_of_pos_right long
  · change start + slice.length ≤ text.length
    omega
  · rwa [front, back]

/-- What is skipped further on is skipped, whatever spans end before it. -/
theorem Skipped.further {place : Nat} (h : Skipped text (start + count) spans place)
    (earlier : List Span) (before : ∀ s ∈ earlier, s.stop ≤ start + count) :
    Skipped text start (earlier ++ spans) place := by
  obtain ⟨first, count', least, low, high, skips, apart⟩ := h
  refine ⟨first, count', Nat.le_of_add_right_le least, low, high, skips, ?_⟩
  refine List.forall_mem_append.mpr ⟨fun s member => ?_, apart⟩
  exact .inl (Nat.le_trans (before s member) least)

namespace Spanned

theorem nil (h : text.length ≤ start) : Spanned text start [] [] := by
  constructor
  · exact .nil
  · exact nofun
  · exact .nil
  · intro place least inside
    omega

theorem skip (h : Spanned text (start + count) spans lexemes)
    (skips : Skips (text.drop start) count) : Spanned text start spans lexemes := by
  constructor
  · exact h.fits
  · exact fun s member => Nat.le_of_add_right_le (h.behind s member)
  · exact h.ordered
  · intro place least inside outside
    by_cases here : place < start + count
    · have apart : ∀ s ∈ spans, s.stop ≤ start ∨ start + count ≤ s.start :=
        fun s member => .inr (h.behind s member)
      exact ⟨start, count, Nat.le_refl start, least, here, skips, apart⟩
    · exact (h.skipped place (Nat.le_of_not_lt here) inside outside).further [] nofun

theorem token (h : Spanned text (start + slice.length) spans lexemes)
    (cut : text.drop start = slice ++ behind) (nonempty : slice ≠ [])
    (denotes : Denotes slice behind lexeme) :
    Spanned text start (⟨start, start + slice.length⟩ :: spans) (lexeme :: lexemes) := by
  constructor
  · exact .cons (fits_of_drop cut nonempty denotes) h.fits
  · refine List.forall_mem_cons.mpr ⟨Nat.le_refl start, fun s member => ?_⟩
    exact Nat.le_of_add_right_le (h.behind s member)
  · exact List.pairwise_cons.mpr ⟨h.behind, h.ordered⟩
  · intro place least inside outside
    obtain ⟨here, others⟩ := List.forall_mem_cons.mp outside
    have past : start + slice.length ≤ place := here.resolve_left (Nat.not_lt_of_le least)
    exact (h.skipped place past inside others).further [⟨start, start + slice.length⟩] (by simp)

end Spanned

end

/-- The spans of the lexemes from `start` on, found by as many munches as `steps`. -/
def spansWithin (text : List Char) : (steps start : Nat) → List Span
  | 0, _ => []
  | steps + 1, start =>
    match text.drop start with
    | [] => []
    | c :: rest =>
      let (lexeme?, count) := munch c rest
      let spans := spansWithin text steps (start + count)
      if lexeme?.isSome then ⟨start, start + count⟩ :: spans else spans

/-- The spans of all lexemes of a text. Each munch takes a character, so there are no more munches
than characters. -/
def spans (text : List Char) : List Span := spansWithin text text.length 0

/-- Every text is cut up so, into the lexemes of its munches. -/
theorem exists_spanned {text : List Char} {steps start : Nat}
    (enough : text.length ≤ start + steps) : ∃ lexemes, Cuts (text.drop start) lexemes ∧
      Spanned text start (spansWithin text steps start) lexemes := by
  induction steps generalizing start with
  | zero =>
      refine ⟨[], ?_, .nil enough⟩
      rw [List.drop_of_length_le (show text.length ≤ start from enough)]
      exact .nil
  | succ steps ih =>
      rw [spansWithin]
      split
      · next left => exact ⟨[], left ▸ .nil, .nil (List.drop_eq_nil_iff.mp left)⟩
      · next c rest left =>
          have found := munched c rest
          have positive := munch_pos c rest
          rcases taken : munch c rest with ⟨lexeme?, count⟩
          rw [taken] at found positive
          obtain ⟨lexemes, cuts, spanned⟩ := @ih (start + count) (by omega)
          rw [← List.drop_drop, left] at cuts
          rw [left]
          cases found with
          | skipped skips => exact ⟨lexemes, .skip taken cuts, spanned.skip (left ▸ skips)⟩
          | token whole long denotes =>
              subst long
              have nonempty := List.ne_nil_of_length_pos positive
              exact ⟨_, .take taken cuts, spanned.token (left.trans whole) nonempty denotes⟩

/-- What a slice of a text denotes is found in it wherever a space follows, unless it is a text
literal that goes on to the end. -/
theorem Denotes.lexes {slice behind : List Char} {lexeme : Lexeme}
    (h : Denotes slice behind lexeme) : Lexes slice lexeme ∨
      ∃ body, '\x22' ∉ body ∧ slice = '\x22' :: body ∧ behind = [] ∧
        lexeme = .text (String.ofList (unescaped body)) := by
  cases h with
  | word isWord => exact .inl (lexes_word isWord)
  | print => exact .inl lexes_printWord
  | numeral isRun => exact .inl (lexes_run isRun)
  | closed inside => exact .inl (lexes_literal inside)
  | unclosed inside => exact .inr ⟨_, inside, rfl, rfl, rfl⟩
  | @sign mark _ isSign =>
      have known : ∀ mark ∈ signs, mark ∈ Mark.known ∧ mark ≠ .eof := by decide
      exact .inl (lexes_mark (known mark isSign).1 (known mark isSign).2)

/-- What a slice of a text denotes it denotes alone. -/
theorem Denotes.alone {slice behind : List Char} {lexeme : Lexeme}
    (h : Denotes slice behind lexeme) :
    ∃ c body, slice = c :: body ∧ munch c body = (some lexeme, slice.length) := by
  rcases h.lexes with lexes | ⟨body, inside, rfl, -, rfl⟩
  · exact lexes.alone
  · have said := @textBody_of_not_mem body [] inside nofun
    rw [List.append_nil] at said
    refine ⟨'\x22', body, rfl, ?_⟩
    rw [munch_quote, said]
    simp

/-- Every lexeme that a text is cut up into is denoted by a slice. -/
theorem Cuts.denoted {text : List Char} {lexemes : List Lexeme} (h : Cuts text lexemes) :
    ∀ l ∈ lexemes, ∃ slice behind, Denotes slice behind l := by
  induction h with
  | nil => exact nofun
  | @munch c rest lexemes _ ih =>
      refine List.forall_mem_append.mpr ⟨fun l member => ?_, ih⟩
      have found := munched c rest
      rcases taken : SlangScript.munch c rest with ⟨lexeme?, count⟩
      simp only [taken] at member found
      obtain rfl := Option.mem_toList.mp member
      cases found with
      | token _ _ denotes => exact ⟨_, _, denotes⟩

theorem denoted_of_mem_tokenize {source : String} {t : Token} (h : t ∈ tokenize source)
    (inside : t.lexeme ≠ .mark .eof) : ∃ slice behind, Denotes slice behind t.lexeme := by
  obtain ⟨lexemes, cuts⟩ := exists_cuts source.toList
  have member := List.mem_map_of_mem (f := Token.lexeme) h
  rw [lexemes_tokenize_of_cuts cuts] at member
  rcases List.mem_append.mp member with found | ends
  · exact cuts.denoted _ found
  · exact absurd (List.mem_singleton.mp ends) inside

/-- So a slice denotes one lexeme only, whatever comes behind. -/
theorem Denotes.unique {slice behind behind' : List Char} {lexeme lexeme' : Lexeme}
    (h : Denotes slice behind lexeme) (h' : Denotes slice behind' lexeme') : lexeme = lexeme' := by
  obtain ⟨c, body, rfl, taken⟩ := h.alone
  obtain ⟨_, _, same, taken'⟩ := h'.alone
  obtain ⟨rfl, rfl⟩ := List.cons.inj same
  rw [taken] at taken'
  cases taken'
  rfl

/-- Every source text is cut up into spans, one after the other, which denote its tokens; what is in
none of them is skipped. Only the last token is the mark of the end, and what a span denotes depends
on nothing else. -/
theorem tokenize_spans (source : String) :
    (∃ (spans : List Span) (body : List Token) (last : Token), tokenize source = body ++ [last] ∧
      last.isEof = true ∧ (∀ t ∈ body, t.isEof = false) ∧
      Spanned source.toList 0 spans (body.map Token.lexeme)) ∧
    ∀ {slice behind behind' : List Char} {lexeme lexeme' : Lexeme},
      Denotes slice behind lexeme → Denotes slice behind' lexeme' → lexeme = lexeme' := by
  refine ⟨?_, Denotes.unique⟩
  obtain ⟨lexemes, cuts, spanned⟩ := @exists_spanned source.toList source.toList.length 0 (by simp)
  rw [List.drop_zero] at cuts
  obtain ⟨body, last, whole, front, ends⟩ :=
    Grammar.exists_body_of_lexemes (lexemes_tokenize_of_cuts cuts)
  refine ⟨_, body, last, whole, ends, fun t member => ?_, front ▸ spanned⟩
  exact Grammar.not_isEof_of_lexeme (cuts.ne_eof _ (front ▸ List.mem_map_of_mem member))

end SlangScript
