import SlangScript.Proofs.Text.Classes
import SlangScript.Token.Munch

/-!
What a single munch takes when a space or the end of the text follows: exactly the word, the
numeral, the text literal or the sign that stands there.
-/

namespace SlangScript

open Text

/-- A space or the end of the text comes next. -/
def Separated (rest : List Char) : Prop := ∀ c ∈ rest.head?, c = ' '

/-- A run of such characters does not go on. -/
def RunEnds (p : Char → Bool) (behind : List Char) : Prop := ∀ c ∈ behind.head?, p c = false

theorem takeWhile_of_runEnds {p : Char → Bool} {run behind : List Char} (inside : run.all p = true)
    (ends : RunEnds p behind) : (run ++ behind).takeWhile p = run := by
  rw [List.takeWhile_append_of_pos (List.all_eq_true.mp inside)]
  cases behind with
  | nil => simp
  | cons c behind => simp [ends c rfl]

theorem takeWhile_of_separated {p : Char → Bool} {body rest : List Char}
    (inside : body.all p = true) (space : p ' ' = false) (h : Separated rest) :
    (body ++ rest).takeWhile p = body := by
  apply takeWhile_of_runEnds inside
  intro c next
  rw [h c next, space]

/-- A line is all that stands before its line feed. -/
theorem lineAt_of_not_mem {said behind : List Char} (inside : '\n' ∉ said)
    (ends : ∀ c ∈ behind.head?, c = '\n') : lineAt (said ++ behind) = said := by
  apply takeWhile_of_runEnds
  · rw [List.all_eq_true]
    intro c member
    have other : c ≠ '\n' := by
      rintro rfl
      exact inside member
    simpa using other
  · intro c next
    simp [ends c next]

def startsWord (c : Char) : Bool := isLetter c || c == '_'

/-- A word of letters, digits, numeric characters and underscores, the first of them a letter or an
underscore. -/
abbrev IsWord (word : List Char) : Prop :=
  word.head?.any startsWord = true ∧ word.all isWordChar = true

/-- A run of digits and points, the first of them a digit. -/
abbrev IsRun (run : List Char) : Prop :=
  run.head?.any isDigit = true ∧ run.all isNumeralChar = true

theorem exists_cons_of_head?_any {p : Char → Bool} {text : List Char}
    (h : text.head?.any p = true) : ∃ c rest, text = c :: rest ∧ p c = true := by
  cases text with
  | nil => cases h
  | cons c rest => exact ⟨c, rest, rfl, h⟩

/-- A text that can be written between quotes: it holds no quote, and no backslash before an n. -/
def IsSayable : List Char → Prop
  | [] => True
  | c :: rest => c ≠ '\x22' ∧ ¬(c = '\\' ∧ rest.head? = some 'n') ∧ IsSayable rest

theorem startsWord_not_digit {c : Char} (h : startsWord c = true) : isDigit c = false := by
  rcases Bool.or_eq_true_iff.mp h with letter | line
  · exact isDigit_of_isLetter letter
  · obtain rfl := beq_iff_eq.mp line
    decide

/-- A character that does not separate tokens, nor starts a comment. -/
abbrev Plain (c : Char) : Prop := (isLayout c || c == '\n') = false ∧ (c == '/') = false

theorem Plain.of_class {p : Char → Bool} {c : Char} (h : p c = true)
    (apart : [' ', '\t', '\r', '\n', '/'].any p = false) : Plain c := by
  have ne : ∀ d ∈ [' ', '\t', '\r', '\n', '/'], c ≠ d := by
    rintro d member rfl
    exact List.any_eq_false.mp apart c member h
  simp only [List.forall_mem_cons] at ne
  simp [Plain, isLayout, ne]

/-- Where a space or the end of the text follows, a munch takes exactly `written` and gives
`lexeme`. -/
def Lexes (written : List Char) (lexeme : Lexeme) : Prop :=
  ∃ c body, written = c :: body ∧ ∀ rest, Separated rest →
    munch c (body ++ rest) = (some lexeme, written.length)

theorem separated_nil : Separated [] := nofun

theorem separated_space (rest : List Char) : Separated (' ' :: rest) :=
  fun _ next => (Option.some.inj next).symm

theorem Lexes.alone {written : List Char} {lexeme : Lexeme} (h : Lexes written lexeme) :
    ∃ c body, written = c :: body ∧ munch c body = (some lexeme, written.length) := by
  obtain ⟨c, body, rfl, taken⟩ := h
  have alone := taken [] separated_nil
  rw [List.append_nil] at alone
  exact ⟨c, body, rfl, alone⟩

theorem lexes_word {word : List Char} (h : IsWord word) : Lexes word (.ofWord word) := by
  obtain ⟨first, inside⟩ := h
  obtain ⟨c, body, rfl, start⟩ := exists_cons_of_head?_any first
  have plain : Plain c := .of_class start (by decide)
  have letter : (isLetter c || c == '_') = true := start
  refine ⟨c, body, rfl, fun rest separated => ?_⟩
  have taken : wordAt (c :: (body ++ rest)) = c :: body :=
    takeWhile_of_separated inside (by decide) separated
  simp [munch, plain.1, plain.2, startsWord_not_digit start, letter, taken]

theorem ofWord_printWord : Lexeme.ofWord printWord.toList = .mark .print := by decide

/-- The one keyword that starts with a digit is read as a word. -/
theorem lexes_printWord : Lexes printWord.toList (.mark .print) := by
  have inside : printWord.toList.all isWordChar = true := by decide
  refine ⟨'3', "mol".toList, by decide, fun rest separated => ?_⟩
  have taken : wordAt ('3' :: ("mol".toList ++ rest)) = printWord.toList :=
    takeWhile_of_separated inside (by decide) separated
  have plain : Plain '3' := by decide
  have digit : isDigit '3' = true := by decide
  simp only [munch, plain.1, Bool.false_eq_true, if_false, plain.2, Bool.false_and, digit, if_true,
    taken, ofWord_printWord]

/-- A word that starts in a run of digits and points is no keyword. -/
theorem wordAt_ne_printWord {run rest : List Char} (inside : run.all isNumeralChar = true)
    (separated : Separated rest) : wordAt (run ++ rest) ≠ printWord.toList := by
  have stop : ([] ++ rest).takeWhile isWordChar = [] :=
    takeWhile_of_separated rfl (by decide) separated
  intro same
  -- The keyword holds a letter, which no run of digits and points does.
  have m : 'm' ∈ wordAt (run ++ rest) := by
    rw [same]
    decide
  have member : 'm' ∈ run := by
    rw [List.nil_append] at stop
    rw [wordAt, List.takeWhile_append, stop, List.append_nil] at m
    split at m
    · exact m
    · exact List.takeWhile_subset _ m
  have none : isNumeralChar 'm' = false := by decide
  rw [List.all_eq_true.mp inside 'm' member] at none
  cases none

theorem lexes_run {run : List Char} (h : IsRun run) : Lexes run (.ofNumeral run) := by
  obtain ⟨first, inside⟩ := h
  obtain ⟨c, body, rfl, digit⟩ := exists_cons_of_head?_any first
  have plain : Plain c := .of_class digit (by decide)
  refine ⟨c, body, rfl, fun rest separated => ?_⟩
  have taken : numeralAt (c :: (body ++ rest)) = c :: body :=
    takeWhile_of_separated inside (by decide) separated
  have word : wordAt (c :: (body ++ rest)) ≠ printWord.toList :=
    wordAt_ne_printWord inside separated
  simp [munch, plain.1, plain.2, digit, word, taken]

/-- What a text literal says, by what stands between its quotes. -/
def unescaped : List Char → List Char
  | '\\' :: 'n' :: rest => '\n' :: unescaped rest
  | c :: rest => c :: unescaped rest
  | [] => []

theorem textBody_of_not_mem {body behind : List Char} (inside : '\x22' ∉ body)
    (ends : ∀ c ∈ behind.head?, c = '\x22') :
    textBody (body ++ behind) = (unescaped body, body.length + (behind.take 1).length) := by
  fun_induction unescaped body with
  | case1 rest ih =>
      have inside' : '\x22' ∉ rest := fun member => inside (by simp [member])
      rw [List.cons_append, List.cons_append, textBody, ih inside']
      simp only [List.length_cons]
      congr 1
      omega
  | case2 c rest plain ih =>
      have quote : c ≠ '\x22' := fun same => inside (by simp [same])
      have inside' : '\x22' ∉ rest := fun member => inside (by simp [member])
      have plain' : ∀ tail, c = '\\' → rest ++ behind = 'n' :: tail → False := by
        intro tail backslash starts
        cases rest with
        | nil =>
            rw [List.nil_append] at starts
            have same := ends 'n' (by rw [starts]; rfl)
            exact absurd same (by decide)
        | cons d rest => exact plain rest backslash (by rw [(List.cons.inj starts).1])
      rw [List.cons_append, textBody.eq_4 _ _ quote plain', ih inside']
      simp only [List.length_cons]
      congr 1
      omega
  | case3 =>
      cases behind with
      | nil => rfl
      | cons c behind =>
          obtain rfl := ends c rfl
          rfl

/-- The ways to write a text between quotes: a line feed is also written as a backslash and an n. -/
inductive Writes : (body said : List Char) → Prop
  | nil : Writes [] []
  | itself {c body said} : Writes body said → Writes (c :: body) (c :: said)
  | feed {body said} : Writes body said → Writes ('\\' :: 'n' :: body) ('\n' :: said)

theorem Writes.refl (said : List Char) : Writes said said := by
  induction said with
  | nil => exact .nil
  | cons c said ih => exact .itself ih

/-- An n at the front is written as itself only. -/
theorem Writes.head? {body said : List Char} (h : Writes body said)
    (n : body.head? = some 'n') : said.head? = some 'n' := by
  cases h with
  | nil => cases n
  | itself => exact n
  | feed => cases n

/-- Whatever way a text is written between quotes, if it can be, that says the text. -/
theorem unescaped_of_writes {body said : List Char} (h : Writes body said)
    (sayable : IsSayable said) : '\x22' ∉ body ∧ unescaped body = said := by
  induction h with
  | nil => exact ⟨List.not_mem_nil, rfl⟩
  | @itself c body said behind ih =>
      obtain ⟨quote, feed, rest⟩ := sayable
      obtain ⟨inside, same⟩ := ih rest
      have plain : ∀ tail, c = '\\' → body = 'n' :: tail → False := by
        rintro tail backslash rfl
        exact feed ⟨backslash, behind.head? rfl⟩
      constructor
      · simp [quote.symm, inside]
      · rw [unescaped.eq_2 _ _ plain, same]
  | feed _ ih =>
      obtain ⟨_, _, rest⟩ := sayable
      obtain ⟨inside, same⟩ := ih rest
      constructor
      · simp [inside]
      · rw [unescaped, same]

theorem munch_quote (rest : List Char) : munch '\x22' rest =
    (some (.text (String.ofList (textBody rest).1)), (textBody rest).2 + 1) := by
  have plain : Plain '\x22' := by decide
  have digit : isDigit '\x22' = false := by decide
  have letter : (isLetter '\x22' || '\x22' == '_') = false := by decide
  simp only [munch, plain.1, plain.2, digit, letter, Bool.false_and, Bool.false_eq_true, if_false,
    beq_self_eq_true, if_true]

theorem lexes_literal {body : List Char} (inside : '\x22' ∉ body) :
    Lexes ('\x22' :: (body ++ ['\x22'])) (.text (String.ofList (unescaped body))) := by
  refine ⟨'\x22', body ++ ['\x22'], rfl, fun rest _ => ?_⟩
  have ends : ∀ c ∈ ('\x22' :: rest).head?, c = '\x22' := fun c next => (Option.some.inj next).symm
  rw [List.append_assoc, List.singleton_append, munch_quote, textBody_of_not_mem inside ends]
  simp

theorem lexes_text {said : List Char} (h : IsSayable said) :
    Lexes ('\x22' :: said ++ ['\x22']) (.text (String.ofList said)) := by
  obtain ⟨inside, same⟩ := unescaped_of_writes (.refl said) h
  have literal := lexes_literal inside
  rwa [same] at literal

/-- A character that no layout, word, numeral or text literal starts with. -/
abbrev IsSign (c : Char) : Prop :=
  (isLayout c || c == '\n') = false ∧ isDigit c = false ∧ startsWord c = false ∧ c ≠ '\x22'

theorem munch_of_doubleSign {c second : Char} {double : Mark} {single : Option Mark} (h : IsSign c)
    {rest : List Char} (comment : rest.head? ≠ some '/')
    (found : doubleSign? c = some (second, double, single)) :
    munch c rest = if rest.head? = some second then (some (.mark double), 2)
      else (single.map .mark, 1) := by
  obtain ⟨layout, digit, word, quote⟩ := h
  have letter : (isLetter c || c == '_') = false := word
  have comment : (rest.head? == some '/') = false := beq_false_of_ne comment
  simp only [munch, layout, comment, digit, letter, quote, found, Bool.and_false,
    Bool.false_eq_true, if_false, beq_iff_eq]

theorem munch_of_singleSign {c : Char} (h : IsSign c) {rest : List Char}
    (comment : rest.head? ≠ some '/') (none : doubleSign? c = none) :
    munch c rest = ((singleSign? c).map .mark, 1) := by
  obtain ⟨layout, digit, word, quote⟩ := h
  have letter : (isLetter c || c == '_') = false := word
  have comment : (rest.head? == some '/') = false := beq_false_of_ne comment
  simp only [munch, layout, comment, digit, letter, quote, none, Bool.and_false,
    Bool.false_eq_true, if_false, beq_iff_eq]

theorem head?_ne_of_separated {rest : List Char} (h : Separated rest) {c : Char} (space : c ≠ ' ') :
    rest.head? ≠ some c :=
  fun same => space (h c same)

theorem lexes_double {c second : Char} {double : Mark} {single : Option Mark} (h : IsSign c)
    (found : doubleSign? c = some (second, double, single)) (comment : second ≠ '/') :
    Lexes [c, second] (.mark double) := by
  refine ⟨c, [second], rfl, fun rest _ => ?_⟩
  rw [List.singleton_append, munch_of_doubleSign h (by simpa using comment) found]
  simp

theorem lexes_single {c second : Char} {double mark : Mark} (h : IsSign c)
    (found : doubleSign? c = some (second, double, some mark)) (space : second ≠ ' ') :
    Lexes [c] (.mark mark) := by
  refine ⟨c, [], rfl, fun rest separated => ?_⟩
  rw [List.nil_append,
    munch_of_doubleSign h (head?_ne_of_separated separated (by decide)) found]
  simp [head?_ne_of_separated separated space]

theorem lexes_alone {c : Char} {mark : Mark} (h : IsSign c) (none : doubleSign? c = none)
    (found : singleSign? c = some mark) : Lexes [c] (.mark mark) := by
  refine ⟨c, [], rfl, fun rest separated => ?_⟩
  rw [List.nil_append,
    munch_of_singleSign h (head?_ne_of_separated separated (by decide)) none, found]
  rfl

end SlangScript
