import SlangScript.Token.Scanner

/-!
How a source text is cut up: its lexemes without their places. Nothing is cut across a line feed, so
where every text literal is closed, the lexemes of two texts with a line feed between them are those
of the one and then those of the other.
-/

namespace SlangScript

open Text

/-- The text is cut up into the lexemes, munch by munch. -/
inductive Cuts : List Char → List Lexeme → Prop
  | nil : Cuts [] []
  | munch {c rest lexemes} : Cuts ((c :: rest).drop (munch c rest).2) lexemes →
      Cuts (c :: rest) ((munch c rest).1.toList ++ lexemes)

/-- Every text literal that is cut out of the text has its closing quote. -/
inductive Closed : List Char → Prop
  | nil : Closed []
  | munch {c rest} : (c = '\x22' → '\x22' ∈ rest) → Closed ((c :: rest).drop (munch c rest).2) →
      Closed (c :: rest)

theorem length_drop_munch_lt (c : Char) (rest : List Char) :
    ((c :: rest).drop (munch c rest).2).length < (c :: rest).length := by
  have taken := munch_pos c rest
  rw [List.length_drop, List.length_cons]
  omega

/-- What holds of the empty text, and of a text if it holds of what a munch leaves of it, holds of
every text. -/
theorem munch_induction {motive : List Char → Prop} (nil : motive [])
    (munch : ∀ c rest, motive ((c :: rest).drop (munch c rest).2) → motive (c :: rest))
    (text : List Char) : motive text := by
  induction n : text.length using Nat.strongRecOn generalizing text with
  | ind n ih =>
      cases text with
      | nil => exact nil
      | cons c rest => exact munch c rest (ih _ (n ▸ length_drop_munch_lt c rest) _ rfl)

theorem textBody_le (rest : List Char) : (textBody rest).2 ≤ rest.length := by
  fun_induction textBody rest with
  | case1 => exact Nat.le_refl 0
  | case2 rest => simp
  | case3 rest said taken found ih =>
      rw [found] at ih
      simpa using ih
  | case4 c rest quote feed said taken found ih =>
      rw [found] at ih
      simpa using ih

/-- A munch takes no more than there is. -/
theorem munch_le (c : Char) (rest : List Char) : (munch c rest).2 ≤ (c :: rest).length := by
  have short {p : Char → Bool} : ((c :: rest).takeWhile p).length ≤ (c :: rest).length :=
    (List.takeWhile_sublist p).length_le
  have one : 1 ≤ (c :: rest).length := by simp
  unfold munch
  simp only
  split
  · exact one
  split
  · exact short
  split
  · split <;> exact short
  split
  · exact short
  split
  · exact Nat.succ_le_succ (textBody_le rest)
  split
  · split
    · next sign =>
        obtain ⟨_, rfl⟩ := List.head?_eq_some_iff.mp sign
        simp
    · exact one
  · exact one

/-- A text without quotes has no text literal that is not closed. -/
theorem closed_of_not_mem {text : List Char} (h : '\x22' ∉ text) : Closed text := by
  induction text using munch_induction with
  | nil => exact .nil
  | munch c rest ih =>
      refine .munch (fun quote => absurd (quote ▸ List.mem_cons_self) h) (ih ?_)
      exact fun member => h (List.mem_of_mem_drop member)

theorem exists_cuts (text : List Char) : ∃ lexemes, Cuts text lexemes := by
  induction text using munch_induction with
  | nil => exact ⟨[], .nil⟩
  | munch c rest ih =>
      obtain ⟨lexemes, cuts⟩ := ih
      exact ⟨_, .munch cuts⟩

theorem Cuts.skip {c : Char} {rest : List Char} {count : Nat} {lexemes : List Lexeme}
    (taken : SlangScript.munch c rest = (none, count))
    (h : Cuts ((c :: rest).drop count) lexemes) : Cuts (c :: rest) lexemes := by
  have whole := @Cuts.munch c rest lexemes (by rwa [taken])
  rwa [taken] at whole

theorem Cuts.take {c : Char} {rest : List Char} {lexeme : Lexeme} {count : Nat}
    {lexemes : List Lexeme} (taken : SlangScript.munch c rest = (some lexeme, count))
    (h : Cuts ((c :: rest).drop count) lexemes) : Cuts (c :: rest) (lexeme :: lexemes) := by
  have whole := @Cuts.munch c rest lexemes (by rwa [taken])
  rwa [taken] at whole

/-- A text that one munch takes has that lexeme only. -/
theorem Cuts.whole {text : List Char} {lexeme : Lexeme} (h : ∃ c rest, text = c :: rest ∧
    SlangScript.munch c rest = (some lexeme, text.length)) : Cuts text [lexeme] := by
  obtain ⟨c, rest, rfl, taken⟩ := h
  refine .take taken ?_
  rw [List.drop_length]
  exact .nil

namespace Scanner

theorem tokensWithin_nil {s : Scanner} (h : s.rest = []) (steps : Nat) :
    (tokensWithin steps s).1 = [s.endToken] := by
  cases steps with
  | zero => rfl
  | succ steps => simp [tokensWithin, h]

theorem tokensWithin_cons {s : Scanner} {c : Char} {rest : List Char} (h : s.rest = c :: rest)
    (steps : Nat) : (tokensWithin (steps + 1) s).1 =
      ((SlangScript.munch c rest).1.map s.tokenHere).toList ++
        (tokensWithin steps (s.advanceBy (SlangScript.munch c rest).2)).1 := by
  rcases taken : SlangScript.munch c rest with ⟨_ | lexeme, count⟩ <;>
    simp [tokensWithin, h, munch, taken]

/-- The tokens of a text have the lexemes that it is cut up into, and the mark of its end. -/
theorem lexemes_tokensWithin {text : List Char} {lexemes : List Lexeme} (h : Cuts text lexemes)
    {s : Scanner} {steps : Nat} (same : s.rest = text) (enough : text.length ≤ steps) :
    (tokensWithin steps s).1.map Token.lexeme = lexemes ++ [.mark .eof] := by
  induction h generalizing s steps with
  | nil =>
      rw [tokensWithin_nil same]
      rfl
  | @munch c rest lexemes cuts ih =>
      have shorter := length_drop_munch_lt c rest
      obtain ⟨steps, rfl⟩ : ∃ n, steps = n + 1 := Nat.exists_eq_add_one.mpr (by omega)
      rw [tokensWithin_cons same, List.map_append, ih (by rw [advanceBy_rest, same]) (by omega),
        List.append_assoc]
      cases (SlangScript.munch c rest).1 <;> rfl

end Scanner

/-- A text has the lexemes that it is cut up into, and the mark of its end. -/
theorem lexemes_tokenize_of_cuts {source : String} {lexemes : List Lexeme}
    (h : Cuts source.toList lexemes) :
    (tokenize source).map Token.lexeme = lexemes ++ [.mark .eof] :=
  Scanner.lexemes_tokensWithin h rfl (Nat.le_refl _)

/-! The mark of the end is cut out of no text. -/

theorem ofWord_ne_eof (word : List Char) : Lexeme.ofWord word ≠ .mark .eof := by
  change (keyword? (String.ofList word)).getD _ ≠ _
  unfold keyword?
  split <;> simp

/-- A word is no number and no text. -/
theorem ofWord_ne_literal (word : List Char) {l : Lexeme} (h : l.kind ∈ [Kind.number, .text]) :
    l ≠ .ofWord word := by
  rintro rfl
  change ((keyword? (String.ofList word)).getD _).kind ∈ _ at h
  unfold keyword? at h
  split at h <;> simp [Lexeme.kind] at h

theorem doubleSign?_ne_eof {c second : Char} {double : Mark} {single : Option Mark}
    (h : doubleSign? c = some (second, double, single)) : double ≠ .eof ∧ single ≠ some .eof := by
  unfold doubleSign? at h
  split at h <;> cases h <;> simp

theorem singleSign?_ne_eof (c : Char) : singleSign? c ≠ some .eof := by
  unfold singleSign?
  split <;> simp

theorem munch_ne_eof (c : Char) (rest : List Char) : (munch c rest).1 ≠ some (.mark .eof) := by
  unfold munch
  simp only
  split
  · simp
  split
  · simp
  split
  · split
    · simpa using ofWord_ne_eof _
    · simp [Lexeme.ofNumeral]
  split
  · simpa using ofWord_ne_eof _
  split
  · simp
  split
  · next found =>
      have apart := doubleSign?_ne_eof found
      split
      · simpa using apart.1
      · simpa using apart.2
  · simpa using singleSign?_ne_eof c

theorem Cuts.ne_eof {text : List Char} {lexemes : List Lexeme} (h : Cuts text lexemes) :
    ∀ l ∈ lexemes, l ≠ .mark .eof := by
  induction h with
  | nil => exact fun _ member => nomatch member
  | @munch c rest lexemes _ ih =>
      refine List.forall_mem_append.mpr ⟨?_, ih⟩
      rintro l member rfl
      exact munch_ne_eof c rest (Option.mem_toList.mp member)

/-! What is cut in front of a space or a line feed. -/

theorem takeWhile_append_stop {p : Char → Bool} {stop : Char} (stops : p stop = false)
    (text more : List Char) : (text ++ stop :: more).takeWhile p = text.takeWhile p := by
  induction text with
  | nil => simp [stops]
  | cons c text ih => cases h : p c <;> simp [h, ih]

theorem head?_append_stop {rest : List Char} {c stop : Char} (h : c ≠ stop) (more : List Char) :
    (rest ++ stop :: more).head? = some c ↔ rest.head? = some c := by
  cases rest with
  | nil => simp [h.symm]
  | cons => rfl

/-- A character at which every word, numeral and sign ends. -/
def Parts (stop : Char) : Prop := stop = ' ' ∨ stop = '\n'

theorem munch_of_parts {stop : Char} (h : Parts stop) (rest : List Char) :
    munch stop rest = (none, 1) := by
  have layout : (isLayout stop || stop == '\n') = true := by
    rcases h with rfl | rfl <;> decide
  rw [munch, if_pos layout]

theorem Parts.ne {stop c : Char} (h : Parts stop) (space : c ≠ ' ') (feed : c ≠ '\n') :
    c ≠ stop := by
  rcases h with rfl | rfl
  · exact space
  · exact feed

theorem Parts.outside {p : Char → Bool} {stop : Char} (h : Parts stop) (space : p ' ' = false)
    (feed : p '\n' = false) : p stop = false := by
  rcases h with rfl | rfl
  · exact space
  · exact feed

theorem doubleSign?_ne_parts {c second stop : Char} {double : Mark} {single : Option Mark}
    (h : doubleSign? c = some (second, double, single)) (parts : Parts stop) : second ≠ stop := by
  apply parts.ne
  all_goals
    unfold doubleSign? at h
    split at h <;> cases h <;> decide

/-- A text literal that is closed ends at its closing quote, whatever comes behind. -/
theorem textBody_append {rest : List Char} (h : '\x22' ∈ rest) (more : List Char) :
    textBody (rest ++ more) = textBody rest := by
  fun_induction textBody rest with
  | case1 => cases h
  | case2 rest => rfl
  | case3 rest said taken found ih =>
      have same := ih (by simpa using h)
      rw [found] at same
      rw [List.cons_append, List.cons_append, textBody, same]
  | case4 c rest quote feed said taken found ih =>
      have inside : '\x22' ∈ rest := (List.mem_cons.mp h).resolve_left fun same => quote same.symm
      have same := ih inside
      rw [found] at same
      have feed' : ∀ tail, c = '\\' → rest ++ more = 'n' :: tail → False := by
        intro tail backslash starts
        cases rest with
        | nil => cases inside
        | cons d rest => exact feed rest backslash (by rw [(List.cons.inj starts).1])
      rw [List.cons_append, textBody.eq_4 _ _ quote feed', same]

/-- What stands at the front is cut off in the same way in front of a space or a line feed, unless
it is a comment that goes on. -/
theorem munch_append {c stop : Char} {rest more : List Char} (quote : c = '\x22' → '\x22' ∈ rest)
    (parts : Parts stop) (line : c = '/' → rest.head? = some '/' →
      lineAt (c :: (rest ++ stop :: more)) = lineAt (c :: rest)) :
    munch c (rest ++ stop :: more) = munch c rest := by
  have comment : ((rest ++ stop :: more).head? == some '/') = (rest.head? == some '/') := by
    rw [Bool.eq_iff_iff, beq_iff_eq, beq_iff_eq]
    exact head?_append_stop (parts.ne (by decide) (by decide)) more
  have word : wordAt (c :: (rest ++ stop :: more)) = wordAt (c :: rest) :=
    takeWhile_append_stop (parts.outside (by decide) (by decide)) (c :: rest) more
  have numeral : numeralAt (c :: (rest ++ stop :: more)) = numeralAt (c :: rest) :=
    takeWhile_append_stop (parts.outside (by decide) (by decide)) (c :: rest) more
  simp only [munch, comment, word, numeral]
  split
  · rfl
  split
  · next starts =>
      obtain ⟨slash, slash'⟩ : c = '/' ∧ rest.head? = some '/' := by simpa using starts
      rw [line slash slash']
  split
  · rfl
  split
  · rfl
  split
  · next literal => rw [textBody_append (quote (beq_iff_eq.mp literal))]
  split
  · next found => simp only [head?_append_stop (doubleSign?_ne_parts found parts)]
  · rfl

/-- Where every text literal is closed, nothing is cut across a line feed. -/
theorem Cuts.append {text more : List Char} {lexemes lexemes' : List Lexeme} (h : Cuts text lexemes)
    (closed : Closed text) (h' : Cuts more lexemes') :
    Cuts (text ++ '\n' :: more) (lexemes ++ lexemes') := by
  induction h with
  | nil => exact .skip (munch_of_parts (.inr rfl) more) h'
  | @munch c rest lexemes cuts ih =>
      cases closed with
      | munch quote closed =>
          have line : lineAt (c :: (rest ++ '\n' :: more)) = lineAt (c :: rest) :=
            takeWhile_append_stop (by decide) (c :: rest) more
          have same := munch_append quote (.inr rfl) fun _ _ => line
          have behind : (c :: (rest ++ '\n' :: more)).drop (SlangScript.munch c rest).2 =
              (c :: rest).drop (SlangScript.munch c rest).2 ++ '\n' :: more :=
            List.drop_append_of_le_length (munch_le c rest)
          have onward := @Cuts.munch c (rest ++ '\n' :: more) (lexemes ++ lexemes')
            (by rw [same, behind]; exact ih closed)
          rw [same] at onward
          rw [List.append_assoc]
          exact onward

end SlangScript
