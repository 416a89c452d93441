import SlangScript.Proofs.Number.Numeral
import SlangScript.Value.Basic

/-!
Plain numeric text as a grammar: an optional sign, and then a decimal with an optional point and an
optional exponent, or one of the words in any letter case. A number is read from the texts of the
grammar and from no others. Recognition by the letters lets pass one thing more, the words for
infinity with a dotless i or a capital with a dot; there alone a text is refused and not counted.
-/

namespace SlangScript

open Text

namespace Number

/-- An optional sign, and whether it is a minus. -/
inductive Sign : List Char → Bool → Prop
  | absent : Sign [] false
  | plus : Sign ['+'] false
  | minus : Sign ['-'] true

/-- Decimal digits of any script, and their place values. -/
inductive Digits : List Char → List Nat → Prop
  | nil : Digits [] []
  | cons {c value digits places} : decimalValue? c = some value → Digits digits places →
      Digits (c :: digits) (value :: places)

/-- An optional point with the digits behind it, of which there may be none. -/
inductive Fraction : List Char → List Nat → Prop
  | absent : Fraction [] []
  | point {digits places} : Digits digits places → Fraction ('.' :: digits) places

/-- An integer of at least one digit, with an optional sign. -/
inductive Power : List Char → Int → Prop
  | mk {sign negative digits places} : Sign sign negative → Digits digits places → places ≠ [] →
      Power (sign ++ digits) (if negative then -(ofPlaces places : Int) else ofPlaces places)

/-- An optional exponent, behind an e of either case. -/
inductive Exponent : List Char → Int → Prop
  | absent : Exponent [] 0
  | mark {c text power} : c = 'e' ∨ c = 'E' → Power text power → Exponent (c :: text) power

/-- A decimal: at least one digit, with an optional point before, behind or between the digits, and
an optional exponent. -/
inductive Spelt : List Char → Numeral → Prop
  | mk {whole fraction exponent numeral} : Digits whole numeral.whole →
      Fraction fraction numeral.fraction → numeral.whole ++ numeral.fraction ≠ [] →
      Exponent exponent numeral.exponent → Spelt (whole ++ (fraction ++ exponent)) numeral

/-- Plain numeric text and its number. The letter case of the words does not matter. -/
inductive PlainNumber : List Char → Float → Prop
  | decimal {sign negative body numeral} : Sign sign negative → Spelt body numeral →
      PlainNumber (sign ++ body) (numeral.value negative)
  | infinity {sign negative word} : Sign sign negative → word.map Char.toLower ∈ infinityWords →
      PlainNumber (sign ++ word) (infinity negative)
  | nan {sign negative word} : Sign sign negative → word.map Char.toLower = nanWord →
      PlainNumber (sign ++ word) notANumber

/-- A word for infinity behind an optional sign, but for an i that is written without its dot or as
a capital with a dot. -/
inductive Misdotted : List Char → Prop
  | mk {sign negative word} : Sign sign negative → word.map foldLetter ∈ infinityWords →
      'ı' ∈ word ∨ 'İ' ∈ word → Misdotted (sign ++ word)

/-! ## Digits -/

/-- The text does not go on with a digit. -/
def Past (text : List Char) : Prop := ∀ c ∈ text.head?, decimalValue? c = none

theorem past_nil : Past [] := nofun

theorem past_cons {c : Char} (h : decimalValue? c = none) (rest : List Char) :
    Past (c :: rest) := by
  intro d same
  obtain rfl := Option.some.inj same
  exact h

theorem exists_digits (text : List Char) :
    ∃ digits, Digits digits (takeDigits text).1 ∧ text = digits ++ (takeDigits text).2 := by
  induction text with
  | nil => exact ⟨[], .nil, rfl⟩
  | cons c text ih =>
      obtain ⟨digits, inside, whole⟩ := ih
      rw [takeDigits]
      split
      · next value digit =>
          exact ⟨c :: digits, .cons digit inside, congrArg (c :: ·) whole⟩
      · exact ⟨[], .nil, rfl⟩

theorem Digits.take {digits rest : List Char} {places : List Nat} (h : Digits digits places)
    (past : Past rest) : takeDigits (digits ++ rest) = (places, rest) := by
  induction h with
  | nil =>
      cases rest with
      | nil => rfl
      | cons c rest => exact takeDigits_of_none (past c rfl) rest
  | cons digit _ ih => simp only [List.cons_append, takeDigits, digit, ih]

theorem Digits.take_all {digits : List Char} {places : List Nat} (h : Digits digits places) :
    takeDigits digits = (places, []) := by
  simpa using h.take past_nil

/-! ## Signs -/

theorem exists_sign (text : List Char) :
    ∃ sign, Sign sign (splitSign text).1 ∧ text = sign ++ (splitSign text).2 := by
  unfold splitSign
  split
  · exact ⟨['-'], .minus, rfl⟩
  · exact ⟨['+'], .plus, rfl⟩
  · exact ⟨[], .absent, rfl⟩

/-- The text does not go on with a sign. -/
def Unsigned (text : List Char) : Prop := ∀ c ∈ text.head?, c ≠ '-' ∧ c ≠ '+'

theorem Sign.split {sign body : List Char} {negative : Bool} (h : Sign sign negative)
    (unsigned : Unsigned body) : splitSign (sign ++ body) = (negative, body) := by
  cases h with
  | plus | minus => rfl
  | absent =>
      rw [List.nil_append, splitSign.eq_3]
      · rintro rest rfl
        exact (unsigned '-' rfl).1 rfl
      · rintro rest rfl
        exact (unsigned '+' rfl).2 rfl

theorem unsigned_nil : Unsigned [] := nofun

theorem unsigned_cons {c : Char} (minus : c ≠ '-') (plus : c ≠ '+') (rest : List Char) :
    Unsigned (c :: rest) := by
  intro d same
  obtain rfl := Option.some.inj same
  exact ⟨minus, plus⟩

theorem ne_of_decimalValue? {c d : Char} {value : Nat} (h : decimalValue? c = some value)
    (none : decimalValue? d = none) : c ≠ d := by
  rintro rfl
  rw [none] at h
  cases h

theorem Digits.unsigned {digits rest : List Char} {places : List Nat} (h : Digits digits places)
    (unsigned : Unsigned rest) : Unsigned (digits ++ rest) := by
  cases h with
  | nil => exact unsigned
  | cons digit _ =>
      exact unsigned_cons (ne_of_decimalValue? digit (by decide))
        (ne_of_decimalValue? digit (by decide)) _

/-! ## Exponents -/

theorem readExponent?_eq (text : List Char) : readExponent? text =
    match takeDigits (splitSign text).2 with
    | ([], _) => none
    | (places, []) =>
      some (if (splitSign text).1 then -(ofPlaces places : Int) else ofPlaces places)
    | (_, _ :: _) => none := by
  fun_cases splitSign text with
  | case1 | case2 => rfl
  | case3 text minus plus =>
      unfold readExponent?
      split
      next negative digits signed =>
        split at signed
        · exact absurd rfl (minus _)
        · exact absurd rfl (plus _)
        · obtain ⟨rfl, rfl⟩ := Prod.mk.inj signed
          rfl

theorem power_of_readExponent? {text : List Char} {power : Int}
    (h : readExponent? text = some power) : Power text power := by
  obtain ⟨sign, signed, whole⟩ := exists_sign text
  rw [readExponent?_eq] at h
  rcases parts : splitSign text with ⟨negative, body⟩
  rw [parts] at h signed whole
  obtain ⟨digits, inside, same⟩ := exists_digits body
  split at h
  · cases h
  · next places nonempty taken =>
      obtain rfl := Option.some.inj h
      rw [taken] at inside same
      rw [List.append_nil] at same
      rw [whole, same]
      exact .mk signed inside (by rintro rfl; exact nonempty rfl)
  · cases h

theorem Power.read {text : List Char} {power : Int} (h : Power text power) :
    readExponent? text = some power := by
  cases h with
  | @mk sign negative digits places signed inside nonempty =>
      have unsigned := inside.unsigned unsigned_nil
      rw [List.append_nil] at unsigned
      rw [readExponent?_eq, signed.split unsigned]
      simp only [inside.take_all]

/-! ## Decimals -/

/-- The digits behind a point, if one comes next, and the rest of the text. -/
def takeFraction : List Char → List Nat × List Char
  | '.' :: rest => takeDigits rest
  | rest => ([], rest)

/-- The exponent that makes up a text; without a text there is none. -/
def takeExponent? : List Char → Option Int
  | [] => some 0
  | c :: rest => if c = 'e' ∨ c = 'E' then readExponent? rest else none

theorem readNumeral?_eq (text : List Char) : readNumeral? text =
    let (whole, rest) := takeDigits text
    let (fraction, rest) := takeFraction rest
    if whole.isEmpty && fraction.isEmpty then none
    else (takeExponent? rest).map fun power => ⟨whole, fraction, power⟩ := by
  have fraction (rest : List Char) : takeFraction rest =
      match rest with
      | '.' :: rest => takeDigits rest
      | _ => ([], rest) := by
    unfold takeFraction
    split <;> simp_all
  have exponent (whole fraction : List Nat) (rest : List Char) :
      ((takeExponent? rest).map fun power => (⟨whole, fraction, power⟩ : Numeral)) =
        match rest with
        | [] => some ⟨whole, fraction, 0⟩
        | c :: rest =>
          if c = 'e' ∨ c = 'E' then (readExponent? rest).map fun power => ⟨whole, fraction, power⟩
          else none := by
    unfold takeExponent?
    split
    · rfl
    · split <;> rfl
  simp only [fraction, exponent]
  rfl

theorem exists_fraction (text : List Char) :
    ∃ fraction, Fraction fraction (takeFraction text).1 ∧
      text = fraction ++ (takeFraction text).2 := by
  unfold takeFraction
  split
  · next rest =>
      obtain ⟨digits, inside, whole⟩ := exists_digits rest
      exact ⟨'.' :: digits, .point inside, congrArg ('.' :: ·) whole⟩
  · exact ⟨[], .absent, rfl⟩

theorem exponent_of_takeExponent? {text : List Char} {power : Int}
    (h : takeExponent? text = some power) : Exponent text power := by
  cases text with
  | nil =>
      obtain rfl := Option.some.inj h
      exact .absent
  | cons c text =>
      rw [takeExponent?] at h
      split at h
      · next mark => exact .mark mark (power_of_readExponent? h)
      · cases h

theorem Exponent.take {text : List Char} {power : Int} (h : Exponent text power) :
    takeExponent? text = some power := by
  cases h with
  | absent => rfl
  | mark mark inside => rw [takeExponent?, if_pos mark, inside.read]

/-- The text goes on neither with a digit nor with a point. -/
theorem Exponent.past {text : List Char} {power : Int} (h : Exponent text power) :
    Past text ∧ ∀ rest, text ≠ '.' :: rest := by
  cases h with
  | absent => exact ⟨past_nil, nofun⟩
  | mark mark _ => rcases mark with rfl | rfl <;> exact ⟨past_cons (by decide) _, by simp⟩

theorem Fraction.past {text rest : List Char} {places : List Nat} (h : Fraction text places)
    (past : Past rest) : Past (text ++ rest) := by
  cases h with
  | absent => exact past
  | point => exact past_cons decimalValue?_point _

theorem Fraction.take {text rest : List Char} {places : List Nat} (h : Fraction text places)
    (past : Past rest) (noPoint : ∀ rest', rest ≠ '.' :: rest') :
    takeFraction (text ++ rest) = (places, rest) := by
  cases h with
  | absent => exact takeFraction.eq_2 rest noPoint
  | point inside => exact inside.take past

theorem spelt_of_readNumeral? {text : List Char} {numeral : Numeral}
    (h : readNumeral? text = some numeral) : Spelt text numeral := by
  obtain ⟨whole, digits, same⟩ := exists_digits text
  obtain ⟨fraction, behind, same'⟩ := exists_fraction (takeDigits text).2
  rw [readNumeral?_eq] at h
  simp only at h
  split at h
  · cases h
  · next some =>
      obtain ⟨power, taken, rfl⟩ := Option.map_eq_some_iff.mp h
      have spelt : Spelt _ ⟨_, _, power⟩ := .mk digits behind (by simpa using some)
        (exponent_of_takeExponent? taken)
      rwa [← same', ← same] at spelt

theorem Spelt.read {text : List Char} {numeral : Numeral} (h : Spelt text numeral) :
    readNumeral? text = some numeral := by
  cases h with
  | mk digits behind some power =>
      have past := power.past
      rw [readNumeral?_eq, digits.take (behind.past past.1)]
      simp only [behind.take past.1 past.2, power.take, Option.map_some]
      rw [if_neg (by simpa using some)]

/-- A decimal is what is spelt so. -/
theorem readNumeral?_eq_some_iff {text : List Char} {numeral : Numeral} :
    readNumeral? text = some numeral ↔ Spelt text numeral :=
  ⟨spelt_of_readNumeral?, Spelt.read⟩

/-! ## Words -/

theorem toLower_eq_or (c : Char) : c.toLower = c ∨ c.toNat + 32 = c.toLower.toNat := by
  unfold Char.toLower
  split
  · next upper =>
      right
      have low : 65 ≤ c.val.toNat := UInt32.le_iff_toNat_le.mp upper.1
      have high : c.val.toNat ≤ 90 := UInt32.le_iff_toNat_le.mp upper.2
      change c.val.toNat + 32 = (c.val + 32).toNat
      rw [UInt32.toNat_add]
      change c.val.toNat + 32 = (c.val.toNat + 32) % 4294967296
      omega
  · exact .inl rfl

/-- The letters that a word for a number can start with. -/
def wordHeads : List Char := ['i', 'I', 'ı', 'İ', 'n', 'N']

theorem mem_wordHeads_of_toLower {c : Char} (h : c.toLower = 'i' ∨ c.toLower = 'n') :
    c ∈ wordHeads := by
  rcases toLower_eq_or c with same | upper
  · rcases h with h | h <;> (rw [← same, h]; decide)
  · have code : c.toNat = 73 ∨ c.toNat = 78 := by
      rcases h with h | h <;> rw [h] at upper
      · exact .inl (by change c.toNat + 32 = 105 at upper; omega)
      · exact .inr (by change c.toNat + 32 = 110 at upper; omega)
    rw [← Char.ofNat_toNat c]
    rcases code with code | code <;> (rw [code]; decide)

theorem foldLetter_of_undotted {c : Char} (dotless : c ≠ 'ı') (dotted : c ≠ 'İ') :
    foldLetter c = c.toLower := by
  refine if_neg ?_
  rintro (code | code)
  · exact dotted (by rw [← Char.ofNat_toNat c, code])
  · exact dotless (by rw [← Char.ofNat_toNat c, code])

theorem mem_wordHeads_of_foldLetter {c : Char} (h : foldLetter c = 'i' ∨ foldLetter c = 'n') :
    c ∈ wordHeads := by
  by_cases dotless : c = 'ı'
  · rw [dotless]; decide
  by_cases dotted : c = 'İ'
  · rw [dotted]; decide
  rw [foldLetter_of_undotted dotless dotted] at h
  exact mem_wordHeads_of_toLower h

theorem wordHeads_plain :
    ∀ c ∈ wordHeads, decimalValue? c = none ∧ c ≠ '.' ∧ c ≠ '-' ∧ c ≠ '+' := by
  intro c mem
  simp only [wordHeads, List.mem_cons, List.not_mem_nil, or_false] at mem
  rcases mem with rfl | rfl | rfl | rfl | rfl | rfl <;> decide

/-- A text that starts as a word for a number does. -/
def Worded (text : List Char) : Prop := ∃ c rest, text = c :: rest ∧ c ∈ wordHeads

theorem words_head {word : List Char} (h : word ∈ infinityWords ∨ word = nanWord) :
    ∃ c rest, word = c :: rest ∧ (c = 'i' ∨ c = 'n') := by
  simp only [infinityWords, nanWord, List.mem_cons, List.not_mem_nil, or_false] at h
  rcases h with (rfl | rfl) | rfl
  · exact ⟨'i', "nf".toList, rfl, .inl rfl⟩
  · exact ⟨'i', "nfinity".toList, rfl, .inl rfl⟩
  · exact ⟨'n', "an".toList, rfl, .inr rfl⟩

theorem worded_of_map {f : Char → Char} (heads : ∀ c, f c = 'i' ∨ f c = 'n' → c ∈ wordHeads)
    {word : List Char} (h : word.map f ∈ infinityWords ∨ word.map f = nanWord) : Worded word := by
  obtain ⟨c, rest, same, letter⟩ := words_head h
  cases word with
  | nil => cases same
  | cons d word =>
      obtain ⟨rfl, -⟩ := List.cons.inj same
      exact ⟨d, word, rfl, heads d letter⟩

theorem Worded.unsigned {text : List Char} (h : Worded text) : Unsigned text := by
  obtain ⟨c, rest, rfl, mem⟩ := h
  exact unsigned_cons (wordHeads_plain c mem).2.2.1 (wordHeads_plain c mem).2.2.2 rest

/-- No decimal starts with a letter of a word. -/
theorem Worded.readNumeral? {text : List Char} (h : Worded text) : readNumeral? text = none := by
  obtain ⟨c, rest, rfl, mem⟩ := h
  obtain ⟨digit, point, -⟩ := wordHeads_plain c mem
  rw [readNumeral?_eq, takeDigits_of_none digit]
  simp only [takeFraction.eq_2 (c :: rest) (fun _ same => point (List.cons.inj same).1)]
  rfl

/-! ## The number of a text -/

theorem Exponent.unsigned {text : List Char} {power : Int} (h : Exponent text power) :
    Unsigned text := by
  cases h with
  | absent => exact unsigned_nil
  | mark mark _ => rcases mark with rfl | rfl <;> exact unsigned_cons (by decide) (by decide) _

theorem Fraction.unsigned {text rest : List Char} {places : List Nat} (h : Fraction text places)
    (unsigned : Unsigned rest) : Unsigned (text ++ rest) := by
  cases h with
  | absent => exact unsigned
  | point => exact unsigned_cons (by decide) (by decide) _

theorem Spelt.unsigned {text : List Char} {numeral : Numeral} (h : Spelt text numeral) :
    Unsigned text := by
  cases h with
  | mk whole fraction _ exponent => exact whole.unsigned (fraction.unsigned exponent.unsigned)

theorem plainNumber_of_read? {text : List Char} {x : Float} (h : read? text = some x) :
    PlainNumber text x := by
  obtain ⟨sign, signed, whole⟩ := exists_sign text
  unfold read? at h
  rcases parts : splitSign text with ⟨negative, body⟩
  rw [parts] at h signed whole
  rw [whole]
  simp only at h
  split at h
  · next numeral spelt =>
      obtain rfl := Option.some.inj h
      exact .decimal signed (readNumeral?_eq_some_iff.mp spelt)
  · split at h
    · next word =>
        obtain rfl := Option.some.inj h
        exact .infinity signed (List.contains_iff_mem.mp word)
    · split at h
      · next word =>
          obtain rfl := Option.some.inj h
          exact .nan signed word
      · cases h

theorem PlainNumber.read {text : List Char} {x : Float} (h : PlainNumber text x) :
    read? text = some x := by
  cases h with
  | decimal signed spelt =>
      rw [read?, signed.split spelt.unsigned]
      simp only [spelt.read]
  | infinity signed word =>
      have worded := worded_of_map (fun _ => mem_wordHeads_of_toLower) (.inl word)
      rw [read?, signed.split worded.unsigned]
      simp only [worded.readNumeral?, List.contains_iff_mem, if_pos word]
  | nan signed word =>
      have worded := worded_of_map (fun _ => mem_wordHeads_of_toLower) (.inr word)
      have finite : nanWord ∉ infinityWords := by decide
      rw [read?, signed.split worded.unsigned]
      simp only [worded.readNumeral?, word, List.contains_iff_mem, if_neg finite, if_pos trivial]

/-- A number is read from plain numeric text and from no other. -/
theorem read?_eq_some_iff {text : List Char} {x : Float} :
    read? text = some x ↔ PlainNumber text x :=
  ⟨plainNumber_of_read?, PlainNumber.read⟩

/-! ## Dots -/

theorem map_foldLetter_of_undotted {word : List Char} (dotless : 'ı' ∉ word) (dotted : 'İ' ∉ word) :
    word.map foldLetter = word.map Char.toLower :=
  List.map_congr_left fun c mem =>
    foldLetter_of_undotted (by rintro rfl; exact dotless mem) (by rintro rfl; exact dotted mem)

/-- The words are spelt in plain letters. -/
theorem not_mem_words_of_dots {word : List Char} (h : 'ı' ∈ word ∨ 'İ' ∈ word) :
    word.map Char.toLower ∉ infinityWords ∧ word.map Char.toLower ≠ nanWord := by
  have kept : 'ı' ∈ word.map Char.toLower ∨ 'İ' ∈ word.map Char.toLower :=
    h.imp (List.mem_map_of_mem (f := Char.toLower)) (List.mem_map_of_mem (f := Char.toLower))
  have finite : ∀ w ∈ infinityWords, ¬('ı' ∈ w ∨ 'İ' ∈ w) := by decide
  have undefined : ¬('ı' ∈ nanWord ∨ 'İ' ∈ nanWord) := by decide
  exact ⟨fun mem => finite _ mem kept, fun same => undefined (same ▸ kept)⟩

/-- The dots of an i change no word but those for infinity. -/
theorem not_dots_of_nan {word : List Char} (h : word.map foldLetter = nanWord) :
    'ı' ∉ word ∧ 'İ' ∉ word := by
  have plain : 'i' ∉ nanWord := by decide
  constructor <;>
    exact fun mem => plain (h ▸ List.mem_map.mpr ⟨_, mem, by decide⟩)

theorem Misdotted.matchesPlain {text : List Char} (h : Misdotted text) :
    matchesPlain text = true ∧ read? text = none := by
  cases h with
  | mk signed word dots =>
      have worded := worded_of_map (fun _ => mem_wordHeads_of_foldLetter) (.inl word)
      obtain ⟨finite, undefined⟩ := not_mem_words_of_dots dots
      rw [Number.matchesPlain, read?, signed.split worded.unsigned]
      simp [worded.readNumeral?, word, finite, undefined]

theorem misdotted_of_matchesPlain {text : List Char} (recognised : matchesPlain text = true)
    (unread : read? text = none) : Misdotted text := by
  obtain ⟨sign, signed, whole⟩ := exists_sign text
  unfold matchesPlain at recognised
  unfold read? at unread
  rcases parts : splitSign text with ⟨negative, body⟩
  rw [parts] at recognised unread signed whole
  rw [whole]
  simp only at recognised unread
  split at unread
  · cases unread
  · next unspelt =>
      simp only [unspelt, Option.isSome_none, Bool.false_or, Bool.or_eq_true, beq_iff_eq,
        List.contains_iff_mem] at recognised
      split at unread
      · cases unread
      · next finite =>
          split at unread
          · cases unread
          · next undefined =>
              rw [List.contains_iff_mem] at finite
              -- Without such an i the letters would be recognised and read alike.
              have dots : 'ı' ∈ body ∨ 'İ' ∈ body := by
                refine Classical.byContradiction fun none => ?_
                obtain ⟨dotless, dotted⟩ := not_or.mp none
                rw [map_foldLetter_of_undotted dotless dotted] at recognised
                exact recognised.elim finite undefined
              rcases recognised with word | word
              · exact .mk signed word dots
              · obtain ⟨dotless, dotted⟩ := not_dots_of_nan word
                exact absurd dots (not_or.mpr ⟨dotless, dotted⟩)

/-- Of the texts recognised by their letters, the words with other dots have no number. -/
theorem matchesPlain_and_unread_iff {text : List Char} :
    (matchesPlain text = true ∧ read? text = none) ↔ Misdotted text :=
  ⟨fun h => misdotted_of_matchesPlain h.1 h.2, Misdotted.matchesPlain⟩

/-- What a text counts as: plain numeric text as its number, and every other text as zero. -/
inductive CountsAs (text : List Char) : Float → Prop
  | plain {x} : PlainNumber text x → CountsAs text x
  | other : (∀ x, ¬PlainNumber text x) → CountsAs text 0

theorem countsAs_iff {text : List Char} {x : Float} :
    CountsAs text x ↔ x = (read? text).getD 0 := by
  constructor
  · rintro (plain | other)
    · rw [plain.read]; rfl
    · cases found : read? text with
      | none => rfl
      | some y => exact absurd (plainNumber_of_read? found) (other y)
  · rintro rfl
    cases found : read? text with
    | none => exact .other fun y plain => by rw [plain.read] at found; cases found
    | some y => exact .plain (plainNumber_of_read? found)

end Number

namespace Value

open Number

theorem toNumber_text (s : String) :
    (text s).toNumber =
      if matchesPlain s.toList = true ∧ read? s.toList = none then .error ⟨s⟩
      else .ok ((read? s.toList).getD 0) := by
  rw [toNumber]
  cases found : read? s.toList with
  | none => cases matchesPlain s.toList <;> rfl
  | some x => simp [matchesPlain_of_read? found]

/-- A text counts as the number it spells, or as zero, unless it is a word for infinity with other
dots than the plain letters have. Such a word alone is recognised by its letters and still has no
number, and so it is refused. -/
theorem toNumber_countsAs_iff (s : String) :
    ((∃ x, (text s).toNumber = .ok x ∧ CountsAs s.toList x) ↔ ¬Misdotted s.toList) ∧
      ((matchesPlain s.toList = true → ∃ x, read? s.toList = some x) ↔ ¬Misdotted s.toList) ∧
      (Misdotted s.toList → (text s).toNumber = .error ⟨s⟩) := by
  rw [toNumber_text, ← matchesPlain_and_unread_iff]
  refine ⟨⟨?_, fun counted => ?_⟩, ?_, fun refused => if_pos refused⟩
  · rintro ⟨x, counted, -⟩ refused
    rw [if_pos refused] at counted
    cases counted
  · exact ⟨_, if_neg counted, countsAs_iff.mpr rfl⟩
  · rw [not_and, ← Option.isSome_iff_exists, Option.isSome_iff_ne_none]

theorem toNumber_dotless_inf :
    matchesPlain "ınf".toList = true ∧ ¬∃ x, (text "ınf").toNumber = .ok x := by
  refine ⟨by decide, ?_⟩
  rw [toNumber_text, if_pos (by decide)]
  nofun

theorem toNumber_signed_dotless_infinity : (text "-ınfinİty").toNumber = .error ⟨"-ınfinİty"⟩ := by
  have misdotted : Misdotted (['-'] ++ "ınfinİty".toList) := .mk .minus (by decide) (by decide)
  exact (toNumber_countsAs_iff "-ınfinİty").2.2 misdotted

end Value

end SlangScript
