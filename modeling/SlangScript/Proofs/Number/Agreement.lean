import SlangScript.Proofs.Number.Bits
import SlangScript.Proofs.Number.Plain
import SlangScript.Proofs.Token.Span

/-!
Runs of digits and points. In a source text and as a text that counts as a number a run is the same
number: of decimal digits with at most one point the number that is written so, and zero with more
points, with no digit, or with a digit that has no place value. So no number of a source text has a
minus.
-/

namespace SlangScript

open Text Number

namespace Number

/-- Decimal digits of any script, at least one, with at most one point before, behind or between
them. -/
structure IsDecimalRun (run : List Char) : Prop where
  decimals : ∀ c ∈ run, isDecimal c = true ∨ c = '.'
  points : run.count '.' ≤ 1
  digit : ∃ c ∈ run, isDecimal c = true

theorem ne_point_of_isDecimal {c : Char} (h : isDecimal c = true) : c ≠ '.' := by
  rintro rfl
  exact absurd h (by decide)

/-- Between the points there are digits only. -/
theorem exists_places {text : List Char} (decimals : ∀ c ∈ text, isDecimal c = true ∨ c = '.')
    (none : '.' ∉ text) : ∃ places, Digits text places := by
  induction text with
  | nil => exact ⟨[], .nil⟩
  | cons c text ih =>
      obtain ⟨here, behind⟩ := List.forall_mem_cons.mp decimals
      have decimal : isDecimal c = true := here.resolve_right fun same => none (by simp [same])
      obtain ⟨value, digit⟩ := Option.isSome_iff_exists.mp decimal
      obtain ⟨places, inside⟩ := ih behind fun member => none (.tail _ member)
      exact ⟨value :: places, .cons digit inside⟩

theorem Digits.decimals {digits : List Char} {places : List Nat} (h : Digits digits places) :
    ∀ c ∈ digits, isDecimal c = true := by
  induction h with
  | nil => exact nofun
  | cons digit _ ih => exact List.forall_mem_cons.mpr ⟨by rw [isDecimal, digit]; rfl, ih⟩

theorem Digits.exists_mem {digits : List Char} {places : List Nat} (h : Digits digits places)
    (some : places ≠ []) : ∃ c ∈ digits, isDecimal c = true := by
  cases h with
  | nil => exact absurd rfl some
  | @cons c _ _ _ digit _ => exact ⟨c, List.mem_cons_self, by rw [isDecimal, digit]; rfl⟩

theorem Digits.count_point {digits : List Char} {places : List Nat} (h : Digits digits places) :
    digits.count '.' = 0 :=
  List.count_eq_zero.mpr fun member => ne_point_of_isDecimal (h.decimals '.' member) rfl

theorem Digits.eq_nil {digits : List Char} (h : Digits digits []) : digits = [] := by
  cases h
  rfl

theorem Fraction.decimals {text : List Char} {places : List Nat} (h : Fraction text places) :
    (∀ c ∈ text, isDecimal c = true ∨ c = '.') ∧ text.count '.' ≤ 1 ∧
      (places ≠ [] → ∃ c ∈ text, isDecimal c = true) := by
  cases h with
  | absent => exact ⟨nofun, by simp, absurd rfl⟩
  | point digits =>
      refine ⟨?_, ?_, fun some => ?_⟩
      · exact List.forall_mem_cons.mpr ⟨.inr rfl, fun c member => .inl (digits.decimals c member)⟩
      · exact Nat.le_of_eq (by rw [List.count_cons_self, digits.count_point])
      · obtain ⟨c, member, decimal⟩ := digits.exists_mem some
        exact ⟨c, .tail _ member, decimal⟩

theorem IsDecimalRun.spelt {run : List Char} (h : IsDecimalRun run) :
    ∃ whole fraction, Spelt run ⟨whole, fraction, 0⟩ := by
  obtain ⟨front, behind, rfl, before, ends⟩ := exists_up_to '.' run
  obtain ⟨left, right⟩ := List.forall_mem_append.mp h.decimals
  obtain ⟨whole, digits⟩ := exists_places left before
  obtain ⟨fraction, behind'⟩ : ∃ fraction, Fraction behind fraction := by
    cases behind with
    | nil => exact ⟨[], .absent⟩
    | cons c back =>
        obtain rfl := ends c rfl
        have once : '.' ∉ back := by
          have points := h.points
          rw [List.count_append, List.count_cons_self] at points
          exact List.count_eq_zero.mp (by omega)
        obtain ⟨fraction, digits'⟩ := exists_places (List.forall_mem_cons.mp right).2 once
        exact ⟨fraction, .point digits'⟩
  have some : whole ++ fraction ≠ [] := by
    intro none
    obtain ⟨rfl, rfl⟩ := List.append_eq_nil_iff.mp none
    obtain ⟨c, member, decimal⟩ := h.digit
    rw [digits.eq_nil, List.nil_append] at member
    cases behind' with
    | absent => cases member
    | point digits' =>
        rw [digits'.eq_nil] at member
        exact ne_point_of_isDecimal decimal (List.mem_singleton.mp member)
  have spelt : Spelt _ ⟨whole, fraction, 0⟩ := .mk digits behind' some .absent
  rw [List.append_nil] at spelt
  exact ⟨whole, fraction, spelt⟩

/-! ## What a run counts as -/

section

variable {run : List Char} (inside : ∀ c ∈ run, isNumeralChar c = true)

include inside

theorem isDecimalRun_of_spelt {numeral : Numeral} (h : Spelt run numeral) : IsDecimalRun run := by
  obtain ⟨places, places', exponent⟩ := numeral
  cases h with
  | @mk whole fraction _ _ digits behind some power =>
      cases power with
      | mark mark _ =>
          rcases mark with rfl | rfl
          · exact absurd (inside 'e' (by simp)) (by decide)
          · exact absurd (inside 'E' (by simp)) (by decide)
      | absent =>
          obtain ⟨decimals, points, mem⟩ := behind.decimals
          rw [List.append_nil]
          constructor
          · refine List.forall_mem_append.mpr ⟨fun c member => ?_, decimals⟩
            exact .inl (digits.decimals c member)
          · rwa [List.count_append, digits.count_point, Nat.zero_add]
          · by_cases none : places = []
            · obtain ⟨c, member, decimal⟩ := mem (by rwa [none] at some)
              exact ⟨c, List.mem_append_right _ member, decimal⟩
            · obtain ⟨c, member, decimal⟩ := digits.exists_mem none
              exact ⟨c, List.mem_append_left _ member, decimal⟩

/-- A run has neither a sign nor an exponent, nor is it a word. -/
theorem spelt_of_plainNumber {x : Float} (h : PlainNumber run x) :
    ∃ numeral, Spelt run numeral ∧ x = numeral.value false := by
  have heads : ∀ c ∈ wordHeads, isNumeralChar c = false := by
    simp only [wordHeads, List.forall_mem_cons]
    refine ⟨?_, ?_, ?_, ?_, ?_, ?_, List.forall_mem_nil _⟩ <;> decide
  have unworded {word : List Char} (front : ∀ c ∈ word, isNumeralChar c = true) :
      ¬Worded word := by
    rintro ⟨c, rest, rfl, member⟩
    exact Bool.false_ne_true ((heads c member).symm.trans (front c List.mem_cons_self))
  cases h with
  | decimal signed spelt =>
      cases signed with
      | absent => exact ⟨_, spelt, rfl⟩
      | plus => exact absurd (inside '+' (by simp)) (by decide)
      | minus => exact absurd (inside '-' (by simp)) (by decide)
  | infinity signed word =>
      have worded := worded_of_map (fun _ => mem_wordHeads_of_toLower) (.inl word)
      exact absurd worded (unworded fun c member => inside c (List.mem_append_right _ member))
  | nan signed word =>
      have worded := worded_of_map (fun _ => mem_wordHeads_of_toLower) (.inr word)
      exact absurd worded (unworded fun c member => inside c (List.mem_append_right _ member))

/-- A number is read from a run if it is one of decimal digits, and it has no minus then. -/
theorem read?_run : (IsDecimalRun run ↔ ∃ x, read? run = some x) ∧
    ∀ x, read? run = some x → Signless x := by
  refine ⟨⟨fun decimal => ?_, ?_⟩, fun x found => ?_⟩
  · obtain ⟨whole, fraction, spelt⟩ := decimal.spelt
    exact ⟨_, read?_eq_some_iff.mpr (.decimal .absent spelt)⟩
  · rintro ⟨x, found⟩
    obtain ⟨numeral, spelt, -⟩ := spelt_of_plainNumber inside (read?_eq_some_iff.mp found)
    exact isDecimalRun_of_spelt inside spelt
  · obtain ⟨numeral, -, rfl⟩ := spelt_of_plainNumber inside (read?_eq_some_iff.mp found)
    exact signless_ofDecimal _ _

theorem not_misdotted : ¬Misdotted run := by
  rintro ⟨-, -, dots⟩
  rcases dots with member | member
  · exact absurd (inside 'ı' (List.mem_append_right _ member)) (by decide)
  · exact absurd (inside 'İ' (List.mem_append_right _ member)) (by decide)

end

end Number

theorem signless_of_denotes {slice behind : List Char} {x : Float}
    (h : Denotes slice behind (.number x)) : Signless x := by
  generalize same : Lexeme.number x = lexeme at h
  cases h with
  | word => exact absurd same (ofWord_ne_literal _ (by simp [Lexeme.kind]))
  | numeral isRun =>
      obtain rfl := Lexeme.number.inj same
      have inside := List.all_eq_true.mp isRun.2
      cases found : read? slice with
      | none => exact signless_zero
      | some y => exact (read?_run inside).2 y found
  | print | closed | unclosed | sign => cases same

/-- Wherever it stands, a run of digits and points is read as the number that it counts as: that of
a run of decimal digits, and else zero. And no number of a source text has a minus. -/
theorem readNumber_counts :
    (∀ {s : Scanner} {run behind : List Char}, s.rest = run ++ behind →
      (∀ c ∈ run, isNumeralChar c = true) → RunEnds isNumeralChar behind → ∃ x,
        s.readNumber.1.lexeme = .number x ∧ (Value.text (String.ofList run)).toNumber = .ok x ∧
        (IsDecimalRun run → read? run = some x) ∧ (¬IsDecimalRun run → x = 0)) ∧
    ∀ {source : String} {t : Token} {x : Float}, t ∈ tokenize source → t.lexeme = .number x →
      Signless x := by
  constructor
  · intro s run behind whole inside ends
    have taken : numeralAt s.rest = run := by
      rw [whole]
      exact takeWhile_of_runEnds (List.all_eq_true.mpr inside) ends
    refine ⟨(read? run).getD 0, ?_, ?_, fun decimal => ?_, fun other => ?_⟩
    · rw [Scanner.readNumber, taken]
      rfl
    · rw [Value.toNumber_text, String.toList_ofList]
      exact if_neg (mt matchesPlain_and_unread_iff.mp (not_misdotted inside))
    · obtain ⟨x, found⟩ := (read?_run inside).1.mp decimal
      rw [found]
      rfl
    · have none := mt (read?_run inside).1.mpr other
      rw [← Option.isSome_iff_exists, Option.not_isSome_iff_eq_none] at none
      rw [none]
      rfl
  · intro source t x member same
    obtain ⟨slice, behind, denotes⟩ := denoted_of_mem_tokenize member (by simp [same])
    exact signless_of_denotes (same ▸ denotes)

/-- A run of another script in front of a word, a run with a superscript, and a token. -/
theorem readNumber_counts_scripts :
    (∃ x, (Scanner.ofText "٣.٥x".toList).readNumber.1.lexeme = .number x ∧
      (Value.text "٣.٥").toNumber = .ok x ∧ IsDecimalRun "٣.٥".toList ∧
      read? "٣.٥".toList = some x) ∧
    (∃ x, (Scanner.ofText "1².".toList).readNumber.1.lexeme = .number x ∧
      (Value.text "1².").toNumber = .ok x ∧ ¬IsDecimalRun "1².".toList ∧ x = 0) ∧
    ∃ x, ⟨.number x, 1, 2⟩ ∈ tokenize "-7" ∧ Signless x := by
  refine ⟨?_, ?_, ?_⟩
  · have decimals : ∀ c ∈ "٣.٥".toList, isDecimal c = true ∨ c = '.' := by
      simp only [String.reduceToList, List.forall_mem_cons]
      exact ⟨.inl (by decide), .inr trivial, .inl (by decide), List.forall_mem_nil _⟩
    have decimal : IsDecimalRun "٣.٥".toList :=
      ⟨decimals, by decide, '٣', by decide, by decide⟩
    have ends : RunEnds isNumeralChar ['x'] := by
      rintro c ⟨⟩
      decide
    obtain ⟨x, number, counted, written, -⟩ := @readNumber_counts.1 (.ofText "٣.٥x".toList)
      "٣.٥".toList ['x'] rfl (List.all_eq_true.mp (by decide)) ends
    exact ⟨x, number, counted, decimal, written decimal⟩
  · have other : ¬IsDecimalRun "1².".toList := fun h =>
      absurd (h.decimals '²' (by decide)) (by decide)
    obtain ⟨x, number, counted, -, zero⟩ := @readNumber_counts.1 (.ofText "1².".toList)
      "1².".toList [] rfl (List.all_eq_true.mp (by decide)) nofun
    exact ⟨x, number, counted, other, zero other⟩
  · have member : (⟨.number (Numeral.value false ⟨[7], [], 0⟩), 1, 2⟩ : Token) ∈ tokenize "-7" := by
      decide
    exact ⟨_, member, readNumber_counts.2 member rfl⟩

end SlangScript
