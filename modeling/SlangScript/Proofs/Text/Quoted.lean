import SlangScript.Text.Quoted

/-!
Quoted texts can be told apart wherever they stand: a quoted text is no longer than what can be read
of it from its first quote on, and that gives the text. It has no line break in it.
-/

namespace SlangScript.Text.Quoted

/-! ## Reading a character back -/

def hexValue (c : Char) : Nat := if c.toNat < 97 then c.toNat - 48 else c.toNat - 87

/-- The number that hexadecimal digits stand for. -/
def readHex (digits : List Char) : Nat := digits.foldl (fun n c => n * 16 + hexValue c) 0

/-- How many hexadecimal digits follow a letter behind a backslash. -/
def escapeWidth? : Char → Option Nat
  | 'x' => some 2
  | 'u' => some 4
  | 'U' => some 8
  | _ => none

/-- What another character behind a backslash stands for. -/
def unescape : Char → Char
  | 'n' => '\n'
  | 'r' => '\r'
  | 't' => '\t'
  | c => c

/-- The character at the front of the inside of a quoted text, and what comes behind it. -/
def decodeChar? : List Char → Option (Char × List Char)
  | [] => none
  | c :: rest =>
    if c = '\\' then
      match rest with
      | [] => none
      | mark :: rest =>
        match escapeWidth? mark with
        | some width => some (Char.ofNat (readHex (rest.take width)), rest.drop width)
        | none => some (unescape mark, rest)
    else some (c, rest)

theorem hexValue_hexDigit : ∀ n < 16, hexValue (hexDigit n) = n := by decide

theorem length_hexDigits (width n : Nat) : (hexDigits width n).length = width := by
  induction width generalizing n with
  | zero => rfl
  | succ width ih => rw [hexDigits, List.length_append, ih, List.length_singleton]

theorem readHex_hexDigits {width n : Nat} (h : n < Nat.pow 16 width) :
    readHex (hexDigits width n) = n := by
  induction width generalizing n with
  | zero => exact (Nat.lt_one_iff.mp h).symm
  | succ width ih =>
      have front : n / 16 < Nat.pow 16 width := Nat.div_lt_of_lt_mul (by rwa [Nat.mul_comm])
      have digit := hexValue_hexDigit (n % 16) (Nat.mod_lt n (by decide))
      have read := ih front
      rw [readHex] at read ⊢
      rw [hexDigits, List.foldl_append, read, List.foldl_cons, List.foldl_nil, digit]
      omega

theorem decodeChar?_of_width {mark : Char} {width n : Nat} (known : escapeWidth? mark = some width)
    (short : n < Nat.pow 16 width) (rest : List Char) :
    decodeChar? ('\\' :: mark :: (hexDigits width n ++ rest)) = some (Char.ofNat n, rest) := by
  have length := length_hexDigits width n
  rw [decodeChar?, if_pos rfl]
  simp only [known]
  rw [List.take_left' length, List.drop_left' length, readHex_hexDigits short]

theorem decodeChar?_codeEscape (c : Char) (rest : List Char) :
    decodeChar? (codeEscape c.toNat ++ rest) = some (c, rest) := by
  have valid : c.toNat < Nat.pow 16 8 := Nat.lt_of_lt_of_le c.val.toNat_lt (by decide)
  have same := Char.ofNat_toNat c
  unfold codeEscape
  split
  · next short => exact (decodeChar?_of_width rfl short rest).trans (by rw [same])
  split
  · next middle => exact (decodeChar?_of_width rfl middle rest).trans (by rw [same])
  · exact (decodeChar?_of_width rfl valid rest).trans (by rw [same])

/-- The two quotes. -/
def IsQuote (quote : Char) : Prop := quote = '\x27' ∨ quote = '\x22'

theorem isQuote_quoteOf (text : List Char) : IsQuote (quoteOf text) := by
  unfold quoteOf
  split
  · exact .inr rfl
  · exact .inl rfl

/-- What is written for a character is read back as that character, whatever comes behind it. -/
theorem decodeChar?_encodeChar {quote : Char} (isQuote : IsQuote quote) (c : Char)
    (rest : List Char) : decodeChar? (encodeChar quote c ++ rest) = some (c, rest) := by
  unfold encodeChar
  split
  · next special =>
      have unmarked : escapeWidth? c = none ∧ unescape c = c := by
        rcases special with rfl | rfl
        · rcases isQuote with rfl | rfl <;> exact ⟨rfl, rfl⟩
        · exact ⟨rfl, rfl⟩
      rw [List.cons_append, List.cons_append, List.nil_append, decodeChar?, if_pos rfl]
      simp only [unmarked]
  · next plain =>
      obtain ⟨-, backslash⟩ := not_or.mp plain
      split
      · next same => rw [same]; rfl
      split
      · next same => rw [same]; rfl
      split
      · next same => rw [same]; rfl
      split
      · exact if_neg backslash
      · exact decodeChar?_codeEscape c rest

/-- What is written for a character does not start with the quote. -/
theorem exists_encodeChar {quote : Char} (isQuote : IsQuote quote) (c : Char) :
    ∃ first rest, encodeChar quote c = first :: rest ∧ first ≠ quote := by
  have backslash : '\\' ≠ quote := by
    rcases isQuote with rfl | rfl <;> decide
  unfold encodeChar
  split
  · exact ⟨_, _, rfl, backslash⟩
  · next plain =>
      obtain ⟨other, -⟩ := not_or.mp plain
      split
      · exact ⟨_, _, rfl, backslash⟩
      split
      · exact ⟨_, _, rfl, backslash⟩
      split
      · exact ⟨_, _, rfl, backslash⟩
      split
      · exact ⟨_, _, rfl, other⟩
      · unfold codeEscape
        split
        · exact ⟨_, _, rfl, backslash⟩
        split
        · exact ⟨_, _, rfl, backslash⟩
        · exact ⟨_, _, rfl, backslash⟩

/-! ## Texts -/

theorem flatMap_append_inj {quote : Char} (isQuote : IsQuote quote) {text text' rest rest' : List Char}
    (h : text.flatMap (encodeChar quote) ++ quote :: rest =
      text'.flatMap (encodeChar quote) ++ quote :: rest') : text = text' ∧ rest = rest' := by
  induction text generalizing text' with
  | nil =>
      cases text' with
      | nil => exact ⟨rfl, (List.cons.inj h).2⟩
      | cons c text' =>
          obtain ⟨first, more, same, other⟩ := exists_encodeChar isQuote c
          rw [List.flatMap_cons, same] at h
          exact absurd (List.cons.inj h).1.symm other
  | cons c text ih =>
      cases text' with
      | nil =>
          obtain ⟨first, more, same, other⟩ := exists_encodeChar isQuote c
          rw [List.flatMap_cons, same] at h
          exact absurd (List.cons.inj h).1 other
      | cons d text' =>
          rw [List.flatMap_cons, List.flatMap_cons, List.append_assoc, List.append_assoc] at h
          have read := congrArg decodeChar? h
          rw [decodeChar?_encodeChar isQuote, decodeChar?_encodeChar isQuote] at read
          obtain ⟨rfl, behind⟩ := Prod.mk.inj (Option.some.inj read)
          obtain ⟨rfl, rest⟩ := ih behind
          exact ⟨rfl, rest⟩

/-- A quoted text is found at the front of any text. -/
theorem encode_append_inj {text text' rest rest' : List Char}
    (h : encode text ++ rest = encode text' ++ rest') : text = text' ∧ rest = rest' := by
  unfold encode at h
  simp only [List.cons_append, List.append_assoc, List.nil_append] at h
  obtain ⟨quote, behind⟩ := List.cons.inj h
  rw [← quote] at behind
  exact flatMap_append_inj (isQuote_quoteOf text) behind

theorem mem_hexDigits {width n : Nat} {c : Char} (h : c ∈ hexDigits width n) :
    ∃ d < 16, c = hexDigit d := by
  induction width generalizing n with
  | zero => cases h
  | succ width ih =>
      rw [hexDigits] at h
      rcases List.mem_append.mp h with front | last
      · exact ih front
      · exact ⟨n % 16, Nat.mod_lt n (by decide), List.mem_singleton.mp last⟩

theorem newline_not_mem_codeEscape (n : Nat) : '\n' ∉ codeEscape n := by
  have digits (width : Nat) : '\n' ∉ hexDigits width n := by
    intro member
    obtain ⟨d, small, same⟩ := mem_hexDigits member
    have other : ∀ d < 16, '\n' ≠ hexDigit d := by decide
    exact other d small same
  unfold codeEscape
  split
  · simpa using digits 2
  split
  · simpa using digits 4
  · simpa using digits 8

theorem newline_not_mem_encode (text : List Char) : '\n' ∉ encode text := by
  have quote : '\n' ≠ quoteOf text := by
    rcases isQuote_quoteOf text with same | same <;> rw [same] <;> decide
  have char (c : Char) : '\n' ∉ encodeChar (quoteOf text) c := by
    unfold encodeChar
    split
    · next special =>
        rcases special with rfl | rfl
        · simpa using quote
        · decide
    split
    · decide
    · next other =>
        split
        · decide
        split
        · decide
        split
        · simpa [eq_comm] using other
        · exact newline_not_mem_codeEscape c.toNat
  unfold encode
  simp only [List.cons_append, List.mem_cons, List.mem_append, List.mem_flatMap, List.not_mem_nil,
    or_false, not_or, not_exists, not_and]
  exact ⟨quote, fun c _ => char c, quote⟩

end SlangScript.Text.Quoted

namespace SlangScript.Text

theorem toList_quoted (text : String) : (quoted text).toList = Quoted.encode text.toList :=
  String.toList_ofList

theorem quoted_append_inj {text text' : String} {rest rest' : List Char}
    (h : (quoted text).toList ++ rest = (quoted text').toList ++ rest') :
    text = text' ∧ rest = rest' := by
  rw [toList_quoted, toList_quoted] at h
  exact (Quoted.encode_append_inj h).imp_left String.toList_inj.mp

/-- Texts that are quoted alike are the same. -/
theorem quoted_inj {text text' : String} (h : quoted text = quoted text') : text = text' := by
  have whole : (quoted text).toList ++ [] = (quoted text').toList ++ [] := by rw [h]
  exact (quoted_append_inj whole).1

end SlangScript.Text
