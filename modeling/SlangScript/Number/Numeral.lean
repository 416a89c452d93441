import SlangScript.Text.Digit
import SlangScript.Number.Nearest

/-!
Numerals. Plain numeric text is an optional sign followed by a decimal, with an optional point and
an optional exponent, or by one of the words `inf`, `infinity` and `nan`. The digits may be those
of any script. `matchesPlain` recognises the form in any letter case, where the dotless and the
dotted i count as an i; `read?` gives the number, and knows the words in plain letters only.
-/

namespace SlangScript.Number

open SlangScript.Text

/-- The place values of the decimal digits at the front of a text, and the rest of it. -/
def takeDigits : List Char → List Nat × List Char
  | [] => ([], [])
  | c :: rest =>
    match decimalValue? c with
    | some value => let (values, rest) := takeDigits rest; (value :: values, rest)
    | none => ([], c :: rest)

/-- The number that place values stand for. -/
def ofPlaces (values : List Nat) : Nat := values.foldl (fun n value => n * 10 + value) 0

/-- The exponent that makes up the whole text: digits after an optional sign. -/
def readExponent? (text : List Char) : Option Int :=
  let (negative, digits) :=
    match text with
    | '-' :: rest => (true, rest)
    | '+' :: rest => (false, rest)
    | _ => (false, text)
  match takeDigits digits with
  | ([], _) => none
  | (values, []) => some (if negative then -(ofPlaces values : Int) else ofPlaces values)
  | (_, _ :: _) => none

/-- A decimal numeral without sign: the digits before and after the point, and the exponent. -/
structure Numeral where
  whole : List Nat
  fraction : List Nat
  exponent : Int
  deriving DecidableEq, Repr

/-- The decimal numeral that makes up the whole text. -/
def readNumeral? (text : List Char) : Option Numeral :=
  let (whole, rest) := takeDigits text
  let (fraction, rest) :=
    match rest with
    | '.' :: rest => takeDigits rest
    | _ => ([], rest)
  if whole.isEmpty && fraction.isEmpty then none
  else
    match rest with
    | [] => some ⟨whole, fraction, 0⟩
    | c :: rest =>
      if c = 'e' ∨ c = 'E' then (readExponent? rest).map fun power => ⟨whole, fraction, power⟩
      else none

/-- The number nearest to a numeral, or to its negative. -/
def Numeral.value (negative : Bool) (numeral : Numeral) : Float :=
  ofDecimal negative (ofPlaces (numeral.whole ++ numeral.fraction))
    (numeral.exponent - numeral.fraction.length)

/-- A text without the sign before it, and whether that is a minus. -/
def splitSign : List Char → Bool × List Char
  | '-' :: rest => (true, rest)
  | '+' :: rest => (false, rest)
  | text => (false, text)

def infinityWords : List (List Char) := ["inf".toList, "infinity".toList]

def nanWord : List Char := "nan".toList

/-- Letter case is ignored in the words, and every i counts as an i, with or without a dot. -/
def foldLetter (c : Char) : Char :=
  if c.toNat = 0x130 ∨ c.toNat = 0x131 then 'i' else c.toLower

def matchesPlain (text : List Char) : Bool :=
  let (_, body) := splitSign text
  let word := body.map foldLetter
  (readNumeral? body).isSome || infinityWords.contains word || word == nanWord

def read? (text : List Char) : Option Float :=
  let (negative, body) := splitSign text
  match readNumeral? body with
  | some numeral => some (numeral.value negative)
  | none =>
    let word := body.map Char.toLower
    if infinityWords.contains word then some (infinity negative)
    else if word = nanWord then some notANumber
    else none

/-- Letters below the dotted i have one lower-case form in both senses. -/
theorem foldLetter_eq_toLower {c : Char} (h : c.toLower.toNat < 0x130) :
    foldLetter c = c.toLower := by
  unfold foldLetter
  split
  · next dotted =>
    have same : c.toLower = c := by
      rcases dotted with h | h <;>
        (have : c = Char.ofNat c.toNat := (Char.ofNat_toNat c).symm
         rw [h] at this
         subst this
         decide)
    rw [same] at h
    omega
  · rfl

theorem map_foldLetter {body word : List Char} (h : body.map Char.toLower = word)
    (plain : ∀ c ∈ word, c.toNat < 0x130) : body.map foldLetter = word := by
  subst h
  refine List.map_congr_left fun c mem => foldLetter_eq_toLower ?_
  exact plain _ (List.mem_map_of_mem mem)

/-- Every text that a number is read from is plain numeric text. -/
theorem matchesPlain_of_read? {text : List Char} {x : Float} (h : read? text = some x) :
    matchesPlain text = true := by
  unfold read? at h
  unfold matchesPlain
  simp only at h
  split at h
  · next numeral found => simp [found]
  · split at h
    · next mem =>
      have plain : ∀ word ∈ infinityWords, ∀ c ∈ word, c.toNat < 0x130 := by simp [infinityWords]
      have mem := List.contains_iff_mem.1 mem
      simp [map_foldLetter rfl (plain _ mem), mem]
    · split at h
      · next isNan =>
        have plain : ∀ c ∈ nanWord, c.toNat < 0x130 := by simp [nanWord]
        simp [map_foldLetter isNan plain]
      · simp at h

end SlangScript.Number
