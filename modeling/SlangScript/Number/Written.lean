import SlangScript.Number.Shortest

/-!
The written form of a number: its shortest decimal, with a point or with an exponent.
-/

namespace SlangScript.Number

/-- How a decimal is laid out: the least power of ten of a leading digit that is written with a
point, the least one above that is not, and how many digits an exponent has at least. -/
structure Layout where
  least : Int
  past : Int
  exponentWidth : Nat

/-- Numbers from `0.0001` up to but not including `1e+16` are written with a point. -/
def layout : Layout := ⟨-4, 16, 2⟩

def digitsOf (n : Nat) : List Char := Nat.toDigits 10 n

def withoutTrailingZeros (digits : List Char) : List Char :=
  (digits.reverse.dropWhile (· == '0')).reverse

/-- The exponent part: a sign and at least `width` digits. -/
def exponentPart (width : Nat) (power : Int) : List Char :=
  let digits := digitsOf power.natAbs
  'e' :: (if power < 0 then '-' else '+') ::
    List.replicate (width - digits.length) '0' ++ digits

/-- Digits, the first of them worth `10 ^ power`, laid out with a point or an exponent. -/
def Layout.place (l : Layout) (digits : List Char) (power : Int) : List Char :=
  if l.least ≤ power ∧ power < l.past then
    if power < 0 then '0' :: '.' :: List.replicate (-power - 1).toNat '0' ++ digits
    else
      let before := power.toNat + 1
      let whole := digits.take before ++ List.replicate (before - digits.length) '0'
      let fraction := digits.drop before
      whole ++ '.' :: (if fraction.isEmpty then ['0'] else fraction)
  else
    let mantissa :=
      match digits with
      | [] => []
      | [d] => [d]
      | d :: more => d :: '.' :: more
    mantissa ++ exponentPart l.exponentWidth power

def writtenMagnitude (s : Scaled) : List Char :=
  if s.significand = 0 then ['0', '.', '0']
  else
    let decimal := shortest s
    let digits := digitsOf decimal.digits
    layout.place (withoutTrailingZeros digits) (decimal.exponent + digits.length - 1)

/-- The written form of a number, from which it can be read back. -/
def written (x : Float) : List Char :=
  match shape x with
  | .notANumber => "nan".toList
  | .infinite negative => (if negative then "-inf" else "inf").toList
  | .finite s => (if s.negative then ['-'] else []) ++ writtenMagnitude s

/-- The digits of a whole number, after a minus sign if it is negative. -/
def writtenInteger (n : Int) : List Char :=
  (if n < 0 then ['-'] else []) ++ digitsOf n.natAbs

/-- The form in which a program shows a number: a whole number has neither point nor exponent. -/
def displayed (x : Float) : List Char :=
  match integer? x with
  | some n => writtenInteger n
  | none => written x

end SlangScript.Number
