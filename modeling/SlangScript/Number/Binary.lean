/-!
Numbers as exact quantities. A finite number is a whole significand times a power of two, so it is
also a quotient of two natural numbers; `shape` takes a number apart, and the rest of the library
computes with the quotient wherever a result has to be exact.
-/

namespace SlangScript.Number

/-- The finite quantity `significand * 2 ^ exponent`, with a sign that zero has too. -/
structure Scaled where
  negative : Bool
  significand : Nat
  exponent : Int
  deriving DecidableEq, Repr

/-- The quotient `numerator / denominator` is the magnitude. -/
def Scaled.numerator (s : Scaled) : Nat := s.significand * Nat.pow 2 s.exponent.toNat

def Scaled.denominator (s : Scaled) : Nat := Nat.pow 2 (-s.exponent).toNat

theorem Scaled.denominator_pos (s : Scaled) : 0 < s.denominator := Nat.pow_pos (by decide)

/-- What a number is: no number at all, infinite, or finite. -/
inductive Shape where
  | notANumber
  | infinite (negative : Bool)
  | finite (parts : Scaled)
  deriving DecidableEq, Repr

/-- How many fractions there are: they have 52 bits. -/
def fractions : Nat := 0x10000000000000

/-- How many exponents there are: they have eleven bits. -/
def exponents : Nat := 0x800

def signBit : Nat := 0x8000000000000000

/-- The shape that 64 bits stand for: a sign, eleven bits of exponent, 52 bits of fraction. -/
def shapeOfBits (bits : Nat) : Shape :=
  let negative := decide (signBit ≤ bits)
  let field : Nat := bits / fractions % exponents
  let fraction := bits % fractions
  if field = 2047 then
    if fraction = 0 then .infinite negative else .notANumber
  else if field = 0 then .finite ⟨negative, fraction, -1074⟩
  else .finite ⟨negative, fractions + fraction, (field : Int) - 1075⟩

def shape (x : Float) : Shape := shapeOfBits x.toBits.toNat

def infinity (negative : Bool) : Float :=
  Float.ofBits (if negative then 0xFFF0000000000000 else 0x7FF0000000000000)

/-- The result of what has no number as a result. -/
def notANumber : Float := Float.ofBits 0x7FF8000000000000

theorem shape_infinity (negative : Bool) : shape (infinity negative) = .infinite negative := by
  cases negative <;> decide

theorem shape_notANumber : shape notANumber = .notANumber := by decide

/-- The whole number that `x` is, if it is one; both zeros are `0`. -/
def integer? (x : Float) : Option Int :=
  match shape x with
  | .finite s =>
    if s.numerator % s.denominator = 0 then
      let magnitude : Int := (s.numerator / s.denominator : Nat)
      some (if s.negative then -magnitude else magnitude)
    else none
  | _ => none

end SlangScript.Number
