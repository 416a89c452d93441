import SlangScript.Number.Binary

/-!
The nearest number to a quotient. Of two equally near numbers the one with an even significand is
taken; a quotient too large for every finite number gives infinity.
-/

namespace SlangScript.Number

/-- The whole number nearest to `n / d`, the even one of two. -/
def roundHalfEven (n d : Nat) : Nat :=
  let whole := n / d
  let doubled := 2 * (n % d)
  if doubled < d then whole
  else if d < doubled then whole + 1
  else whole + whole % 2

/-- What is rounded off is at most half a unit, either way. -/
theorem roundHalfEven_near {n d : Nat} (pos : 0 < d) :
    2 * (d * roundHalfEven n d) ≤ 2 * n + d ∧ 2 * n ≤ 2 * (d * roundHalfEven n d) + d := by
  have split_n : d * (n / d) + n % d = n := Nat.div_add_mod n d
  have small : n % d < d := Nat.mod_lt n pos
  have step : d * (n / d + 1) = d * (n / d) + d := Nat.mul_succ d (n / d)
  unfold roundHalfEven
  simp only
  split
  · omega
  split
  · rw [step]; omega
  · have parity : n / d % 2 = 0 ∨ n / d % 2 = 1 := by omega
    rcases parity with h | h
    · rw [h, Nat.add_zero]; omega
    · rw [h, step]; omega

/-- The whole part, or the next number up. -/
theorem roundHalfEven_eq_or (n d : Nat) :
    roundHalfEven n d = n / d ∨ roundHalfEven n d = n / d + 1 := by
  unfold roundHalfEven
  simp only
  split
  · exact .inl rfl
  split
  · exact .inr rfl
  · omega

def inUnits (n d : Nat) (unit : Int) : Nat × Nat :=
  (n * Nat.pow 2 (-unit).toNat, d * Nat.pow 2 unit.toNat)

/-- The exponent of the unit in which the nearest number to `n / d` is whole: the quotient has 53
bits before the point in it, or fewer in the least unit there is. -/
def unitOf (n d : Nat) : Int :=
  let guess : Int := max ((n.log2 : Int) - (d.log2 : Int) - 53) (-1074)
  let (a, b) := inUnits n d guess
  if 2 * fractions * b ≤ a then guess + 1 else guess

/-- The bits of the positive number nearest to `n / d`. Counting from the least unit up, the bits
of neighbours are neighbours, so a significand that rounds up to a power of two carries. -/
def nearestBits (n d : Nat) : Nat :=
  if n = 0 then 0
  else
    let unit := unitOf n d
    let (a, b) := inUnits n d unit
    min ((unit + 1074).toNat * fractions + roundHalfEven a b) (2047 * fractions)

/-- The number nearest to `n / d`, or to its negative. -/
def ofRatio (negative : Bool) (n d : Nat) : Float :=
  Float.ofBits (UInt64.ofNat ((if negative then signBit else 0) + nearestBits n d))

/-- Past this power of ten, either way, every quantity is infinite or zero. -/
def decimalReach : Nat := 400

/-- The number nearest to `digits * 10 ^ exponent`, or to its negative. A quantity beyond all
numbers is found so without building the power. -/
def ofDecimal (negative : Bool) (digits : Nat) (exponent : Int) : Float :=
  if digits = 0 then ofRatio negative 0 1
  else if (decimalReach : Int) < exponent then
    ofRatio negative (Nat.pow 10 decimalReach) 1
  else if exponent + digits.log2 + 1 < -(decimalReach : Int) then ofRatio negative 0 1
  else ofRatio negative (digits * Nat.pow 10 exponent.toNat) (Nat.pow 10 (-exponent).toNat)

/-- The remainder of a division toward zero, which is exact and has the sign of `x`; `y` is not
zero and `x` is finite, else there is none and the answer is no number. -/
def remainder (x y : Float) : Float :=
  match shape x, shape y with
  | .finite a, .infinite _ => ofRatio a.negative a.numerator a.denominator
  | .finite a, .finite b =>
    if b.significand = 0 then notANumber
    else
      let unit := min a.exponent b.exponent
      let left := a.significand * Nat.pow 2 (a.exponent - unit).toNat
      let right := b.significand * Nat.pow 2 (b.exponent - unit).toNat
      let rest : Scaled := ⟨a.negative, left % right, unit⟩
      ofRatio rest.negative rest.numerator rest.denominator
  | _, _ => notANumber

end SlangScript.Number
