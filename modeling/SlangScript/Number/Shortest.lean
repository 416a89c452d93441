import SlangScript.Number.Nearest

/-!
The shortest decimal that reads back as a given number, and of the shortest ones the nearest. For
one digit, two digits and so on the two neighbours of the quantity on that decimal grid are tried;
a grid fine enough to hold the quantity itself ends the search.
-/

namespace SlangScript.Number

/-- The decimal `digits * 10 ^ exponent`. -/
structure Decimal where
  digits : Nat
  exponent : Int
  deriving DecidableEq, Repr

def inTens (n d : Nat) (unit : Int) : Nat × Nat :=
  (n * Nat.pow 10 (-unit).toNat, d * Nat.pow 10 unit.toNat)

/-- The exponent of the largest power of ten up to `n / d`. -/
def leadingPower (n d : Nat) : Int :=
  let guess : Int := Int.fdiv (((n.log2 : Int) - (d.log2 : Int)) * 30103) 100000
  let reaches (power : Int) : Bool := (let (a, b) := inTens n d power; decide (b ≤ a))
  if reaches (guess + 1) then guess + 1
  else if reaches guess then guess
  else guess - 1

/-- Whether a decimal reads back as the number nearest to `n / d`. -/
def readsBack (n d : Nat) (decimal : Decimal) : Bool :=
  nearestBits (decimal.digits * Nat.pow 10 decimal.exponent.toNat)
    (Nat.pow 10 (-decimal.exponent).toNat) == nearestBits n d

/-- The neighbour of `n / d` on the grid of `10 ^ unit` that reads back, the nearer one of two and
the one with an even last digit of two equally near. -/
def onGrid? (n d : Nat) (unit : Int) : Option Decimal :=
  let (a, b) := inTens n d unit
  let below : Decimal := ⟨a / b, unit⟩
  let above : Decimal := ⟨a / b + 1, unit⟩
  let nearest : Decimal := ⟨roundHalfEven a b, unit⟩
  match readsBack n d below, readsBack n d above with
  | true, true => some nearest
  | true, false => some below
  | false, true => some above
  | false, false => none

/-- What a grid gives reads back. -/
theorem readsBack_of_onGrid? {n d : Nat} {unit : Int} {decimal : Decimal}
    (h : onGrid? n d unit = some decimal) : readsBack n d decimal = true := by
  unfold onGrid? at h
  simp only at h
  split at h <;> cases h <;> try assumption
  rcases roundHalfEven_eq_or (inTens n d unit).1 (inTens n d unit).2 with eq | eq <;>
    rw [eq] <;> assumption

/-- Tries the grids from `10 ^ unit` down, as many as `tries`. -/
def searchGrids (n d : Nat) : (tries : Nat) → (unit : Int) → Option Decimal
  | 0, _ => none
  | tries + 1, unit =>
    match onGrid? n d unit with
    | some decimal => some decimal
    | none => searchGrids n d tries (unit - 1)

/-- What the search gives reads back. -/
theorem readsBack_of_searchGrids {n d tries : Nat} {unit : Int} {decimal : Decimal}
    (h : searchGrids n d tries unit = some decimal) : readsBack n d decimal = true := by
  induction tries generalizing unit with
  | zero => simp [searchGrids] at h
  | succ tries ih =>
    unfold searchGrids at h
    split at h
    · next found =>
      cases h
      exact readsBack_of_onGrid? found
    · exact ih h

/-- The shortest decimal that reads back as the magnitude of `s`; seventeen digits always do. -/
def shortest (s : Scaled) : Decimal :=
  let n := s.numerator
  let d := s.denominator
  (searchGrids n d 17 (leadingPower n d)).getD
    ⟨n * Nat.pow 5 (-s.exponent).toNat, min s.exponent 0⟩

end SlangScript.Number
