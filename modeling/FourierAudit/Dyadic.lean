/-
The exact value of a binary64 number.

Printing and truncating are exact operations on the value that a binary64 number stands
for, so they start from a reading of its bits as a sign, a significand and a power of
two.

* `Reading.ofFloat` — the reading of a number;
* `Dyadic.scaled` — the magnitude over a power of ten, as a fraction of natural numbers;
* `Dyadic.topPlace` — the place of the leading decimal digit;
* `roundHalfEven` — the integer nearest to a fraction, a tie going to the even one.
-/
namespace FourierAudit

/-- The number `± significand * 2 ^ exponent`. -/
structure Dyadic where
  /-- Whether the sign is a minus; a zero has a sign too. -/
  negative : Bool
  /-- The significand. -/
  significand : Nat
  /-- The power of two that the significand is multiplied with. -/
  exponent : Int
deriving DecidableEq, Repr

/-- What a binary64 number stands for. -/
inductive Reading where
  /-- Not a number. -/
  | nan
  /-- An infinity. -/
  | infinite (negative : Bool)
  /-- A finite number. -/
  | finite (value : Dyadic)
deriving DecidableEq, Repr

/-- The reading of a binary64 number from its three fields. -/
def Reading.ofFloat (x : Float) : Reading :=
  let bits := x.toBits
  let negative := bits >>> 63 == 1
  let exponent := ((bits >>> 52) &&& 0x7ff).toNat
  let fraction := (bits &&& 0x000fffffffffffff).toNat
  if exponent = 2047 then
    if fraction = 0 then .infinite negative else .nan
  else if exponent = 0 then .finite ⟨negative, fraction, -1074⟩
  else .finite ⟨negative, fraction + 0x10000000000000, exponent - 1075⟩

/-- `numerator / denominator`, rounded to the nearest integer, a tie going to the even
one. -/
def roundHalfEven (numerator denominator : Nat) : Nat :=
  let quotient := numerator / denominator
  let twiceRest := 2 * (numerator % denominator)
  if denominator < twiceRest ∨ (denominator = twiceRest ∧ quotient % 2 = 1) then quotient + 1
  else quotient

namespace Dyadic

/-- `2 ^ exponent / 10 ^ place`, as a fraction of natural numbers. -/
def unit (exponent place : Int) : Nat × Nat :=
  (Nat.pow 2 exponent.toNat * Nat.pow 10 (-place).toNat,
    Nat.pow 2 (-exponent).toNat * Nat.pow 10 place.toNat)

/-- The magnitude over `10 ^ place`, as a fraction of natural numbers. -/
def scaled (d : Dyadic) (place : Int) : Nat × Nat :=
  let (numerator, denominator) := unit d.exponent place
  (d.significand * numerator, denominator)

/-- Whether the magnitude is at least `10 ^ place`. -/
def reaches (d : Dyadic) (place : Int) : Bool :=
  let (numerator, denominator) := d.scaled place
  denominator ≤ numerator

/-- The highest place from `place` on that the magnitude reaches, looking at most `steps`
places up. -/
def climb (d : Dyadic) : Nat → Int → Int
  | 0, place => place
  | steps + 1, place => if d.reaches (place + 1) then d.climb steps (place + 1) else place

/-- The place of the leading decimal digit of a magnitude that is not zero. The bit length
tells it up to one place either way, since `1233 / 4096` is the logarithm of two to the
base ten to within five millionths. -/
def topPlace (d : Dyadic) : Int :=
  d.climb 3 ((d.significand.log2 + d.exponent) * 1233 / 4096 - 1)

/-- The integer next to the number on the side of zero. -/
def truncate (d : Dyadic) : Int :=
  let magnitude := d.significand * Nat.pow 2 d.exponent.toNat / Nat.pow 2 (-d.exponent).toNat
  if d.negative then -(magnitude : Int) else magnitude

end Dyadic

/-- The integer next to a finite number on the side of zero; none for the others. -/
def truncate? (x : Float) : Option Int :=
  match Reading.ofFloat x with
  | .finite d => some d.truncate
  | _ => none

end FourierAudit
