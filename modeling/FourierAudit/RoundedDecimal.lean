/-
Decimal texts with a given number of places.

The exact value of the number is rounded once, a tie going to the even last digit.

* `RoundedDecimal.fixed` — so many places after the point;
* `RoundedDecimal.scientific` — one digit, so many places after the point, and an exponent
  of at least two digits.
-/
import FourierAudit.ShortestDecimal

namespace FourierAudit.RoundedDecimal

/-- The digits of a natural number with a point before the last `places` of them. -/
def withPoint (digits places : Nat) : String :=
  let text := toString digits
  let text := ShortestDecimal.zeros (places + 1 - text.length) ++ text
  if places = 0 then text
  else
    let whole := text.length - places
    (text.take whole).toString ++ "." ++ (text.drop whole).toString

/-- A text for the magnitude of a finite number, with the sign and the texts of the other
numbers around it. -/
def signed (magnitude : Dyadic → String) (x : Float) : String :=
  match Reading.ofFloat x with
  | .nan => "nan"
  | .infinite negative => if negative then "-inf" else "inf"
  | .finite d => if d.negative then "-" ++ magnitude d else magnitude d

/-- The number rounded to so many places after the point. -/
def fixed (places : Nat) (x : Float) : String :=
  signed (fun d =>
    let (numerator, denominator) := d.scaled (-places)
    withPoint (roundHalfEven numerator denominator) places) x

/-- The digits and the exponent of a number rounded to one digit and so many places. -/
def scientificDigits (places : Nat) (d : Dyadic) : Nat × Int :=
  if d.significand = 0 then (0, 0)
  else
    let top := d.topPlace
    let (numerator, denominator) := d.scaled (top - places)
    let rounded := roundHalfEven numerator denominator
    if rounded = Nat.pow 10 (places + 1) then (Nat.pow 10 places, top + 1) else (rounded, top)

/-- The number in scientific form with so many places after the point. -/
def scientific (places : Nat) (x : Float) : String :=
  signed (fun d =>
    let (digits, exponent) := scientificDigits places d
    withPoint digits places ++ "e" ++ ShortestDecimal.exponentText exponent) x

end FourierAudit.RoundedDecimal
