/-
The shortest decimal text of a binary64 number.

A number is written with the fewest decimal digits that read back as the same number,
and of the candidates with that many digits with the one nearest to it.

* `ShortestDecimal.ofDyadic` — the digits, and the place of the last one;
* `ShortestDecimal.text` — the text: positional while the leading digit stands at one of
  the places `-4` to `15`, scientific with an exponent of at least two digits otherwise.

Design notes: the numbers that read back as `m * 2 ^ q` form an interval around it whose
ends are the midpoints to its two neighbours; the ends belong to it when `m` is even,
because reading sends a tie to the even significand. If a decimal with `k` digits lies in
the interval, then so does one of the two neighbours of the number among the decimals
with `k` digits. So it is enough to look at those two for `k = 1, 2, …, 17`.
-/
import FourierAudit.Dyadic

namespace FourierAudit.ShortestDecimal

/-- The decimal number `digits * 10 ^ place`. -/
structure Digits where
  /-- All digits, read as one natural number. -/
  digits : Nat
  /-- The place of the last digit. -/
  place : Int
deriving DecidableEq, Repr

/-- The lower end of the interval that reads back as a number, in quarters of the unit
of its significand. Below a power of two the numbers lie twice as close. -/
def lowerQuarters (d : Dyadic) : Nat :=
  if d.significand = 0x10000000000000 ∧ -1074 < d.exponent then 4 * d.significand - 1
  else 4 * d.significand - 2

/-- The upper end of the interval that reads back as a number, in quarters. -/
def upperQuarters (d : Dyadic) : Nat := 4 * d.significand + 2

/-- Whether `digits` units of `10 ^ place` read back as `d`, where a quarter of the unit of
`d` is `numerator / denominator` of `10 ^ place`. -/
def readsBack (d : Dyadic) (numerator denominator digits : Nat) : Bool :=
  let low := lowerQuarters d * numerator
  let high := upperQuarters d * numerator
  let candidate := digits * denominator
  if d.significand % 2 = 0 then low ≤ candidate && candidate ≤ high
  else low < candidate && candidate < high

/-- The multiple of `10 ^ place` nearest to `d` that reads back as `d`, if there is one. -/
def atPlace? (d : Dyadic) (place : Int) : Option Digits :=
  let (numerator, denominator) := Dyadic.unit (d.exponent - 2) place
  let exact := 4 * d.significand * numerator
  let below := exact / denominator
  let belowHit := readsBack d numerator denominator below
  let aboveHit := readsBack d numerator denominator (below + 1)
  if belowHit && aboveHit then some ⟨roundHalfEven exact denominator, place⟩
  else if belowHit then some ⟨below, place⟩
  else if aboveHit then some ⟨below + 1, place⟩
  else none

/-- The fewest digits that read back as a number that is not zero. Seventeen are always
enough. The search starts above the leading digit, for a number just below a power of
ten that the power reads back as. -/
def ofDyadic (d : Dyadic) : Digits :=
  let top := d.topPlace
  match (List.range 18).findSome? fun (k : Nat) => atPlace? d (top + 1 - k) with
  | some digits => digits
  | none =>
    let (numerator, denominator) := d.scaled (top - 17)
    ⟨roundHalfEven numerator denominator, top - 17⟩

/-- How integral numbers end. -/
inductive Ending where
  /-- A positional text without fraction ends in `.0`. -/
  | pointZero
  /-- A positional text without fraction is that of the integer. -/
  | bare
deriving DecidableEq, Repr

/-- The text that ends a positional number without fraction. -/
def Ending.text : Ending → String
  | pointZero => ".0"
  | bare => ""

/-- A decimal exponent: its sign, and at least two digits. -/
def exponentText (exponent : Int) : String :=
  let digits := toString exponent.natAbs
  let sign := if exponent < 0 then "-" else "+"
  sign ++ (if digits.length < 2 then "0" ++ digits else digits)

def zeros (n : Nat) : String := String.ofList (List.replicate n '0')

/-- The text of a decimal number, positional while the leading digit stands at one of the
places `-4` to `15`. -/
def Digits.text (ending : Ending) (d : Digits) : String :=
  let digits := toString d.digits
  let leading : Int := d.place + digits.length - 1
  if -4 ≤ leading ∧ leading < 16 then
    if 0 ≤ d.place then digits ++ zeros d.place.toNat ++ ending.text
    else if 0 ≤ leading then
      (digits.take (leading + 1).toNat).toString ++ "." ++
        (digits.drop (leading + 1).toNat).toString
    else "0." ++ zeros (-leading - 1).toNat ++ digits
  else
    let fraction := (digits.drop 1).toString
    (digits.take 1).toString ++ (if fraction.isEmpty then "" else "." ++ fraction) ++ "e" ++
      exponentText leading

/-- The shortest text that reads back as the number. -/
def text (ending : Ending) (x : Float) : String :=
  match Reading.ofFloat x with
  | .nan => "nan"
  | .infinite negative => if negative then "-inf" else "inf"
  | .finite d =>
    let magnitude :=
      if d.significand = 0 then "0" ++ ending.text else (ofDyadic d).text ending
    if d.negative then "-" ++ magnitude else magnitude

/-- The shortest text of a number that shows that it is no integer. -/
def ofFloat (x : Float) : String := text .pointZero x

/-- The text of a complex number: both shortest texts in parentheses, or the imaginary one
alone if the real component is a zero without a minus sign. -/
def ofComplex (re im : Float) : String :=
  let imaginary := text .bare im ++ "j"
  if re.toBits == 0 then imaginary
  else
    let signed := if imaginary.startsWith "-" then imaginary else "+" ++ imaginary
    "(" ++ text .bare re ++ signed ++ ")"

end FourierAudit.ShortestDecimal
