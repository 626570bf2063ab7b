/-
Comparing a volume under test with its reference.

Real and imaginary components are compared separately. The error of a component is
`|expected - found| / max |expected| 1`: relative for large values, absolute for values below
one. An element is out of tolerance unless the larger error of its two components is at most
the tolerance; a NaN is passed on, and is not at most anything.

* `compare` — the result of a comparison of two volumes of the same size;
* `Comparison.passed` — whether no element is out of tolerance;
* `Comparison.location?` — where an element stands, as coordinates if there is a shape;
* `baseTolerance`, `TransformCase.tolerance` — the tolerances of the two checks of a case.

Design notes: the whole volume is looked at, whatever its first element says. The worst
element is the first whose error is NaN if there is one, and the first with the largest
error otherwise.
-/
import FourierAudit.RoundedDecimal
import FourierAudit.TransformCase

namespace FourierAudit

/-- The two checks of a case. -/
inductive Check where
  /-- The spectrum against the reference transform. -/
  | forward
  /-- The recovered samples against the stimulus. -/
  | roundTrip
deriving DecidableEq, Repr

def Check.name : Check → String
  | forward => "forward"
  | roundTrip => "round_trip"

variable {R : Type} [Scalar R]

/-- The tolerance of a check before the factor of the case. A spectrum is compared as it
comes, recovered samples after they have been scaled back to the order of one. -/
def baseTolerance (precision : Precision) (check : Check) : R :=
  match precision, check with
  | .single, .forward => Scalar.ratio 1 1000
  | .single, .roundTrip => Scalar.ratio 1 10000
  | .double, .forward => Scalar.ratio 1 1000000
  | .double, .roundTrip => Scalar.ratio 1 100000000

def TransformCase.tolerance (c : TransformCase R) (check : Check) : R :=
  baseTolerance c.precision check * c.toleranceScale

/-- What a comparison found. -/
structure Comparison (R : Type) where
  /-- The largest absolute error of a component, NaN left aside. -/
  maxAbsoluteError : R
  /-- The largest error of a component, NaN left aside. -/
  maxRelativeError : R
  tolerance : R
  /-- How many elements were compared. -/
  size : Nat
  /-- How many of them are out of tolerance. -/
  mismatches : Nat
  /-- The first element out of tolerance. -/
  firstMismatch : Option Nat
  worst : Option Nat
  worstExpected : Sample R
  worstFound : Sample R
  /-- The extents of the volumes, if locations are to be given as coordinates. -/
  shape : Option (List Int)

/-- The absolute error of an element: the larger one of its two components. -/
@[inline] def absoluteError (expected found : Sample R) : R :=
  Scalar.max (Scalar.abs (expected.re - found.re)) (Scalar.abs (expected.im - found.im))

/-- The error of a component: absolute below one, relative above. -/
@[inline] def componentError (expected found : R) : R :=
  Scalar.abs (expected - found) / Scalar.max (Scalar.abs expected) Scalar.one

/-- The error of an element: the larger one of its two components. -/
@[inline] def elementError (expected found : Sample R) : R :=
  Scalar.max (componentError expected.re found.re) (componentError expected.im found.im)

/-- The largest of some errors, NaN left aside; zero if there is none. -/
@[specialize] def largest (errors : Array R) : R := errors.foldl Scalar.maxNumber Scalar.zero

/-- The first NaN of some errors if there is one, the first of the largest otherwise. -/
@[specialize] def worstPlace? (errors : Array R) : Option Nat :=
  let most := largest errors
  match errors.findIdx? Scalar.isNaN with
  | some i => some i
  | none => errors.findIdx? (Scalar.le most)

/-- The comparison of two volumes; none if they differ in size. -/
@[specialize] def compare? (expected found : Volume R) (tolerance : R)
    (shape : Option (List Int)) : Option (Comparison R) :=
  if expected.size = found.size then
    let errors := Array.zipWith elementError expected found
    let worst := worstPlace? errors
    some {
      maxAbsoluteError := largest (Array.zipWith absoluteError expected found)
      maxRelativeError := largest errors
      tolerance
      size := expected.size
      mismatches := errors.countP fun e => !Scalar.le e tolerance
      firstMismatch := errors.findIdx? fun e => !Scalar.le e tolerance
      worst
      worstExpected := (worst.bind (expected[·]?)).getD Sample.zero
      worstFound := (worst.bind (found[·]?)).getD Sample.zero
      shape }
  else none

/-- The coordinates of a place in row-major order; the place must lie within the shape. -/
def coordinates : List Int → Int → List Int
  | [], _ => []
  | _ :: inner, place =>
    let step := inner.foldl (· * ·) 1
    place.tdiv step :: coordinates inner (place.tmod step)

/-- The place of an element, as coordinates if there is a shape. -/
inductive Location where
  /-- A place in the flat sequence. -/
  | flat (place : Int)
  /-- Coordinates in a shape. -/
  | grid (point : List Int)
deriving DecidableEq, Repr

def Location.text : Location → String
  | flat place => toString place
  | grid point => integerTuple point

namespace Comparison

omit [Scalar R]

def passed (c : Comparison R) : Bool := c.mismatches == 0

/-- Where a place of the compared sequences lies; none if it lies outside the shape, or if the
shape is none that an array can have. -/
def location? (c : Comparison R) (place : Int) : Option Location :=
  match c.shape with
  | none => some (.flat place)
  | some shape =>
    let size := shape.foldl (· * ·) 1
    if isAddressable 1 shape ∧ isWord size ∧ 0 ≤ place ∧ place < size then
      some (.grid (coordinates shape place))
    else none

/-- The errors, the tolerance and, if an element is out of tolerance, how many are and where;
none if the locations lie outside the shape. -/
def brief? (c : Comparison Float) : Option String :=
  let errors :=
    "max. abs. error = " ++ RoundedDecimal.scientific 3 c.maxAbsoluteError ++
    ", max. rel. error = " ++ RoundedDecimal.scientific 3 c.maxRelativeError ++
    ", tolerance = " ++ RoundedDecimal.scientific 1 c.tolerance
  match c.firstMismatch, c.worst with
  | some first, some worst => do
    let first ← c.location? first
    let worst ← c.location? worst
    return errors ++ s!", {c.mismatches} of {c.size} elements out of tolerance, first at " ++
      first.text ++ ", worst at " ++ worst.text
  | _, _ => some errors

/-- The two samples at the worst element, as a remark behind the text of a failure. -/
def remark (c : Comparison Float) : String :=
  if c.passed then ""
  else
    " (expected " ++ ShortestDecimal.ofComplex c.worstExpected.re c.worstExpected.im ++
    ", found " ++ ShortestDecimal.ofComplex c.worstFound.re c.worstFound.im ++ ")"

def text? (c : Comparison Float) : Option String := c.brief?.map (· ++ c.remark)

end Comparison

end FourierAudit
