/-
The real scalars that measurements are made in.

Everything from the stimulus to the verdict of a comparison is written over one small
class of scalars, so that the same definitions can be run in binary64 and reasoned
about in exact arithmetic:

* `Scalar` — arithmetic, circle functions, the order that a tolerance is checked with,
  and the loss of storing a number in a single precision grid;
* the instance for `Float` is the arithmetic of the running program.

Design notes: the order is a Boolean test because a comparison with NaN answers no
on both sides. `Scalar.max` passes a NaN of either argument on, as a maximum that must
not hide a failed element has to.
-/
import FourierAudit.Binary32

namespace FourierAudit

/-- The arithmetic of one kind of real number. -/
class Scalar (R : Type) extends Add R, Sub R, Mul R, Div R, Neg R where
  /-- The scalar nearest to an integer. -/
  ofInt : Int → R
  /-- Half the length of the unit circle. -/
  pi : R
  cos : R → R
  sin : R → R
  abs : R → R
  /-- The test `a ≤ b`, which fails if either side is not a number. -/
  le : R → R → Bool
  isNaN : R → Bool
  /-- What is left of a number once it is stored in single precision. -/
  single : R → R

namespace Scalar

variable {R : Type} [Scalar R]

@[inline] def zero : R := ofInt 0

@[inline] def one : R := ofInt 1

/-- The test `a < b`, which fails if either side is not a number. -/
@[inline] def lt (a b : R) : Bool := le a b && !le b a

/-- The larger of two scalars, or NaN if either is NaN. -/
@[inline] def max (a b : R) : R :=
  if isNaN a then a else if isNaN b then b else if le a b then b else a

/-- The larger of two scalars, a NaN giving way to the other one. -/
@[inline] def maxNumber (a b : R) : R :=
  if isNaN a then b else if isNaN b then a else if le a b then b else a

/-- The scalar `numerator / denominator`, rounded once if both are exact. -/
@[inline] def ratio (numerator denominator : Int) : R := ofInt numerator / ofInt denominator

end Scalar

/-- Binary64 arithmetic. -/
instance : Scalar Float where
  ofInt := Float.ofInt
  pi := 3.141592653589793
  cos := Float.cos
  sin := Float.sin
  abs := Float.abs
  le a b := a ≤ b
  isNaN := Float.isNaN
  single := Binary32.nearest

end FourierAudit
