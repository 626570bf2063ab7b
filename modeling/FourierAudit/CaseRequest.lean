/-
Cases from requests.

A request states the extents of a grid as integers or as binary64 numbers. A case is made of it
once it has three positive extents and a positive factor on the tolerances.

* `Quantity.integer` — the integer that a requested number stands for;
* `TransformCase.make` — a case from a request, or the first thing that is wrong with it;
* `TransformCase.withExtents` — a case with other extents;
* `standardCases` — the cases that are run unless others are asked for.

Design notes: a number that is not finite stands for no integer. That is a failure of its own, and
not one of the misconfigurations that a run goes on after.
-/
import FourierAudit.Failure

namespace FourierAudit

variable {R : Type} [Scalar R]

/-- The integer next to a requested number on the side of zero. -/
def Quantity.integer (q : Quantity) : Except (Failure R) Int :=
  match q.integer? with
  | some n => .ok n
  | none => .error (.notFinite q)

namespace TransformCase

/-- One extent of a request, which has to be positive. -/
def extent (requested : List Quantity) (q : Quantity) :
    Except (Failure R) { n : Nat // 0 < n } := do
  let n ← q.integer
  if h : 0 < n then return ⟨n.toNat, by omega⟩
  else throw (.misconfigured (.extents requested))

/-- A case from a request. The number of axes is looked at first, then one extent after the
other, then the factor on the tolerances. -/
def make (requested : List Quantity) (kind : TransformKind) (precision : Precision)
    (scale : R) : Except (Failure R) (TransformCase R) :=
  match requested with
  | [x, y, z] => do
    let ⟨x, hx⟩ ← extent requested x
    let ⟨y, hy⟩ ← extent requested y
    let ⟨z, hz⟩ ← extent requested z
    if hs : Scalar.lt Scalar.zero scale = true then
      .ok ⟨⟨x, y, z⟩, kind, precision, scale, ⟨hx, hy, hz⟩, hs⟩
    else .error (.misconfigured (.toleranceScale scale))
  | _ => .error (.misconfigured (.dimensionality requested.length))

/-- The same case for other extents. -/
def withExtents (c : TransformCase R) (requested : List Quantity) :
    Except (Failure R) (TransformCase R) :=
  make requested c.kind c.precision c.toleranceScale

end TransformCase

/-- The kind, the extents and the factor on the tolerances in single precision of every
standard case. -/
def standardMatrix : List (TransformKind × Triple Nat × Int) :=
  [(.complexToComplex, ⟨28, 25, 30⟩, 1),
   (.realToComplex, ⟨28, 25, 25⟩, 1),
   (.realToComplex, ⟨25, 28, 25⟩, 1),
   (.realToComplex, ⟨25, 25, 28⟩, 1),
   (.realToComplex, ⟨21, 25, 27⟩, 1),
   (.realToComplex, ⟨49, 98, 14⟩, 1),
   (.realToComplex, ⟨7, 21, 98⟩, 1),
   (.realToComplex, ⟨98, 21, 21⟩, 1),
   (.realToComplex, ⟨18, 98, 6⟩, 1),
   (.realToComplex, ⟨50, 50, 50⟩, 1),
   (.realToComplex, ⟨60, 60, 60⟩, 1),
   (.complexToComplex, ⟨64, 64, 64⟩, 1),
   (.complexToComplex, ⟨100, 140, 88⟩, 10),
   (.realToComplex, ⟨120, 243, 120⟩, 10),
   (.realToComplex, ⟨216, 216, 116⟩, 10),
   (.realToComplex, ⟨98, 98, 98⟩, 10)]

/-- The case of a line of the matrix. The factor of the large irregular grids holds in single
precision only. -/
def standardCase (precision : Precision) (line : TransformKind × Triple Nat × Int) :
    Except (Failure R) (TransformCase R) :=
  let (kind, extents, singleScale) := line
  let scale := match precision with
    | .single => singleScale
    | .double => 1
  TransformCase.make (extents.toList.map fun (n : Nat) => .whole n) kind precision
    (Scalar.ofInt scale)

def standardCases (precision : Precision) : Except (Failure R) (List (TransformCase R)) :=
  standardMatrix.mapM (standardCase precision)

end FourierAudit
