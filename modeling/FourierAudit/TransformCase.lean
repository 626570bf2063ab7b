/-
Transform cases.

A case is one transform to verify: the extents of its grid, real or complex input, the
precision of the grids and a factor on the tolerances.

* `TransformCase` — a case; its extents and its factor are positive;
* `TransformCase.points` — the grid points as a machine word counts them;
* `Misconfiguration` — what may keep a case, or a run, from being set up.

Design notes: a case is checked once, where it is made. Everything that has a case at hand
has positive extents.
-/
import FourierAudit.Extents
import FourierAudit.Precision
import FourierAudit.Quantity

namespace FourierAudit

/-- What a request asks for that cannot be set up. -/
inductive Misconfiguration (R : Type) where
  | unknownPrecision (name : String)
  /-- A case with another number of axes than three. -/
  | dimensionality (axes : Nat)
  /-- A case with an extent below one. -/
  | extents (requested : List Quantity)
  /-- A case with a factor on the tolerances that is not positive. -/
  | toleranceScale (requested : R)
  /-- Radices of which one is below two, in increasing order. -/
  | radices (sorted : List Int)
  /-- No extent from the minimum up to the ceiling is legal. -/
  | noLegalExtent (minimum : Quantity) (ceiling : Int)

def Misconfiguration.message : Misconfiguration Float → String
  | unknownPrecision name => s!"Unknown precision '{name}'. Use 'single' or 'double'."
  | dimensionality axes => s!"{axes}-d transforms are not supported"
  | extents requested =>
    "Grid extents must be positive, got " ++ tupleText (requested.map Quantity.text)
  | toleranceScale requested =>
    "Tolerance scale must be positive, got " ++ ShortestDecimal.ofFloat requested
  | radices sorted => "Radices must be integers larger than 1, got " ++ integerTuple sorted
  | noLegalExtent minimum ceiling =>
    "No legal dimension found between " ++ minimum.text ++ s!" and {ceiling}"

def Precision.parse {R : Type} (name : String) : Except (Misconfiguration R) Precision :=
  match Precision.parse? name with
  | some precision => .ok precision
  | none => .error (.unknownPrecision name)

/-- One transform to verify. -/
structure TransformCase (R : Type) [Scalar R] where
  extents : Triple Nat
  /-- Real or complex input. -/
  kind : TransformKind
  precision : Precision
  /-- The factor on the tolerances of the comparisons. -/
  toleranceScale : R
  extents_pos : 0 < extents.x ∧ 0 < extents.y ∧ 0 < extents.z
  /-- The factor is a positive number or infinite. -/
  toleranceScale_pos : Scalar.lt Scalar.zero toleranceScale = true

namespace TransformCase

variable {R : Type} [Scalar R]

def dims (c : TransformCase R) : List Nat := c.extents.toList

/-- The number of grid points as a machine word counts it. -/
def points (c : TransformCase R) : Int := wordProduct (c.dims.map Int.ofNat)

/-- The extent of the fastest axis of the spectrum. -/
def packedDepth (c : TransformCase R) : Nat := c.kind.packedDepth c.extents.z

/-- The number of elements of the spectrum, exactly. -/
def outputPoints (c : TransformCase R) : Nat := (c.kind.packed c.extents).volume

/-- The line that names a case. -/
def text (c : TransformCase R) : String :=
  let flag := match c.kind with
    | .complexToComplex => 0
    | .realToComplex => 1
  s!"realToComplex: {flag} xsize: {c.extents.x} ysize: {c.extents.y} zsize: {c.extents.z}"

/-- The short label of a case: its kind and its extents. -/
def label (c : TransformCase R) : String :=
  c.kind.name ++ " " ++ "x".intercalate (c.dims.map toString)

end TransformCase

end FourierAudit
