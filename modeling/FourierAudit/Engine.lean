/-
Transform engines.

An engine transforms between the two grids of a case: the input grid holds samples, the
output grid their spectrum as it is stored. Both directions are unnormalised.

* `ArrayTransforms` — the four transforms that an array library offers;
* `Engine.ofTransforms` — the engine that runs them on the grids. Real samples are read from
  and written to the first components of the input grid; its other components stay.

Design notes: a transform that fails may have changed the grids before, so an action gives
the grids it leaves behind in either case. An array library is told the precision of the
grids.
-/
import FourierAudit.Buffer
import FourierAudit.Spectrum

namespace FourierAudit

variable {R : Type}

/-- The two grids of a case. -/
structure GridPair (R : Type) where
  /-- The grid of samples. -/
  input : Buffer R
  /-- The grid of the stored spectrum. -/
  output : Buffer R

/-- Something done to the grids of a case: the grids it leaves, and whether it failed. -/
abbrev GridAction (R : Type) [Scalar R] := GridPair R → GridPair R × Except (Failure R) Unit

variable [Scalar R]

/-- An action that replaces the grids if it does not fail. -/
def GridAction.ofExcept (change : GridPair R → Except (Failure R) (GridPair R)) :
    GridAction R := fun grids =>
  match change grids with
  | .ok grids => (grids, .ok ())
  | .error e => (grids, .error e)

/-- An engine: what it does to the grids of a case in either direction. -/
structure Engine (R : Type) [Scalar R] where
  forward : TransformCase R → GridAction R
  inverse : TransformCase R → GridAction R

/-- The transforms of an array library, each for a grid of given extents. -/
structure ArrayTransforms (R : Type) where
  /-- The spectrum of complex samples. -/
  complexForward : Triple Nat → Volume R → Volume R
  /-- The samples of a spectrum. -/
  complexInverse : Triple Nat → Volume R → Volume R
  /-- The stored half of the spectrum of real samples. -/
  realForward : Triple Nat → Array R → Volume R
  /-- The real samples of half a spectrum. -/
  realInverse : Triple Nat → Volume R → Array R

namespace Engine

def unimplemented : Engine R where
  forward _ grids := (grids, .error .notImplemented)
  inverse _ grids := (grids, .error .notImplemented)

/-- The engine that runs the transforms of an array library on the grids, in their precision. -/
@[specialize] def ofTransforms (transforms : Precision → ArrayTransforms R) : Engine R where
  forward c := .ofExcept fun grids => do
    let library := transforms c.precision
    let result := match c.kind with
      | .complexToComplex => library.complexForward c.extents grids.input.cells
      | .realToComplex => library.realForward c.extents (realInput c.points grids.input.cells)
    return { grids with output := ← grids.output.fill result }
  inverse c := .ofExcept fun grids =>
    let library := transforms c.precision
    match c.kind with
    | .complexToComplex => do
      let result := library.complexInverse c.extents grids.output.cells
      return { grids with input := ← grids.input.fill result }
    | .realToComplex =>
      let result := library.realInverse c.extents grids.output.cells
      return { grids with input := grids.input.writeComponents result }

end Engine

end FourierAudit
