/-
Backends and what they can do.

A backend is an engine together with its capability limits: the precisions it offers, the
extents and the number of points it takes, and the memory its grids live in.

* `Backend.normalise` — a case with every extent replaced by the next legal one;
* `Backend.checkSupported` — the first limit that keeps a backend from running a case;
* `Backend.openGrids` — the grids of a case that the backend can run;
* `Candidate` — what a verification sees of a backend, and `Backend.candidate`;
* `hostBackend`, `deviceBackend` — the two backends that the program comes with.

Design notes: a verification must hold up against anything that calls itself a backend, so it
is written against `Candidate`, whose functions are arbitrary.
-/
import FourierAudit.FastTransforms
import FourierAudit.LegalExtent

namespace FourierAudit

variable {R : Type} [Scalar R]

/-- What a verification sees of a backend. -/
structure Candidate (R : Type) [Scalar R] where
  /-- The name shown in reports; a backend may have none. -/
  name : Option String
  normalise : TransformCase R → Int → Except (Failure R) (TransformCase R)
  openGrids : TransformCase R → Except (Failure R) (GridPair R)
  upload : TransformCase R → Volume R → GridAction R
  forward : TransformCase R → GridAction R
  inverse : TransformCase R → GridAction R

/-- The text for a name that may be missing. -/
def nameText (name : Option String) : String := name.getD "None"

/-- An engine with its capability limits. -/
structure Backend (R : Type) [Scalar R] where
  name : Option String
  typeName : String
  /-- The factors that an extent may consist of; none if every extent is legal. -/
  radices : Option (List Int)
  /-- A test of extents in the place of that by the radices. -/
  extentTest : Option (Int → Bool) := none
  /-- The memory of the grids, `host` or `device`. -/
  location : String
  precisions : List Precision
  maxPoints : Option Int
  /-- Whether the grids have to fit into the free memory of a device. -/
  needsDeviceMemory : Bool
  engine : Engine R

namespace Backend

/-- The test of an extent: that of the backend if it has its own, that by its radices otherwise. -/
def legal (b : Backend R) : Legality R :=
  match b.extentTest with
  | some test => fun n => .ok (test n)
  | none => isSmooth b.radices

/-- The case with every extent replaced by the next legal one up to a ceiling. -/
def normalise (b : Backend R) (c : TransformCase R) (ceiling : Int) :
    Except (Failure R) (TransformCase R) := do
  let dims ← leastLegalExtents b.legal ceiling (c.dims.map fun (n : Nat) => .whole n)
  c.withExtents (dims.map .whole)

def allLegal (b : Backend R) : List Nat → Except (Failure R) Bool
  | [] => .ok true
  | n :: rest => do
    if ← b.legal n then allLegal b rest else return false

/-- The bytes that the grids of a case and the work area of its transform take. -/
def requiredBytes (c : TransformCase R) : Int :=
  c.precision.elementSize * (c.points + 2 * c.outputPoints)

/-- Fails with the first capability limit that the case exceeds. -/
def checkSupported (b : Backend R) (accelerator : Option Accelerator) (c : TransformCase R) :
    Except (Failure R) Unit := do
  let name := nameText b.name
  unless b.precisions.contains c.precision do
    throw (.unsupported (.precision name c.precision))
  if let some limit := b.maxPoints then
    if limit < c.points then throw (.unsupported (.volume name limit c.points))
  unless ← b.allLegal c.dims do
    throw (.unsupported (.extents name c.dims))
  if b.needsDeviceMemory then
    match accelerator with
    | none => throw .deviceLibraryMissing
    | some accelerator =>
      if accelerator.freeBytes < requiredBytes c then
        throw (.unsupported (.memory name (requiredBytes c) accelerator.freeBytes))

/-- The grids of a case that the backend can run. -/
def openGrids (b : Backend R) (accelerator : Option Accelerator) (c : TransformCase R) :
    Except (Failure R) (GridPair R) := do
  b.checkSupported accelerator c
  let elementSize := c.precision.elementSize
  let input ← Buffer.allocate accelerator c.points elementSize "grid1" b.location
  let output ← Buffer.allocate accelerator c.outputPoints elementSize "grid2" b.location
  return { input, output }

@[specialize] def candidate (b : Backend R) (accelerator : Option Accelerator) : Candidate R where
  name := b.name
  normalise := b.normalise
  openGrids := b.openGrids accelerator
  upload _ values := .ofExcept fun grids =>
    return { grids with input := ← grids.input.upload values }
  forward := b.engine.forward
  inverse := b.engine.inverse

def text (b : Backend R) (c : TransformCase R) : String := b.typeName ++ "(" ++ c.text ++ ")"

end Backend

/-- A backend without name and without transforms. -/
def abstractBackend : Backend R where
  name := none
  typeName := "FFTBackend"
  radices := none
  location := "host"
  precisions := [.single, .double]
  maxPoints := none
  needsDeviceMemory := false
  engine := .unimplemented

/-- A backend for array libraries that lacks the library. -/
def arrayBackend : Backend R := { abstractBackend with typeName := "ArrayModuleFFT" }

/-- The backend that transforms in host memory; it takes every extent. -/
@[specialize] def hostBackend : Backend R :=
  { (abstractBackend : Backend R) with
    name := some "NumpyFFT"
    typeName := "NumpyFFT"
    engine := .ofTransforms fastTransforms }

/-- The backend that transforms in device memory; an extent has to be a product of the radices
that its library has kernels for. -/
@[specialize] def deviceBackend : Backend R :=
  { (abstractBackend : Backend R) with
    name := some "CupyFFT"
    typeName := "CupyFFT"
    radices := some [2, 3, 5, 7]
    location := "device"
    needsDeviceMemory := true
    engine := .ofTransforms fastTransforms }

end FourierAudit
