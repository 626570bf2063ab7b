/-
The two floating point precisions of a grid.

A precision fixes how many bytes a complex grid element takes and what is lost when a
number is stored in the grid. The reference transform and every comparison are carried
out in double precision whatever the grid holds.

* `Precision.parse?` — the precision of a name, in any mix of cases;
* `Precision.store` — a number as a grid of the precision holds it.
-/
import FourierAudit.Sample

namespace FourierAudit

inductive Precision where
  /-- Components are binary32 numbers. -/
  | single
  /-- Components are binary64 numbers. -/
  | double
deriving DecidableEq, Repr, Inhabited

namespace Precision

def name : Precision → String
  | single => "single"
  | double => "double"

/-- The precision with the given name. Upper and lower case letters are the same; the
only letters outside ASCII whose lower case is in ASCII are no part of either name. -/
def parse? (text : String) : Option Precision :=
  let lower := text.map Char.toLower
  if lower == single.name then some single
  else if lower == double.name then some double
  else none

/-- Bytes of one complex grid element. -/
def elementSize : Precision → Int
  | single => 8
  | double => 16

/-- The precision whose complex elements take the given number of bytes. -/
def ofElementSize? (bytes : Int) : Option Precision :=
  if bytes = single.elementSize then some single
  else if bytes = double.elementSize then some double
  else none

/-- The name of the storage format of one component. -/
def realFormat : Precision → String
  | single => "float32"
  | double => "float64"

/-- The name of the storage format of one complex element. -/
def complexFormat : Precision → String
  | single => "complex64"
  | double => "complex128"

variable {R : Type} [Scalar R]

/-- A number as a grid of this precision holds it. -/
@[inline] def store (p : Precision) (x : R) : R :=
  match p with
  | single => Scalar.single x
  | double => x

/-- A sample as a grid of this precision holds it. -/
@[inline] def storeSample (p : Precision) (a : Sample R) : Sample R :=
  ⟨p.store a.re, p.store a.im⟩

/-- A volume as a grid of this precision holds it. -/
@[specialize] def storeVolume (p : Precision) (v : Volume R) : Volume R :=
  match p with
  | single => v.map (storeSample single)
  | double => v

end Precision

end FourierAudit
