/-
The reference transform.

The discrete Fourier transform of a volume with any number of axes is separable: it is taken
along one axis after the other, each time as a dense sum over that axis. No fast algorithm
is involved. Neither direction is normalised.

* `rootOfUnity`, `dftEntry` — the kernel, its phase reduced before the angle is taken;
* `alongAxis` — the transform along one axis of a row-major volume;
* `separable` — the transform along all axes, with a table of the kernel for each extent;
* `hasKernel`, `dftMatrix` — whether the dense kernel of an axis is a matrix that an array can
  hold, and that matrix;
* `Reference.transform` — the transform of a volume, which keeps its tables for later calls.

Design notes: along an axis the elements of a volume lie `inner` places apart, where `inner`
is the product of the extents that follow. The kernel depends on the product of frequency
and position only modulo the extent, so one table of roots replaces the matrix; an extent whose
matrix no array can hold is refused all the same. The scaling by one changes no finite sum, but
after it an infinite component leaves no number in the other one either.
-/
import FourierAudit.Failure

namespace FourierAudit

variable {R : Type} [Scalar R]

/-- The two directions of a transform. -/
inductive Direction where
  /-- From samples to their spectrum. -/
  | forward
  /-- From a spectrum to samples. -/
  | inverse
deriving DecidableEq, Repr

/-- The sign of the angle in the kernel of a direction. -/
def Direction.sign : Direction → Int
  | forward => -1
  | inverse => 1

/-- The point of the unit circle at `sign * phase / n` of a full turn. The angle is multiplied
with the reciprocal of the extent. -/
def rootOfUnity (sign : R) (n phase : Nat) : Sample R :=
  let angle := sign * Scalar.ofInt 2 * Scalar.pi * Scalar.ofInt phase * Scalar.ratio 1 n
  ⟨Scalar.cos angle, Scalar.sin angle⟩

/-- The kernel of a transform of length `n` at frequency `k` and position `j`. -/
def dftEntry (sign : R) (n k j : Nat) : Sample R := rootOfUnity sign n (k * j % n)

/-- The roots of unity of a direction in the order of their phases. -/
@[specialize] def rootTable (direction : Direction) (n : Nat) : Volume R :=
  Array.ofFn fun (phase : Fin n) => rootOfUnity (Scalar.ofInt direction.sign) n phase

/-- Whether an array can hold the kernel of an axis of extent `n`, a dense matrix of samples. -/
def hasKernel (n : Nat) : Bool := isAddressable Precision.double.elementSize [n, n]

/-- The dense kernel of a transform of length `size`, row by row in the order of the frequencies; it
has no rows if there is no such length. -/
@[specialize] def dftMatrix (sign : R) (size : Int) : Except (Failure R) (Array (Volume R)) :=
  let n := size.toNat
  if isAddressable 8 [size] && hasKernel n then
    .ok <| Array.ofFn fun (k : Fin n) => Array.ofFn fun (j : Fin n) => dftEntry sign n k j
  else .error (.invalid .arrayTooLong)

/-- The number of elements of a volume with the given extents. -/
def volumeSize : List Nat → Nat
  | [] => 1
  | n :: rest => n * volumeSize rest

/-- The transform along an axis of extent `n` whose elements lie `inner` places apart. The sums
over more than one element are scaled by the sample one. -/
@[specialize] def alongAxis (roots : Volume R) (n inner : Nat) (v : Volume R) : Volume R :=
  Array.ofFn fun (i : Fin v.size) =>
    let frequency := i.val / inner % n
    let start := i.val / inner / n * n * inner + i.val % inner
    let total := Sample.sum n fun j =>
      (roots.getD (frequency * j % n) Sample.zero).mul (v.getD (start + j * inner) Sample.zero)
    if n = 1 then total else total.scale Scalar.one

/-- The transform along all axes, the first one first. -/
@[specialize] def separable (roots : Nat → Volume R) : List Nat → Volume R → Volume R
  | [], v => v
  | n :: rest, v => separable roots rest (alongAxis (roots n) n (volumeSize rest) v)

/-- The transform of a volume with the given extents. -/
@[specialize] def spectrum (direction : Direction) (dims : List Nat) (v : Volume R) : Volume R :=
  separable (rootTable direction) dims v

/-- A reference transform of fixed extents, with the root tables of earlier calls. -/
structure Reference (R : Type) where
  /-- The extents; a request may state any integers. -/
  dims : List Int
  /-- The root tables so far. -/
  tables : List ((Nat × Direction) × Volume R)

namespace Reference

/-- A reference transform that has not been used. -/
def ofDims (dims : List Int) : Reference R := ⟨dims, []⟩

/-- The number of grid points as a machine word counts it. -/
def points (r : Reference R) : Int := wordProduct r.dims

/-- The root table of an extent and a direction, if it has been made. -/
def table? (r : Reference R) (n : Nat) (direction : Direction) : Option (Volume R) :=
  r.tables.lookup (n, direction)

/-- The reference transform with the root table of an extent and a direction made. -/
@[specialize] def load (r : Reference R) (direction : Direction) (n : Nat) : Reference R :=
  match r.table? n direction with
  | some _ => r
  | none => { r with tables := ((n, direction), rootTable direction n) :: r.tables }

/-- The natural extents that `size` elements are laid out with, if an array can have them. One
negative extent stands for as many as are left over, but an axis of it has no kernel, so this
is of use for an empty volume only. -/
def layout? (r : Reference R) (size : Nat) : Option (List Nat) :=
  let dims := r.dims.map Int.toNat
  let isEmptyAs (others : List Int) := size = 0 ∧ volumeSize (others.map Int.toNat) ≠ 0
  if isAddressable Precision.double.elementSize r.dims then
    match r.dims.partition (0 ≤ ·) with
    | (_, []) => if volumeSize dims = size then some dims else none
    | (others, [_]) => if isEmptyAs others then some dims else none
    | _ => none
  else none

/-- The transform of a volume. The tables are made axis by axis, up to the first axis that has no
kernel, and they are kept also if the call is refused there. -/
@[specialize] def transform (r : Reference R) (direction : Direction) (v : Volume R) :
    Except (Failure R) (Volume R) × Reference R :=
  if (v.size : Int) ≠ r.points then (.error (.invalid (.volumeSize v.size r.points r.dims)), r)
  else match r.layout? v.size with
    | none => (.error (.invalid .layout), r)
    | some dims =>
      let r := (dims.takeWhile hasKernel).foldl (load · direction) r
      if !dims.all hasKernel then (.error (.invalid .arrayTooLong), r)
      else (.ok (separable (fun n => (r.table? n direction).getD #[]) dims v), r)

end Reference

end FourierAudit
