/-
Moving volumes between their full, packed and real forms.

* `extractPacked` — the elements of a full volume that a transform stores;
* `hermitianCompletion` — the full spectrum of a real volume from its stored half: the
  missing element at `p` is the conjugate of the stored one at the opposite frequency;
* `storedPoints`, `storedPlaces`, `extractStored`, `completeStored` — the stored frequencies, and
  the two moves, for a grid that has any integers as its extents;
* `realInput` — the first numbers in the storage of a volume, real and imaginary components
  in turn, which is where a transform of real samples reads them;
* `complexEmbedding` — real numbers as samples.

Design notes: what is asked for with integers is looked up for the grid that has them as its
extents. It is refused if no array can hold it.
-/
import FourierAudit.Failure

namespace FourierAudit

variable {R : Type}

/-- The first `n` elements, all of them if there are no more; a negative `n` leaves out so
many at the end. -/
def upTo {α : Type} (n : Int) (items : Array α) : Array α :=
  if 0 ≤ n then items.extract 0 n.toNat else items.extract 0 (items.size + n).toNat

/-- The elements of a full volume that a transform of this kind stores, in storage order; a
failure if the volume ends before the last of them. -/
@[specialize] def extractPacked [Scalar R] (kind : TransformKind) (extents : Triple Nat)
    (v : Volume R) : Except (Failure R) (Volume R) :=
  let places := packedToFull kind extents
  match places.find? (v.size ≤ ·) with
  | some place => .error (.outOfRange place v.size)
  | none => .ok (places.map fun i => v.getD i Sample.zero)

/-- The full spectrum of a real volume from its stored half; a failure if the half has another
size than the extents ask for. -/
@[specialize] def hermitianCompletion [Scalar R] (extents : Triple Nat) (half : Volume R) :
    Except (Failure R) (Volume R) :=
  let packed := TransformKind.realToComplex.packed extents
  if half.size = packed.volume then
    .ok <| Array.ofFn fun (i : Fin extents.volume) =>
      let p := extents.point i
      if p.z < packed.z then half.getD (packed.index p) Sample.zero
      else (half.getD (packed.index (extents.opposite p)) Sample.zero).conj
  else .error (.invalid .layout)

/-! Integers as extents -/

/-- The grid that has integers as its extents, as far as its stored frequencies go: with a
negative extent there are none, as in an empty grid. The coordinates of the stored frequencies have
to fit into arrays, eight bytes each. -/
def TransformKind.storedGrid [Scalar R] (kind : TransformKind) (dims : Triple Int) :
    Except (Failure R) (Triple Nat) :=
  if isAddressable 8 (kind.packed dims).toList then .ok (dims.natural?.getD ⟨0, 0, 0⟩)
  else .error (.invalid .arrayTooLong)

/-- The grid that has integers as its extents, if an array of complex elements can have them. -/
def Precision.grid [Scalar R] (p : Precision) (dims : Triple Int) :
    Except (Failure R) (Triple Nat) :=
  match dims.natural?, isAddressable p.elementSize dims.toList with
  | some extents, true => .ok extents
  | _, _ => .error (.invalid .layout)

/-- The stored frequencies, in storage order. -/
def storedPoints [Scalar R] (kind : TransformKind) (dims : Triple Int) :
    Except (Failure R) (Array (Triple Nat)) :=
  return packedPoints kind (← kind.storedGrid dims)

/-- The places of the stored frequencies in the full volume, in storage order. -/
def storedPlaces [Scalar R] (kind : TransformKind) (dims : Triple Int) :
    Except (Failure R) (Array Nat) :=
  return packedToFull kind (← kind.storedGrid dims)

/-- The elements of a full volume that a transform of this kind stores. -/
@[specialize] def extractStored [Scalar R] (kind : TransformKind) (dims : Triple Int)
    (v : Volume R) : Except (Failure R) (Volume R) := do
  extractPacked kind (← kind.storedGrid dims) v

/-- The full spectrum of a real volume from its stored half, which is held in a precision. -/
@[specialize] def completeStored [Scalar R] (held : Precision) (dims : Triple Int)
    (half : Volume R) : Except (Failure R) (Volume R) := do
  hermitianCompletion (← held.grid dims) half

/-! The storage of real samples -/

/-- All components of a volume in storage order, the real one of each sample first. -/
def components (v : Volume R) : Array R :=
  Array.ofFn fun (i : Fin (2 * v.size)) =>
    have : i.val / 2 < v.size := by omega
    let a := v[i.val / 2]
    if i.val % 2 = 0 then a.re else a.im

/-- The real samples of a transform with `points` grid points, read from a volume. -/
def realInput (points : Int) (v : Volume R) : Array R := upTo points (components v)

/-- Real numbers as samples. -/
@[specialize] def complexEmbedding [Scalar R] (values : Array R) : Volume R :=
  values.map Sample.ofReal

end FourierAudit
