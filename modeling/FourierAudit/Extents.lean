/-
Grids, their extents and the two orders that their elements are stored in.

A volume of extents `(X, Y, Z)` is stored in row-major order. The spectrum of a real
volume is Hermitian symmetric, so of it only the planes `z = 0, …, Z / 2` are stored, again
in row-major order.

* `Triple.index` — the place of a point in row-major order;
* `Triple.point` — the point at a place;
* `TransformKind.packed` — the extents of what a transform stores;
* `packedPoints`, `packedToFull` — the stored frequencies in storage order, and their
  places in the full volume;
* `wordProduct`, `isAddressable` — extents as a machine counts them.

Design notes: the index arithmetic is written over any numbers with the operations it
uses. Grids have natural extents; the same rules are also asked for integers that
belong to no grid.
-/
namespace FourierAudit

/-- Three numbers, one for each axis. -/
structure Triple (α : Type) where
  /-- Along the first axis, the slowest one in storage. -/
  x : α
  y : α
  /-- Along the third axis, the fastest one in storage. -/
  z : α
deriving DecidableEq, Repr

inductive TransformKind where
  /-- From complex samples to their whole spectrum. -/
  | complexToComplex
  /-- From real samples to the half of their spectrum that is not redundant. -/
  | realToComplex
deriving DecidableEq, Repr

namespace Triple

variable {α : Type}

def toList (t : Triple α) : List α := [t.x, t.y, t.z]

/-- The triple with the numbers of a list of exactly three. -/
def ofList? : List α → Option (Triple α)
  | [x, y, z] => some ⟨x, y, z⟩
  | _ => none

/-- The place of a point in a row-major volume with these extents. -/
@[inline] def index [Add α] [Mul α] (extents p : Triple α) : α :=
  (p.x * extents.y + p.y) * extents.z + p.z

/-- The point at a place of a row-major volume with these extents. -/
@[inline] def point (extents : Triple Nat) (i : Nat) : Triple Nat :=
  ⟨i / extents.z / extents.y, i / extents.z % extents.y, i % extents.z⟩

@[inline] def volume (extents : Triple Nat) : Nat := extents.x * extents.y * extents.z

/-- Natural extents, unless one of the three is negative. -/
def natural? (t : Triple Int) : Option (Triple Nat) :=
  if 0 ≤ t.x ∧ 0 ≤ t.y ∧ 0 ≤ t.z then some ⟨t.x.toNat, t.y.toNat, t.z.toNat⟩ else none

/-- The frequency opposite to a frequency of a grid with these extents. -/
def opposite (extents p : Triple Nat) : Triple Nat :=
  ⟨(extents.x - p.x) % extents.x, (extents.y - p.y) % extents.y,
    (extents.z - p.z) % extents.z⟩

end Triple

namespace TransformKind

def name : TransformKind → String
  | complexToComplex => "c2c"
  | realToComplex => "r2c"

def parse? (text : String) : Option TransformKind :=
  if text == complexToComplex.name then some complexToComplex
  else if text == realToComplex.name then some realToComplex
  else none

variable {α : Type}

/-- The stored extent of an axis of extent `z`, the fastest one of a spectrum. -/
def packedDepth [Add α] [Div α] [OfNat α 1] [OfNat α 2] (kind : TransformKind) (z : α) : α :=
  match kind with
  | complexToComplex => z
  | realToComplex => z / 2 + 1

/-- The extents of the spectrum that a transform of this kind stores. -/
def packed [Add α] [Div α] [OfNat α 1] [OfNat α 2] (kind : TransformKind)
    (extents : Triple α) : Triple α :=
  { extents with z := kind.packedDepth extents.z }

/-- The number of complex grid elements that a round trip compares, of a grid with `points`
points. Real samples are stored two to an element. -/
def roundTripSize [Div α] [OfNat α 2] (kind : TransformKind) (points : α) : α :=
  match kind with
  | complexToComplex => points
  | realToComplex => points / 2

end TransformKind

/-- The stored frequencies of a grid, in storage order. -/
def packedPoints (kind : TransformKind) (extents : Triple Nat) : Array (Triple Nat) :=
  Array.ofFn fun (i : Fin (kind.packed extents).volume) => (kind.packed extents).point i

/-- The places of the stored frequencies in the full volume, in storage order. -/
def packedToFull (kind : TransformKind) (extents : Triple Nat) : Array Nat :=
  (packedPoints kind extents).map extents.index

/-- Whether an integer is a signed machine word of 64 bits. -/
def isWord (n : Int) : Bool := -0x8000000000000000 ≤ n && n < 0x8000000000000000

/-- A product of integers as a machine word counts it: with factors that are all signed words
it wraps around into one, otherwise it is exact. -/
def wordProduct (factors : List Int) : Int :=
  let product := factors.foldl (· * ·) 1
  if factors.all isWord then product.bmod 0x10000000000000000 else product

/-- Whether an array can have these extents: there are at most 64 axes, and the elements of so
many bytes along the axes that are not empty fit into the memory that a signed word counts. -/
def isAddressable (elementSize : Int) (dims : List Int) : Bool :=
  dims.length ≤ 64 && dims.all isWord &&
    isWord ((dims.filter (0 < ·)).foldl (· * ·) elementSize)

end FourierAudit
