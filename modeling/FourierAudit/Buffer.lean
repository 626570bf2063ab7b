/-
Buffers of grid elements.

A buffer holds a fixed number of complex elements of one precision, on the host or on a
device. Data moves in by uploads, which may be shorter than the buffer, and out by
downloads, which are the elements as they are at that time.

* `placeIn` — the place in a sequence that an integer refers to;
* `Buffer.allocate` — a buffer of zeros;
* `Buffer.upload` — the first elements replaced;
* `Buffer.write` — one element replaced;
* `Buffer.fill` — all elements replaced;
* `Buffer.writeComponents` — the first components replaced, two to an element.

Design notes: everything that is written goes through the precision of the buffer. Device
memory behaves like host memory once the library for it is there.
-/
import FourierAudit.Packing

namespace FourierAudit

/-- The library for device memory, and what it says about the devices. -/
structure Accelerator where
  /-- The number of devices, or the complaint of the library about them. -/
  deviceCount : Except String Int
  freeBytes : Int

/-- The place that an integer refers to in a sequence: negative ones count from the end. -/
def place? (size : Nat) (i : Int) : Option Nat :=
  let shifted := if i < 0 then i + size else i
  if 0 ≤ shifted ∧ shifted < size then some shifted.toNat else none

/-- The place that an integer refers to in a sequence, or the failure that there is none. -/
def placeIn {R : Type} [Scalar R] (size : Nat) (i : Int) : Except (Failure R) Nat :=
  match place? size i with
  | some place => .ok place
  | none => .error (.outOfRange i size)

/-- A flat sequence of complex grid elements. -/
structure Buffer (R : Type) where
  name : String
  precision : Precision
  /-- Where the elements are, `host` or `device`. -/
  location : String
  cells : Volume R

namespace Buffer

variable {R : Type} [Scalar R]

/-- A buffer of zeros. The size of an element is looked at first, then the memory, then the
number of elements. -/
def allocate (accelerator : Option Accelerator) (count elementSize : Int) (name location : String) :
    Except (Failure R) (Buffer R) := do
  let precision ← match Precision.ofElementSize? elementSize with
    | some precision => pure precision
    | none => throw (.invalid (.elementSize elementSize))
  if location == "device" then
    if accelerator.isNone then throw .deviceLibraryMissing
  else if location != "host" then throw (.invalid (.memoryLocation location))
  if count < 0 then throw (.invalid .negativeLength)
  unless isAddressable elementSize [count] do throw (.invalid .arrayTooLong)
  return { name, precision, location, cells := Array.replicate count.toNat Sample.zero }

omit [Scalar R] in
def isOnDevice (b : Buffer R) : Bool := b.location == "device"

/-- The buffer with its first elements replaced; it has to have as many as are written. -/
@[specialize] def upload (b : Buffer R) (values : Volume R) : Except (Failure R) (Buffer R) :=
  if b.cells.size < values.size then
    .error (.invalid (.upload values.size b.name b.cells.size))
  else
    .ok { b with
      cells := b.precision.storeVolume values ++ b.cells.extract values.size b.cells.size }

/-- The buffer with one element replaced. -/
@[specialize] def write (b : Buffer R) (i : Int) (value : Sample R) :
    Except (Failure R) (Buffer R) :=
  match placeIn b.cells.size i with
  | .ok i => .ok { b with cells := b.cells.setIfInBounds i (b.precision.storeSample value) }
  | .error e => .error e

/-- The buffer with all elements replaced, by as many as it has. -/
@[specialize] def fill (b : Buffer R) (values : Volume R) : Except (Failure R) (Buffer R) :=
  if values.size = b.cells.size then .ok { b with cells := b.precision.storeVolume values }
  else .error (.invalid .layout)

/-- The buffer with the first components of its elements replaced; the others stay. -/
@[specialize] def writeComponents (b : Buffer R) (values : Array R) : Buffer R :=
  { b with
    cells := b.cells.mapIdx fun i a =>
      ⟨(values[2 * i]?.map b.precision.store).getD a.re,
        (values[2 * i + 1]?.map b.precision.store).getD a.im⟩ }

omit [Scalar R] in
def text (b : Buffer R) : String :=
  "DeviceBuffer(" ++ QuotedText.encode b.name ++
    s!", nb_elements={b.cells.size}, element_size={b.precision.elementSize}, memory_location=" ++
    QuotedText.encode b.location ++ ")"

end Buffer

end FourierAudit
