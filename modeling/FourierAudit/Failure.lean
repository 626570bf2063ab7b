/-
What can go wrong, and what is said about it.

Every failure is a cause with its data. The wording is one function of the cause, so that a
report can tell failures apart without reading messages.

* `Failure` — all causes;
* `Failure.message` — the wording;
* `Comparison.locate` — the location of an element, or why it has none.
-/
import FourierAudit.Comparison
import FourierAudit.QuotedText

namespace FourierAudit

/-- The capability limit that keeps a backend from running a case. -/
inductive Unsupported where
  /-- Grids of this precision are not offered. -/
  | precision (backend : String) (requested : Precision)
  /-- The grid has too many points. -/
  | volume (backend : String) (limit points : Int)
  /-- An extent of the grid is not legal. -/
  | extents (backend : String) (requested : List Nat)
  /-- The grids do not fit into the free memory of the device. -/
  | memory (backend : String) (required free : Int)
deriving DecidableEq, Repr

def Unsupported.message : Unsupported → String
  | precision backend requested =>
    backend ++ " does not support " ++ requested.name ++ " precision"
  | volume backend limit points =>
    backend ++ s!" supports at most {limit} grid points, case has {points}"
  | extents backend requested =>
    backend ++ " cannot process a " ++ integerTuple (requested.map Int.ofNat) ++
      " grid; normalise the shape first"
  | memory backend required free =>
    backend ++ s!" needs {required} bytes of device memory, only {free} are free"

/-- A value that an operation cannot work with. -/
inductive Invalid where
  /-- A volume whose size is not the number of grid points. -/
  | volumeSize (size : Nat) (expected : Int) (dims : List Int)
  /-- Volumes of different sizes that were to be compared. -/
  | lengths (expected found : Nat)
  /-- No element type has this size. -/
  | elementSize (bytes : Int)
  /-- Memory is neither on the host nor on the device. -/
  | memoryLocation (requested : String)
  /-- More elements than a buffer holds. -/
  | upload (count : Nat) (buffer : String) (capacity : Int)
  /-- A seed that is no word of 32 bits. -/
  | seed
  /-- No seed where one is needed. -/
  | missingSeed
  /-- Another number of extents than three. -/
  | arity
  /-- A volume that cannot be laid out with the given extents. -/
  | layout
  | negativeLength
  | arrayTooLong
  /-- A place outside a shape. -/
  | place
  /-- A column of negative width, or of more than a signed machine word. -/
  | columnWidth
  /-- A transform kind nobody knows. -/
  | kind (requested : String)
deriving DecidableEq, Repr

def Invalid.message? : Invalid → Option String
  | volumeSize size expected dims =>
    some (s!"Volume has {size} elements, expected {expected} for a " ++ integerTuple dims ++
      " grid")
  | lengths expected found => some s!"Cannot compare sequences of length {expected} and {found}"
  | elementSize bytes =>
    some (s!"Unsupported element size {bytes}; expected 8 (single) or 16 (double) bytes " ++
      "per complex element.")
  | memoryLocation requested =>
    some ("Invalid memory_location: " ++ QuotedText.encode requested ++
      ". Must be 'host' or 'device'.")
  | upload count buffer capacity =>
    some s!"Cannot upload {count} elements into buffer '{buffer}' of {capacity} elements."
  | _ => none

/-- Why an identifier names no backend. -/
inductive UnknownBackend where
  /-- No backend of the running process works on a device. -/
  | noDevice
  /-- The identifier, and what it stands for, is not registered. -/
  | unregistered (identifier resolved : String)
deriving DecidableEq, Repr

def UnknownBackend.message : UnknownBackend → String
  | noDevice => "No device FFT backend is available. Is CuPy installed and a GPU visible?"
  | unregistered identifier resolved =>
    s!"FFT backend with identifier '{identifier}' (internally mangled to '{resolved}') " ++
      "does not exist or is not available in this process."

/-- Everything that can go wrong. -/
inductive Failure (R : Type) [Scalar R] where
  /-- The request cannot be set up. -/
  | misconfigured (cause : Misconfiguration R)
  /-- The backend cannot run the case. -/
  | unsupported (cause : Unsupported)
  /-- A check of a case failed. -/
  | mismatch (check : Check) (case : TransformCase R) (result : Comparison R)
  /-- An identifier names no backend. -/
  | unknownBackend (cause : UnknownBackend)
  /-- A backend was asked for without an identifier. -/
  | missingIdentifier
  /-- An operation cannot work with a value. -/
  | invalid (cause : Invalid)
  /-- A number that is not finite in the place of an integer. -/
  | notFinite (requested : Quantity)
  /-- A place outside an array of the given size. -/
  | outOfRange (place : Int) (size : Nat)
  /-- A place that is no machine word. -/
  | unaddressable (place : Int)
  | zeroRadix
  /-- The library for device memory is not there. -/
  | deviceLibraryMissing
  /-- A backend without engine was to transform. -/
  | notImplemented
  /-- The engine broke down with a message of its own. -/
  | engine (message : String)
  /-- The path of a section without name was to be taken apart. -/
  | namelessSection

/-- The message about a failed check, up to the text of its result. -/
def mismatchHead (checkName : String) (case : TransformCase Float) : String :=
  checkName ++ " check failed for " ++ case.text ++ ": "

def mismatchMessage? (checkName : String) (case : TransformCase Float)
    (result : Comparison Float) : Option String :=
  result.text?.map (mismatchHead checkName case ++ ·)

def Failure.message : Failure Float → String
  | misconfigured cause => cause.message
  | unsupported cause => cause.message
  | mismatch check case result => (mismatchMessage? check.name case result).getD ""
  | unknownBackend cause => cause.message
  | missingIdentifier => "unhashable type: 'list'"
  | invalid .seed => "Seed must be between 0 and 2**32 - 1"
  | invalid .missingSeed => "Seed must be non-empty"
  | invalid (.kind requested) => QuotedText.encode requested ++ " is not a valid TransformKind"
  | invalid cause => cause.message?.getD ""
  | notFinite requested =>
    let kind := if requested.text == "nan" then "NaN" else "infinity"
    s!"cannot convert float {kind} to integer"
  | outOfRange place size =>
    if isWord place then s!"index {place} is out of bounds for axis 0 with size {size}"
    else "cannot fit 'int' into an index-sized integer"
  | unaddressable _ => "only int indices permitted"
  | zeroRadix => "integer modulo by zero"
  | deviceLibraryMissing =>
    "CuPy is required for device buffers. Install it with: pip install cupy-cuda12x " ++
      "(or appropriate CUDA or ROCm version)"
  | notImplemented => ""
  | engine message => message
  | namelessSection => "'NoneType' object has no attribute 'split'"

/-- Where a place of the compared sequences lies. With a shape that an array can have, the place
has to be a machine word, signed or not. -/
def Comparison.locate {R : Type} [Scalar R] (c : Comparison R) (place : Int) :
    Except (Failure R) Location :=
  match c.shape, c.location? place with
  | _, some location => .ok location
  | some shape, none =>
    if isAddressable 1 shape ∧
        ¬ (-0x8000000000000000 ≤ place ∧ place < 0x10000000000000000) then
      .error (.unaddressable place)
    else .error (.invalid .place)
  | none, none => .error (.invalid .place)

end FourierAudit
