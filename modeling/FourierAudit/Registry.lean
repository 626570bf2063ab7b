/-
The backends of the running process.

A registry lists the backends that can be used, each under an identifier and with the memory
that its grids live in. Besides the identifiers there are three words for a choice:
`host`, `device`, and `default`, which is the device if there is one.

* `Registry.detect` — what is there, with a warning about devices that cannot be asked;
* `Registry.resolve` — the identifier that a word stands for;
* `Registry.find` — the backend of an identifier or word;
* `Registry.register` — an entry added, or replaced where it stands.
-/
import FourierAudit.Backend

namespace FourierAudit

variable {R : Type} [Scalar R]

/-- A backend under its identifier. -/
structure RegistryEntry (R : Type) [Scalar R] where
  identifier : String
  backend : Backend R
  /-- The memory of its grids, `host` or `device`. -/
  location : String

/-- The backends that can be used, in the order they were found, and the warnings about those
that cannot. -/
structure Registry (R : Type) [Scalar R] where
  entries : List (RegistryEntry R)
  warnings : List String

namespace Registry

/-- The identifier of the backend in host memory. -/
def hostIdentifier : String := "numpy"

def deviceIdentifier : String := "cupy"

@[specialize] def hostEntry : RegistryEntry R := ⟨hostIdentifier, hostBackend, "host"⟩

@[specialize] def deviceEntry : RegistryEntry R := ⟨deviceIdentifier, deviceBackend, "device"⟩

/-- The backends that can be used: the host always, the device if its library is there and
sees one. -/
@[specialize] def detect (accelerator : Option Accelerator) : Registry R :=
  match accelerator with
  | none => ⟨[hostEntry], []⟩
  | some accelerator =>
    match accelerator.deviceCount with
    | .ok count => if 0 < count then ⟨[hostEntry, deviceEntry], []⟩ else ⟨[hostEntry], []⟩
    | .error complaint =>
      ⟨[hostEntry],
        [s!"FFT backend '{deviceIdentifier}' could not be initialized and will not be checked: " ++
          complaint]⟩

/-- The first identifier of a backend on a device. -/
def onDevice? (registry : Registry R) : Option String :=
  (registry.entries.find? (·.location == "device")).map (·.identifier)

/-- The identifier that an identifier or a word for a choice stands for. -/
def resolve (registry : Registry R) (identifier : String) : Except UnknownBackend String :=
  if identifier == "host" then .ok hostIdentifier
  else if identifier == "default" then .ok (registry.onDevice?.getD hostIdentifier)
  else if identifier == "device" then
    match registry.onDevice? with
    | some found => .ok found
    | none => .error .noDevice
  else .ok identifier

/-- The backend of an identifier or a word for a choice. -/
def find (registry : Registry R) (identifier : String) : Except UnknownBackend (Backend R) :=
  match registry.resolve identifier with
  | .error e => .error e
  | .ok resolved =>
    match registry.entries.find? (·.identifier == resolved) with
    | some entry => .ok entry.backend
    | none => .error (.unregistered identifier resolved)

/-- The registry with an entry replaced where it stands, or added at the end. -/
def register (registry : Registry R) (entry : RegistryEntry R) : Registry R :=
  if registry.entries.any (·.identifier == entry.identifier) then
    { registry with
      entries := registry.entries.map fun e =>
        if e.identifier == entry.identifier then entry else e }
  else { registry with entries := registry.entries ++ [entry] }

end Registry

end FourierAudit
