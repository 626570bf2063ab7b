/-
Verifying one case on one backend.

The extents of the case are made legal for the backend, a stimulus of that size is
transformed forward, and its spectrum is compared with that of the reference transform. Then
the backend transforms back, and what it recovers is compared with the stimulus, up to the
number of grid points that an unnormalised round trip multiplies it with.

* `expectedSpectrum` — what the backend has to store for a stimulus;
* `verifyWith` — the verification, for a given way to make the stimulus;
* `verify` — the same with the stimulus of a seed.

Design notes: the first failed check ends the verification, so a backend whose spectrum is
wrong is never asked to transform back.
-/
import FourierAudit.Backend
import FourierAudit.Session
import FourierAudit.Stimulus

namespace FourierAudit

variable {R : Type} [Scalar R]

/-- The two comparisons of a case that was verified. -/
structure CaseReport (R : Type) [Scalar R] where
  backend : Option String
  /-- The case with its legal extents. -/
  case : TransformCase R
  /-- The spectrum against the reference. -/
  forward : Comparison R
  /-- The recovered samples against the stimulus. -/
  roundTrip : Comparison R

/-- The samples that the transform of a case reads from a stimulus, in full precision. -/
@[specialize] def referenceInput (c : TransformCase R) (stimulus : Volume R) : Volume R :=
  match c.kind with
  | .complexToComplex => stimulus
  | .realToComplex => complexEmbedding (realInput c.points stimulus)

/-- The spectrum that a backend has to store for a stimulus. -/
@[specialize] def expectedSpectrum (c : TransformCase R) (stimulus : Volume R) :
    Except (Failure R) (Volume R) := do
  let reference : Reference R := .ofDims (c.dims.map Int.ofNat)
  let full ← (reference.transform .forward (referenceInput c stimulus)).1
  extractPacked c.kind c.extents full

/-- A comparison, or the failure of volumes that differ in size. -/
@[specialize] def compare (expected found : Volume R) (tolerance : R)
    (shape : Option (List Int)) : Except (Failure R) (Comparison R) :=
  match compare? expected found tolerance shape with
  | some result => .ok result
  | none => .error (.invalid (.lengths expected.size found.size))

/-- The comparison of a spectrum with the expected one. -/
@[specialize] def compareSpectrum (c : TransformCase R) (expected spectrum : Volume R) :
    Except (Failure R) (Comparison R) :=
  compare expected spectrum (c.tolerance .forward)
    (some ((c.kind.packed c.extents).toList.map Int.ofNat))

/-- The comparison of what a round trip recovered with the stimulus. -/
@[specialize] def compareRoundTrip (c : TransformCase R) (stimulus recovered : Volume R) :
    Except (Failure R) (Comparison R) :=
  let size := c.kind.roundTripSize c.points
  let scale := Scalar.one / Scalar.ofInt c.points
  compare (upTo size stimulus) ((upTo size recovered).map (Sample.scale scale))
    (c.tolerance .roundTrip) none

/-- Fails if a check did not pass. -/
def requirePassed (c : TransformCase R) (check : Check) (result : Comparison R) :
    Harness R Unit := do
  unless result.passed do
    Harness.enter .failed
    throw (.mismatch check c result)

/-- The verification of a case, with a given way to make the stimulus. -/
@[specialize] def verifyWith (draw : TransformCase R → Except (Failure R) (Thunk (Volume R)))
    (clock : Nat → R) (ceiling : Int) (candidate : Candidate R) (requested : TransformCase R) :
    Harness R (CaseReport R) := do
  Harness.enter .normaliseShape
  let c ← Harness.ofExcept (candidate.normalise requested ceiling)
  Harness.setCurrent (some c)
  Harness.print c.text
  Harness.enter .generateStimulus
  let stimulus ← Harness.timed clock (some "stimulus") (Harness.ofExcept (draw c))
  let grids ← Harness.ofExcept (candidate.openGrids c)
  let grids ← Harness.act (candidate.upload c stimulus.get) grids
  Harness.enter .runForward
  let grids ← Harness.timed clock (some "forward") (Harness.act (candidate.forward c) grids)
  Harness.enter .compareForward
  let expected ← Harness.timed clock (some "reference")
    (Harness.ofExcept (expectedSpectrum c stimulus.get))
  let forward ← Harness.timed clock (some "compare")
    (Harness.ofExcept (compareSpectrum c expected grids.output.cells))
  requirePassed c .forward forward
  Harness.enter .runInverse
  let grids ← Harness.timed clock (some "inverse") (Harness.act (candidate.inverse c) grids)
  Harness.enter .compareRoundTrip
  let roundTrip ← Harness.timed clock (some "compare")
    (Harness.ofExcept (compareRoundTrip c stimulus.get grids.input.cells))
  requirePassed c .roundTrip roundTrip
  Harness.enter .passed
  return { backend := candidate.name, case := c, forward, roundTrip }

/-- The verification of a case with the stimulus of a seed. -/
@[specialize] def verify (clock : Nat → R) (configuration : Configuration)
    (candidate : Candidate R) (requested : TransformCase R) : Harness R (CaseReport R) :=
  let draw (c : TransformCase R) := match configuration.seed with
    | some seed => Stimulus.prepare seed c.points c.precision
    | none => .error (.invalid .missingSeed)
  verifyWith draw clock configuration.ceiling candidate requested

end FourierAudit
