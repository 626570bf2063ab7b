/-
Fast transforms of volumes.

A volume is transformed along one axis after the other, line by line. The spectrum of complex
samples takes the axes from the last to the first. Real samples are transformed along the
last axis first, and are recovered along the last axis last.

* `alongLines` — a transform of lines, taken along one axis of a volume;
* `fastTransforms` — the transforms of an array library, in a given precision.

Design notes: the arithmetic is not that of the precision; only what is stored after each axis
is rounded to it. A line of one element is its own spectrum, so it is left as it is. The inverse
transform of half a spectrum uses the real components only where a spectrum of real samples is
real on its last axis, at zero and, for an even extent, at one half.
-/
import FourierAudit.Engine
import FourierAudit.MixedRadix

namespace FourierAudit

variable {R : Type} [Scalar R]

/-- A transform of lines along an axis of extent `n` whose elements lie `inner` places apart. -/
@[specialize] def alongLines (n inner : Nat) (line : Volume R → Volume R) (v : Volume R) :
    Volume R :=
  let lines := Array.ofFn fun (l : Fin (v.size / n)) =>
    let start := l / inner * n * inner + l % inner
    line (Array.ofFn fun (j : Fin n) => v.getD (start + j * inner) Sample.zero)
  Array.ofFn fun (i : Fin v.size) =>
    let l := i / inner / n * inner + i % inner
    (lines.getD l #[]).getD (i / inner % n) Sample.zero

/-- The fast transform along an axis of extent `n` whose elements lie `inner` places apart, its
result stored in a precision. -/
@[specialize] def fastAxis (p : Precision) (direction : Direction) (n inner : Nat)
    (v : Volume R) : Volume R :=
  let roots := circleTable direction n
  p.storeVolume (alongLines n inner (complexLine direction roots (complexFactors n) 1) v)

/-- The stored half of the spectrum of real samples. -/
@[specialize] def fastRealForward (p : Precision) (e : Triple Nat) (values : Array R) :
    Volume R :=
  let roots := circleTable .forward e.z
  let depth := TransformKind.realToComplex.packedDepth e.z
  let rows := Array.ofFn fun (l : Fin (e.x * e.y)) =>
    halfSpectrum roots (realFactors e.z) 1 (values.extract (l * e.z) (l * e.z + e.z))
  let halves := p.storeVolume (rows.foldl (· ++ ·) #[])
  fastAxis p .forward e.x (e.y * depth) (fastAxis p .forward e.y depth halves)

/-- The real samples of half a spectrum. -/
@[specialize] def fastRealInverse (p : Precision) (e : Triple Nat) (half : Volume R) : Array R :=
  let roots := circleTable .inverse e.z
  let depth := TransformKind.realToComplex.packedDepth e.z
  let halves := fastAxis p .inverse e.y depth (fastAxis p .inverse e.x (e.y * depth) half)
  let rows := Array.ofFn fun (l : Fin (e.x * e.y)) =>
    let row := halves.extract (l * depth) (l * depth + depth)
    let row := row.mapIdx fun k a => if k = 0 ∨ 2 * k = e.z then Sample.ofReal a.re else a
    realLine roots (realFactors e.z) 1 e.z row
  rows.foldl (· ++ ·) #[]

/-- The fast transform of complex samples along all axes, the last one first. -/
@[specialize] def fastComplex (p : Precision) (direction : Direction) (e : Triple Nat)
    (v : Volume R) : Volume R :=
  fastAxis p direction e.x (e.y * e.z)
    (fastAxis p direction e.y e.z (fastAxis p direction e.z 1 v))

/-- The transforms of an array library that uses fast transforms and stores what it has after
each axis. -/
@[specialize] def fastTransforms (p : Precision) : ArrayTransforms R where
  complexForward := fastComplex p .forward
  complexInverse := fastComplex p .inverse
  realForward := fastRealForward p
  realInverse := fastRealInverse p

end FourierAudit
