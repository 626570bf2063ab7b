/-
The short transforms that fast transforms are built from.

A line of samples is transformed factor by factor of its length. Each factor asks for
transforms of as many samples as it counts, called butterflies.

* `circleTable` — the points of the unit circle that the steps of a line are turned by;
* `butterfly` — the transform of two, four, eight or an odd number of samples.

Design notes: what an infinite sample does to its neighbours depends on which products are
taken. A turn by a quarter is an exchange of components and never a product, and a turn by an
eighth multiplies sums of components.
-/
import FourierAudit.Spectrum

namespace FourierAudit

variable {R : Type} [Scalar R]

/-- The point of the unit circle at `k / n` of a full turn, exact at the quarters. -/
def circlePoint (n k : Nat) : Sample R :=
  if 4 * k % n = 0 then
    match 4 * k / n % 4 with
    | 0 => ⟨Scalar.one, Scalar.zero⟩
    | 1 => ⟨Scalar.zero, Scalar.one⟩
    | 2 => ⟨-Scalar.one, Scalar.zero⟩
    | _ => ⟨Scalar.zero, -Scalar.one⟩
  else rootOfUnity Scalar.one n k

/-- The points of the unit circle at the multiples of `1 / n` of a full turn, clockwise for a
forward transform. -/
@[specialize] def circleTable (direction : Direction) (n : Nat) : Volume R :=
  Array.ofFn fun (k : Fin n) =>
    match direction with
    | .forward => (circlePoint n k).conj
    | .inverse => circlePoint n k

@[inline] def rootHalf : R := Scalar.cos (Scalar.pi / Scalar.ofInt 4)

/-- A sample turned by a quarter, clockwise for a forward transform. -/
@[inline] def quarterTurn (direction : Direction) (a : Sample R) : Sample R :=
  match direction with
  | .forward => ⟨a.im, -a.re⟩
  | .inverse => ⟨-a.im, a.re⟩

/-- A sample turned by an eighth, clockwise for a forward transform. -/
@[inline] def eighthTurn (direction : Direction) (a : Sample R) : Sample R :=
  (a.add (quarterTurn direction a)).smul rootHalf

@[specialize] def butterflyFour (direction : Direction) (a b c d : Sample R) :
    List (Sample R) :=
  let even := a.add c
  let evenRest := a.sub c
  let odd := b.add d
  let oddRest := quarterTurn direction (b.sub d)
  [even.add odd, evenRest.add oddRest, even.sub odd, evenRest.sub oddRest]

/-- The transform of eight samples at its odd frequencies, from the differences of the samples
that lie half a line apart. -/
@[specialize] def butterflyEightOdd (direction : Direction) (a b c d : Sample R) :
    List (Sample R) :=
  let c := quarterTurn direction c
  let d := quarterTurn direction d
  let one := a.add c
  let three := a.sub c
  let oneRest := eighthTurn direction (b.add d)
  let threeRest := quarterTurn direction (eighthTurn direction (b.sub d))
  [one.add oneRest, three.add threeRest, one.sub oneRest, three.sub threeRest]

/-- A sample and others with real weights, added up. -/
@[specialize] def weightedSum (first : Sample R) (weights : List R)
    (others : List (Sample R)) : Sample R :=
  (weights.zip others).foldl (fun total (x, a) => total.add (a.smul x)) first

/-- The transform of an odd number of samples. The samples opposite to each other are added and
subtracted, since their roots of unity differ in the sign of the imaginary component only. The
roots are those of as many samples. -/
@[specialize] def butterflyOdd (roots : Nat → Sample R) : List (Sample R) → List (Sample R)
  | [] => []
  | first :: others =>
    let size := others.length + 1
    let half := size / 2
    let pairs := (others.take half).zip others.reverse
    let sums := pairs.map fun (a, b) => a.add b
    let differences := pairs.map fun (a, b) => a.sub b
    let parts (frequency : Nat) : Sample R × Sample R :=
      let weights := (List.range half).map fun j => roots (frequency * (j + 1) % size)
      let odd := weightedSum Sample.zero (weights.map (·.im)) differences
      (weightedSum first (weights.map (·.re)) sums, ⟨-odd.im, odd.re⟩)
    let turns := (List.range half).map fun l => parts (l + 1)
    sums.foldl Sample.add first ::
      turns.map (fun (even, odd) => even.add odd) ++
        (turns.map fun (even, odd) => even.sub odd).reverse

/-- The transform of two, four, eight or an odd number of samples. -/
@[specialize] def butterfly (direction : Direction) (roots : Nat → Sample R) :
    List (Sample R) → List (Sample R)
  | [a, b] => [a.add b, a.sub b]
  | [a, b, c, d] => butterflyFour direction a b c d
  | [a, b, c, d, a', b', c', d'] =>
    let even := butterflyFour direction (a.add a') (b.add b') (c.add c') (d.add d')
    let odd := butterflyEightOdd direction (a.sub a') (b.sub b') (c.sub c') (d.sub d')
    (even.zip odd).flatMap fun (x, y) => [x, y]
  | samples => butterflyOdd roots samples

end FourierAudit
