/-
Fast transforms of lines.

The length of a line is split into factors. With the first factor, the line falls apart into
as many shorter lines, whose transforms need the other factors only.

* `complexFactors`, `realFactors` — the factors of a length, in the order they are used;
* `complexLine` — the transform of a line of samples in either direction;
* `halfSpectrum` — the stored half of the spectrum of a line of real numbers;
* `realLine` — the real numbers of half a spectrum.

Design notes: the roots of unity are those of the whole line. A shorter line uses every
`stride`-th of them. The transform of real numbers never computes a frequency above one half:
it is the conjugate of the opposite one. Where a shorter spectrum has a frequency of exactly
one half, that is real, and the longer spectrum around it is put together from real numbers.
-/
import FourierAudit.Butterfly

namespace FourierAudit

/-- The factors `r` that can be taken out of a number, and what is left. -/
def takeOut (r n : Nat) : List Nat × Nat :=
  if 1 < r ∧ 0 < n ∧ n % r = 0 then
    let (found, rest) := takeOut r (n / r)
    (r :: found, rest)
  else ([], n)
termination_by n
decreasing_by exact Nat.div_lt_self (by omega) (by omega)

/-- The prime factors of an odd number, which has none below `d`. -/
def oddFactors (d n : Nat) : List Nat :=
  if n ≤ 1 ∨ d ≤ 1 then []
  else if n < d * d then [n]
  else if n % d = 0 then d :: oddFactors d (n / d)
  else oddFactors (d + 2) n
termination_by (n, n - d)
decreasing_by
  · exact Prod.Lex.left _ _ (Nat.div_lt_self (by omega) (by omega))
  · have h : 2 * d ≤ d * d := Nat.mul_le_mul_right d (by omega)
    exact Prod.Lex.right _ (by omega)

/-- The factors of a length after those that are powers of two. A single factor two is used
first. -/
def withRest (powers : List Nat) (rest : Nat) : List Nat :=
  if rest % 2 = 0 then 2 :: powers ++ oddFactors 3 (rest / 2) else powers ++ oddFactors 3 rest

/-- The factors of the length of a line of samples. -/
def complexFactors (n : Nat) : List Nat :=
  let (eights, rest) := takeOut 8 n
  let (fours, rest) := takeOut 4 rest
  withRest (eights ++ fours) rest

/-- The factors of the length of a line of real numbers. -/
def realFactors (n : Nat) : List Nat :=
  let (fours, rest) := takeOut 4 n
  withRest fours rest

variable {R : Type} [Scalar R]

/-- A sample turned by a root of unity; there is no product with the root one. -/
@[inline] def turned (roots : Volume R) (k : Nat) (a : Sample R) : Sample R :=
  if k = 0 then a else a.mul (roots.getD k Sample.zero)

/-- The roots of unity of a butterfly of `r` samples. -/
@[inline] def shortRoots (roots : Volume R) (r k : Nat) : Sample R :=
  roots.getD (k * (roots.size / r)) Sample.zero

/-- The transform of a line of samples with the given factors. -/
@[specialize] def complexLine (direction : Direction) (roots : Volume R) :
    List Nat → Nat → Volume R → Volume R
  | [], _, v => v
  | r :: rest, stride, v =>
    let m := v.size / r
    let rows := Array.ofFn fun (a : Fin m) =>
      let samples := (List.range r).map fun b => v.getD (a + m * b) Sample.zero
      let row := butterfly direction (shortRoots roots r) samples
      (row.mapIdx fun u y => turned roots (u * stride * a) y).toArray
    let parts := Array.ofFn fun (u : Fin r) =>
      complexLine direction roots rest (stride * r) (rows.map (·.getD u Sample.zero))
    Array.ofFn fun (k : Fin v.size) => (parts.getD (k % r) #[]).getD (k / r) Sample.zero

/-- The spectrum at the odd multiples of half a shorter line, from the middle of the spectra of
the shorter lines, which is real. -/
@[specialize] def middleSpectrum : List R → List (Sample R)
  | [a, b] => [⟨a, -b⟩]
  | [a, b, c, d] =>
    let re := rootHalf * (b - d)
    let im := -rootHalf * (b + d)
    [⟨a + re, im - c⟩, ⟨a - re, im + c⟩]
  | _ => []

/-- The stored half of the spectrum of a line of real numbers with the given factors. -/
@[specialize] def halfSpectrum (roots : Volume R) : List Nat → Nat → Array R → Volume R
  | [], _, x => x.map Sample.ofReal
  | r :: rest, stride, x =>
    let m := x.size / r
    let parts := Array.ofFn fun (c : Fin r) =>
      halfSpectrum roots rest (stride * r) <|
        Array.ofFn fun (t : Fin m) => x.getD (c + r * t) Scalar.zero
    let column (j : Nat) := parts.toList.map fun part => part.getD j Sample.zero
    let rows := Array.ofFn fun (j : Fin ((m + 1) / 2)) =>
      (butterfly .forward (shortRoots roots r)
        ((column j).mapIdx fun c a => turned roots (c * stride * j) a)).toArray
    let middle := middleSpectrum ((column (m / 2)).map (·.re))
    Array.ofFn fun (k : Fin (x.size / 2 + 1)) =>
      let j := k % m
      let u := k / m
      if 2 * j < m then (rows.getD j #[]).getD u Sample.zero
      else if 2 * j = m then middle.getD u Sample.zero
      else ((rows.getD (m - j) #[]).getD (r - 1 - u) Sample.zero).conj

/-- The middle of the spectra of the shorter lines, which is real, from the spectrum at the odd
multiples of half a shorter line. -/
@[specialize] def middleParts : List (Sample R) → List R
  | [a] => [a.re + a.re, -(a.im + a.im)]
  | [a, b] =>
    let two := Scalar.ofInt 2
    let root := two * rootHalf
    let re := a.re - b.re
    let im := b.im + a.im
    [two * (a.re + b.re), root * (re - im), two * (b.im - a.im), -root * (re + im)]
  | _ => []

/-- The `n` real numbers of half a spectrum with the given factors of their number. The half
spectrum is real at zero and, for even `n`, at one half. -/
@[specialize] def realLine (roots : Volume R) : List Nat → Nat → Nat → Volume R → Array R
  | [], _, _, half => half.map (·.re)
  | r :: rest, stride, n, half =>
    let m := n / r
    let stored (k : Nat) := half.getD k Sample.zero
    let whole (k : Nat) := if 2 * k ≤ n then stored k else (stored (n - k)).conj
    let rows := Array.ofFn fun (j : Fin ((m + 1) / 2)) =>
      let samples := (List.range r).map fun u => whole (j + u * m)
      let row := butterfly .inverse (shortRoots roots r) samples
      (row.mapIdx fun c y =>
        if j.val = 0 then Sample.ofReal y.re else turned roots (c * stride * j) y).toArray
    let middle := middleParts ((List.range (r / 2)).map fun u => stored (m / 2 + u * m))
    let parts := Array.ofFn fun (c : Fin r) =>
      realLine roots rest (stride * r) m <|
        Array.ofFn fun (j : Fin (m / 2 + 1)) =>
          if 2 * j.val < m then (rows.getD j #[]).getD c Sample.zero
          else Sample.ofReal (middle.getD c Scalar.zero)
    Array.ofFn fun (i : Fin n) => (parts.getD (i % r) #[]).getD (i / r) Scalar.zero

end FourierAudit
