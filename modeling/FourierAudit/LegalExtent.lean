/-
Legal grid extents.

An engine may only take extents that are products of certain radices. A requested extent is
then replaced by the next legal one, unless that lies beyond a ceiling.

* `isSmooth` — the test that an engine applies: the radices are divided out one after the
  other, in increasing order, each as often as it divides what is left;
* `smoothLegality` — the same test for radices that have been checked to be at least two;
* `leastLegalExtent` — the first legal extent from a minimum up;
* `leastLegalExtents` — the same for every axis of a grid.

Design notes: dividing out greedily is not the same as asking whether the extent is some
product of the radices. After dividing by two as often as possible, a factor four that the
radices ask for may be gone.
-/
import FourierAudit.CaseRequest

namespace FourierAudit

variable {R : Type} [Scalar R]

abbrev Legality (R : Type) [Scalar R] := Int → Except (Failure R) Bool

/-- The extent above which nothing is searched unless another ceiling is given. -/
def defaultCeiling : Int := 65536

private theorem toNat_ediv_lt {n radix : Int} (hn : ¬ n ≤ 1) (hr : 1 < radix) :
    (n / radix).toNat < n.toNat := by
  have h : n / radix < n := Int.ediv_lt_self_of_pos_of_ne_one (by omega) (by omega)
  omega

/-- What is left of `n` after dividing by a radix as long as something above one is left and
the radix divides it. A radix of one divides nothing out, and after a negative one nothing
above one is left. -/
def divideOut (radix n : Int) : Except (Failure R) Int :=
  if n ≤ 1 then .ok n
  else if radix = 0 then .error .zeroRadix
  else if n % radix ≠ 0 then .ok n
  else if 1 < radix then divideOut radix (n / radix)
  else .ok (if radix = 1 then n else n / radix)
termination_by n.toNat
decreasing_by exact toNat_ediv_lt (by assumption) (by assumption)

def sortedRadices (radices : List Int) : List Int := radices.mergeSort (· ≤ ·)

/-- Whether an extent is positive and the radices divide it down to one; without radices every
positive extent will do. -/
def isSmooth (radices : Option (List Int)) : Legality R := fun n =>
  if n < 1 then .ok false
  else match radices with
    | none => .ok true
    | some radices => do
      let rest ← (sortedRadices radices).foldlM (fun rest radix => divideOut radix rest) n
      return rest == 1

/-- The test for extents with the given radices, which all have to be at least two. -/
def smoothLegality (radices : Option (List Int)) : Except (Misconfiguration R) (Legality R) :=
  match radices with
  | none => .ok (isSmooth none)
  | some radices =>
    let sorted := sortedRadices radices
    if sorted.any (· < 2) then .error (.radices sorted) else .ok (isSmooth (some sorted))

/-- The first legal extent from `n` up to the ceiling, none if there is none. -/
def firstLegal (legal : Legality R) (ceiling n : Int) : Except (Failure R) (Option Int) :=
  if n ≤ ceiling then
    match legal n with
    | .error e => .error e
    | .ok true => .ok (some n)
    | .ok false => firstLegal legal ceiling (n + 1)
  else .ok none
termination_by (ceiling + 1 - n).toNat

/-- The least legal extent that is at least the minimum, and at least one. -/
def leastLegalExtent (legal : Legality R) (ceiling : Int) (minimum : Quantity) :
    Except (Failure R) Int := do
  let start ← minimum.integer
  match ← firstLegal legal ceiling (max start 1) with
  | some n => return n
  | none => throw (.misconfigured (.noLegalExtent minimum ceiling))

/-- The least legal extents of a grid, axis by axis. -/
def leastLegalExtents (legal : Legality R) (ceiling : Int) (dims : List Quantity) :
    Except (Failure R) (List Int) :=
  dims.mapM (leastLegalExtent legal ceiling)

end FourierAudit
