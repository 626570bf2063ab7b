/-
How far a legal extent can be away.

The powers of the least radix are legal whatever the other radices are, since this radix is taken
out first. From any extent the next such power is less than the least radix times as large, so the
search for a legal extent ends before that:

* `exists_pow_between` — a power from an extent on, and below the radix times that extent;
* `exists_isLeast_lt` — the least legal extent from there is not beyond the power;
* `leastLegalExtent_lt` — what this says about a search and about the extents of a case.
-/
import FourierAudit.Proofs.NormalisedCases
import FourierAudit.Proofs.RadixProducts

namespace FourierAudit

variable {R : Type} [Scalar R]

/-- Between a number and a radix times it there is a power of the radix. -/
theorem exists_pow_between {r m : ℤ} (hr : 2 ≤ r) (hm : 1 ≤ m) :
    ∃ k : ℕ, m ≤ r ^ k ∧ r ^ k < r * m := by
  obtain ⟨k, hle, hlt⟩ := exists_nat_pow_near hm (show 1 < r by omega)
  rcases hle.eq_or_lt with heq | hbelow
  · refine ⟨k, heq.ge, ?_⟩
    rw [heq]
    nlinarith
  · refine ⟨k + 1, hlt.le, ?_⟩
    rw [pow_succ']
    exact Int.mul_lt_mul_of_pos_left hbelow (by omega)

section LeastRadix

variable {radices : List ℤ} {r m ceiling : ℤ} {legal : Legality R}

/-- The powers of the least radix divide down. -/
theorem dividesDown_pow (hmem : r ∈ radices) (hleast : ∀ q ∈ radices, r ≤ q) (hr : 2 ≤ r) (k : ℕ) :
    DividesDown radices (r ^ k) := by
  have hradices : ∀ q ∈ radices, 2 ≤ q := fun q hq => hr.trans (hleast q hq)
  have hone : DividesDown radices (r ^ k * 1) :=
    (dividesDown_pow_mul_iff hradices hmem k fun q hq _ => hleast q hq).mpr .one
  rwa [mul_one] at hone

/-- The least legal extent is less than the least radix times the requested one. -/
theorem exists_isLeast_lt (hlegal : ∀ n, legal n = .ok true ↔ DividesDown radices n)
    (hmem : r ∈ radices) (hleast : ∀ q ∈ radices, r ≤ q) (hr : 2 ≤ r) (hm : 1 ≤ m)
    (hceiling : r * m - 1 ≤ ceiling) :
    ∃ n, IsLeast (legal.extents m ceiling) n ∧ n < r * m := by
  obtain ⟨k, hle, hlt⟩ := exists_pow_between hr hm
  have hpow : r ^ k ∈ legal.extents m ceiling :=
    ⟨by omega, by omega, (hlegal _).mpr (dividesDown_pow hmem hleast hr k)⟩
  obtain ⟨n, hn⟩ := Legality.exists_isLeast ⟨_, hpow⟩
  exact ⟨n, hn, (hn.2 hpow).trans_lt hlt⟩

end LeastRadix

/-! ### The extents of a case -/

/-- Extents that are all less than a number times as large make up a volume that is less than its
cube times as large. -/
theorem volume_lt_of_forall₂ {r : ℤ} {extents extents' : Triple ℕ}
    (h : List.Forall₂ (fun n n' : ℕ => (n' : ℤ) < r * n) extents.toList extents'.toList) :
    (extents'.volume : ℤ) < r ^ 3 * extents.volume := by
  simp only [Triple.toList, List.forall₂_cons, List.forall₂_nil_left_iff, and_true] at h
  obtain ⟨hx, hy, hz⟩ := h
  calc (extents'.volume : ℤ)
      = extents'.x * extents'.y * extents'.z := by rw [Triple.volume, Nat.cast_mul, Nat.cast_mul]
    _ < (r * extents.x) * (r * extents.y) * (r * extents.z) :=
        mul_lt_mul'' (mul_lt_mul'' hx hy (by omega) (by omega)) hz (by positivity) (by omega)
    _ = r ^ 3 * (extents.x * extents.y * extents.z) := by ring
    _ = r ^ 3 * extents.volume := by rw [Triple.volume, Nat.cast_mul, Nat.cast_mul]

/-- A case with a legal extent near each of its own is made legal. -/
theorem exists_normalise_lt {b : Backend R} {c : TransformCase R} {r ceiling : ℤ}
    (htotal : b.legal.Total)
    (h : ∀ n ∈ c.dims, ∃ m, IsLeast (b.legal.extents n ceiling) m ∧ m < r * n) :
    ∃ c', b.normalise c ceiling = .ok c' ∧ (c'.extents.volume : ℤ) < r ^ 3 * c.extents.volume := by
  rcases hnormalise : b.normalise c ceiling with e | c'
  · obtain ⟨n, hfirst, -⟩ := (Backend.normalise_eq_error_iff htotal).mp hnormalise
    obtain ⟨n, hn, hempty⟩ := exists_firstWithoutLegal_iff.mp ⟨n, hfirst⟩
    obtain ⟨m, hm, -⟩ := h n hn
    exact absurd hm.1 (hempty ▸ Set.notMem_empty m)
  · obtain ⟨-, hleast⟩ := (Backend.normalise_eq_ok_iff htotal).mp hnormalise
    refine ⟨c', rfl, volume_lt_of_forall₂ ?_⟩
    -- the extents of the case are the least legal ones, and there is one of these near
    refine ((List.forall₂_and_left _ _).mpr ⟨h, hleast⟩).imp ?_
    rintro n n' ⟨⟨m, hm, hlt⟩, hn'⟩
    rwa [hn'.unique hm]

/-- **How far a legal extent can be away.** Let `r` be the least of some radices that are at least
two. They are accepted as the radices of a test of extents, and from any extent `m` on the search
with that test succeeds with less than `r * m`, if the ceiling is at least `r * m - 1`. A backend
with these radices makes a case legal if the ceiling is as high for each extent of the case, and the
volume is less than `r ^ 3` times as large then. -/
theorem leastLegalExtent_lt {radices : List ℤ} {r : ℤ} (hmem : r ∈ radices)
    (hleast : ∀ q ∈ radices, r ≤ q) (hr : 2 ≤ r) :
    (∃ legal : Legality R, smoothLegality (some radices) = .ok legal ∧
        ∀ m ceiling, 1 ≤ m → r * m - 1 ≤ ceiling →
          ∃ n, leastLegalExtent legal ceiling (.whole m) = .ok n ∧ m ≤ n ∧ n < r * m) ∧
      ∀ (b : Backend R) (c : TransformCase R) (ceiling : ℤ),
        b.extentTest = none → b.radices = some radices →
        (∀ n ∈ c.dims, r * (n : ℤ) - 1 ≤ ceiling) →
          ∃ c', b.normalise c ceiling = .ok c' ∧
            (c'.extents.volume : ℤ) < r ^ 3 * c.extents.volume := by
  have hradices : ∀ q ∈ radices, 2 ≤ q := fun q hq => hr.trans (hleast q hq)
  constructor
  · have hsorted : ∀ q, q ∈ sortedRadices radices ↔ q ∈ radices := fun q => mem_sortedRadices
    have htotal := isSmooth_total (R := R) hradices hsorted
    refine ⟨_, smoothLegality_eq_ok_iff.mpr ⟨hradices, rfl⟩, ?_⟩
    intro m ceiling hm hceiling
    obtain ⟨n, hn, hlt⟩ := exists_isLeast_lt (isSmooth_iff_dividesDown (R := R) hradices hsorted)
      hmem hleast hr hm hceiling
    have hmin := hn.1.1
    exact ⟨n, (leastLegalExtent_eq_ok_iff htotal).mpr hn, by omega, hlt⟩
  · intro b c ceiling htest hb hceiling
    have hlegal : b.legal = isSmooth (some radices) := by
      rw [Backend.legal, htest, hb]
    have htotal := isSmooth_total (R := R) hradices fun _ => Iff.rfl
    have hdown := isSmooth_iff_dividesDown (R := R) hradices fun _ => Iff.rfl
    rw [← hlegal] at htotal hdown
    refine exists_normalise_lt htotal ?_
    intro n hn
    have hpos := dims_pos c n hn
    exact exists_isLeast_lt hdown hmem hleast hr (by omega) (hceiling n hn)

/-- The host backend for products of six, ten and fifteen. -/
def compositeBackend : Backend Float :=
  { (hostBackend : Backend Float) with radices := some [15, 10, 6] }

/-- With radices that all share factors, lines of seven points become lines of less than
forty-two. -/
theorem leastLegalExtent_lt_composite :
    (6 ∈ ([15, 10, 6] : List ℤ) ∧ ∀ q ∈ ([15, 10, 6] : List ℤ), 6 ≤ q) ∧
      (∃ legal : Legality Float, smoothLegality (some [15, 10, 6]) = .ok legal ∧
        ∃ n, leastLegalExtent legal 41 (.whole 7) = .ok n ∧ 7 ≤ n ∧ n < 42) ∧
      ∃ c', compositeBackend.normalise (Backend.twoLines 7 (by decide)) 41 = .ok c' ∧
        (c'.extents.volume : ℤ) < 6 ^ 3 * (Backend.twoLines 7 (by decide)).extents.volume := by
  have hmem : 6 ∈ ([15, 10, 6] : List ℤ) := by decide
  have hleast : ∀ q ∈ ([15, 10, 6] : List ℤ), 6 ≤ q := by decide
  obtain ⟨⟨legal, hlegal, hsearch⟩, hcase⟩ := leastLegalExtent_lt (R := Float) hmem hleast
    (by decide)
  refine ⟨⟨hmem, hleast⟩, ⟨legal, hlegal, hsearch 7 41 (by decide) (by decide)⟩, ?_⟩
  exact hcase compositeBackend (Backend.twoLines 7 (by decide)) 41 rfl rfl (by decide)

end FourierAudit
