/-
The discrete Fourier transform with any number of axes, from its definition.

`IsTransform d dims v F` says that `F` is the transform of `v` in direction `d`: at every
frequency `k` it is the sum over all positions `x` of

  `v x * ∏ i, w i ^ (k i * x i)`,   `w i = exp (∓2πi / n i)`,

with one factor for each axis. The sum is never evaluated here; what follows from it is:

* `IsTransform.unique` — there is one transform of a volume;
* `IsTransform.reverse` — the transform in the other direction gives the volume back, multiplied
  with its size;
* `IsTransform.map_scale` — a number is taken out of a transform;
* `IsTransform.conj_opposite` — the transform of real numbers is conjugate at opposite
  frequencies.
-/
import FourierAudit.Proofs.ExactArithmetic
import FourierAudit.Proofs.RowMajor

namespace FourierAudit

/-- The root of unity `exp (-2πi / n)`. -/
noncomputable def unitRoot (n : ℕ) : ℂ := Complex.exp (-(2 * Real.pi * Complex.I / n))

namespace Direction

/-- The other direction. -/
def reverse : Direction → Direction
  | forward => inverse
  | inverse => forward

/-- The root of unity that the kernel of a direction consists of. -/
noncomputable def root : Direction → ℕ → ℂ
  | forward, n => unitRoot n
  | inverse, n => (unitRoot n)⁻¹

end Direction

/-! ### Roots of unity -/

theorem isPrimitiveRoot_unitRoot {n : ℕ} (hn : n ≠ 0) : IsPrimitiveRoot (unitRoot n) n := by
  rw [unitRoot, Complex.exp_neg]
  exact (Complex.isPrimitiveRoot_exp n hn).inv

theorem conj_unitRoot (n : ℕ) : (starRingEnd ℂ) (unitRoot n) = (unitRoot n)⁻¹ := by
  rw [unitRoot, ← Complex.exp_conj, ← Complex.exp_neg]
  congr 1
  simp [map_ofNat (starRingEnd ℂ) 2, neg_div]

namespace Direction

variable (d : Direction)

theorem isPrimitiveRoot_root {n : ℕ} (hn : n ≠ 0) : IsPrimitiveRoot (d.root n) n := by
  cases d with
  | forward => exact isPrimitiveRoot_unitRoot hn
  | inverse => exact (isPrimitiveRoot_unitRoot hn).inv

theorem root_ne_zero (n : ℕ) : d.root n ≠ 0 := by
  cases d with
  | forward => exact Complex.exp_ne_zero _
  | inverse => exact inv_ne_zero (Complex.exp_ne_zero _)

theorem root_pow_self (n : ℕ) : d.root n ^ n = 1 := by
  rcases Nat.eq_zero_or_pos n with rfl | hn
  · exact pow_zero _
  · exact (d.isPrimitiveRoot_root hn.ne').pow_eq_one

theorem root_pow_mod (n m : ℕ) : d.root n ^ (m % n) = d.root n ^ m := by
  conv_rhs => rw [← Nat.div_add_mod m n, pow_add, pow_mul, root_pow_self, one_pow, one_mul]

theorem root_reverse (n : ℕ) : d.reverse.root n = (d.root n)⁻¹ := by
  cases d with
  | forward => rfl
  | inverse => exact (inv_inv _).symm

theorem conj_root (n : ℕ) : (starRingEnd ℂ) (d.root n) = (d.root n)⁻¹ := by
  cases d with
  | forward => exact conj_unitRoot n
  | inverse =>
    show (starRingEnd ℂ) (unitRoot n)⁻¹ = _
    rw [map_inv₀, conj_unitRoot]
    rfl

/-- The characters of an axis are orthogonal. -/
theorem sum_root_pow {n : ℕ} (x y : Fin n) :
    ∑ k : Fin n, d.root n ^ ((k : ℕ) * x) * d.reverse.root n ^ ((y : ℕ) * k)
      = if x = y then (n : ℂ) else 0 := by
  have hn : n ≠ 0 := fun h => (h ▸ x).elim0
  set r : ℂ := d.root n ^ (x : ℕ) * d.reverse.root n ^ (y : ℕ) with hr
  have hterm : ∀ k : Fin n,
      d.root n ^ ((k : ℕ) * x) * d.reverse.root n ^ ((y : ℕ) * k) = r ^ (k : ℕ) := by
    intro k
    rw [hr, mul_pow, ← pow_mul, ← pow_mul, Nat.mul_comm (k : ℕ) x]
  rw [Finset.sum_congr rfl fun k _ => hterm k, Fin.sum_univ_eq_sum_range fun k => r ^ k]
  by_cases hxy : x = y
  · have hone : r = 1 := by
      rw [hr, hxy, root_reverse, ← mul_pow, mul_inv_cancel₀ (d.root_ne_zero n), one_pow]
    rw [if_pos hxy, hone]
    simp
  · -- a geometric sum over a root of unity other than one
    have hne : r ≠ 1 := by
      intro h
      rw [hr, root_reverse, inv_pow, mul_inv_eq_one₀ (pow_ne_zero _ (d.root_ne_zero n))] at h
      exact hxy (Fin.ext ((d.isPrimitiveRoot_root hn).pow_inj x.isLt y.isLt h))
    have hpow : r ^ n = 1 := by
      rw [hr, mul_pow, ← pow_mul, ← pow_mul, Nat.mul_comm (x : ℕ), Nat.mul_comm (y : ℕ), pow_mul,
        pow_mul, root_pow_self, root_pow_self, one_pow, one_pow, mul_one]
    have hsum := geom_sum_mul r n
    rw [hpow, sub_self] at hsum
    rw [if_neg hxy]
    exact (mul_eq_zero.mp hsum).resolve_right (sub_ne_zero.mpr hne)

end Direction

/-! ### The transform -/

/-- The factor of a position in the sum for a frequency. -/
noncomputable def kernel (d : Direction) (dims : List ℕ) (k x : Position dims) : ℂ :=
  ∏ i, d.root (dims.get i) ^ ((k i : ℕ) * x i)

/-- `F` is the discrete Fourier transform of `v` in direction `d`, not normalised. -/
structure IsTransform (d : Direction) (dims : List ℕ) (v F : Volume ℝ) : Prop where
  size_eq : F.size = volumeSize dims
  entry_place : ∀ k, entry F (place dims k) = ∑ x, entry v (place dims x) * kernel d dims k x

theorem kernel_nil (d : Direction) (k x : Position []) : kernel d [] k x = 1 :=
  Fin.prod_univ_zero _

theorem kernel_cons (d : Direction) {n : ℕ} {rest : List ℕ} (a b : Fin n) (k x : Position rest) :
    kernel d (n :: rest) (.cons a k) (.cons b x)
      = d.root n ^ ((a : ℕ) * b) * kernel d rest k x := by
  rw [kernel, prod_position_cons]
  rfl

theorem volumeSize_eq_prod (dims : List ℕ) : volumeSize dims = ∏ i, dims.get i := by
  induction dims with
  | nil => rfl
  | cons n rest ih =>
    rw [volumeSize, prod_position_cons, ih]
    rfl

/-- The characters of a grid are orthogonal. -/
theorem sum_kernel (d : Direction) {dims : List ℕ} (x y : Position dims) :
    ∑ k, kernel d dims k x * kernel d.reverse dims y k
      = if x = y then (volumeSize dims : ℂ) else 0 := by
  -- the sum over all frequencies of a product over the axes is a product of sums
  calc ∑ k, kernel d dims k x * kernel d.reverse dims y k
      = ∑ k : Position dims, ∏ i, d.root (dims.get i) ^ ((k i : ℕ) * x i) *
          d.reverse.root (dims.get i) ^ ((y i : ℕ) * k i) :=
        Finset.sum_congr rfl fun k _ => Finset.prod_mul_distrib.symm
    _ = ∏ i, ∑ k : Fin (dims.get i), d.root (dims.get i) ^ ((k : ℕ) * x i) *
          d.reverse.root (dims.get i) ^ ((y i : ℕ) * k) := by
        rw [Finset.prod_univ_sum, Fintype.piFinset_univ]
    _ = ∏ i, if x i = y i then (dims.get i : ℂ) else 0 :=
        Finset.prod_congr rfl fun i _ => d.sum_root_pow (x i) (y i)
    _ = if x = y then (volumeSize dims : ℂ) else 0 := by
        rw [Finset.prod_ite_zero, volumeSize_eq_prod, Nat.cast_prod]
        simp only [Finset.mem_univ, true_imp_iff, funext_iff]

namespace IsTransform

variable {d : Direction} {dims : List ℕ} {v F G : Volume ℝ}

theorem size_extents {extents : Triple ℕ} (hF : IsTransform d extents.toList v F) :
    F.size = extents.volume :=
  hF.size_eq.trans extents.volumeSize_toList

/-- There is one transform of a volume. -/
theorem unique (hF : IsTransform d dims v F) (hG : IsTransform d dims v G) : F = G := by
  apply ext_entry (hF.size_eq.trans hG.size_eq.symm)
  intro i hi
  obtain ⟨k, rfl⟩ := exists_place (hF.size_eq ▸ hi)
  rw [hF.entry_place, hG.entry_place]

/-- The transform in the other direction gives the volume back, multiplied with its size. -/
theorem reverse (hF : IsTransform d dims v F) (hv : v.size = volumeSize dims) :
    IsTransform d.reverse dims F (v.map (Sample.scale (volumeSize dims))) where
  size_eq := by rw [Array.size_map, hv]
  entry_place y := by
    have hy : place dims y < v.size := hv ▸ place_lt y
    rw [entry_map hy, Sample.toComplex_scale, ← entry_of_lt hy]
    symm
    calc ∑ k, entry F (place dims k) * kernel d.reverse dims y k
        = ∑ k, ∑ x, entry v (place dims x) * (kernel d dims k x * kernel d.reverse dims y k) := by
          refine Finset.sum_congr rfl ?_
          intro k _
          rw [hF.entry_place, Finset.sum_mul]
          exact Finset.sum_congr rfl fun x _ => mul_assoc _ _ _
      _ = ∑ x, entry v (place dims x) * ∑ k, kernel d dims k x * kernel d.reverse dims y k := by
          rw [Finset.sum_comm]
          exact Finset.sum_congr rfl fun x _ => (Finset.mul_sum _ _ _).symm
      _ = ∑ x, if x = y then entry v (place dims x) * volumeSize dims else 0 := by
          refine Finset.sum_congr rfl ?_
          intro x _
          rw [sum_kernel, mul_ite, mul_zero]
      _ = (volumeSize dims : ℝ) * entry v (place dims y) := by
          rw [Finset.sum_ite_eq' Finset.univ y, if_pos (Finset.mem_univ y), mul_comm]
          norm_cast

/-- The transform of a volume multiplied with a number is its transform multiplied with it. -/
theorem map_scale (hF : IsTransform d dims v F) (x : ℝ) :
    IsTransform d dims (v.map (Sample.scale x)) (F.map (Sample.scale x)) where
  size_eq := Array.size_map.trans hF.size_eq
  entry_place k := by
    rw [entry_map_scale, hF.entry_place, Finset.mul_sum]
    refine Finset.sum_congr rfl ?_
    intro y _
    rw [entry_map_scale, mul_assoc]

end IsTransform

/-! ### Real volumes -/

namespace Position

variable {dims : List ℕ}

/-- The frequency opposite to a frequency. -/
def opposite (k : Position dims) : Position dims := fun i =>
  ⟨(dims.get i - k i) % dims.get i, Nat.mod_lt _ (Nat.zero_lt_of_lt (k i).isLt)⟩

end Position

theorem root_pow_opposite (d : Direction) {n k : ℕ} (h : k < n) :
    d.root n ^ ((n - k) % n) = (starRingEnd ℂ) (d.root n ^ k) := by
  rw [d.root_pow_mod, map_pow, d.conj_root, inv_pow]
  refine eq_inv_of_mul_eq_one_left ?_
  rw [← pow_add, Nat.sub_add_cancel h.le, d.root_pow_self]

theorem kernel_opposite (d : Direction) {dims : List ℕ} (k x : Position dims) :
    kernel d dims k.opposite x = (starRingEnd ℂ) (kernel d dims k x) := by
  rw [kernel, kernel, map_prod]
  refine Finset.prod_congr rfl ?_
  intro i _
  show d.root (dims.get i) ^ ((dims.get i - k i) % dims.get i * x i) = _
  rw [pow_mul, root_pow_opposite d (k i).isLt, ← map_pow, ← pow_mul]

/-- The transform of real numbers is conjugate at opposite frequencies. -/
theorem IsTransform.conj_opposite {d : Direction} {dims : List ℕ} {v F : Volume ℝ}
    (hF : IsTransform d dims v F) (hv : ∀ i, (starRingEnd ℂ) (entry v i) = entry v i)
    (k : Position dims) :
    entry F (place dims k.opposite) = (starRingEnd ℂ) (entry F (place dims k)) := by
  rw [hF.entry_place, hF.entry_place, map_sum]
  refine Finset.sum_congr rfl ?_
  intro x _
  rw [kernel_opposite, map_mul, hv]

end FourierAudit
