/-
The reference transform is the discrete Fourier transform.

The library never evaluates the sum over all positions. It goes through the axes, each time
with a dense sum over one of them. The invariant is about a volume of several grids, one after the
other: going through the axes of the grids transforms each of them (`entry_separable`), and one
axis more makes the grids before it larger and fewer.

* `entry_alongAxis` — one axis: the sum over that axis alone;
* `isTransform_spectrum` — all axes;
* `transform_isTransform` — a call of a reference transform;
* `transform_transform_reverse` — a call in either direction and the one in the other direction.
-/
import FourierAudit.Proofs.DiscreteFourier
import FourierAudit.Proofs.RootTables

namespace FourierAudit

/-! ### The roots of a table -/

theorem toComplex_rootOfUnity (d : Direction) (n phase : ℕ) :
    (rootOfUnity (Scalar.ofInt d.sign : ℝ) n phase).toComplex = d.root n ^ phase := by
  set θ : ℝ := d.sign * 2 * Real.pi * phase * (1 / n) with hθ
  have hangle : (rootOfUnity (Scalar.ofInt d.sign : ℝ) n phase).toComplex
      = Complex.exp (θ * Complex.I) := by
    apply Complex.ext
    · rw [Complex.exp_ofReal_mul_I_re, Sample.toComplex_re]
      simp [rootOfUnity, hθ]
    · rw [Complex.exp_ofReal_mul_I_im, Sample.toComplex_im]
      simp [rootOfUnity, hθ]
  rw [hangle]
  cases d with
  | forward =>
    rw [Direction.root, unitRoot, ← Complex.exp_nat_mul, hθ, Direction.sign]
    congr 1
    push_cast
    ring
  | inverse =>
    rw [Direction.root, unitRoot, ← Complex.exp_neg, ← Complex.exp_nat_mul, hθ, Direction.sign]
    congr 1
    push_cast
    ring

theorem entry_rootTable (d : Direction) {n phase : ℕ} (h : phase < n) :
    entry (rootTable d n) phase = d.root n ^ phase := by
  rw [rootTable, entry_ofFn _ h, toComplex_rootOfUnity]

/-! ### One axis -/

/-- The transform along an axis is the sum over that axis, for every grid before it and every
place behind it. -/
theorem entry_alongAxis (d : Direction) {outer n inner : ℕ} {v : Volume ℝ}
    (hv : v.size = outer * n * inner) {o k y : ℕ} (ho : o < outer) (hk : k < n) (hy : y < inner) :
    entry (alongAxis (rootTable d n) n inner v) ((o * n + k) * inner + y)
      = ∑ j : Fin n, entry v ((o * n + j) * inner + y) * d.root n ^ (k * j) := by
  have hlt : (o * n + k) * inner + y < v.size := by
    rw [hv]
    exact @Triple.index_lt ⟨outer, n, inner⟩ ⟨o, k, y⟩ ⟨ho, hk, hy⟩
  rw [alongAxis, entry_ofFn _ hlt]
  simp only [mul_add_div_of_lt hy, mul_add_div_of_lt hk, Nat.mul_add_mod_of_lt hy,
    Nat.mul_add_mod_of_lt hk]
  set total : Sample ℝ := Sample.sum n fun j =>
    ((rootTable d n).getD (k * j % n) Sample.zero).mul
      (v.getD (o * n * inner + y + j * inner) Sample.zero) with htotal
  -- the scaling by one is no change in exact arithmetic
  have hscale : (if n = 1 then total else total.scale Scalar.one).toComplex = total.toComplex := by
    split
    · rfl
    · rw [Sample.toComplex_scale, Scalar.one_real, Complex.ofReal_one, one_mul]
  rw [hscale, htotal, Sample.toComplex_sum, ← Fin.sum_univ_eq_sum_range]
  refine Finset.sum_congr rfl ?_
  intro j _
  have hphase : k * j % n < n := Nat.mod_lt _ (Nat.zero_lt_of_lt hk)
  have hplace : o * n * inner + y + j * inner = (o * n + j) * inner + y := by ring
  rw [Sample.toComplex_mul, hplace, ← entry, ← entry, entry_rootTable d hphase, d.root_pow_mod,
    mul_comm]

/-! ### All axes -/

/-- Going through the axes of a grid transforms every one of the grids that a volume consists
of. -/
theorem entry_separable (d : Direction) {dims : List ℕ} {outer : ℕ} {v : Volume ℝ}
    (hv : v.size = outer * volumeSize dims) {o : ℕ} (ho : o < outer) (k : Position dims) :
    entry (separable (rootTable d) dims v) (o * volumeSize dims + place dims k)
      = ∑ x, entry v (o * volumeSize dims + place dims x) * kernel d dims k x := by
  induction dims generalizing outer v o with
  | nil =>
    obtain rfl : k = default := Subsingleton.elim _ _
    rw [separable, Fintype.sum_unique, kernel_nil, mul_one]
  | cons n rest ih =>
    obtain ⟨a, k, rfl⟩ := k.exists_cons
    rw [volumeSize, ← Nat.mul_assoc] at hv
    -- the grids of the axes that follow are `n` times as many
    have hplace : ∀ (b : Fin n) (x : Position rest),
        o * volumeSize (n :: rest) + place (n :: rest) (.cons b x)
          = (o * n + b) * volumeSize rest + place rest x := by
      intro b x
      rw [place_cons, volumeSize]
      ring
    have hoa : o * n + a < outer * n :=
      calc o * n + a < o * n + n := Nat.add_lt_add_left a.isLt _
        _ = (o + 1) * n := by ring
        _ ≤ outer * n := Nat.mul_le_mul_right n ho
    calc entry (separable (rootTable d) (n :: rest) v)
          (o * volumeSize (n :: rest) + place (n :: rest) (.cons a k))
        = ∑ x, entry (alongAxis (rootTable d n) n (volumeSize rest) v)
            ((o * n + a) * volumeSize rest + place rest x) * kernel d rest k x := by
          rw [separable, hplace, ih ((size_alongAxis _ _ _ v).trans hv) hoa]
      _ = ∑ x, ∑ b : Fin n, entry v ((o * n + b) * volumeSize rest + place rest x) *
            (d.root n ^ ((a : ℕ) * b) * kernel d rest k x) := by
          refine Finset.sum_congr rfl ?_
          intro x _
          rw [entry_alongAxis d hv ho a.isLt (place_lt x), Finset.sum_mul]
          exact Finset.sum_congr rfl fun b _ => mul_assoc _ _ _
      _ = ∑ b : Fin n, ∑ x : Position rest,
            entry v (o * volumeSize (n :: rest) + place (n :: rest) (.cons b x)) *
              kernel d (n :: rest) (.cons a k) (.cons b x) := by
          rw [Finset.sum_comm]
          simp only [hplace, kernel_cons]
      _ = _ := (sum_position_cons fun x =>
          entry v (o * volumeSize (n :: rest) + place (n :: rest) x) *
            kernel d (n :: rest) (.cons a k) x).symm

theorem isTransform_spectrum (d : Direction) {dims : List ℕ} {v : Volume ℝ}
    (hv : v.size = volumeSize dims) : IsTransform d dims v (spectrum d dims v) where
  size_eq := (size_separable _ dims v).trans hv
  entry_place k := by
    have hone : v.size = 1 * volumeSize dims := by rw [hv, Nat.one_mul]
    have h := entry_separable d hone Nat.one_pos k
    simp only [Nat.zero_mul, Nat.zero_add] at h
    exact h

theorem isTransform_spectrum_extents (d : Direction) {extents : Triple ℕ} {v : Volume ℝ}
    (hv : v.size = extents.volume) : IsTransform d extents.toList v (spectrum d extents.toList v) :=
  isTransform_spectrum d (hv.trans extents.volumeSize_toList.symm)

/-! ### A call -/

/-- **The reference transform is the discrete Fourier transform.** A fresh reference transform of
natural extents returns the transform of every volume of the right size, as long as arrays can
hold what it takes, and refuses every other volume as an invalid value. -/
theorem transform_isTransform (d : Direction) (dims : List ℕ) (v : Volume ℝ) :
    (Representable dims ∧ v.size = volumeSize dims ∧
        ∃ F, ((Reference.ofDims (dims.map Int.ofNat)).transform d v).1 = .ok F ∧
          F.size = volumeSize dims ∧
          ∀ k : Position dims, entry F (place dims k)
            = ∑ x : Position dims, entry v (place dims x) *
                ∏ i, d.root (dims.get i) ^ ((k i : ℕ) * x i)) ∨
      (¬(Representable dims ∧ v.size = volumeSize dims) ∧
        ∃ cause, ((Reference.ofDims (dims.map Int.ofNat)).transform d v).1
          = .error (.invalid cause)) := by
  have hsound : (Reference.ofDims (dims.map Int.ofNat) : Reference ℝ).Sound :=
    Reference.sound_ofDims _
  rcases Reference.transform_eq hsound rfl d v with ⟨hrep, hv, hok⟩ | hrefused
  · have hspectrum := isTransform_spectrum d hv
    exact .inl ⟨hrep, hv, _, hok, hspectrum.size_eq, hspectrum.entry_place⟩
  · exact .inr hrefused

/-- An empty volume has the size of a grid with an empty axis, but no array has that shape if
another axis is too long. -/
theorem transform_empty_of_long_axis :
    (#[] : Volume ℝ).size = volumeSize [0, 2 ^ 62] ∧
      ((Reference.ofDims ([0, 2 ^ 62].map Int.ofNat)).transform .forward (#[] : Volume ℝ)).1
        = .error (.invalid .layout) := by
  refine ⟨rfl, ?_⟩
  have hpoints : ¬((#[] : Volume ℝ).size : ℤ) ≠ wordProduct ([0, 2 ^ 62].map Int.ofNat) := by
    decide
  have hlayout : ¬(isAddressable Precision.double.elementSize ([0, 2 ^ 62].map Int.ofNat) = true ∧
      volumeSize [0, 2 ^ 62] = (#[] : Volume ℝ).size) := by
    decide
  rw [Reference.transform, Reference.points, Reference.ofDims, if_neg hpoints,
    Reference.layout?_natural, if_neg hlayout]

/-! ### Two calls in opposite directions -/

/-- **The transforms in the two directions undo each other**, up to the number of elements. If
arrays can hold what a transform takes, a volume of the right size is transformed, and the same
reference transforms the result back to the volume times the product of the extents. Otherwise the
first call is refused as an invalid value. -/
theorem transform_transform_reverse (d : Direction) (dims : List ℕ) (v : Volume ℝ) :
    (Representable dims ∧ v.size = dims.prod ∧ ∃ F G r r',
        (Reference.ofDims (dims.map Int.ofNat)).transform d v = (.ok F, r) ∧
          r.transform d.reverse F = (.ok G, r') ∧
          G.size = v.size ∧ ∀ i < v.size, entry G i = (dims.prod : ℂ) * entry v i) ∨
      (¬(Representable dims ∧ v.size = dims.prod) ∧
        ∃ cause, ((Reference.ofDims (dims.map Int.ofNat)).transform d v).1
          = .error (.invalid cause)) := by
  rw [← volumeSize_eq_list_prod]
  set r : Reference ℝ := Reference.ofDims (dims.map Int.ofNat) with hr
  have hsound : r.Sound := Reference.sound_ofDims _
  rcases Reference.transform_eq hsound rfl d v with ⟨hrep, hv, hok⟩ | hrefused
  · refine .inl ⟨hrep, hv, ?_⟩
    have hF := isTransform_spectrum d hv
    -- the second call finds the tables of the first one, which are sound
    have hback : ((r.transform d v).2.transform d.reverse (spectrum d dims v)).1
        = .ok (spectrum d.reverse dims (spectrum d dims v)) := by
      rcases Reference.transform_eq (hsound.transform d v) (r.dims_transform d v) d.reverse
        (spectrum d dims v) with ⟨-, -, hok⟩ | ⟨hnot, -⟩
      · exact hok
      · exact absurd ⟨hrep, hF.size_eq⟩ hnot
    have hG : spectrum d.reverse dims (spectrum d dims v)
        = v.map (Sample.scale (volumeSize dims : ℝ)) :=
      (isTransform_spectrum d.reverse hF.size_eq).unique (hF.reverse hv)
    refine ⟨_, _, _, _, Prod.ext hok rfl, Prod.ext hback rfl, ?_, ?_⟩
    · rw [hG, Array.size_map]
    · intro i hi
      rw [hG, entry_map hi, Sample.toComplex_scale, ← entry_of_lt hi, Complex.ofReal_natCast]
  · exact .inr hrefused

/-- No array has 65 axes, so a volume of one element is refused with so many extents of one. -/
theorem transform_of_many_axes :
    (∀ n ∈ List.replicate 65 1, 0 < n) ∧ (#[⟨2, 3⟩] : Volume ℝ).size = (List.replicate 65 1).prod ∧
      ∀ d, ((Reference.ofDims ((List.replicate 65 1).map Int.ofNat)).transform d
        (#[⟨2, 3⟩] : Volume ℝ)).1 = .error (.invalid .layout) := by
  refine ⟨by decide, by decide, ?_⟩
  intro d
  have hpoints : ¬((#[⟨2, 3⟩] : Volume ℝ).size : ℤ)
      ≠ wordProduct ((List.replicate 65 1).map Int.ofNat) := by
    decide
  have hlayout : ¬(isAddressable Precision.double.elementSize
        ((List.replicate 65 1).map Int.ofNat) = true ∧
      volumeSize (List.replicate 65 1) = (#[⟨2, 3⟩] : Volume ℝ).size) := by
    decide
  rw [Reference.transform, Reference.points, Reference.ofDims, if_neg hpoints,
    Reference.layout?_natural, if_neg hlayout]

end FourierAudit
