/-
An array library with exact transforms, run on the grids of a case.

* `ArrayTransforms.IsExact` — what the library promises: its transforms are the discrete Fourier
  transforms, of real samples the stored half of it;
* `denseTransforms` — a library that keeps the promise (`denseTransforms_isExact`);
* `scaleSamples` — a volume with the samples of a case multiplied with a number;
* `forward_exact` — after the transform forward, the output grid has what the reference transform
  says;
* `inverse_exact` — after the transform back, the input grid has the samples multiplied with the
  number of grid points, and everything else that was in it.
-/
import FourierAudit.Proofs.GridComponents
import FourierAudit.Proofs.HermitianSymmetry
import FourierAudit.Proofs.VerificationRuns

namespace FourierAudit

/-- Whether the transforms of an array library are exact. The transform back of half a spectrum is
that of the full spectrum it determines. -/
structure ArrayTransforms.IsExact (library : ArrayTransforms ℝ) : Prop where
  complexForward : ∀ {extents : Triple ℕ} {v : Volume ℝ}, v.size = extents.volume →
    IsTransform .forward extents.toList v (library.complexForward extents v)
  complexInverse : ∀ {extents : Triple ℕ} {v : Volume ℝ}, v.size = extents.volume →
    IsTransform .inverse extents.toList v (library.complexInverse extents v)
  realForward : ∀ {extents : Triple ℕ} {values : Array ℝ} {F : Volume ℝ}, 0 < extents.z →
    values.size = extents.volume →
    IsTransform .forward extents.toList (complexEmbedding values) F →
    extractPacked .realToComplex extents F = .ok (library.realForward extents values)
  realInverse : ∀ {extents : Triple ℕ} {values : Array ℝ} {half full : Volume ℝ},
    hermitianCompletion extents half = .ok full →
    IsTransform .inverse extents.toList full (complexEmbedding values) →
    library.realInverse extents half = values

/-- The library that evaluates every transform axis by axis. -/
noncomputable def denseTransforms : ArrayTransforms ℝ where
  complexForward extents v := spectrum .forward extents.toList v
  complexInverse extents v := spectrum .inverse extents.toList v
  realForward extents values :=
    match extractPacked .realToComplex extents
        (spectrum .forward extents.toList (complexEmbedding values)) with
    | .ok half => half
    | .error _ => #[]
  realInverse extents half :=
    match hermitianCompletion extents half with
    | .ok full => (spectrum .inverse extents.toList full).map Sample.re
    | .error _ => #[]

theorem map_re_complexEmbedding (values : Array ℝ) :
    (complexEmbedding values).map Sample.re = values := by
  rw [complexEmbedding, Array.map_map]
  exact Array.map_id values

theorem denseTransforms_isExact : denseTransforms.IsExact where
  complexForward hv := isTransform_spectrum_extents .forward hv
  complexInverse hv := isTransform_spectrum_extents .inverse hv
  realForward {extents values F} hz hvalues hF := by
    have hsize : (complexEmbedding values).size = extents.volume := by
      rw [size_complexEmbedding, hvalues]
    have hspectrum := isTransform_spectrum_extents .forward hsize
    obtain rfl := hF.unique hspectrum
    have hFsize := hspectrum.size_extents
    simp only [denseTransforms, extractPacked_eq hz hFsize]
  realInverse {extents values half full} hfull hvalues := by
    have hspectrum := isTransform_spectrum_extents .inverse (hermitianCompletion_iff.mp hfull).2.1
    simp only [denseTransforms, hfull]
    rw [hspectrum.unique hvalues, map_re_complexEmbedding]

/-! ### On the grids of a case -/

section Grids

variable {transforms : Precision → ArrayTransforms ℝ} {c : TransformCase ℝ} {v : Volume ℝ}
  {grids : GridPair ℝ}

/-- The transform forward leaves what the reference transform says. -/
theorem forward_exact (hexact : (transforms c.precision).IsExact)
    (hpoints : c.points = c.extents.volume) (hv : v.size = c.extents.volume)
    (hinput : grids.input.cells = v) (houtput : grids.output.cells.size = c.outputPoints) :
    ∃ stored, extractPacked c.kind c.extents
        (spectrum .forward c.extents.toList (referenceInput c v)) = .ok stored ∧
      ((Engine.ofTransforms transforms).forward c).result grids
        = .ok { grids with output := { grids.output with cells := stored } } := by
  have hz := c.extents_pos.2.2
  have hF := isTransform_spectrum_extents .forward (size_referenceInput hpoints hv)
  have hFsize := hF.size_extents
  obtain ⟨stored, hstored⟩ : ∃ stored, extractPacked c.kind c.extents
      (spectrum .forward c.extents.toList (referenceInput c v)) = .ok stored :=
    ⟨_, extractPacked_eq hz hFsize⟩
  have hsize : stored.size = grids.output.cells.size :=
    ((extractPacked_iff hz hFsize).mp hstored).1.trans houtput.symm
  refine ⟨stored, hstored, ?_⟩
  have hfill := Buffer.fill_of_size hsize
  cases hkind : c.kind with
  | complexToComplex =>
    have hlibrary : (transforms c.precision).complexForward c.extents v = stored := by
      rw [referenceInput_complex hkind] at hF hFsize hstored
      rw [hkind, extractPacked_complexToComplex hz hFsize] at hstored
      rw [(hexact.complexForward hv).unique hF]
      exact Except.ok.inj hstored
    simp only [Engine.ofTransforms, GridAction.result_ofExcept, hkind, hinput, hlibrary, hfill]
    rfl
  | realToComplex =>
    have hlibrary : (transforms c.precision).realForward c.extents (realInput c.points v)
        = stored := by
      have hvalues : (realInput c.points v).size = c.extents.volume := by
        rw [hpoints, size_realInput (by omega)]
      rw [referenceInput_real hkind] at hF hstored
      rw [hkind, hexact.realForward hz hvalues hF] at hstored
      exact Except.ok.inj hstored
    simp only [Engine.ofTransforms, GridAction.result_ofExcept, hkind, hinput, hlibrary, hfill]
    rfl

end Grids

/-! ### Samples multiplied with a number -/

/-- A volume with the samples that the transform of a case reads multiplied with a number. Real
samples are the first components; those behind them stay. -/
noncomputable def scaleSamples (c : TransformCase ℝ) (x : ℝ) (v : Volume ℝ) : Volume ℝ :=
  match c.kind with
  | .complexToComplex => v.map (Sample.scale x)
  | .realToComplex => v.mapIdx fun i a =>
    ⟨if 2 * i < c.extents.volume then x * a.re else a.re,
      if 2 * i + 1 < c.extents.volume then x * a.im else a.im⟩

theorem scale_eq (x : ℝ) (a : Sample ℝ) : a.scale x = ⟨x * a.re, x * a.im⟩ := by
  simp [Sample.scale, Sample.mul, Sample.ofReal]

theorem map_scale_complexEmbedding (x : ℝ) (values : Array ℝ) :
    (complexEmbedding values).map (Sample.scale x) = complexEmbedding (values.map (x * ·)) := by
  rw [complexEmbedding, complexEmbedding, Array.map_map, Array.map_map]
  refine Array.map_congr_left fun a _ => Sample.toComplex_injective ?_
  rw [Function.comp_apply, Function.comp_apply, Sample.toComplex_scale, Sample.toComplex_ofReal,
    Sample.toComplex_ofReal, Complex.ofReal_mul]

section ScaleSamples

variable {c : TransformCase ℝ} {x y : ℝ} {v : Volume ℝ}

theorem scaleSamples_complex (hkind : c.kind = .complexToComplex) :
    scaleSamples c x v = v.map (Sample.scale x) := by
  rw [scaleSamples, hkind]

@[simp] theorem size_scaleSamples : (scaleSamples c x v).size = v.size := by
  rw [scaleSamples]
  split
  · exact Array.size_map
  · exact Array.size_mapIdx

/-- What stays are the components behind real samples. -/
theorem getElem?_components_scaleSamples (i : ℕ) :
    (components (scaleSamples c x v))[i]? =
      if c.kind = .realToComplex ∧ c.extents.volume ≤ i then (components v)[i]?
      else (components v)[i]?.map (x * ·) := by
  rw [getElem?_components, getElem?_components, scaleSamples]
  cases hkind : c.kind with
  | complexToComplex =>
    rw [if_neg (by simp), Array.getElem?_map, Option.map_map, Option.map_map]
    congr 1
    funext a
    rw [Function.comp_apply, Function.comp_apply, scale_eq, Sample.component, Sample.component,
      apply_ite (x * ·)]
  | realToComplex =>
    simp only [true_and, Array.getElem?_mapIdx]
    cases v[i / 2]? with
    | none => simp
    | some a =>
      simp only [Option.map_some, Sample.component]
      -- of the two places in element `i / 2`, the one that is looked at is place `i`
      by_cases heven : i % 2 = 0
      · have hi : 2 * (i / 2) = i := by omega
        simp only [if_pos heven, hi]
        split_ifs <;> first | rfl | omega
      · have hi : 2 * (i / 2) + 1 = i := by omega
        simp only [if_neg heven, hi]
        split_ifs <;> first | rfl | omega

theorem scaleSamples_one : scaleSamples c 1 v = v := by
  apply components_injective
  apply Array.ext_getElem?
  intro i
  have hone : (components v)[i]?.map ((1 : ℝ) * ·) = (components v)[i]? := by
    simp only [one_mul, Option.map_id']
  rw [getElem?_components_scaleSamples, hone, ite_self]

theorem scaleSamples_scaleSamples :
    scaleSamples c x (scaleSamples c y v) = scaleSamples c (x * y) v := by
  apply components_injective
  apply Array.ext_getElem?
  intro i
  simp only [getElem?_components_scaleSamples]
  split_ifs
  · rfl
  · rw [Option.map_map]
    congr 1
    funext a
    exact (mul_assoc x y a).symm

/-- The reference transform is given the samples, so all that it is given is multiplied. -/
theorem referenceInput_scaleSamples (hpoints : c.points = c.extents.volume) :
    referenceInput c (scaleSamples c x v) = (referenceInput c v).map (Sample.scale x) := by
  cases hkind : c.kind with
  | complexToComplex =>
    rw [referenceInput_complex hkind, referenceInput_complex hkind, scaleSamples_complex hkind]
  | realToComplex =>
    have hreal : realInput c.points (scaleSamples c x v)
        = (realInput c.points v).map (x * ·) := by
      apply Array.ext_getElem?
      intro i
      rw [hpoints, Array.getElem?_map, getElem?_realInput_components,
        getElem?_realInput_components, getElem?_components_scaleSamples]
      split_ifs <;> first | rfl | omega
    rw [referenceInput_real hkind, referenceInput_real hkind, hreal, map_scale_complexEmbedding]

/-- An element that a round trip compares consists of samples. -/
theorem getD_scaleSamples (hv : v.size = c.extents.volume) {j : ℕ}
    (hj : j < c.kind.roundTripSize c.extents.volume) :
    (scaleSamples c x v).getD j Sample.zero = (v.getD j Sample.zero).scale x := by
  have hlt : j < v.size := by
    rw [hv]
    exact hj.trans_le (c.kind.roundTripSize_le _)
  cases hkind : c.kind with
  | complexToComplex => rw [scaleSamples_complex hkind, getD_map _ hlt]
  | realToComplex =>
    have hpair := TransformKind.pair_lt_of_lt_roundTripSize (hkind ▸ hj)
    have hfirst : 2 * j < c.extents.volume := by omega
    rw [scaleSamples, hkind, Array.getD_eq_getD_getElem?, Array.getD_eq_getD_getElem?,
      Array.getElem?_mapIdx, Array.getElem?_eq_getElem hlt, scale_eq]
    simp only [Option.map_some, Option.getD_some, if_pos hpair, if_pos hfirst]

end ScaleSamples

/-! ### The transform back on the grids of a case -/

/-- Writing the real samples of a volume to a grid makes it that volume, if it has the same
components behind them. -/
theorem Buffer.writeComponents_realInput {b : Buffer ℝ} {v : Volume ℝ} {points : ℕ}
    (hsize : v.size = b.cells.size)
    (hbehind : ∀ i, points ≤ i → (components v)[i]? = (components b.cells)[i]?) :
    b.writeComponents (realInput points v) = { b with cells := v } := by
  have hcells : (b.writeComponents (realInput points v)).cells = v := by
    apply components_injective
    apply Array.ext_getElem?
    intro i
    rw [getElem?_components_writeComponents, getElem?_realInput_components]
    -- the samples are written, and the components behind them are those of the grid
    split_ifs with hi
    · have hsizes : (components v).size = (components b.cells).size := by
        rw [size_components, size_components, hsize]
      rcases Nat.lt_or_ge i (components v).size with hin | hin
      · rw [Array.getElem?_eq_getElem hin, Array.getElem?_eq_getElem (hsizes ▸ hin)]
        exact congrArg some (b.precision.store_exact _)
      · rw [Array.getElem?_eq_none hin, Array.getElem?_eq_none (hsizes ▸ hin), Option.map_none]
    · rw [hbehind i (by omega)]
      exact congrFun Option.map_id _
  exact congrArg (fun cells => { b with cells := cells }) hcells

/-- The transform back leaves the samples multiplied with the number of grid points, and what lies
behind them as it was. -/
theorem inverse_exact {transforms : Precision → ArrayTransforms ℝ} {c : TransformCase ℝ}
    {v : Volume ℝ} {grids : GridPair ℝ} (hexact : (transforms c.precision).IsExact)
    (hpoints : c.points = c.extents.volume) (hv : v.size = c.extents.volume)
    (hinput : grids.input.cells = v)
    (hstored : extractPacked c.kind c.extents
      (spectrum .forward c.extents.toList (referenceInput c v)) = .ok grids.output.cells) :
    ((Engine.ofTransforms transforms).inverse c).result grids
      = .ok { grids with
          input := { grids.input with cells := scaleSamples c c.extents.volume v } } := by
  have hz := c.extents_pos.2.2
  have hsize := size_referenceInput hpoints hv
  have hF := isTransform_spectrum_extents .forward hsize
  have hFsize := hF.size_extents
  have hback := hF.reverse (hsize.trans c.extents.volumeSize_toList.symm)
  rw [Triple.volumeSize_toList, ← referenceInput_scaleSamples hpoints] at hback
  have hcells : (scaleSamples c c.extents.volume v).size = grids.input.cells.size := by
    rw [size_scaleSamples, hinput]
  cases hkind : c.kind with
  | complexToComplex =>
    -- the whole spectrum is stored, so the library transforms the spectrum of `v` itself
    rw [referenceInput_complex hkind] at hF hFsize hback hstored
    rw [referenceInput_complex hkind] at hback
    rw [hkind, extractPacked_complexToComplex hz hFsize, Except.ok.injEq] at hstored
    have hlibrary := (hexact.complexInverse hFsize).unique hback
    rw [hstored] at hlibrary
    simp only [Engine.ofTransforms, GridAction.result_ofExcept, hkind, hlibrary,
      Buffer.fill_of_size hcells]
    rfl
  | realToComplex =>
    -- the stored half determines the spectrum of the real samples, which goes back to them
    rw [referenceInput_real hkind] at hF hFsize hback hstored
    rw [referenceInput_real hkind] at hback
    rw [hkind, ← completion_iff_of_isTransform hz hF] at hstored
    have hlibrary := hexact.realInverse hstored hback
    have hwritten := Buffer.writeComponents_realInput hcells fun i hi => by
      rw [getElem?_components_scaleSamples, if_pos ⟨hkind, hi⟩, hinput]
    rw [← hpoints] at hwritten
    simp only [Engine.ofTransforms, GridAction.result_ofExcept, hkind, hlibrary, hwritten]
    rfl

end FourierAudit
