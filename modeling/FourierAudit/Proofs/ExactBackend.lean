/-
No false alarm.

A backend that runs an exact array library, in exact arithmetic, passes every case that it supports
with errors of zero (`verifyWith_exact`). What it computes and what it is compared with are written
down independently, from the stored half of a spectrum to the real samples in a complex grid, so
this is a statement about both.

* `compare_self` — a volume compared with itself;
* `run_exact` — a case whose arrays can be held;
* `run_unrepresentable` — any other case is refused as an invalid value.
-/
import FourierAudit.Proofs.BackendLimits
import FourierAudit.Proofs.ExactTransforms
import FourierAudit.Proofs.Verdict

namespace FourierAudit

/-! ### A comparison without errors -/

theorem componentError_self (x : ℝ) : componentError x x = 0 := by
  rw [componentError, sub_self, Scalar.abs_real, abs_zero, zero_div]

theorem elementError_self (a : Sample ℝ) : elementError a a = 0 := by
  rw [elementError, componentError_self, componentError_self, Scalar.max_real, max_self]

theorem absoluteError_self (a : Sample ℝ) : absoluteError a a = 0 := by
  rw [absoluteError, sub_self, sub_self, Scalar.abs_real, abs_zero, Scalar.max_real, max_self]

theorem largest_zipWith_self {error : Sample ℝ → Sample ℝ → ℝ} (h : ∀ a, error a a = 0)
    (v : Volume ℝ) : largest (Array.zipWith error v v) = 0 := by
  have hzero : Array.zipWith error v v = Array.replicate v.size 0 := by
    apply Array.ext
    · simp
    · intro i _ _
      rw [Array.getElem_zipWith, h, Array.getElem_replicate]
  rw [largest, hzero, Scalar.zero_real, ← Array.foldl_toList, Array.toList_replicate]
  induction v.size with
  | zero => rfl
  | succ n ih => rw [List.replicate_succ, List.foldl_cons, Scalar.maxNumber_real, max_self, ih]

/-- A volume compared with itself has no errors. -/
theorem compare_self {tolerance : ℝ} (h : 0 ≤ tolerance) (v : Volume ℝ) (shape : Option (List ℤ)) :
    ∃ result, compare v v tolerance shape = .ok result ∧ result.passed = true ∧
      result.maxAbsoluteError = 0 ∧ result.maxRelativeError = 0 := by
  obtain ⟨result, hresult, hpassed⟩ := compare_of_size (rfl : v.size = v.size) tolerance shape
  refine ⟨result, hresult, ?_, ?_, ?_⟩
  · rw [← Bool.not_eq_false, hpassed]
    rintro ⟨i, -, hdev⟩
    have hle : Scalar.le 0 tolerance = true := (Scalar.le_real 0 tolerance).mpr h
    rw [Deviates, componentError_self, componentError_self, hle] at hdev
    exact hdev.elim nofun nofun
  · rw [compare, compare?, if_pos rfl] at hresult
    rw [← Except.ok.inj hresult]
    exact largest_zipWith_self absoluteError_self v
  · rw [compare, compare?, if_pos rfl] at hresult
    rw [← Except.ok.inj hresult]
    exact largest_zipWith_self elementError_self v

theorem tolerance_nonneg (c : TransformCase ℝ) (check : Check) : 0 ≤ c.tolerance check := by
  have hscale : 0 < c.toleranceScale := by
    have := c.toleranceScale_pos
    rwa [Scalar.lt_real, Scalar.zero_real] at this
  have hbase : (0 : ℝ) ≤ baseTolerance c.precision check := by
    cases c.precision <;> cases check <;> simp [baseTolerance]
  exact mul_nonneg hbase hscale.le

theorem scale_scale_inv {n : ℕ} (hn : 0 < n) (a : Sample ℝ) :
    (a.scale (n : ℝ)).scale (Scalar.ratio 1 n) = a := by
  apply Sample.toComplex_injective
  have hne : (n : ℂ) ≠ 0 := Nat.cast_ne_zero.mpr hn.ne'
  rw [Sample.toComplex_scale, Sample.toComplex_scale, Scalar.ratio_real]
  push_cast
  field_simp

/-- Samples that were multiplied with the number of grid points are recovered without errors. -/
theorem compareRoundTrip_exact {c : TransformCase ℝ} {v cells : Volume ℝ}
    (hpoints : c.points = c.extents.volume) (hv : v.size = c.extents.volume)
    (hcells : cells.size = c.extents.volume)
    (hscaled : ∀ j < c.kind.roundTripSize c.extents.volume,
      cells.getD j Sample.zero = (v.getD j Sample.zero).scale (c.extents.volume : ℝ)) :
    ∃ result, compareRoundTrip c v cells = .ok result ∧ result.passed = true ∧
      result.maxAbsoluteError = 0 ∧ result.maxRelativeError = 0 := by
  have hexpected := size_extract_roundTripSize hv
  have hfound := size_extract_roundTripSize hcells
  have hpos := volume_pos c
  have hsame : (cells.extract 0 (c.kind.roundTripSize c.extents.volume)).map
        (Sample.scale (Scalar.one / Scalar.ofInt c.extents.volume))
      = v.extract 0 (c.kind.roundTripSize c.extents.volume) := by
    apply ext_entry (Array.size_map.trans (hfound.trans hexpected.symm))
    intro j hj
    rw [Array.size_map] at hj
    have hlt : j < c.kind.roundTripSize c.extents.volume := hfound ▸ hj
    rw [entry, entry, getD_map _ hj Sample.zero, getD_extract hlt, getD_extract hlt, hscaled j hlt]
    exact congrArg Sample.toComplex (scale_scale_inv hpos _)
  rw [compareRoundTrip, upTo_roundTripSize hpoints, upTo_roundTripSize hpoints, hpoints]
  simp only [hsame]
  exact compare_self (tolerance_nonneg c .roundTrip) _ none

/-! ### A verification on an exact backend -/

section Backend

variable {transforms : Precision → ArrayTransforms ℝ} {b : Backend ℝ}
  {accelerator : Option Accelerator} {c : TransformCase ℝ} {ceiling : ℤ}
  {draw : TransformCase ℝ → Except (Failure ℝ) (Thunk (Volume ℝ))}
  {stimulus : Thunk (Volume ℝ)}

/-- What a case needs to run on a backend. -/
structure Backend.Takes (b : Backend ℝ) (accelerator : Option Accelerator) (c : TransformCase ℝ)
    (ceiling : ℤ) : Prop where
  /-- The extents are not above the ceiling. -/
  ceiling : ∀ n ∈ c.dims, (n : ℤ) ≤ ceiling
  /-- The case is within the limits of the backend, one of which is that its extents are legal. -/
  supported : b.checkSupported accelerator c = .ok ()
  /-- The memory of the grids is there. -/
  location : Buffer.IsReachable accelerator b.location

/-- The grids from their making to the transform forward. -/
theorem grids_exact (hengine : b.engine = .ofTransforms transforms)
    (hexact : (transforms c.precision).IsExact) (htakes : b.Takes accelerator c ceiling)
    (hvolume : c.extents.volume < 2 ^ 63)
    (hsize : stimulus.get.size = c.extents.volume)
    (hfits : c.precision.elementSize.toNat * c.extents.volume < 2 ^ 63) :
    ∃ opened uploaded transformed, (b.candidate accelerator).openGrids c = .ok opened ∧
      ((b.candidate accelerator).upload c stimulus.get).result opened = .ok uploaded ∧
      ((b.candidate accelerator).forward c).result uploaded = .ok transformed ∧
      transformed.input.cells = stimulus.get ∧
      extractPacked c.kind c.extents
        (spectrum .forward c.extents.toList (referenceInput c stimulus.get))
          = .ok transformed.output.cells := by
  have hpoints := points_eq hvolume
  have hopened := Backend.openGrids_of_supported htakes.supported htakes.location hvolume
  rw [if_pos hfits] at hopened
  -- the grids as they are opened, and with the stimulus in the input grid
  set opened : GridPair ℝ :=
    ⟨⟨"grid1", c.precision, b.location, Array.replicate c.extents.volume Sample.zero⟩,
      ⟨"grid2", c.precision, b.location, Array.replicate c.outputPoints Sample.zero⟩⟩ with hgrids
  set uploaded : GridPair ℝ :=
    { opened with input := { opened.input with cells := stimulus.get } } with huploaded
  have hinput : stimulus.get.size = opened.input.cells.size := by
    rw [hsize, hgrids, Array.size_replicate]
  have hupload : ((b.candidate accelerator).upload c stimulus.get).result opened = .ok uploaded :=
    Backend.result_upload (Buffer.upload_of_size hinput)
  have houtput : uploaded.output.cells.size = c.outputPoints := Array.size_replicate
  obtain ⟨stored, hstored, hforward⟩ :=
    forward_exact hexact hpoints hsize (rfl : uploaded.input.cells = stimulus.get) houtput
  rw [← hengine] at hforward
  exact ⟨opened, uploaded, _, hopened, hupload, hforward, rfl, hstored⟩

/-- The session after a verification that got through. -/
theorem run_exact (hengine : b.engine = .ofTransforms transforms)
    (hexact : (transforms c.precision).IsExact) (htakes : b.Takes accelerator c ceiling)
    (hrep : Representable c.dims) (hdraw : draw c = .ok stimulus)
    (hsize : stimulus.get.size = c.extents.volume) (clock : ℕ → ℝ) (s : Session ℝ) :
    ∃ forward roundTrip : Comparison ℝ,
      ((verifyWith draw clock ceiling (b.candidate accelerator) c).run.run s).1
        = .ok ⟨b.name, c, forward, roundTrip⟩ ∧
      (forward.passed = true ∧ forward.maxAbsoluteError = 0 ∧ forward.maxRelativeError = 0) ∧
      roundTrip.passed = true ∧ roundTrip.maxAbsoluteError = 0 ∧
        roundTrip.maxRelativeError = 0 := by
  have hvolume : c.extents.volume < 2 ^ 63 := volumeSize_dims c ▸ hrep.volumeSize_lt
  have hpoints := points_eq hvolume
  have hc : (b.candidate accelerator).normalise c ceiling = .ok c :=
    Backend.normalise_of_legal (Backend.legal_of_checkSupported htakes.supported) htakes.ceiling
  obtain ⟨opened, uploaded, transformed, hopened, huploaded, htransformed, hinput, hstored⟩ :=
    grids_exact hengine hexact htakes hvolume hsize hrep.elementSize_mul_volume_lt
  have hF : IsReference c stimulus.get (spectrum .forward c.dims (referenceInput c stimulus.get)) :=
    isReference_iff.mpr ⟨hrep, size_referenceInput hpoints hsize, rfl⟩
  -- the spectrum is compared with itself
  have hexpected := hF.expectedSpectrum_eq.trans hstored
  obtain ⟨forward, hforward, hpassed, hzero⟩ := compare_self (tolerance_nonneg c .forward)
    transformed.output.cells (some ((c.kind.packed c.extents).toList.map Int.ofNat))
  -- and what comes back is the stimulus, once the number of grid points is divided out
  have hrestored := inverse_exact hexact hpoints hsize hinput hstored
  rw [← hengine] at hrestored
  obtain ⟨roundTrip, hroundTrip, hpassed', hzero'⟩ := compareRoundTrip_exact hpoints hsize
    (size_scaleSamples.trans hsize) fun j hj => getD_scaleSamples hsize hj
  refine ⟨forward, roundTrip, ?_, ⟨hpassed, hzero⟩, hpassed', hzero'⟩
  rw [run_verifyWith hc hdraw hopened huploaded htransformed hexpected hforward,
    run_settleForward_of_passed hpassed hrestored hroundTrip, if_pos hpassed']
  rfl

/-- Arrays that cannot be held are refused. -/
theorem run_unrepresentable (hengine : b.engine = .ofTransforms transforms)
    (hexact : (transforms c.precision).IsExact) (htakes : b.Takes accelerator c ceiling)
    (hvolume : c.extents.volume < 2 ^ 63) (hrep : ¬Representable c.dims)
    (hdraw : draw c = .ok stimulus)
    (hsize : stimulus.get.size = c.extents.volume) (clock : ℕ → ℝ) (s : Session ℝ) :
    ∃ cause, ((verifyWith draw clock ceiling (b.candidate accelerator) c).run.run s).1
      = .error (.invalid cause) := by
  have hc : (b.candidate accelerator).normalise c ceiling = .ok c :=
    Backend.normalise_of_legal (Backend.legal_of_checkSupported htakes.supported) htakes.ceiling
  -- single precision grids may be there although the reference transform needs too much
  by_cases hfits : c.precision.elementSize.toNat * c.extents.volume < 2 ^ 63
  · obtain ⟨opened, uploaded, transformed, hopened, huploaded, htransformed, -, -⟩ :=
      grids_exact hengine hexact htakes hvolume hsize hfits
    obtain ⟨cause, hcause⟩ := expectedSpectrum_unrepresentable stimulus.get hrep
    exact ⟨cause, run_verifyWith_of_expectedSpectrum_error hc hdraw hopened huploaded htransformed
      hcause clock s⟩
  · have hopened := Backend.openGrids_of_supported htakes.supported htakes.location hvolume
    rw [if_neg hfits] at hopened
    exact ⟨_, run_verifyWith_of_openGrids_error hc hdraw hopened clock s⟩

/-- **No false alarm.** In exact arithmetic, a backend whose array library is exact gets a report
with two passed comparisons and errors of zero, for every case that it takes and every stimulus, if
arrays can hold what the reference transform needs. Any other case with fewer than `2 ^ 63` grid
points is refused as an invalid value. -/
theorem verifyWith_exact (hengine : b.engine = .ofTransforms transforms)
    (hexact : (transforms c.precision).IsExact) (htakes : b.Takes accelerator c ceiling)
    (hvolume : c.extents.volume < 2 ^ 63) (hdraw : draw c = .ok stimulus)
    (hsize : stimulus.get.size = c.extents.volume) (clock : ℕ → ℝ) (s : Session ℝ) :
    (Representable c.dims ∧ ∃ forward roundTrip : Comparison ℝ,
        ((verifyWith draw clock ceiling (b.candidate accelerator) c).run.run s).1
          = .ok ⟨b.name, c, forward, roundTrip⟩ ∧
        (forward.passed = true ∧ forward.maxAbsoluteError = 0 ∧ forward.maxRelativeError = 0) ∧
        roundTrip.passed = true ∧ roundTrip.maxAbsoluteError = 0 ∧
          roundTrip.maxRelativeError = 0) ∨
      (¬Representable c.dims ∧ ∃ cause,
        ((verifyWith draw clock ceiling (b.candidate accelerator) c).run.run s).1
          = .error (.invalid cause)) := by
  by_cases hrep : Representable c.dims
  · exact .inl ⟨hrep, run_exact hengine hexact htakes hrep hdraw hsize clock s⟩
  · exact .inr ⟨hrep, run_unrepresentable hengine hexact htakes hvolume hrep hdraw hsize clock s⟩

end Backend

/-! ### A backend with dense transforms -/

/-- The backend without limits that runs the dense transforms. -/
noncomputable def denseBackend : Backend ℝ :=
  { (abstractBackend : Backend ℝ) with engine := .ofTransforms fun _ => denseTransforms }

/-- The case of a line of points. -/
noncomputable def lineCase (kind : TransformKind) (n : ℕ) (hn : 0 < n) : TransformCase ℝ :=
  ⟨⟨1, 1, n⟩, kind, .double, 1, ⟨Nat.one_pos, Nat.one_pos, hn⟩, by simp⟩

theorem denseBackend_takes (kind : TransformKind) (n : ℕ) (hn : 0 < n) :
    denseBackend.Takes none (lineCase kind n hn) n where
  ceiling := by
    simp [lineCase, TransformCase.dims, Triple.toList]
    omega
  supported := by
    have hlegal : denseBackend.allLegal (lineCase kind n hn).dims = .ok true := by
      rw [Backend.allLegal_iff]
      intro m hm
      have hpos : 0 < m := by
        simp [lineCase, TransformCase.dims, Triple.toList] at hm
        omega
      show isSmooth none (m : ℤ) = .ok true
      rw [isSmooth, if_neg (by omega)]
    simp only [Backend.checkSupported, hlegal]
    rfl
  location := .inl rfl

/-- Three complex samples, of which the first three components are transformed. -/
theorem verifyWith_dense_line :
    ∃ forward roundTrip : Comparison ℝ,
      ((verifyWith (fun _ => .ok (.mk fun _ => #[⟨1, 2⟩, ⟨3, 4⟩, ⟨5, 6⟩])) (fun _ => 0) 3
        (denseBackend.candidate none) (lineCase .realToComplex 3 (by decide))).run.run
          Session.start).1 = .ok ⟨none, lineCase .realToComplex 3 (by decide), forward, roundTrip⟩ ∧
      forward.maxAbsoluteError = 0 ∧ roundTrip.maxAbsoluteError = 0 := by
  set c : TransformCase ℝ := lineCase .realToComplex 3 (by decide) with hc
  set stimulus : Thunk (Volume ℝ) := .mk fun _ => #[⟨1, 2⟩, ⟨3, 4⟩, ⟨5, 6⟩] with hstimulus
  set draw : TransformCase ℝ → Except (Failure ℝ) (Thunk (Volume ℝ)) := fun _ => .ok stimulus
  have hengine : denseBackend.engine = .ofTransforms fun _ => denseTransforms := rfl
  have hvolume : c.extents.volume < 2 ^ 63 := by
    show 1 * 1 * 3 < 2 ^ 63
    decide
  have hdraw : draw c = .ok stimulus := rfl
  have hsize : stimulus.get.size = c.extents.volume := rfl
  have hrep : Representable c.dims := by
    show Representable [1, 1, 3]
    rw [representable_iff]
    decide
  rcases verifyWith_exact hengine denseTransforms_isExact
      (denseBackend_takes .realToComplex 3 (by decide)) hvolume hdraw hsize (fun _ => 0)
      Session.start with
    ⟨-, forward, roundTrip, hrun, ⟨-, habs, -⟩, -, habs', -⟩ | ⟨hnot, -⟩
  · exact ⟨forward, roundTrip, hrun, habs, habs'⟩
  · exact absurd hrep hnot

/-- A line of `2 ^ 60` points is refused, although its points can be counted and the backend takes
it. -/
theorem verifyWith_dense_long_line :
    denseTransforms.IsExact ∧
      denseBackend.Takes none (lineCase .complexToComplex (2 ^ 60) (by decide)) (2 ^ 60) ∧
      (lineCase .complexToComplex (2 ^ 60) (by decide)).extents.volume < 2 ^ 63 ∧
      ∃ cause, ((verifyWith (fun _ => .ok (.mk fun _ => Array.replicate (2 ^ 60) Sample.zero))
        (fun _ => 0) (2 ^ 60) (denseBackend.candidate none)
        (lineCase .complexToComplex (2 ^ 60) (by decide))).run.run Session.start).1
          = .error (.invalid cause) := by
  set c : TransformCase ℝ := lineCase .complexToComplex (2 ^ 60) (by decide) with hc
  set stimulus : Thunk (Volume ℝ) := .mk fun _ => Array.replicate (2 ^ 60) Sample.zero
  set draw : TransformCase ℝ → Except (Failure ℝ) (Thunk (Volume ℝ)) := fun _ => .ok stimulus
  have hengine : denseBackend.engine = .ofTransforms fun _ => denseTransforms := rfl
  have htakes := denseBackend_takes .complexToComplex (2 ^ 60) (by decide)
  have hline : c.extents.volume = 2 ^ 60 := by
    show 1 * 1 * 2 ^ 60 = 2 ^ 60
    decide
  have hvolume : c.extents.volume < 2 ^ 63 := by
    rw [hline]
    decide
  have hdraw : draw c = .ok stimulus := rfl
  have hsize : stimulus.get.size = c.extents.volume := Array.size_replicate.trans hline.symm
  have hrep : ¬Representable c.dims := by
    intro h
    have hkernel := h.kernels (2 ^ 60) (by simp [hc, lineCase, TransformCase.dims, Triple.toList])
    exact absurd hkernel (by decide)
  exact ⟨denseTransforms_isExact, htakes, hvolume,
    run_unrepresentable hengine denseTransforms_isExact htakes hvolume hrep hdraw hsize _ _⟩

end FourierAudit
