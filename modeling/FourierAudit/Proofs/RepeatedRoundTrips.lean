/-
Round trips repeated on one pair of grids.

Nothing is divided out in either direction, so on an exact backend every round trip multiplies the
samples with the number of grid points once more:

* `Candidate.roundTrips` — a number of round trips, one after the other;
* `GridPair.HasScaled` — grids whose samples are those of a volume multiplied with a number;
* `HasScaled.forward`, `HasScaled.roundTrip` — what a transform forward and a round trip do to such
  grids, and `HasScaled.roundTrips` for any number of round trips;
* `roundTrips_scale` — what the grids hold then, if a volume has been uploaded before.
-/
import FourierAudit.Proofs.ExactBackend

namespace FourierAudit

/-! ### Round trips -/

namespace Candidate

variable {R : Type} [Scalar R]

/-- A transform forward, followed by the one back. -/
def roundTrip (candidate : Candidate R) (c : TransformCase R) (grids : GridPair R) :
    Except (Failure R) (GridPair R) := do
  let transformed ← (candidate.forward c).result grids
  (candidate.inverse c).result transformed

/-- A number of round trips, one after the other. -/
def roundTrips (candidate : Candidate R) (c : TransformCase R) :
    ℕ → GridPair R → Except (Failure R) (GridPair R)
  | 0, grids => .ok grids
  | k + 1, grids => do
    let restored ← candidate.roundTrips c k grids
    candidate.roundTrip c restored

theorem roundTrip_of_forward {candidate : Candidate R} {c : TransformCase R}
    {grids transformed : GridPair R}
    (h : (candidate.forward c).result grids = .ok transformed) :
    candidate.roundTrip c grids = (candidate.inverse c).result transformed := by
  rw [roundTrip, h]
  rfl

end Candidate

/-! ### Multiplied samples -/

/-- Grids of a case whose samples are those of a volume multiplied with a number. What lies behind
real samples is as it is in the volume. -/
structure GridPair.HasScaled (grids : GridPair ℝ) (c : TransformCase ℝ) (x : ℝ) (v : Volume ℝ) :
    Prop where
  input : grids.input.cells = scaleSamples c x v
  output_size : grids.output.cells.size = c.outputPoints

section Exact

variable {transforms : Precision → ArrayTransforms ℝ} {b : Backend ℝ}
  (accelerator : Option Accelerator) {c : TransformCase ℝ} {v F stored : Volume ℝ} {x : ℝ}
  {grids : GridPair ℝ}

variable (hpoints : c.points = c.extents.volume) (hv : v.size = c.extents.volume)
  (hF : IsTransform .forward c.dims (referenceInput c v) F)
  (hstored : extractPacked c.kind c.extents F = .ok stored)

include hpoints hv hF hstored

/-- What is stored of the reference transform of multiplied samples. -/
theorem extractPacked_scaleSamples (x : ℝ) :
    extractPacked c.kind c.extents
        (spectrum .forward c.extents.toList (referenceInput c (scaleSamples c x v)))
      = .ok (stored.map (Sample.scale x)) := by
  have hsize : (scaleSamples c x v).size = c.extents.volume := size_scaleSamples.trans hv
  have hspectrum := isTransform_spectrum_extents .forward (size_referenceInput hpoints hsize)
  -- a number is taken out of the samples, of their transform and of what is stored of it
  have hscaled := hF.map_scale x
  rw [← referenceInput_scaleSamples hpoints] at hscaled
  rw [hspectrum.unique hscaled]
  exact extractPacked_map c.extents_pos.2.2 hF.size_extents hstored _

variable (hengine : b.engine = .ofTransforms transforms)
  (hexact : (transforms c.precision).IsExact)

include hengine hexact

namespace GridPair.HasScaled

/-- The transform forward leaves the spectrum, multiplied as the samples are. -/
theorem forward (h : grids.HasScaled c x v) :
    ∃ transformed : GridPair ℝ,
      ((b.candidate accelerator).forward c).result grids = .ok transformed ∧
      transformed.HasScaled c x v ∧ transformed.output.cells = stored.map (Sample.scale x) := by
  obtain ⟨scaled, hscaled, hforward⟩ :=
    forward_exact hexact hpoints (size_scaleSamples.trans hv) h.input h.output_size
  rw [extractPacked_scaleSamples hpoints hv hF hstored, Except.ok.injEq] at hscaled
  rw [← hengine] at hforward
  refine ⟨_, hforward, ⟨h.input, ?_⟩, hscaled.symm⟩
  rw [← hscaled, Array.size_map]
  exact ((extractPacked_iff c.extents_pos.2.2 hF.size_extents).mp hstored).1

/-- A round trip multiplies the samples with the number of grid points. -/
theorem roundTrip (h : grids.HasScaled c x v) :
    ∃ restored, (b.candidate accelerator).roundTrip c grids = .ok restored ∧
      restored.HasScaled c (c.extents.volume * x) v := by
  obtain ⟨transformed, hforward, htransformed, houtput⟩ :=
    h.forward accelerator hpoints hv hF hstored hengine hexact
  -- the transform back finds the spectrum of the multiplied samples
  have hspectrum := extractPacked_scaleSamples hpoints hv hF hstored x
  rw [← houtput] at hspectrum
  have hinverse := inverse_exact hexact hpoints (size_scaleSamples.trans hv) htransformed.input
    hspectrum
  rw [← hengine] at hinverse
  exact ⟨_, (Candidate.roundTrip_of_forward hforward).trans hinverse, scaleSamples_scaleSamples,
    htransformed.output_size⟩

/-- Round trips multiply the samples with as many powers of the number of grid points. -/
theorem roundTrips (h : grids.HasScaled c 1 v) (k : ℕ) :
    ∃ restored, (b.candidate accelerator).roundTrips c k grids = .ok restored ∧
      restored.HasScaled c ((c.extents.volume : ℝ) ^ k) v := by
  induction k with
  | zero => exact ⟨grids, rfl, (pow_zero (c.extents.volume : ℝ)).symm ▸ h⟩
  | succ k ih =>
    obtain ⟨grids', hgrids', hscaled⟩ := ih
    obtain ⟨restored, hrestored, hnext⟩ :=
      hscaled.roundTrip accelerator hpoints hv hF hstored hengine hexact
    refine ⟨restored, ?_, (pow_succ' (c.extents.volume : ℝ) k).symm ▸ hnext⟩
    rw [Candidate.roundTrips, hgrids']
    exact hrestored

end GridPair.HasScaled

end Exact

namespace Backend

/-- **Every round trip multiplies the samples with the number of grid points.** Let a backend with
an exact array library, in exact arithmetic, have grids for a case, and let a volume be uploaded to
them, whatever is in them. Then any number of round trips gets through, and so does a transform
forward after them. With `N` grid points and after `k` round trips, the input grid of a case with
complex input has the volume multiplied with `N ^ k`. With real input it has the first `N`
components multiplied with `N ^ k`, and all others as they were uploaded. The transform forward
leaves what is stored of the spectrum of the uploaded samples, multiplied with `N ^ k`. -/
theorem roundTrips_scale {b : Backend ℝ} {transforms : Precision → ArrayTransforms ℝ}
    {accelerator : Option Accelerator} {c : TransformCase ℝ} {opened : GridPair ℝ}
    (hengine : b.engine = .ofTransforms transforms) (hexact : (transforms c.precision).IsExact)
    (hopened : b.openGrids accelerator c = .ok opened) :
    let points := c.extents.volume
    let candidate := b.candidate accelerator
    opened.IsFor c ∧
      ∀ grids : GridPair ℝ, grids.IsFor c → ∀ v : Volume ℝ, v.size = points →
        ∃ uploaded F stored, (candidate.upload c v).result grids = .ok uploaded ∧
          IsTransform .forward c.dims (referenceInput c v) F ∧
          extractPacked c.kind c.extents F = .ok stored ∧
          ∀ k : ℕ, ∃ restored transformed, candidate.roundTrips c k uploaded = .ok restored ∧
            (candidate.forward c).result restored = .ok transformed ∧
            (c.kind = .complexToComplex →
              restored.input.cells = v.map (Sample.scale ((points : ℝ) ^ k))) ∧
            (c.kind = .realToComplex → ∀ i, (components restored.input.cells)[i]? =
              if i < points then (components v)[i]?.map ((points : ℝ) ^ k * ·)
              else (components v)[i]?) ∧
            transformed.output.cells = stored.map (Sample.scale ((points : ℝ) ^ k)) := by
  intro points candidate
  refine ⟨isFor_of_openGrids hopened, ?_⟩
  intro grids hgrids v hv
  have hpoints : c.points = c.extents.volume := points_eq (volume_lt_of_openGrids hopened)
  have hF := isTransform_spectrum_extents .forward (size_referenceInput hpoints hv)
  obtain ⟨stored, hstored⟩ : ∃ stored, extractPacked c.kind c.extents
      (spectrum .forward c.extents.toList (referenceInput c v)) = .ok stored :=
    ⟨_, extractPacked_eq c.extents_pos.2.2 hF.size_extents⟩
  set uploaded : GridPair ℝ := { grids with input := { grids.input with cells := v } }
  have hupload : (candidate.upload c v).result grids = .ok uploaded :=
    Backend.result_upload (Buffer.upload_of_size (hv.trans hgrids.input_size.symm))
  -- before the first round trip the samples are multiplied with one
  have huploaded : uploaded.HasScaled c 1 v := ⟨scaleSamples_one.symm, hgrids.output_size⟩
  refine ⟨uploaded, _, stored, hupload, hF, hstored, ?_⟩
  intro k
  obtain ⟨restored, hrestored, hscaled⟩ :=
    huploaded.roundTrips accelerator hpoints hv hF hstored hengine hexact k
  obtain ⟨transformed, htransformed, -, houtput⟩ :=
    hscaled.forward accelerator hpoints hv hF hstored hengine hexact
  refine ⟨restored, transformed, hrestored, htransformed, ?_, ?_, houtput⟩
  · intro hkind
    rw [hscaled.input, scaleSamples_complex hkind]
  · intro hkind i
    rw [hscaled.input, getElem?_components_scaleSamples]
    by_cases hi : i < c.extents.volume
    · rw [if_neg (by omega), if_pos hi]
    · rw [if_pos ⟨hkind, by omega⟩, if_neg hi]

/-- Two round trips of three real samples: the third one is multiplied with `3 ^ 2`, and what stands
behind it in the same element is not. -/
theorem roundTrips_scale_line :
    ∃ opened uploaded restored : GridPair ℝ,
      denseBackend.openGrids none (lineCase .realToComplex 3 (by decide)) = .ok opened ∧
      ((denseBackend.candidate none).upload (lineCase .realToComplex 3 (by decide))
        #[⟨1, 2⟩, ⟨3, 4⟩, ⟨5, 6⟩]).result opened = .ok uploaded ∧
      (denseBackend.candidate none).roundTrips (lineCase .realToComplex 3 (by decide)) 2 uploaded
        = .ok restored ∧
      (components restored.input.cells)[2]? = some 27 ∧
      (components restored.input.cells)[3]? = some 4 := by
  set c : TransformCase ℝ := lineCase .realToComplex 3 (by decide) with hc
  have htakes := denseBackend_takes .realToComplex 3 (by decide)
  have hopened := openGrids_of_supported htakes.supported htakes.location
    (show c.extents.volume < 2 ^ 63 by decide)
  rw [if_pos (show c.precision.elementSize.toNat * c.extents.volume < 2 ^ 63 by decide)] at hopened
  have hengine : denseBackend.engine = .ofTransforms fun _ => denseTransforms := rfl
  obtain ⟨hfor, hscale⟩ := roundTrips_scale hengine denseTransforms_isExact hopened
  obtain ⟨uploaded, _, _, hupload, -, -, hrounds⟩ :=
    hscale _ hfor #[⟨1, 2⟩, ⟨3, 4⟩, ⟨5, 6⟩] rfl
  obtain ⟨restored, _, hrestored, -, -, hreal, -⟩ := hrounds 2
  have hcells := hreal rfl
  refine ⟨_, uploaded, restored, hopened, hupload, hrestored, ?_, ?_⟩
  · rw [hcells 2, if_pos (show 2 < c.extents.volume by decide)]
    show some (((3 : ℕ) : ℝ) ^ 2 * 3) = some 27
    norm_num
  · rw [hcells 3, if_neg (show ¬3 < c.extents.volume by decide)]
    rfl

end Backend

end FourierAudit
