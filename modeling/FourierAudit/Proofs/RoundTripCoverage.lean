/-
What the round trip check covers.

The samples of a case are the ones that its transform reads from the stimulus: all complex samples,
or as many real ones, which are stored two to an element. The check compares whole elements, so of
an odd number of real samples it leaves the last one out:

* `samplesDeviate_iff` — what the check compares, sample by sample;
* `roundTrip_covers` — a verification that has passed the forward check fails if and only if some
  sample that has a partner, or needs none, is out of tolerance;
* `roundTrip_misses_last` — three real samples of which the last one comes back wrong.
-/
import FourierAudit.Proofs.ExactBackend

namespace FourierAudit

/-! ### Samples and elements -/

section Coverage

variable {R : Type} [Scalar R]

/-- Whether a sample is the last one of an odd number of real samples. It shares its element with a
component that is no sample of the case. -/
def TransformCase.IsUnpaired (c : TransformCase R) (i : ℕ) : Prop :=
  c.kind = .realToComplex ∧ c.extents.volume % 2 = 1 ∧ i + 1 = c.extents.volume

/-- Whether a sample that the transform of a case reads has come back out of tolerance, once the
number of grid points has been divided out. -/
def InputSampleDeviates (c : TransformCase R) (stimulus recovered : Volume R) (i : ℕ) : Prop :=
  let scaled := recovered.map (Sample.scale (Scalar.one / Scalar.ofInt c.extents.volume))
  match c.kind with
  | .complexToComplex =>
    Deviates (c.tolerance .roundTrip) (stimulus.getD i Sample.zero) (scaled.getD i Sample.zero)
  | .realToComplex =>
    Scalar.le (componentError ((realInput c.points stimulus).getD i Scalar.zero)
      ((realInput c.points scaled).getD i Scalar.zero)) (c.tolerance .roundTrip) = false

theorem deviates_iff_component (tolerance : R) (a b : Sample R) :
    Deviates tolerance a b ↔ ∃ r < 2,
      Scalar.le (componentError (a.component r) (b.component r)) tolerance = false := by
  constructor
  · rintro (h | h)
    · exact ⟨0, by omega, h⟩
    · exact ⟨1, by omega, h⟩
  · rintro ⟨r, hr, h⟩
    obtain rfl | rfl : r = 0 ∨ r = 1 := by omega
    · exact .inl h
    · exact .inr h

theorem getD_scaled {c : TransformCase R} {recovered : Volume R}
    (hrecovered : recovered.size = c.extents.volume) (x : R) {i : ℕ} (hi : i < c.extents.volume) :
    (recovered.map (Sample.scale x)).getD i Sample.zero
      = (recovered.getD i Sample.zero).scale x :=
  getD_map _ (hrecovered.symm ▸ hi) _ _

/-- Real sample `i` is component `i % 2` of element `i / 2`. -/
theorem inputSampleDeviates_real {c : TransformCase R} {stimulus recovered : Volume R}
    (hkind : c.kind = .realToComplex) (hpoints : c.points = c.extents.volume)
    (hstimulus : stimulus.size = c.extents.volume) (hrecovered : recovered.size = c.extents.volume)
    {i : ℕ} (hi : i < c.extents.volume) :
    InputSampleDeviates c stimulus recovered i ↔
      Scalar.le (componentError ((stimulus.getD (i / 2) Sample.zero).component i)
        (((recovered.getD (i / 2) Sample.zero).scale
          (Scalar.one / Scalar.ofInt c.extents.volume)).component i))
            (c.tolerance .roundTrip) = false := by
  have hhalf : i / 2 < c.extents.volume := by omega
  simp only [InputSampleDeviates, hkind, hpoints]
  rw [getD_realInput hi (by omega), getD_realInput hi (by rw [Array.size_map]; omega),
    getD_scaled hrecovered _ hhalf]

/-- The elements that a round trip compares hold all samples but an unpaired one. -/
theorem samplesDeviate_iff {c : TransformCase R} {stimulus recovered : Volume R}
    (hpoints : c.points = c.extents.volume) (hstimulus : stimulus.size = c.extents.volume)
    (hrecovered : recovered.size = c.extents.volume) :
    SamplesDeviate c stimulus recovered ↔ ∃ i < c.extents.volume, ¬c.IsUnpaired i ∧
      InputSampleDeviates c stimulus recovered i := by
  cases hkind : c.kind with
  | complexToComplex =>
    simp only [SamplesDeviate, InputSampleDeviates, TransformCase.IsUnpaired, hkind,
      reduceCtorEq, false_and, not_false_eq_true, true_and]
    refine exists_congr fun i => and_congr_right ?_
    intro hi
    rw [getD_scaled hrecovered _ hi]
    rfl
  | realToComplex =>
    have hsample {i : ℕ} (hi : i < c.extents.volume) :=
      inputSampleDeviates_real hkind hpoints hstimulus hrecovered hi
    simp only [SamplesDeviate, TransformCase.IsUnpaired, hkind, deviates_iff_component,
      TransformKind.roundTripSize, true_and]
    constructor
    · rintro ⟨j, hj, r, hr, hdev⟩
      have hi : 2 * j + r < c.extents.volume := by omega
      have hj' : (2 * j + r) / 2 = j := by omega
      refine ⟨2 * j + r, hi, by omega, (hsample hi).mpr ?_⟩
      rw [hj', Sample.component_add, Sample.component_add]
      exact hdev
    · rintro ⟨i, hi, hpaired, hdev⟩
      refine ⟨i / 2, by omega, i % 2, by omega, ?_⟩
      rw [Sample.component_mod, Sample.component_mod]
      exact (hsample hi).mp hdev

/-! ### The verification -/

variable [LawfulOrder R] {draw : TransformCase R → Except (Failure R) (Thunk (Volume R))}
  {ceiling : ℤ} {candidate : Candidate R} {requested c : TransformCase R}
  {stimulus : Thunk (Volume R)} {F spectrum recovered : Volume R}

/-- After a passed forward check, the samples decide. -/
theorem run_verifyWith_of_spectrum (hc : candidate.normalise requested ceiling = .ok c)
    (hdraw : draw c = .ok stimulus) (hstimulus : stimulus.get.size = c.extents.volume)
    (htransforms : candidate.Transforms c stimulus.get spectrum recovered)
    (hF : IsReference c stimulus.get F) (hforward : ¬SpectrumDeviates c F spectrum)
    (clock : ℕ → R) (s : Session R) :
    let result := ((verifyWith draw clock ceiling candidate requested).run.run s).1
    (SamplesDeviate c stimulus.get recovered ∧
        ∃ roundTrip, result = .error (.mismatch .roundTrip c roundTrip)) ∨
      (¬SamplesDeviate c stimulus.get recovered ∧ ∃ report, result = .ok report) := by
  intro result
  rcases run_verifyWith_cases hc hdraw hstimulus htransforms hF clock s with
    ⟨hspec, -⟩ | ⟨-, hsamples, roundTrip, -, hrun⟩ | ⟨-, hsamples, _, _, -, -, hrun⟩
  · exact absurd hspec hforward
  · exact .inl ⟨hsamples, roundTrip, congrArg Prod.fst hrun⟩
  · exact .inr ⟨hsamples, _, congrArg Prod.fst hrun⟩

/-- **What the round trip check covers.** Let a candidate get through a case and pass the forward
check. The verification fails in the round trip check if and only if some sample has come back out
of tolerance, where the last one of an odd number of real samples does not count; otherwise it
returns a report. -/
theorem roundTrip_covers (hc : candidate.normalise requested ceiling = .ok c)
    (hdraw : draw c = .ok stimulus) (hstimulus : stimulus.get.size = c.extents.volume)
    (htransforms : candidate.Transforms c stimulus.get spectrum recovered)
    (hF : IsReference c stimulus.get F) (hforward : ¬SpectrumDeviates c F spectrum)
    (clock : ℕ → R) (s : Session R) :
    let result := ((verifyWith draw clock ceiling candidate requested).run.run s).1
    ((∃ roundTrip, result = .error (.mismatch .roundTrip c roundTrip)) ↔
        ∃ i < c.extents.volume, ¬c.IsUnpaired i ∧
          InputSampleDeviates c stimulus.get recovered i) ∧
      ((∃ report, result = .ok report) ↔ ∀ i < c.extents.volume, ¬c.IsUnpaired i →
          ¬InputSampleDeviates c stimulus.get recovered i) := by
  intro result
  have hrep := (isReference_iff.mp hF).1
  have hpoints : c.points = c.extents.volume := points_eq (volumeSize_dims c ▸ hrep.volumeSize_lt)
  have hsamples := samplesDeviate_iff hpoints hstimulus htransforms.size_recovered
  have hnot : (∀ i < c.extents.volume, ¬c.IsUnpaired i →
      ¬InputSampleDeviates c stimulus.get recovered i) ↔
        ¬SamplesDeviate c stimulus.get recovered := by
    rw [hsamples]
    push Not
    rfl
  rw [← hsamples, hnot]
  rcases run_verifyWith_of_spectrum hc hdraw hstimulus htransforms hF hforward clock s with
    ⟨hdev, roundTrip, hrun⟩ | ⟨hdev, report, hrun⟩
  · have hresult : result = _ := hrun
    simp [hresult, hdev]
  · have hresult : result = _ := hrun
    simp [hresult, hdev]

end Coverage

/-! ### Samples that come back wrong -/

/-- The candidate that leaves the given samples in its input grid, whatever spectrum it has. -/
def Candidate.leaving {R : Type} [Scalar R] (candidate : Candidate R) (recovered : Volume R) :
    Candidate R :=
  { candidate with
    inverse := fun _ grids => ({ grids with input := { grids.input with cells := recovered } },
      .ok ()) }

/-- A component is out of tolerance if its error is above the tolerance times its magnitude, which
counts as one at least. -/
theorem le_componentError_eq_false (x y t : ℝ) :
    Scalar.le (componentError x y) t = false ↔ t * max |x| 1 < |x - y| := by
  have hpos : 0 < max |x| 1 := lt_max_of_lt_right one_pos
  rw [← Bool.not_eq_true, Scalar.le_real, componentError, Scalar.abs_real, Scalar.abs_real,
    Scalar.max_real, Scalar.one_real, not_le, lt_div_iff₀ hpos]

/-- An exact backend passes the forward check, whatever it leaves when it transforms back. -/
theorem Backend.leaving_transforms {transforms : Precision → ArrayTransforms ℝ} {b : Backend ℝ}
    {accelerator : Option Accelerator} {c : TransformCase ℝ} {ceiling : ℤ}
    {stimulus : Thunk (Volume ℝ)} {recovered : Volume ℝ}
    (hengine : b.engine = .ofTransforms transforms) (hexact : (transforms c.precision).IsExact)
    (htakes : b.Takes accelerator c ceiling) (hrep : Representable c.dims)
    (hsize : stimulus.get.size = c.extents.volume)
    (hrecovered : recovered.size = c.extents.volume) :
    ∃ F spectrum, IsReference c stimulus.get F ∧ ¬SpectrumDeviates c F spectrum ∧
      ((b.candidate accelerator).leaving recovered).Transforms c stimulus.get spectrum
        recovered := by
  have hvolume : c.extents.volume < 2 ^ 63 := volumeSize_dims c ▸ hrep.volumeSize_lt
  obtain ⟨opened, uploaded, transformed, hopened, huploaded, htransformed, -, hstored⟩ :=
    grids_exact hengine hexact htakes hvolume hsize hrep.elementSize_mul_volume_lt
  have hF : IsReference c stimulus.get (spectrum .forward c.dims (referenceInput c stimulus.get)) :=
    isReference_iff.mpr ⟨hrep, size_referenceInput (points_eq hvolume) hsize, rfl⟩
  have hspectrum : transformed.output.cells.size = c.outputPoints :=
    ((extractPacked_iff c.extents_pos.2.2 hF.size_eq).mp hstored).1
  refine ⟨_, transformed.output.cells, hF, ?_, ⟨⟨opened, uploaded, transformed, _, hopened,
    huploaded, htransformed, rfl, rfl, rfl⟩, hspectrum, hrecovered⟩⟩
  -- the spectrum is compared with itself
  obtain ⟨expected, result, hexpected, hresult, hverdict⟩ := compareSpectrum_verdict hF hspectrum
  have hsame : expected = transformed.output.cells :=
    Except.ok.inj (hexpected.symm.trans (hF.expectedSpectrum_eq.trans hstored))
  obtain ⟨self, hself, hpassed, -⟩ := compare_self (tolerance_nonneg c .forward)
    transformed.output.cells (some ((c.kind.packed c.extents).toList.map Int.ofNat))
  rw [hsame, compareSpectrum, hself, Except.ok.injEq] at hresult
  rw [← hverdict, ← hresult, hpassed]
  exact Bool.noConfusion

theorem component_scale (x : ℝ) (a : Sample ℝ) (i : ℕ) :
    (a.scale x).component i = x * a.component i := by
  simp only [Sample.component, Sample.scale, Sample.mul, Sample.ofReal, Scalar.zero_real]
  split <;> ring

/-! ### Three real samples on a line -/

section Line

/-- The case of three real samples on a line. -/
noncomputable def threeCase : TransformCase ℝ := lineCase .realToComplex 3 (by decide)

/-- The real samples one, zero and one, and zeros after them in storage. -/
def threeStimulus : Volume ℝ := #[⟨1, 0⟩, ⟨1, 0⟩, ⟨0, 0⟩]

/-- The exact backend, but for what it leaves when it transforms back. -/
noncomputable def threeCandidate (recovered : Volume ℝ) : Candidate ℝ :=
  (denseBackend.candidate none).leaving recovered

variable {recovered : Volume ℝ}

theorem threeCandidate_normalise :
    (threeCandidate recovered).normalise threeCase 3 = .ok threeCase :=
  have htakes := denseBackend_takes .realToComplex 3 (by decide)
  Backend.normalise_of_legal (Backend.legal_of_checkSupported htakes.supported) htakes.ceiling

theorem threeCandidate_transforms (h : recovered.size = 3) :
    ∃ F spectrum, IsReference threeCase threeStimulus F ∧ ¬SpectrumDeviates threeCase F spectrum ∧
      (threeCandidate recovered).Transforms threeCase threeStimulus spectrum recovered := by
  set stimulus : Thunk (Volume ℝ) := .mk fun _ => threeStimulus
  have hrep : Representable threeCase.dims := by
    show Representable [1, 1, 3]
    rw [representable_iff]
    decide
  have hengine : denseBackend.engine = .ofTransforms fun _ => denseTransforms := rfl
  have hsize : stimulus.get.size = threeCase.extents.volume := rfl
  have hrecovered : recovered.size = threeCase.extents.volume := h
  have hleaving := Backend.leaving_transforms hengine denseTransforms_isExact
    (denseBackend_takes .realToComplex 3 (by decide)) hrep hsize hrecovered
  exact hleaving

theorem three_inputSampleDeviates (h : recovered.size = 3) {i : ℕ} (hi : i < 3) :
    InputSampleDeviates threeCase threeStimulus recovered i ↔
      100000000⁻¹ * max |(threeStimulus.getD (i / 2) Sample.zero).component i| 1
        < |(threeStimulus.getD (i / 2) Sample.zero).component i -
            3⁻¹ * (recovered.getD (i / 2) Sample.zero).component i| := by
  have htolerance : threeCase.tolerance .roundTrip = 100000000⁻¹ := by
    show Scalar.ratio 1 100000000 * (1 : ℝ) = _
    rw [Scalar.ratio_real]
    norm_num
  have hscale : (Scalar.one / Scalar.ofInt threeCase.extents.volume : ℝ) = 3⁻¹ := by
    show (Scalar.one / Scalar.ofInt (3 : ℕ) : ℝ) = 3⁻¹
    rw [Scalar.one_real, Scalar.ofInt_real]
    norm_num
  rw [inputSampleDeviates_real rfl (points_eq (by decide)) rfl h hi, hscale, htolerance,
    component_scale, le_componentError_eq_false]

/-- The first sample comes back as fourteen instead of one, and the verification fails. -/
theorem roundTrip_covers_first :
    ∃ result, ((verifyWith (fun _ => .ok (.mk fun _ => threeStimulus)) (fun _ => 0) 3
      (threeCandidate #[⟨42, 0⟩, ⟨3, 0⟩, ⟨0, 0⟩]) threeCase).run.run Session.start).1
        = .error (.mismatch .roundTrip threeCase result) := by
  obtain ⟨F, spectrum, hF, hforward, htransforms⟩ :=
    @threeCandidate_transforms #[⟨42, 0⟩, ⟨3, 0⟩, ⟨0, 0⟩] rfl
  set stimulus : Thunk (Volume ℝ) := .mk fun _ => threeStimulus
  set draw : TransformCase ℝ → Except (Failure ℝ) (Thunk (Volume ℝ)) := fun _ => .ok stimulus
  have hdraw : draw threeCase = .ok stimulus := rfl
  have hsize : stimulus.get.size = threeCase.extents.volume := rfl
  have hdev : InputSampleDeviates threeCase threeStimulus #[⟨42, 0⟩, ⟨3, 0⟩, ⟨0, 0⟩] 0 := by
    rw [three_inputSampleDeviates rfl (by decide)]
    norm_num [threeStimulus, Sample.component]
  have hcovers := roundTrip_covers threeCandidate_normalise hdraw hsize htransforms hF hforward
    (fun _ => 0) Session.start
  refine hcovers.1.mpr ⟨0, by decide, ?_, hdev⟩
  rintro ⟨-, -, hlast⟩
  exact absurd hlast (by decide)

/-- The last sample comes back as fourteen instead of one, and the verification returns a
report. -/
theorem roundTrip_misses_last :
    InputSampleDeviates threeCase threeStimulus #[⟨3, 0⟩, ⟨42, 0⟩, ⟨0, 0⟩] 2 ∧
      ∃ report, ((verifyWith (fun _ => .ok (.mk fun _ => threeStimulus)) (fun _ => 0) 3
        (threeCandidate #[⟨3, 0⟩, ⟨42, 0⟩, ⟨0, 0⟩]) threeCase).run.run Session.start).1
          = .ok report := by
  have hsize : (#[⟨3, 0⟩, ⟨42, 0⟩, ⟨0, 0⟩] : Volume ℝ).size = 3 := rfl
  refine ⟨?_, ?_⟩
  · rw [three_inputSampleDeviates hsize (by decide)]
    norm_num [threeStimulus, Sample.component]
  · obtain ⟨F, spectrum, hF, hforward, htransforms⟩ := threeCandidate_transforms hsize
    set stimulus : Thunk (Volume ℝ) := .mk fun _ => threeStimulus
    set draw : TransformCase ℝ → Except (Failure ℝ) (Thunk (Volume ℝ)) := fun _ => .ok stimulus
    have hdraw : draw threeCase = .ok stimulus := rfl
    have hstimulus : stimulus.get.size = threeCase.extents.volume := rfl
    -- the two samples that are compared come back as they were
    have hsamples : ¬SamplesDeviate threeCase threeStimulus #[⟨3, 0⟩, ⟨42, 0⟩, ⟨0, 0⟩] := by
      have hthree : threeStimulus.size = threeCase.extents.volume := rfl
      rw [samplesDeviate_iff (points_eq (by decide)) hthree hsize]
      rintro ⟨i, hi, hpaired, hdev⟩
      have hi : i < 3 := hi
      rw [three_inputSampleDeviates hsize hi] at hdev
      obtain rfl | rfl | rfl : i = 0 ∨ i = 1 ∨ i = 2 := by omega
      · norm_num [threeStimulus, Sample.component] at hdev
      · norm_num [threeStimulus, Sample.component] at hdev
      · exact hpaired ⟨rfl, by decide, rfl⟩
    exact ((run_verifyWith_of_spectrum threeCandidate_normalise hdraw hstimulus htransforms hF
      hforward (fun _ => 0) Session.start).resolve_left fun h => hsamples h.1).2

end Line

end FourierAudit
