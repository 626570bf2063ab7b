/-
Looser tolerances.

The factor of a case on its tolerances decides which elements are out of tolerance, and nothing
else. Two verifications that differ in this factor compare the same volumes, as far as both of them
get, and the one with the larger factor gets at least as far:

* `Comparison.Loosens` — two comparisons of the same volumes, the second one no stricter;
* `compare_loosens` — comparisons with a tolerance and with a larger one;
* `Candidate.IgnoresTolerance` — a candidate whose computation does not depend on the factor;
* `verify_loosened` — the two verifications.

Design notes: what a verification does up to its first comparison is the same for both factors, down
to the failures, so two verifications start from one stage that only differs in the factor.
-/
import FourierAudit.Proofs.CaseSizes
import FourierAudit.Proofs.Measurements
import FourierAudit.Proofs.ToleranceLaws

namespace FourierAudit

variable {R : Type} [Scalar R]

/-! ### Two comparisons of the same volumes -/

namespace Comparison

/-- Whether an element of the compared volumes is out of tolerance. -/
def Fails (result : Comparison R) (expected found : Volume R) (i : ℕ) : Prop :=
  i < expected.size ∧
    Deviates result.tolerance (expected.getD i Sample.zero) (found.getD i Sample.zero)

/-- The second comparison is no stricter than the first, and finds the same errors. -/
structure Loosens (tight loose : Comparison R) : Prop where
  maxAbsoluteError : loose.maxAbsoluteError = tight.maxAbsoluteError
  maxRelativeError : loose.maxRelativeError = tight.maxRelativeError
  size : loose.size = tight.size
  worst : loose.worst = tight.worst
  worstExpected : loose.worstExpected = tight.worstExpected
  worstFound : loose.worstFound = tight.worstFound
  shape : loose.shape = tight.shape
  mismatches : loose.mismatches ≤ tight.mismatches
  firstMismatch : ∀ i, loose.firstMismatch = some i →
    ∃ j, tight.firstMismatch = some j ∧ j ≤ i

omit [Scalar R] in
theorem Loosens.passed {tight loose : Comparison R} (h : tight.Loosens loose)
    (hpassed : tight.passed = true) : loose.passed = true := by
  have hle := h.mismatches
  simp only [Comparison.passed, beq_iff_eq] at hpassed ⊢
  omega

end Comparison

theorem findIdx?_mono {α : Type} {items : Array α} {p q : α → Bool}
    (h : ∀ a, p a = true → q a = true) {i : ℕ} (hi : items.findIdx? p = some i) :
    ∃ j, items.findIdx? q = some j ∧ j ≤ i := by
  rw [Array.findIdx?_eq_some_iff_findIdx_eq] at hi
  have hle : items.findIdx q ≤ items.findIdx p := Array.findIdx_le_findIdx fun a _ => h a
  refine ⟨items.findIdx q, ?_, hi.2 ▸ hle⟩
  rw [Array.findIdx?_eq_some_iff_findIdx_eq]
  exact ⟨by omega, rfl⟩

section Compare

variable {expected found : Volume R} {shape : Option (List ℤ)}

theorem size_of_compare {tolerance : R} {result : Comparison R}
    (h : compare expected found tolerance shape = .ok result) : expected.size = found.size := by
  by_contra hsize
  rw [compare, compare?, if_neg hsize] at h
  cases h

/-- Within a larger tolerance no more elements fail, NaN included. -/
theorem compare_loosens [LawfulOrder R] {tolerance tolerance' : R} {tight loose : Comparison R}
    (hle : Scalar.le tolerance tolerance' = true)
    (htight : compare expected found tolerance shape = .ok tight)
    (hloose : compare expected found tolerance' shape = .ok loose) :
    tight.Loosens loose ∧ ∀ i, loose.Fails expected found i → tight.Fails expected found i := by
  have hsize := size_of_compare htight
  have hmono (e : R) : (!Scalar.le e tolerance') = true → (!Scalar.le e tolerance) = true := by
    simp only [Bool.not_eq_true']
    intro h
    by_contra hne
    rw [LawfulOrder.le_trans (Bool.eq_true_of_not_eq_false hne) hle] at h
    exact Bool.noConfusion h
  rw [compare, compare?, if_pos hsize] at htight hloose
  cases htight
  cases hloose
  refine ⟨⟨rfl, rfl, rfl, rfl, rfl, rfl, rfl, ?_, ?_⟩, ?_⟩
  · exact Array.countP_mono_left fun e _ => hmono e
  · intro i hi
    exact findIdx?_mono hmono hi
  · rintro i ⟨hi, hdev⟩
    refine ⟨hi, ?_⟩
    rw [← elementError_eq_false] at hdev ⊢
    simpa using hmono _ (by simpa using hdev)

theorem exists_compare_of_size (hsize : expected.size = found.size) (tolerance : R) :
    ∃ result, compare expected found tolerance shape = .ok result := by
  rw [compare, compare?, if_pos hsize]
  exact ⟨_, rfl⟩

end Compare

/-! ### The same case with another factor -/

/-- The case with another factor on its tolerances. -/
def TransformCase.rescale (c : TransformCase R) (scale : R)
    (h : Scalar.lt Scalar.zero scale = true) : TransformCase R :=
  { c with toleranceScale := scale, toleranceScale_pos := h }

theorem expectedSpectrum_rescale (c : TransformCase R) (scale : R)
    (h : Scalar.lt Scalar.zero scale = true) (stimulus : Volume R) :
    expectedSpectrum (c.rescale scale h) stimulus = expectedSpectrum c stimulus := by
  rw [expectedSpectrum, expectedSpectrum]
  rfl

/-- The computation of a candidate does not depend on the factor on the tolerances. -/
structure Candidate.IgnoresTolerance (candidate : Candidate R) : Prop where
  normalise : ∀ c scale h ceiling, candidate.normalise (c.rescale scale h) ceiling
    = (fun c => c.rescale scale h) <$> candidate.normalise c ceiling
  openGrids : ∀ c scale h, candidate.openGrids (c.rescale scale h) = candidate.openGrids c
  upload : ∀ c scale h, candidate.upload (c.rescale scale h) = candidate.upload c
  forward : ∀ c scale h, candidate.forward (c.rescale scale h) = candidate.forward c
  inverse : ∀ c scale h, candidate.inverse (c.rescale scale h) = candidate.inverse c

/-- The transforms of an engine do not depend on the factor on the tolerances. -/
structure Engine.IgnoresTolerance (engine : Engine R) : Prop where
  forward : ∀ c scale h, engine.forward (c.rescale scale h) = engine.forward c
  inverse : ∀ c scale h, engine.inverse (c.rescale scale h) = engine.inverse c

theorem Engine.ofTransforms_ignoresTolerance (transforms : Precision → ArrayTransforms R) :
    (Engine.ofTransforms transforms).IgnoresTolerance where
  forward _ _ _ := rfl
  inverse _ _ _ := rfl

namespace Backend

theorem normalise_rescale (b : Backend R) (c : TransformCase R) (scale : R)
    (h : Scalar.lt Scalar.zero scale = true) (ceiling : ℤ) :
    b.normalise (c.rescale scale h) ceiling
      = (fun c => c.rescale scale h) <$> b.normalise c ceiling := by
  have hsame : (c.rescale scale h).dims = c.dims := rfl
  rcases hresults : leastLegalExtents b.legal ceiling (c.dims.map fun (n : ℕ) => .whole n)
    with e | results
  · rw [normalise, normalise, hsame, hresults]
    rfl
  · obtain ⟨found, hpos, rfl, -⟩ := exists_extents hresults
    rw [normalise_of_extents hpos hresults, normalise_of_extents hpos (hsame ▸ hresults)]
    rfl

/-- A backend ignores the factor if its engine does. -/
theorem ignoresTolerance (b : Backend R) (accelerator : Option Accelerator)
    (h : b.engine.IgnoresTolerance) : (b.candidate accelerator).IgnoresTolerance where
  normalise := b.normalise_rescale
  openGrids _ _ _ := rfl
  upload _ _ _ := rfl
  forward := h.forward
  inverse := h.inverse

end Backend

/-! ### Two factors -/

/-- The second measurement is of the same volumes, and no stricter. -/
structure Measurement.Loosens (tight loose : Measurement R) : Prop where
  case : loose.case = tight.case.rescale loose.case.toleranceScale loose.case.toleranceScale_pos
  expected : loose.expected = tight.expected
  found : loose.found = tight.found
  result : tight.result.Loosens loose.result
  /-- Whatever is out of the larger tolerance is out of the smaller one. -/
  fails : ∀ i, loose.result.Fails loose.expected loose.found i →
    tight.result.Fails tight.expected tight.found i

/-- The second report is of the same case up to the factor, and its comparisons are no stricter. -/
structure CaseReport.Loosens (tight loose : CaseReport R) : Prop where
  backend : loose.backend = tight.backend
  case : loose.case = tight.case.rescale loose.case.toleranceScale loose.case.toleranceScale_pos
  forward : tight.forward.Loosens loose.forward
  roundTrip : tight.roundTrip.Loosens loose.roundTrip

section Rescale

variable {draw : TransformCase R → Except (Failure R) (Thunk (Volume R))} {ceiling : ℤ}
  {candidate : Candidate R} {requested : TransformCase R} {scale scale' : R}
  (hignores : candidate.IgnoresTolerance)
  (hdraw : ∀ c scale h, draw (TransformCase.rescale c scale h) = draw c)
  (hscale : Scalar.lt Scalar.zero scale = true) (hscale' : Scalar.lt Scalar.zero scale' = true)

/-- The same stage of the case with another factor. -/
def SpectrumStage.rescale (stage : SpectrumStage R) (scale : R)
    (h : Scalar.lt Scalar.zero scale = true) : SpectrumStage R :=
  { stage with case := stage.case.rescale scale h }

include hignores hdraw in
/-- The factor makes no difference up to the first comparison. -/
theorem spectrumStage_rescale :
    spectrumStage draw ceiling candidate (requested.rescale scale hscale)
      = (fun stage => stage.rescale scale hscale) <$>
          spectrumStage draw ceiling candidate requested := by
  simp only [spectrumStage, hignores.normalise, map_bind, bind_map_left, map_pure, hdraw,
    hignores.openGrids, hignores.upload, hignores.forward, expectedSpectrum_rescale,
    SpectrumStage.rescale]

include hignores hdraw in
theorem measure_rescale (check : Check) :
    measure draw ceiling candidate (requested.rescale scale hscale) check
      = spectrumStage draw ceiling candidate requested >>= fun stage =>
          (stage.rescale scale hscale).measure candidate check := by
  rw [measure, spectrumStage_rescale hignores hdraw, bind_map_left]

namespace SpectrumStage

variable [LawfulTolerance R] {stage : SpectrumStage R} {m m' : Measurement R}
  (hle : Scalar.le scale scale' = true)

include hle in
theorem measure_forward_loosens
    (hm : (stage.rescale scale hscale).measure candidate .forward = .ok m)
    (hm' : (stage.rescale scale' hscale').measure candidate .forward = .ok m') :
    m.Loosens m' := by
  obtain ⟨tight, htight, rfl⟩ := measure_forward_eq_ok.mp hm
  obtain ⟨loose, hloose, rfl⟩ := measure_forward_eq_ok.mp hm'
  obtain ⟨hresult, hfails⟩ :=
    compare_loosens (tolerance_le stage.case.precision .forward hscale hle) htight hloose
  exact ⟨rfl, rfl, rfl, hresult, hfails⟩

include hignores hle in
theorem measure_roundTrip_loosens
    (hm : (stage.rescale scale hscale).measure candidate .roundTrip = .ok m)
    (hm' : (stage.rescale scale' hscale').measure candidate .roundTrip = .ok m') :
    m.Loosens m' := by
  obtain ⟨-, restored, tight, -, -, hrestored, htight, rfl⟩ := measure_roundTrip_eq_ok.mp hm
  obtain ⟨-, restored', loose, -, -, hrestored', hloose, rfl⟩ := measure_roundTrip_eq_ok.mp hm'
  have hsame : restored' = restored := by
    rw [rescale, hignores.inverse] at hrestored hrestored'
    exact Except.ok.inj (hrestored'.symm.trans hrestored)
  subst hsame
  obtain ⟨hresult, hfails⟩ :=
    compare_loosens (tolerance_le stage.case.precision .roundTrip hscale hle) htight hloose
  exact ⟨rfl, rfl, rfl, hresult, hfails⟩

omit [LawfulTolerance R] in
theorem exists_measure_forward
    (hm : (stage.rescale scale hscale).measure candidate .forward = .ok m) :
    ∃ m', (stage.rescale scale' hscale').measure candidate .forward = .ok m' := by
  obtain ⟨tight, htight, -⟩ := measure_forward_eq_ok.mp hm
  obtain ⟨loose, hloose⟩ := exists_compare_of_size (size_of_compare htight) _
  exact ⟨_, measure_forward_eq_ok.mpr ⟨loose, hloose, rfl⟩⟩

include hignores hle in
/-- With a larger factor a verification gets as far. -/
theorem exists_measure {check : Check}
    (hm : (stage.rescale scale hscale).measure candidate check = .ok m) :
    ∃ m', (stage.rescale scale' hscale').measure candidate check = .ok m' := by
  cases check with
  | forward => exact exists_measure_forward hscale hscale' hm
  | roundTrip =>
    obtain ⟨forward, restored, tight, hforward, hpassed, hrestored, htight, -⟩ :=
      measure_roundTrip_eq_ok.mp hm
    have hm₁ : (stage.rescale scale hscale).measure candidate .forward = .ok _ :=
      measure_forward_eq_ok.mpr ⟨forward, hforward, rfl⟩
    obtain ⟨m₁', hm₁'⟩ := exists_measure_forward hscale hscale' hm₁
    have hloosens := measure_forward_loosens hscale hscale' hle hm₁ hm₁'
    obtain ⟨forward', hforward', rfl⟩ := measure_forward_eq_ok.mp hm₁'
    obtain ⟨loose, hloose⟩ := exists_compare_of_size (size_of_compare htight) _
    refine ⟨_, measure_roundTrip_eq_ok.mpr ⟨forward', restored, loose, hforward',
      hloosens.result.passed hpassed, ?_, hloose, rfl⟩⟩
    rw [rescale, hignores.inverse] at hrestored ⊢
    exact hrestored

omit [LawfulTolerance R] in
include hignores in
/-- If a transform back ends in a failed check, it does so with every factor. -/
theorem measure_roundTrip_error {check : Check} {c : TransformCase R} {result : Comparison R}
    (hm : (stage.rescale scale hscale).measure candidate .forward = .ok m)
    (hpassed : m.result.passed = true)
    (hm' : (stage.rescale scale' hscale').measure candidate .forward = .ok m')
    (hpassed' : m'.result.passed = true)
    (he : (stage.rescale scale' hscale').measure candidate .roundTrip
      = .error (.mismatch check c result)) :
    (stage.rescale scale hscale).measure candidate .roundTrip
      = .error (.mismatch check c result) := by
  have hinverse (scale : R) (h) :
      (candidate.inverse (stage.rescale scale h).case).result (stage.rescale scale h).grids
        = (candidate.inverse stage.case).result stage.grids := by
    rw [rescale, hignores.inverse]
  rw [measure_roundTrip_of_passed hm' hpassed', hinverse] at he
  rw [measure_roundTrip_of_passed hm hpassed, hinverse]
  rcases eq_error_or_of_bind he with hrestored | ⟨restored, _, he⟩
  · rw [hrestored]
    rfl
  · rcases eq_error_or_of_bind he with hcompare | ⟨_, _, he⟩
    · exact absurd hcompare compare_ne_mismatch
    · cases he

end SpectrumStage

variable [LawfulTolerance R] (hle : Scalar.le scale scale' = true)

include hignores hdraw hle in
theorem measure_loosens {check : Check} {m m' : Measurement R}
    (hm : measure draw ceiling candidate (requested.rescale scale hscale) check = .ok m)
    (hm' : measure draw ceiling candidate (requested.rescale scale' hscale') check = .ok m') :
    m.Loosens m' := by
  rw [measure_rescale hignores hdraw] at hm hm'
  obtain ⟨stage, hstage, hm⟩ := exists_of_bind_eq_ok hm
  rw [hstage] at hm'
  cases check with
  | forward => exact SpectrumStage.measure_forward_loosens hscale hscale' hle hm hm'
  | roundTrip => exact SpectrumStage.measure_roundTrip_loosens hignores hscale hscale' hle hm hm'

include hignores hdraw hle in
/-- With a larger factor a verification gets as far. -/
theorem exists_measure {check : Check} {m : Measurement R}
    (hm : measure draw ceiling candidate (requested.rescale scale hscale) check = .ok m) :
    ∃ m', measure draw ceiling candidate (requested.rescale scale' hscale') check = .ok m' := by
  rw [measure_rescale hignores hdraw] at hm ⊢
  obtain ⟨stage, hstage, hm⟩ := exists_of_bind_eq_ok hm
  rw [hstage]
  exact SpectrumStage.exists_measure hignores hscale hscale' hle hm

include hignores hdraw hle in
/-- With a larger factor a verification that passed passes again. -/
theorem settleMeasured_loosens {report : CaseReport R}
    (h : settleMeasured candidate.name
      (measure draw ceiling candidate (requested.rescale scale hscale)) = .ok report) :
    ∃ report', settleMeasured candidate.name
        (measure draw ceiling candidate (requested.rescale scale' hscale')) = .ok report' ∧
      report.Loosens report' := by
  obtain ⟨m, n, hm, hpassed, hn, hpassed', rfl⟩ := exists_of_settleMeasured h
  obtain ⟨m', hm'⟩ := exists_measure hignores hdraw hscale hscale' hle hm
  obtain ⟨n', hn'⟩ := exists_measure hignores hdraw hscale hscale' hle hn
  have hforward := measure_loosens hignores hdraw hscale hscale' hle hm hm'
  have hroundTrip := measure_loosens hignores hdraw hscale hscale' hle hn hn'
  refine ⟨⟨candidate.name, m'.case, m'.result, n'.result⟩, ?_,
    ⟨rfl, hforward.case, hforward.result, hroundTrip.result⟩⟩
  rw [settleMeasured_of_roundTrip hm' (hforward.result.passed hpassed) hn',
    if_pos (hroundTrip.result.passed hpassed')]

include hignores hdraw hle in
/-- A verification whose spectrum fails with a larger factor fails there with a smaller one. -/
theorem settleMeasured_mismatch {c : TransformCase R} {result : Comparison R}
    (h : settleMeasured candidate.name
        (measure draw ceiling candidate (requested.rescale scale' hscale'))
      = .error (.mismatch .forward c result)) :
    ∃ c result, settleMeasured candidate.name
        (measure draw ceiling candidate (requested.rescale scale hscale))
      = .error (.mismatch .forward c result) := by
  rcases hstage : spectrumStage draw ceiling candidate requested with e | stage
  · -- neither verification gets to its first check
    have hearly (scale h) :
        measure draw ceiling candidate (requested.rescale scale h) .forward = .error e := by
      rw [measure_rescale hignores hdraw, hstage, error_bind]
    rw [settleMeasured_of_forward_error (hearly _ _)] at h ⊢
    exact ⟨c, result, h⟩
  have hmeasure (scale h) : measure draw ceiling candidate (requested.rescale scale h)
      = (stage.rescale scale h).measure candidate := by
    funext check
    rw [measure_rescale hignores hdraw, hstage, ok_bind]
  rw [hmeasure] at h ⊢
  rcases hm' : (stage.rescale scale' hscale').measure candidate .forward with e | m'
  · rw [settleMeasured_of_forward_error hm'] at h
    cases h
    exact absurd hm' SpectrumStage.measure_forward_ne_mismatch
  obtain ⟨m, hm⟩ := SpectrumStage.exists_measure_forward hscale' hscale hm'
  rcases hpassed : m.result.passed with _ | _
  · exact ⟨m.case, m.result, settleMeasured_of_forward_failed hm hpassed⟩
  -- with a passed spectrum, only the transform back of the candidate is left to end like this
  have hpassed' : m'.result.passed = true :=
    (SpectrumStage.measure_forward_loosens hscale hscale' hle hm hm').result.passed hpassed
  rcases hn' : (stage.rescale scale' hscale').measure candidate .roundTrip with e | n'
  · rw [settleMeasured_of_roundTrip_error hm' hpassed' hn'] at h
    cases h
    exact ⟨c, result, settleMeasured_of_roundTrip_error hm hpassed
      (SpectrumStage.measure_roundTrip_error hignores hscale hscale' hm hpassed hm' hpassed' hn')⟩
  · rw [settleMeasured_of_roundTrip hm' hpassed' hn'] at h
    split at h <;> cases h

end Rescale

/-- The stimulus of the seed, if there is one. -/
def Configuration.draw (configuration : Configuration) (c : TransformCase R) :
    Except (Failure R) (Thunk (Volume R)) :=
  match configuration.seed with
  | some seed => Stimulus.prepare seed c.points c.precision
  | none => .error (.invalid .missingSeed)

/-- A case that runs through all transforms and comparisons gets to its first check. -/
theorem Course.Follows.measure_forward
    {draw : TransformCase R → Except (Failure R) (Thunk (Volume R))} {ceiling : ℤ}
    {candidate : Candidate R} {requested c : TransformCase R} {course : Course R}
    {drawn : Thunk (Volume R)} (h : course.Follows candidate c drawn.get)
    (hc : candidate.normalise requested ceiling = .ok c) (hdraw : draw c = .ok drawn) :
    measure draw ceiling candidate requested .forward
      = .ok ⟨c, course.expected, course.transformed.output.cells, course.forward⟩ := by
  have hexpected := h.full.expectedSpectrum_eq.trans h.expected
  have hstage : spectrumStage draw ceiling candidate requested
      = .ok ⟨c, drawn.get, course.expected, course.transformed⟩ := by
    rw [spectrumStage, hc, ok_bind, hdraw, ok_bind, h.opened, ok_bind, h.uploaded, ok_bind,
      h.transformed, ok_bind, hexpected, ok_bind]
    rfl
  rw [measure, hstage, ok_bind]
  exact SpectrumStage.measure_forward_eq_ok.mpr ⟨course.forward, h.forward, rfl⟩

theorem normalise_oddCase :
    hostBackend.normalise oddCase ({} : Configuration).ceiling = .ok oddCase :=
  Backend.normalise_of_legal (Backend.legal_of_checkSupported hostBackend_checkSupported)
    (by decide)

theorem exists_course_oddCase :
    ∃ (stimulus : Thunk (Volume Float)) (course : Course Float),
      ({} : Configuration).draw oddCase = .ok stimulus ∧
      course.Follows (hostBackend.candidate none) oddCase stimulus.get := by
  have hzero : (0 : ℤ) ≤ 0 := le_rfl
  have hpoints : oddCase.points = oddCase.extents.volume := points_eq (by decide)
  obtain ⟨-, stimulus, hstimulus, hsize⟩ := (prepare_natural (R := Float) hzero (by decide)
    (volume_pos oddCase) oddCase.precision).resolve_right fun h => absurd h.1 (by decide)
  obtain ⟨course, hfollows, -⟩ := exists_course rfl (fastTransforms_shaped _)
    hostBackend_checkSupported (.inl rfl) (representable_of_dims_le (by decide) (by decide)) hsize
  rw [← hpoints] at hstimulus
  exact ⟨stimulus, course, hstimulus, hfollows⟩

/-- **A larger factor on the tolerances changes nothing but the verdict.** Let the computation of a
candidate not depend on this factor, and let one factor be at most another one. A verification is
decided by its two comparisons. If it passes with the smaller factor, it passes with the larger one;
whichever comparisons both of them get to find the same errors, with no new element out of
tolerance; and if the spectrum fails with the larger factor, it fails with the smaller one. -/
theorem verify_loosened [LawfulTolerance R] {configuration : Configuration}
    {candidate : Candidate R} {requested : TransformCase R} {scale scale' : R}
    (hignores : candidate.IgnoresTolerance) (hscale : Scalar.lt Scalar.zero scale = true)
    (hscale' : Scalar.lt Scalar.zero scale' = true) (hle : Scalar.le scale scale' = true)
    (clock clock' : ℕ → R) (s s' : Session R) :
    let run := ((verify clock configuration candidate (requested.rescale scale hscale)).run.run s).1
    let run' :=
      ((verify clock' configuration candidate (requested.rescale scale' hscale')).run.run s').1
    let measured :=
      measure configuration.draw configuration.ceiling candidate (requested.rescale scale hscale)
    let measured' :=
      measure configuration.draw configuration.ceiling candidate (requested.rescale scale' hscale')
    (run = settleMeasured candidate.name measured ∧
      run' = settleMeasured candidate.name measured') ∧
    (∀ report, run = .ok report → ∃ report', run' = .ok report' ∧ report.Loosens report') ∧
    (∀ check m m', measured check = .ok m → measured' check = .ok m' → m.Loosens m') ∧
    (∀ c result, run' = .error (.mismatch .forward c result) →
      ∃ c result, run = .error (.mismatch .forward c result)) := by
  intro run run' measured measured'
  have hrun : run = settleMeasured candidate.name measured := result_verifyWith _ _ _ _ clock s
  have hrun' : run' = settleMeasured candidate.name measured' := result_verifyWith _ _ _ _ clock' s'
  have hdraw (c : TransformCase R) (scale : R) (h : Scalar.lt Scalar.zero scale = true) :
      configuration.draw (c.rescale scale h) = configuration.draw c := rfl
  rw [hrun, hrun']
  exact ⟨⟨rfl, rfl⟩, fun _ => settleMeasured_loosens hignores hdraw hscale hscale' hle,
    fun _ _ _ => measure_loosens hignores hdraw hscale hscale' hle,
    fun _ _ => settleMeasured_mismatch hignores hdraw hscale hscale' hle⟩

/-- With an infinite factor, three real samples on the host get to their first check as before. -/
theorem verify_loosened_oddCase :
    let measured (scale : Float) (h : Scalar.lt Scalar.zero scale = true) :=
      measure ({} : Configuration).draw ({} : Configuration).ceiling (hostBackend.candidate none)
        (oddCase.rescale scale h)
    ∃ m m', measured Scalar.one (by decide) .forward = .ok m ∧
      measured (Scalar.one / Scalar.zero) (by decide) .forward = .ok m' ∧ m.Loosens m' := by
  intro measured
  have hignores : (hostBackend.candidate none : Candidate Float).IgnoresTolerance :=
    hostBackend.ignoresTolerance none (Engine.ofTransforms_ignoresTolerance _)
  have hle : Scalar.le (Scalar.one : Float) (Scalar.one / Scalar.zero) = true := by decide
  obtain ⟨-, -, hmeasured, -⟩ := @verify_loosened Float _ _ {} _ oddCase _ _ hignores (by decide)
    (by decide) hle (fun _ => 0) (fun _ => 0) Session.start Session.start
  obtain ⟨stimulus, course, hdraw, hfollows⟩ := exists_course_oddCase
  have hm : measured Scalar.one (by decide) .forward = .ok _ :=
    hfollows.measure_forward normalise_oddCase hdraw
  obtain ⟨m', hm'⟩ := exists_measure hignores (fun _ _ _ => rfl) _ _ hle hm
  exact ⟨_, m', hm, hm', hmeasured _ _ _ hm hm'⟩

end FourierAudit
