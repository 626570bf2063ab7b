/-
The verdict of a verification.

A candidate may leave anything in its grids. If it gets through a case at all, the verification
tells a right spectrum from a wrong one, and right samples from wrong ones, by the criterion of
one element:

* `compareSpectrum_verdict`, `compareRoundTrip_verdict` — the two comparisons of a case, in terms
  of the reference transform and of the stimulus;
* `report_or_mismatch` — a verification that gets through has no other failure;
* `verifyWith_verdict` — the verification.
-/
import FourierAudit.Proofs.RootTables
import FourierAudit.Proofs.VerificationRuns

namespace FourierAudit

variable {R : Type} [Scalar R]

/-- A candidate gets through a case: it leaves some spectrum in its output grid, and then some
samples in its input grid. -/
structure Candidate.Transforms (candidate : Candidate R) (c : TransformCase R)
    (stimulus spectrum recovered : Volume R) : Prop where
  /-- Nothing fails from the grids to the transform back. -/
  exists_grids : ∃ opened uploaded transformed restored,
    candidate.openGrids c = .ok opened ∧
      (candidate.upload c stimulus).result opened = .ok uploaded ∧
      (candidate.forward c).result uploaded = .ok transformed ∧
      transformed.output.cells = spectrum ∧
      (candidate.inverse c).result transformed = .ok restored ∧
      restored.input.cells = recovered
  /-- The output grid has the size of a stored spectrum. -/
  size_spectrum : spectrum.size = c.outputPoints
  /-- The input grid has one element for each grid point. -/
  size_recovered : recovered.size = c.extents.volume

/-- What the reference transform says is the spectrum of a stimulus, if it can be computed. -/
def IsReference (c : TransformCase R) (stimulus F : Volume R) : Prop :=
  ((Reference.ofDims (c.dims.map Int.ofNat)).transform .forward (referenceInput c stimulus)).1
    = .ok F

section Reference

variable {c : TransformCase R} {stimulus F : Volume R}

theorem isReference_iff : IsReference c stimulus F ↔
    Representable c.dims ∧ (referenceInput c stimulus).size = c.extents.volume ∧
      spectrum .forward c.dims (referenceInput c stimulus) = F := by
  rw [← volumeSize_dims]
  rcases Reference.transform_eq (Reference.sound_ofDims _) rfl .forward (referenceInput c stimulus)
    with ⟨hrep, hsize, hok⟩ | ⟨hnot, cause, herror⟩
  · rw [IsReference, hok, Except.ok.injEq]
    exact ⟨fun h => ⟨hrep, hsize, h⟩, fun h => h.2.2⟩
  · rw [IsReference, herror]
    exact ⟨nofun, fun h => absurd ⟨h.1, h.2.1⟩ hnot⟩

theorem IsReference.size_eq (h : IsReference c stimulus F) : F.size = c.extents.volume := by
  obtain ⟨-, hsize, rfl⟩ := isReference_iff.mp h
  rw [spectrum, size_separable, hsize]

theorem IsReference.expectedSpectrum_eq (h : IsReference c stimulus F) :
    expectedSpectrum c stimulus = extractPacked c.kind c.extents F := by
  rw [IsReference] at h
  rw [expectedSpectrum]
  simp only [h]
  rfl

theorem expectedSpectrum_unrepresentable (stimulus : Volume R) (h : ¬Representable c.dims) :
    ∃ cause, expectedSpectrum c stimulus = .error (.invalid cause) := by
  rcases Reference.transform_eq (Reference.sound_ofDims _) rfl .forward (referenceInput c stimulus)
    with ⟨hrep, -, -⟩ | ⟨-, cause, herror⟩
  · exact absurd hrep h
  · refine ⟨cause, ?_⟩
    rw [expectedSpectrum]
    simp only [herror]
    rfl

end Reference

/-! ### The two comparisons -/

/-- Some stored element of a spectrum is out of tolerance. -/
def SpectrumDeviates (c : TransformCase R) (F spectrum : Volume R) : Prop :=
  ∃ i < c.outputPoints,
    Deviates (baseTolerance c.precision .forward * c.toleranceScale)
      (F.getD ((packedToFull c.kind c.extents).getD i 0) Sample.zero)
      (spectrum.getD i Sample.zero)

/-- Some recovered element that a round trip compares is out of tolerance, once the number of grid
points has been divided out. -/
def SamplesDeviate (c : TransformCase R) (stimulus recovered : Volume R) : Prop :=
  ∃ j < c.kind.roundTripSize c.extents.volume,
    Deviates (baseTolerance c.precision .roundTrip * c.toleranceScale)
      (stimulus.getD j Sample.zero)
      ((recovered.getD j Sample.zero).scale (Scalar.one / Scalar.ofInt c.extents.volume))

/-- The elements that a round trip compares. -/
theorem upTo_roundTripSize {c : TransformCase R} (hpoints : c.points = c.extents.volume)
    (items : Volume R) :
    upTo (c.kind.roundTripSize c.points) items
      = items.extract 0 (c.kind.roundTripSize c.extents.volume) := by
  rw [hpoints, TransformKind.roundTripSize_natural, upTo, if_pos (Int.natCast_nonneg _),
    Int.toNat_natCast]

theorem size_extract_roundTripSize {c : TransformCase R} {v : Volume R}
    (hv : v.size = c.extents.volume) :
    (v.extract 0 (c.kind.roundTripSize c.extents.volume)).size
      = c.kind.roundTripSize c.extents.volume := by
  have hle := c.kind.roundTripSize_le c.extents.volume
  rw [Array.size_extract, hv]
  omega

section Comparisons

variable [LawfulOrder R] {c : TransformCase R} {stimulus F spectrum recovered : Volume R}

theorem compareSpectrum_verdict (h : IsReference c stimulus F)
    (hsize : spectrum.size = c.outputPoints) :
    ∃ expected result, expectedSpectrum c stimulus = .ok expected ∧
      compareSpectrum c expected spectrum = .ok result ∧
      (result.passed = false ↔ SpectrumDeviates c F spectrum) := by
  set expected := (packedToFull c.kind c.extents).map fun i => F.getD i Sample.zero with hdef
  have hexpected : expected.size = c.outputPoints := by
    rw [hdef, Array.size_map, size_packedToFull]
    rfl
  obtain ⟨result, hresult, hpassed⟩ := compare_of_size (hexpected.trans hsize.symm)
    (c.tolerance .forward) (some ((c.kind.packed c.extents).toList.map Int.ofNat))
  have hstored := h.expectedSpectrum_eq.trans (extractPacked_eq c.extents_pos.2.2 h.size_eq)
  refine ⟨expected, result, hstored, hresult, ?_⟩
  rw [hpassed, hexpected]
  refine exists_congr ?_
  intro i
  refine and_congr_right ?_
  intro hi
  have hplace : i < (packedToFull c.kind c.extents).size := by
    rwa [size_packedToFull]
  rw [hdef, getD_map _ hplace 0]
  rfl

theorem compareRoundTrip_verdict (h : Representable c.dims)
    (hstimulus : stimulus.size = c.extents.volume)
    (hrecovered : recovered.size = c.extents.volume) :
    ∃ result, compareRoundTrip c stimulus recovered = .ok result ∧
      (result.passed = false ↔ SamplesDeviate c stimulus recovered) := by
  have hpoints : c.points = c.extents.volume := points_eq (volumeSize_dims c ▸ h.volumeSize_lt)
  have hexpected := size_extract_roundTripSize hstimulus
  have hfound := size_extract_roundTripSize hrecovered
  set size := c.kind.roundTripSize c.extents.volume with hsize
  set scale : R := Scalar.one / Scalar.ofInt c.extents.volume with hscale
  have hsizes : (stimulus.extract 0 size).size
      = ((recovered.extract 0 size).map (Sample.scale scale)).size := by
    rw [Array.size_map, hexpected, hfound]
  obtain ⟨result, hresult, hpassed⟩ := compare_of_size hsizes (c.tolerance .roundTrip) none
  refine ⟨result, ?_, ?_⟩
  · rw [compareRoundTrip, upTo_roundTripSize hpoints, upTo_roundTripSize hpoints, hpoints]
    exact hresult
  · rw [hpassed, hexpected]
    refine exists_congr ?_
    intro j
    refine and_congr_right ?_
    intro hj
    rw [getD_map _ (hfound.symm ▸ hj) Sample.zero, getD_extract hj, getD_extract hj]
    rfl

end Comparisons

/-! ### The verification -/

section Verification

variable [LawfulOrder R] {draw : TransformCase R → Except (Failure R) (Thunk (Volume R))}
  {ceiling : ℤ} {candidate : Candidate R} {requested c : TransformCase R}
  {stimulus : Thunk (Volume R)} {F spectrum recovered : Volume R}

/-- A verification that gets through ends in one of three ways. If the spectrum deviates, the
transform back may be anything. -/
theorem run_verifyWith_cases (hc : candidate.normalise requested ceiling = .ok c)
    (hdraw : draw c = .ok stimulus) (hstimulus : stimulus.get.size = c.extents.volume)
    (htransforms : candidate.Transforms c stimulus.get spectrum recovered)
    (hF : IsReference c stimulus.get F) (clock : ℕ → R) (s : Session R) :
    (SpectrumDeviates c F spectrum ∧ ∃ result : Comparison R, result.passed = false ∧
        ∀ inverse, (verifyWith draw clock ceiling { candidate with inverse } requested).run.run s
          = (.error (.mismatch .forward c result), (s.spectrumCompared clock c).entered .failed)) ∨
      (¬SpectrumDeviates c F spectrum ∧ SamplesDeviate c stimulus.get recovered ∧
        ∃ result : Comparison R, result.passed = false ∧
          (verifyWith draw clock ceiling candidate requested).run.run s
            = (.error (.mismatch .roundTrip c result),
              ((s.spectrumCompared clock c).roundTripCompared clock).entered .failed)) ∨
      (¬SpectrumDeviates c F spectrum ∧ ¬SamplesDeviate c stimulus.get recovered ∧
        ∃ forward roundTrip : Comparison R, forward.passed = true ∧ roundTrip.passed = true ∧
          (verifyWith draw clock ceiling candidate requested).run.run s
            = (.ok ⟨candidate.name, c, forward, roundTrip⟩,
              ((s.spectrumCompared clock c).roundTripCompared clock).entered .passed)) := by
  obtain ⟨⟨opened, uploaded, transformed, restored, hopened, huploaded, htransformed, rfl,
    hrestored, rfl⟩, hspectrum, hrecovered⟩ := htransforms
  -- both comparisons are made of volumes of one size, so each of them has a verdict
  obtain ⟨expected, forward, hexpected, hforward, hfverdict⟩ := compareSpectrum_verdict hF hspectrum
  obtain ⟨roundTrip, hroundTrip, hrverdict⟩ :=
    compareRoundTrip_verdict (isReference_iff.mp hF).1 hstimulus hrecovered
  have hrun := run_verifyWith hc hdraw hopened huploaded htransformed hexpected hforward clock s
  rcases hf : forward.passed with _ | _
  · refine .inl ⟨hfverdict.mp hf, forward, hf, ?_⟩
    intro inverse
    -- nothing up to the comparison of the spectrum looks at the transform back
    have hother : ({ candidate with inverse } : Candidate R).normalise requested ceiling
        = .ok c := hc
    rw [run_verifyWith hother hdraw hopened huploaded htransformed hexpected hforward,
      run_settleForward_of_failed hf]
  · have hspec : ¬SpectrumDeviates c F transformed.output.cells := by
      rw [← hfverdict, hf]
      exact Bool.noConfusion
    rw [run_settleForward_of_passed hf hrestored hroundTrip] at hrun
    rcases hr : roundTrip.passed with _ | _
    · rw [hr, if_neg Bool.false_ne_true] at hrun
      exact .inr (.inl ⟨hspec, hrverdict.mp hr, roundTrip, hr, hrun⟩)
    · rw [hr, if_pos rfl] at hrun
      have hsamples : ¬SamplesDeviate c stimulus.get restored.input.cells := by
        rw [← hrverdict, hr]
        exact Bool.noConfusion
      exact .inr (.inr ⟨hspec, hsamples, forward, roundTrip, hf, hr, hrun⟩)

/-- Such a verification ends with a report or with a failed check. -/
theorem report_or_mismatch (hc : candidate.normalise requested ceiling = .ok c)
    (hdraw : draw c = .ok stimulus) (hstimulus : stimulus.get.size = c.extents.volume)
    (htransforms : candidate.Transforms c stimulus.get spectrum recovered)
    (hF : IsReference c stimulus.get F) (clock : ℕ → R) (s : Session R) :
    let result := ((verifyWith draw clock ceiling candidate requested).run.run s).1
    (∃ report, result = .ok report) ∨
      ∃ check comparison, result = .error (.mismatch check c comparison) := by
  rcases run_verifyWith_cases hc hdraw hstimulus htransforms hF clock s with
    ⟨-, comparison, -, hrun⟩ | ⟨-, -, comparison, -, hrun⟩ | ⟨-, -, forward, roundTrip, -, -, hrun⟩
  · exact .inr ⟨_, comparison, congrArg Prod.fst (hrun candidate.inverse)⟩
  · exact .inr ⟨_, comparison, congrArg Prod.fst hrun⟩
  · exact .inl ⟨_, congrArg Prod.fst hrun⟩

/-- **A verification accepts exactly the candidates that are right.** Let a candidate get through
a case with any spectrum and any recovered samples. The forward check fails if and only if the
spectrum deviates, and then the transform back is never run, so any other one would make no
difference. Otherwise the round trip check fails if and only if the samples deviate, and otherwise
the report has two passed comparisons. A failed check leaves the session failed at that case. -/
theorem verifyWith_verdict (hc : candidate.normalise requested ceiling = .ok c)
    (hdraw : draw c = .ok stimulus) (hstimulus : stimulus.get.size = c.extents.volume)
    (htransforms : candidate.Transforms c stimulus.get spectrum recovered)
    (hF : IsReference c stimulus.get F) (clock : ℕ → R) (s : Session R) :
    let run := (verifyWith draw clock ceiling candidate requested).run.run s
    ((∃ result, run.1 = .error (.mismatch .forward c result)) ↔ SpectrumDeviates c F spectrum) ∧
      ((∃ result, run.1 = .error (.mismatch .roundTrip c result)) ↔
        ¬SpectrumDeviates c F spectrum ∧ SamplesDeviate c stimulus.get recovered) ∧
      ((∃ report, run.1 = .ok report) ↔
        ¬SpectrumDeviates c F spectrum ∧ ¬SamplesDeviate c stimulus.get recovered) ∧
      (∀ report, run.1 = .ok report → report.backend = candidate.name ∧ report.case = c ∧
        report.forward.passed = true ∧ report.roundTrip.passed = true ∧
        run.2.stage = .passed) ∧
      (∀ check result, run.1 = .error (.mismatch check c result) →
        result.passed = false ∧ run.2.stage = .failed ∧ run.2.current = some c) ∧
      (SpectrumDeviates c F spectrum →
        run.2.stages = s.stages ++
          [.normaliseShape, .generateStimulus, .runForward, .compareForward, .failed] ∧
        ∀ inverse, (verifyWith draw clock ceiling { candidate with inverse } requested).run.run s
          = run) := by
  intro run
  rcases run_verifyWith_cases hc hdraw hstimulus htransforms hF clock s with
    ⟨hspec, result, hfailed, hall⟩ | ⟨hspec, hsamples, result, hfailed, hrun⟩ |
      ⟨hspec, hsamples, forward, roundTrip, hf, hr, hrun⟩
  · have hrun : run = _ := hall candidate.inverse
    simp only [hall, hrun]
    simp [hspec, hfailed, Session.spectrumCompared]
  · have hrun' : run = _ := hrun
    simp only [hrun']
    simp [hspec, hsamples, hfailed, Session.spectrumCompared, Session.roundTripCompared]
  · have hrun' : run = _ := hrun
    simp only [hrun']
    simp [hspec, hsamples, hf, hr]

end Verification

/-- A candidate that takes every case and leaves zeros in its grids. -/
def idleCandidate : Candidate R where
  name := none
  normalise c _ := .ok c
  openGrids c :=
    let zeros (n : ℕ) : Buffer R := ⟨"grid", c.precision, "host", Array.replicate n Sample.zero⟩
    .ok ⟨zeros c.extents.volume, zeros c.outputPoints⟩
  upload _ _ grids := (grids, .ok ())
  forward _ grids := (grids, .ok ())
  inverse _ grids := (grids, .ok ())

/-- The same candidate with a name. -/
def zeroCandidate : Candidate Float := { idleCandidate with name := some "Zero" }

/-- A candidate whose forward transform breaks down. -/
def brokenCandidate : Candidate Float :=
  { idleCandidate with
    name := some "Broken"
    forward := fun _ grids => (grids, .error .notImplemented) }

/-- A case with two points on its last axis. -/
def pairCase : TransformCase Float :=
  ⟨⟨1, 1, 2⟩, .complexToComplex, .double, Scalar.one, by decide, zero_lt_one_float⟩

/-- The stimulus of seed zero, and its spectrum. -/
theorem exists_stimulus_pairCase : ∃ (stimulus : Thunk (Volume Float)) (F : Volume Float),
    Stimulus.prepare 0 pairCase.points pairCase.precision = .ok stimulus ∧
      stimulus.get.size = pairCase.extents.volume ∧ IsReference pairCase stimulus.get F := by
  have hpoints : pairCase.points = 2 := by decide
  have hrep : Representable pairCase.dims := by
    rw [representable_iff]
    decide
  have hsize : (Stimulus.samples 0 2 .double : Volume Float).size = pairCase.extents.volume :=
    Array.size_ofFn
  rw [hpoints]
  exact ⟨.mk fun _ => Stimulus.samples 0 2 .double, _, rfl, hsize,
    isReference_iff.mpr ⟨hrep, hsize, rfl⟩⟩

theorem transforms_idleCandidate (stimulus : Volume Float) :
    (idleCandidate : Candidate Float).Transforms pairCase stimulus
      #[.zero, .zero] #[.zero, .zero] :=
  ⟨⟨_, _, _, _, rfl, rfl, rfl, rfl, rfl, rfl⟩, rfl, rfl⟩

theorem transforms_zeroCandidate (stimulus : Volume Float) :
    zeroCandidate.Transforms pairCase stimulus #[.zero, .zero] #[.zero, .zero] :=
  ⟨(transforms_idleCandidate stimulus).exists_grids, rfl, rfl⟩

theorem verify_zeroCandidate :
    let result := ((verify (fun _ => 0) {} zeroCandidate pairCase).run.run Session.start).1
    (∃ report, result = .ok report) ∨
      ∃ check comparison, result = .error (.mismatch check pairCase comparison) := by
  obtain ⟨stimulus, F, hdraw, hsize, hF⟩ := exists_stimulus_pairCase
  rw [verify]
  exact report_or_mismatch rfl hdraw hsize (transforms_zeroCandidate stimulus.get) hF
    (fun _ => 0) Session.start

/-- The stimulus of seed zero, on a candidate that does nothing. -/
theorem verify_idleCandidate :
    ∃ stimulus F, Stimulus.prepare 0 pairCase.points pairCase.precision = .ok stimulus ∧
      IsReference pairCase stimulus.get F ∧
      ((∃ report, ((verify (fun _ => 0) {} idleCandidate pairCase).run.run Session.start).1
          = .ok report) ↔
        ¬SpectrumDeviates pairCase F #[.zero, .zero] ∧
          ¬SamplesDeviate pairCase stimulus.get #[.zero, .zero]) := by
  obtain ⟨stimulus, F, hdraw, hsize, hF⟩ := exists_stimulus_pairCase
  refine ⟨stimulus, F, hdraw, hF, ?_⟩
  rw [verify]
  exact (verifyWith_verdict rfl hdraw hsize (transforms_idleCandidate stimulus.get) hF
    (fun _ => 0) Session.start).2.2.1

end FourierAudit
