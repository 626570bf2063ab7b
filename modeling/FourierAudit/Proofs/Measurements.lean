/-
The comparisons of a verification.

A verification writes to the session of a run, but what it ends with does not depend on it. Apart
from the session, it gets to a spectrum, and from there through two comparisons:

* `Harness.Computes` — an activity has a certain result, whatever the session;
* `spectrumStage` — the course of a verification up to the comparison of the spectrum;
* `measure` — the comparison of a check with the volumes it compares, if the verification gets to
  it;
* `result_verifyWith` — a verification ends as its comparisons say.

Design notes: the second comparison is reached through the first one, so `measure` goes through it
again, and two verifications can be set against each other check by check.
-/
import FourierAudit.Proofs.FailingSteps
import FourierAudit.Proofs.VerificationRuns

namespace FourierAudit

variable {R : Type} [Scalar R]

/-- Volumes of different sizes are no failed check. -/
theorem compare_ne_mismatch {expected found : Volume R} {tolerance : R}
    {shape : Option (List ℤ)} {check : Check} {c : TransformCase R} {result : Comparison R} :
    compare expected found tolerance shape ≠ .error (.mismatch check c result) := by
  rw [compare]
  split <;> simp

/-! ### What an activity computes -/

/-- The failure of a check that did not pass. -/
def required (c : TransformCase R) (check : Check) (result : Comparison R) :
    Except (Failure R) Unit :=
  if result.passed = true then .ok () else .error (.mismatch check c result)

theorem required_eq_ok {c : TransformCase R} {check : Check} {result : Comparison R} :
    required c check result = .ok () ↔ result.passed = true := by
  rw [required]
  split_ifs with h <;> simp [h]

/-- The result of an activity is the same in every session. -/
def Harness.Computes {α : Type} (x : Harness R α) (result : Except (Failure R) α) : Prop :=
  ∀ s, (x.run.run s).1 = result

namespace Harness

variable {α β : Type}

theorem computes_pure (a : α) : (pure a : Harness R α).Computes (pure a) :=
  fun s => congrArg Prod.fst (run_pure s a)

theorem computes_enter (stage : Stage) : (enter stage : Harness R Unit).Computes (.ok ()) :=
  fun s => congrArg Prod.fst (run_enter s stage)

theorem computes_setCurrent (case : Option (TransformCase R)) :
    (setCurrent case).Computes (.ok ()) :=
  fun s => congrArg Prod.fst (run_setCurrent s case)

theorem computes_print (text : String) : (print text : Harness R Unit).Computes (.ok ()) :=
  fun s => congrArg Prod.fst (run_print s text)

theorem computes_ofExcept (result : Except (Failure R) α) :
    (ofExcept result).Computes result :=
  fun s => congrArg Prod.fst (run_ofExcept s result)

theorem computes_act (action : GridAction R) (grids : GridPair R) :
    (act action grids).Computes (action.result grids) :=
  fun s => congrArg Prod.fst (run_act s action grids)

theorem computes_requirePassed (c : TransformCase R) (check : Check) (result : Comparison R) :
    (requirePassed c check result).Computes (required c check result) := by
  intro s
  rw [run_requirePassed, required]
  split_ifs <;> rfl

theorem Computes.timed {body : Harness R α} {result : Except (Failure R) α}
    (h : body.Computes result) (clock : ℕ → R) (name : Option String) :
    (timed clock name body).Computes result := by
  intro s
  rw [run_timed]
  exact h _

theorem Computes.bind {x : Harness R α} {f : α → Harness R β} {result : Except (Failure R) α}
    {rest : α → Except (Failure R) β} (hx : x.Computes result)
    (hf : ∀ a, (f a).Computes (rest a)) : (x >>= f).Computes (result >>= rest) := by
  intro s
  have hresult := hx s
  rw [run_bind]
  rcases hrun : x.run.run s with ⟨e | a, t⟩ <;> rw [hrun] at hresult <;> subst hresult
  · rfl
  · exact hf a t

/-- A step without a result of its own. -/
theorem Computes.skip {x : Harness R Unit} {f : Unit → Harness R β}
    {result : Except (Failure R) β} (hx : x.Computes (.ok ())) (hf : (f ()).Computes result) :
    (x >>= f).Computes result := by
  have h : (x >>= f).Computes ((.ok () : Except (Failure R) Unit) >>= fun _ => result) :=
    hx.bind fun _ => hf
  exact h

end Harness

open Harness

/-! ### The comparisons of a verification -/

/-- What a verification has once it knows the spectrum. -/
structure SpectrumStage (R : Type) [Scalar R] where
  /-- The case with its legal extents. -/
  case : TransformCase R
  stimulus : Volume R
  /-- The spectrum that has to be stored. -/
  expected : Volume R
  /-- The grids with the spectrum that was stored. -/
  grids : GridPair R

/-- A comparison with the volumes that it compares. -/
structure Measurement (R : Type) [Scalar R] where
  case : TransformCase R
  expected : Volume R
  found : Volume R
  result : Comparison R

namespace SpectrumStage

variable (stage : SpectrumStage R) (candidate : Candidate R)

/-- The comparison of the spectrum. -/
def forward (result : Comparison R) : Measurement R where
  case := stage.case
  expected := stage.expected
  found := stage.grids.output.cells
  result := result

/-- The comparison of what was recovered. -/
def roundTrip (restored : GridPair R) (result : Comparison R) : Measurement R :=
  let size := stage.case.kind.roundTripSize stage.case.points
  let scale := Scalar.one / Scalar.ofInt stage.case.points
  { case := stage.case
    expected := upTo size stage.stimulus
    found := (upTo size restored.input.cells).map (Sample.scale scale)
    result := result }

/-- The comparison of a check, if the verification gets to it. -/
def measure : Check → Except (Failure R) (Measurement R)
  | .forward => do
    let result ← compareSpectrum stage.case stage.expected stage.grids.output.cells
    return stage.forward result
  | .roundTrip => do
    let forward ← compareSpectrum stage.case stage.expected stage.grids.output.cells
    required stage.case .forward forward
    let restored ← (candidate.inverse stage.case).result stage.grids
    let result ← compareRoundTrip stage.case stage.stimulus restored.input.cells
    return stage.roundTrip restored result

variable {stage candidate} {m : Measurement R}

theorem measure_forward_eq_ok :
    stage.measure candidate .forward = .ok m ↔
      ∃ result, compareSpectrum stage.case stage.expected stage.grids.output.cells = .ok result ∧
        m = stage.forward result := by
  rw [measure]
  constructor
  · intro h
    obtain ⟨result, hresult, h⟩ := exists_of_bind_eq_ok h
    cases h
    exact ⟨result, hresult, rfl⟩
  · rintro ⟨result, hresult, rfl⟩
    rw [hresult, ok_bind]
    rfl

theorem measure_forward_ne_mismatch {check : Check} {c : TransformCase R} {result : Comparison R} :
    stage.measure candidate .forward ≠ .error (.mismatch check c result) := by
  intro h
  rcases eq_error_or_of_bind h with hcompare | ⟨_, _, h⟩
  · exact compare_ne_mismatch hcompare
  · cases h

theorem measure_roundTrip_of_passed (hm : stage.measure candidate .forward = .ok m)
    (hpassed : m.result.passed = true) :
    stage.measure candidate .roundTrip
      = (candidate.inverse stage.case).result stage.grids >>= fun restored =>
          compareRoundTrip stage.case stage.stimulus restored.input.cells >>= fun result =>
            pure (stage.roundTrip restored result) := by
  obtain ⟨forward, hforward, rfl⟩ := measure_forward_eq_ok.mp hm
  have hrequired : required stage.case .forward forward = .ok () := required_eq_ok.mpr hpassed
  rw [measure, hforward, ok_bind, hrequired, ok_bind]

theorem measure_roundTrip_eq_ok :
    stage.measure candidate .roundTrip = .ok m ↔
      ∃ forward restored result,
        compareSpectrum stage.case stage.expected stage.grids.output.cells = .ok forward ∧
        forward.passed = true ∧
        (candidate.inverse stage.case).result stage.grids = .ok restored ∧
        compareRoundTrip stage.case stage.stimulus restored.input.cells = .ok result ∧
        m = stage.roundTrip restored result := by
  rw [measure]
  constructor
  · intro h
    obtain ⟨forward, hforward, h⟩ := exists_of_bind_eq_ok h
    obtain ⟨⟨⟩, hrequired, h⟩ := exists_of_bind_eq_ok h
    obtain ⟨restored, hrestored, h⟩ := exists_of_bind_eq_ok h
    obtain ⟨result, hresult, h⟩ := exists_of_bind_eq_ok h
    cases h
    exact ⟨forward, restored, result, hforward, required_eq_ok.mp hrequired, hrestored, hresult,
      rfl⟩
  · rintro ⟨forward, restored, result, hforward, hpassed, hrestored, hresult, rfl⟩
    have hm : stage.measure candidate .forward = .ok (stage.forward forward) :=
      measure_forward_eq_ok.mpr ⟨forward, hforward, rfl⟩
    rw [← measure, measure_roundTrip_of_passed hm hpassed, hrestored, ok_bind, hresult, ok_bind]
    rfl

end SpectrumStage

section Measure

variable (draw : TransformCase R → Except (Failure R) (Thunk (Volume R))) (ceiling : ℤ)
  (candidate : Candidate R) (requested : TransformCase R)

/-- The course of a verification up to the comparison of the spectrum. -/
def spectrumStage : Except (Failure R) (SpectrumStage R) := do
  let case ← candidate.normalise requested ceiling
  let stimulus ← draw case
  let opened ← candidate.openGrids case
  let uploaded ← (candidate.upload case stimulus.get).result opened
  let grids ← (candidate.forward case).result uploaded
  let expected ← expectedSpectrum case stimulus.get
  return { case, stimulus := stimulus.get, expected, grids }

/-- The comparison of a check, if the verification gets to it. -/
def measure (check : Check) : Except (Failure R) (Measurement R) := do
  let stage ← spectrumStage draw ceiling candidate requested
  stage.measure candidate check

/-- The end of a verification, from its comparisons. -/
def settleMeasured (name : Option String)
    (measured : Check → Except (Failure R) (Measurement R)) :
    Except (Failure R) (CaseReport R) := do
  let forward ← measured .forward
  required forward.case .forward forward.result
  let roundTrip ← measured .roundTrip
  required roundTrip.case .roundTrip roundTrip.result
  return ⟨name, forward.case, forward.result, roundTrip.result⟩

section Settle

variable {name : Option String} {measured : Check → Except (Failure R) (Measurement R)}
  {m n : Measurement R} {e : Failure R}

theorem settleMeasured_of_forward_error (hm : measured .forward = .error e) :
    settleMeasured name measured = .error e := by
  rw [settleMeasured, hm, error_bind]

theorem settleMeasured_of_forward_failed (hm : measured .forward = .ok m)
    (hfailed : m.result.passed = false) :
    settleMeasured name measured = .error (.mismatch .forward m.case m.result) := by
  rw [settleMeasured, hm, ok_bind, required, hfailed, if_neg Bool.false_ne_true, error_bind]

theorem settleMeasured_of_roundTrip_error (hm : measured .forward = .ok m)
    (hpassed : m.result.passed = true) (hn : measured .roundTrip = .error e) :
    settleMeasured name measured = .error e := by
  rw [settleMeasured, hm, ok_bind, required_eq_ok.mpr hpassed, ok_bind, hn, error_bind]

theorem settleMeasured_of_roundTrip (hm : measured .forward = .ok m)
    (hpassed : m.result.passed = true) (hn : measured .roundTrip = .ok n) :
    settleMeasured name measured = if n.result.passed = true
      then .ok ⟨name, m.case, m.result, n.result⟩
      else .error (.mismatch .roundTrip n.case n.result) := by
  rw [settleMeasured, hm, ok_bind, required_eq_ok.mpr hpassed, ok_bind, hn, ok_bind, required]
  split_ifs <;> rfl

theorem exists_of_settleMeasured {report : CaseReport R}
    (h : settleMeasured name measured = .ok report) :
    ∃ m n, measured .forward = .ok m ∧ m.result.passed = true ∧
      measured .roundTrip = .ok n ∧ n.result.passed = true ∧
      report = ⟨name, m.case, m.result, n.result⟩ := by
  obtain ⟨m, hm, h⟩ := exists_of_bind_eq_ok h
  obtain ⟨⟨⟩, hpassed, h⟩ := exists_of_bind_eq_ok h
  obtain ⟨n, hn, h⟩ := exists_of_bind_eq_ok h
  obtain ⟨⟨⟩, hpassed', h⟩ := exists_of_bind_eq_ok h
  cases h
  exact ⟨m, n, hm, required_eq_ok.mp hpassed, hn, required_eq_ok.mp hpassed', rfl⟩

end Settle

/-- A verification goes up to the spectrum, and then through its two comparisons. -/
theorem computes_verifyWith (clock : ℕ → R) :
    (verifyWith draw clock ceiling candidate requested).Computes (do
      let stage ← spectrumStage draw ceiling candidate requested
      let forward ← compareSpectrum stage.case stage.expected stage.grids.output.cells
      required stage.case .forward forward
      let restored ← (candidate.inverse stage.case).result stage.grids
      let roundTrip ← compareRoundTrip stage.case stage.stimulus restored.input.cells
      required stage.case .roundTrip roundTrip
      return ⟨candidate.name, stage.case, forward, roundTrip⟩) := by
  rw [verifyWith, spectrumStage]
  simp only [bind_assoc, pure_bind]
  refine (computes_enter _).skip <| (computes_ofExcept _).bind fun c => ?_
  refine (computes_setCurrent _).skip <| (computes_print _).skip <| (computes_enter _).skip ?_
  refine ((computes_ofExcept _).timed clock _).bind fun stimulus => ?_
  refine (computes_ofExcept _).bind fun opened => (computes_act _ _).bind fun uploaded => ?_
  refine (computes_enter _).skip <| ((computes_act _ _).timed clock _).bind fun grids => ?_
  refine (computes_enter _).skip <| ((computes_ofExcept _).timed clock _).bind fun expected => ?_
  refine ((computes_ofExcept _).timed clock _).bind fun forward => ?_
  refine (computes_requirePassed c .forward forward).bind fun _ => ?_
  refine (computes_enter _).skip <| ((computes_act _ _).timed clock _).bind fun restored => ?_
  refine (computes_enter _).skip <| ((computes_ofExcept _).timed clock _).bind fun roundTrip => ?_
  refine (computes_requirePassed c .roundTrip roundTrip).bind fun _ => ?_
  exact (computes_enter _).skip (computes_pure _)

/-- A verification ends as its comparisons say, one after the other. -/
theorem result_verifyWith (clock : ℕ → R) (s : Session R) :
    ((verifyWith draw clock ceiling candidate requested).run.run s).1
      = settleMeasured candidate.name (measure draw ceiling candidate requested) := by
  rw [computes_verifyWith draw ceiling candidate requested clock s, settleMeasured]
  simp only [measure]
  -- the second comparison goes through the first one again, with the same outcome
  rcases spectrumStage draw ceiling candidate requested with e | stage
  · rfl
  simp only [SpectrumStage.measure, bind, Except.bind, pure, Except.pure]
  rcases compareSpectrum stage.case stage.expected stage.grids.output.cells with e | forward
  · rfl
  simp only [SpectrumStage.forward]
  rcases required stage.case .forward forward with e | _
  · rfl
  dsimp only
  rcases (candidate.inverse stage.case).result stage.grids with e | restored
  · rfl
  dsimp only
  rcases compareRoundTrip stage.case stage.stimulus restored.input.cells with e | roundTrip
  · rfl
  · rfl

end Measure

end FourierAudit
