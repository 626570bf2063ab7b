/-
The course of a verification.

A verification falls into what happens up to the comparison of the spectrum and what follows.
Either part is written down as one equation for a candidate that does not fail:

* `run_verifyWith` — up to the comparison of the spectrum, the transform back is not looked at;
* `run_settleForward_of_failed`, `run_settleForward_of_passed` — what follows.
-/
import FourierAudit.Proofs.ElementErrors
import FourierAudit.Proofs.HarnessRuns

namespace FourierAudit

variable {R : Type} [Scalar R]

/-- An upload to the grids of a backend. -/
theorem Backend.result_upload {b : Backend R} {accelerator : Option Accelerator}
    {c : TransformCase R} {values : Volume R} {grids : GridPair R} {input : Buffer R}
    (h : grids.input.upload values = .ok input) :
    ((b.candidate accelerator).upload c values).result grids = .ok { grids with input } := by
  show (GridAction.ofExcept _).result grids = _
  rw [GridAction.result_ofExcept, h]
  rfl

/-! ### Up to the comparison of the spectrum -/

/-- The session of a case once the spectrum has been compared. -/
def Session.spectrumCompared (clock : ℕ → R) (c : TransformCase R) (s : Session R) : Session R :=
  let s := (s.entered .normaliseShape).withCurrent (some c)
  let s := (s.withPrinted c.text).entered .generateStimulus
  let s := ((s.opened clock (some "stimulus")).closed clock).entered .runForward
  let s := ((s.opened clock (some "forward")).closed clock).entered .compareForward
  let s := (s.opened clock (some "reference")).closed clock
  (s.opened clock (some "compare")).closed clock

/-- What follows once the spectrum has been compared. -/
def settleForward (clock : ℕ → R) (candidate : Candidate R) (c : TransformCase R)
    (stimulus : Volume R) (grids : GridPair R) (forward : Comparison R) :
    Harness R (CaseReport R) := do
  requirePassed c .forward forward
  Harness.enter .runInverse
  let grids ← Harness.timed clock (some "inverse") (Harness.act (candidate.inverse c) grids)
  Harness.enter .compareRoundTrip
  let roundTrip ← Harness.timed clock (some "compare")
    (Harness.ofExcept (compareRoundTrip c stimulus grids.input.cells))
  requirePassed c .roundTrip roundTrip
  Harness.enter .passed
  return { backend := candidate.name, case := c, forward, roundTrip }

section Forward

variable {draw : TransformCase R → Except (Failure R) (Thunk (Volume R))} {ceiling : ℤ}
  {candidate : Candidate R} {requested c : TransformCase R} {stimulus : Thunk (Volume R)}
  {opened uploaded transformed : GridPair R}

theorem run_verifyWith {expected : Volume R} {forward : Comparison R}
    (hc : candidate.normalise requested ceiling = .ok c) (hdraw : draw c = .ok stimulus)
    (hopened : candidate.openGrids c = .ok opened)
    (huploaded : (candidate.upload c stimulus.get).result opened = .ok uploaded)
    (htransformed : (candidate.forward c).result uploaded = .ok transformed)
    (hexpected : expectedSpectrum c stimulus.get = .ok expected)
    (hforward : compareSpectrum c expected transformed.output.cells = .ok forward)
    (clock : ℕ → R) (s : Session R) :
    (verifyWith draw clock ceiling candidate requested).run.run s =
      (settleForward clock candidate c stimulus.get transformed forward).run.run
        (s.spectrumCompared clock c) := by
  simp only [verifyWith, settleForward, Session.spectrumCompared, Harness.run_bind,
    Harness.run_enter, Harness.run_setCurrent, Harness.run_print, Harness.run_ofExcept,
    Harness.run_act, Harness.run_timed, hc, hdraw, hopened, huploaded, htransformed, hexpected,
    hforward]

theorem run_verifyWith_of_draw_error {e : Failure R}
    (hc : candidate.normalise requested ceiling = .ok c) (hdraw : draw c = .error e)
    (clock : ℕ → R) (s : Session R) :
    ((verifyWith draw clock ceiling candidate requested).run.run s).1 = .error e := by
  simp only [verifyWith, Harness.run_bind, Harness.run_enter, Harness.run_setCurrent,
    Harness.run_print, Harness.run_ofExcept, Harness.run_timed, hc, hdraw]

theorem run_verifyWith_of_openGrids_error {e : Failure R}
    (hc : candidate.normalise requested ceiling = .ok c) (hdraw : draw c = .ok stimulus)
    (hopened : candidate.openGrids c = .error e) (clock : ℕ → R) (s : Session R) :
    ((verifyWith draw clock ceiling candidate requested).run.run s).1 = .error e := by
  simp only [verifyWith, Harness.run_bind, Harness.run_enter, Harness.run_setCurrent,
    Harness.run_print, Harness.run_ofExcept, Harness.run_timed, hc, hdraw, hopened]

theorem run_verifyWith_of_expectedSpectrum_error {e : Failure R}
    (hc : candidate.normalise requested ceiling = .ok c) (hdraw : draw c = .ok stimulus)
    (hopened : candidate.openGrids c = .ok opened)
    (huploaded : (candidate.upload c stimulus.get).result opened = .ok uploaded)
    (htransformed : (candidate.forward c).result uploaded = .ok transformed)
    (hexpected : expectedSpectrum c stimulus.get = .error e) (clock : ℕ → R) (s : Session R) :
    ((verifyWith draw clock ceiling candidate requested).run.run s).1 = .error e := by
  simp only [verifyWith, Harness.run_bind, Harness.run_enter, Harness.run_setCurrent,
    Harness.run_print, Harness.run_ofExcept, Harness.run_act, Harness.run_timed, hc, hdraw,
    hopened, huploaded, htransformed, hexpected]

end Forward

/-! ### After the comparison of the spectrum -/

/-- The session of a case once the recovered samples have been compared as well. -/
def Session.roundTripCompared (clock : ℕ → R) (s : Session R) : Session R :=
  let s := s.entered .runInverse
  let s := ((s.opened clock (some "inverse")).closed clock).entered .compareRoundTrip
  (s.opened clock (some "compare")).closed clock

theorem run_requirePassed (c : TransformCase R) (check : Check) (result : Comparison R)
    (s : Session R) :
    (requirePassed c check result).run.run s =
      if result.passed = true then (.ok (), s)
      else (.error (.mismatch check c result), s.entered .failed) := by
  rw [requirePassed]
  split
  · rfl
  · rw [Harness.run_bind, Harness.run_enter]
    rfl

section Settle

variable {clock : ℕ → R} {candidate : Candidate R} {c : TransformCase R} {stimulus : Volume R}
  {grids : GridPair R} {forward : Comparison R}

theorem run_settleForward_of_failed (h : forward.passed = false) (s : Session R) :
    (settleForward clock candidate c stimulus grids forward).run.run s
      = (.error (.mismatch .forward c forward), s.entered .failed) := by
  rw [settleForward, Harness.run_bind, run_requirePassed, h, if_neg Bool.false_ne_true]

theorem run_settleForward_of_passed {restored : GridPair R} {roundTrip : Comparison R}
    (h : forward.passed = true)
    (hrestored : (candidate.inverse c).result grids = .ok restored)
    (hroundTrip : compareRoundTrip c stimulus restored.input.cells = .ok roundTrip)
    (s : Session R) :
    (settleForward clock candidate c stimulus grids forward).run.run s =
      if roundTrip.passed = true then
        (.ok ⟨candidate.name, c, forward, roundTrip⟩, (s.roundTripCompared clock).entered .passed)
      else
        (.error (.mismatch .roundTrip c roundTrip),
          (s.roundTripCompared clock).entered .failed) := by
  rcases hpassed : roundTrip.passed with _ | _ <;>
    simp only [settleForward, Session.roundTripCompared, Harness.run_bind, run_requirePassed, h,
      Harness.run_enter, Harness.run_ofExcept, Harness.run_act, Harness.run_timed,
      Harness.run_pure, hrestored, hroundTrip, hpassed, if_true, Bool.false_eq_true, if_false]

end Settle

end FourierAudit
