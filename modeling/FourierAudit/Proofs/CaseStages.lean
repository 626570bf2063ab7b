/-
The stages of a case.

A case that passes goes through eight stages. It may end after any of them but the first, which is
entered before anything can fail; a failed comparison leaves a mark of its own:

* `caseStages`, `IsAttempt` — the stages of a case that passes, and of one that got so far;
* `CaseEnd` — the three ways in which a case ends, with the stages that the session has then;
* `caseEnd_verify` — a verification ends a case in one of them, whatever the candidate does.

The proof follows the verification: `Harness.EndsCase` says of what is still to be done that it ends
the case, and there is one lemma for each kind of step.
-/
import FourierAudit.Proofs.VerificationRuns

namespace FourierAudit

variable {R : Type} [Scalar R]

/-- The stages of a case that passes. -/
def caseStages : List Stage :=
  [.selectCase, .normaliseShape, .generateStimulus, .runForward, .compareForward, .runInverse,
    .compareRoundTrip, .passed]

def Check.stage : Check → Stage
  | .forward => .compareForward
  | .roundTrip => .compareRoundTrip

/-- The stages of a case that was taken up and verified as far as it went. -/
def IsAttempt (block : List Stage) : Prop :=
  [.selectCase, .normaliseShape] <+: block ∧ block <+: caseStages

instance (block : List Stage) : Decidable (IsAttempt block) :=
  inferInstanceAs (Decidable (_ ∧ _))

theorem IsAttempt.nodup {block : List Stage} (h : IsAttempt block) : block.Nodup :=
  h.2.sublist.nodup (by decide)

theorem IsAttempt.count_normaliseShape {block : List Stage} (h : IsAttempt block) :
    block.count .normaliseShape = 1 :=
  List.count_eq_one_of_mem h.nodup (h.1.subset (by decide))

theorem count_normaliseShape_flatten {blocks : List (List Stage)}
    (h : ∀ block ∈ blocks, IsAttempt block) :
    blocks.flatten.count .normaliseShape = blocks.length := by
  induction blocks with
  | nil => rfl
  | cons block rest ih =>
    rw [List.forall_mem_cons] at h
    rw [List.flatten_cons, List.count_append, h.1.count_normaliseShape, ih h.2, List.length_cons,
      Nat.add_comm]

/-- How a case ends that was taken up after some earlier stages: both checks passed, one of them
failed for the case at hand, or something else failed. -/
inductive CaseEnd (earlier : List Stage) :
    Except (Failure R) (CaseReport R) × Session R → Prop where
  | passed {report : CaseReport R} {s : Session R} (hstages : s.stages = earlier ++ caseStages) :
      CaseEnd earlier (.ok report, s)
  | failed {check : Check} {c : TransformCase R} {result : Comparison R} {s : Session R}
      {block : List Stage} (hblock : IsAttempt block) (hlast : block.getLast? = some check.stage)
      (hstages : s.stages = earlier ++ block ++ [.failed]) (hcurrent : s.current = some c) :
      CaseEnd earlier (.error (.mismatch check c result), s)
  | interrupted {e : Failure R} {s : Session R} {block : List Stage} (hblock : IsAttempt block)
      (hpassed : .passed ∉ block) (hstages : s.stages = earlier ++ block) :
      CaseEnd earlier (.error e, s)

/-- How a case ended shows in the stages and the case at hand only. -/
theorem CaseEnd.congr {earlier : List Stage} {result : Except (Failure R) (CaseReport R)}
    {s s' : Session R} (h : CaseEnd earlier (result, s)) (hstages : s'.stages = s.stages)
    (hcurrent : s'.current = s.current) : CaseEnd earlier (result, s') := by
  cases h with
  | passed h => exact .passed (hstages.trans h)
  | failed hblock hlast h hc => exact .failed hblock hlast (hstages.trans h) (hcurrent.trans hc)
  | interrupted hblock hpassed h => exact .interrupted hblock hpassed (hstages.trans h)

/-- A section of the timer around what ends a case. -/
theorem CaseEnd.timed {earlier : List Stage} {clock : ℕ → R} {name : Option String}
    {body : Harness R (CaseReport R)} {s : Session R}
    (h : CaseEnd earlier (body.run.run (s.opened clock name))) :
    CaseEnd earlier ((Harness.timed clock name body).run.run s) := by
  rw [Harness.run_timed]
  exact h.congr rfl rfl

/-! ### Activities within a stage -/

/-- An activity that stays within its stage and its case. -/
structure Harness.Quiet {α : Type} (x : Harness R α) : Prop where
  stages_eq : ∀ s, (x.run.run s).2.stages = s.stages
  current_eq : ∀ s, (x.run.run s).2.current = s.current

namespace Harness

variable {α : Type}

theorem quiet_print (text : String) : (print text : Harness R Unit).Quiet :=
  ⟨fun _ => rfl, fun _ => rfl⟩

theorem quiet_ofExcept (result : Except (Failure R) α) : (ofExcept result).Quiet :=
  ⟨fun s => by rw [run_ofExcept], fun s => by rw [run_ofExcept]⟩

theorem quiet_act (action : GridAction R) (grids : GridPair R) : (act action grids).Quiet :=
  ⟨fun s => by rw [run_act], fun s => by rw [run_act]⟩

theorem Quiet.timed {body : Harness R α} (h : body.Quiet) (clock : ℕ → R) (name : Option String) :
    (timed clock name body).Quiet := by
  refine ⟨?_, ?_⟩
  · intro s
    rw [run_timed]
    exact h.stages_eq (s.opened clock name)
  · intro s
    rw [run_timed]
    exact h.current_eq (s.opened clock name)

/-! ### What is still to be done -/

/-- Once a case has gone through the stages of a block, an activity ends it. -/
def EndsCase (earlier block : List Stage) (c : TransformCase R) (x : Harness R (CaseReport R)) :
    Prop :=
  ∀ s : Session R, s.stages = earlier ++ block → s.current = some c → CaseEnd earlier (x.run.run s)

variable {earlier block : List Stage} {c : TransformCase R}

theorem EndsCase.enter {stage : Stage} {x : Harness R (CaseReport R)}
    (h : EndsCase earlier (block ++ [stage]) c x) :
    EndsCase earlier block c (enter stage >>= fun _ => x) := by
  intro s hstages hcurrent
  rw [run_bind, run_enter]
  refine h _ ?_ hcurrent
  rw [Session.stages_entered, hstages, List.append_assoc]

theorem EndsCase.setCurrent {c' : TransformCase R} {x : Harness R (CaseReport R)}
    (h : EndsCase earlier block c' x) :
    EndsCase earlier block c (setCurrent (some c') >>= fun _ => x) := by
  intro s hstages _
  rw [run_bind, run_setCurrent]
  exact h _ hstages rfl

/-- A step within a stage may fail, and the case ends there. -/
theorem EndsCase.quiet {x : Harness R α} {f : α → Harness R (CaseReport R)} (hx : x.Quiet)
    (hblock : IsAttempt block ∧ .passed ∉ block) (h : ∀ a, EndsCase earlier block c (f a)) :
    EndsCase earlier block c (x >>= f) := by
  intro s hstages hcurrent
  have hstages' := (hx.stages_eq s).trans hstages
  have hcurrent' := (hx.current_eq s).trans hcurrent
  rw [run_bind]
  rcases hrun : x.run.run s with ⟨_ | a, t⟩ <;> rw [hrun] at hstages' hcurrent'
  · exact .interrupted hblock.1 hblock.2 hstages'
  · exact h a t hstages' hcurrent'

theorem EndsCase.requirePassed {check : Check} {result : Comparison R}
    {x : Harness R (CaseReport R)} (hblock : IsAttempt block)
    (hlast : block.getLast? = some check.stage) (h : EndsCase earlier block c x) :
    EndsCase earlier block c (requirePassed c check result >>= fun _ => x) := by
  intro s hstages hcurrent
  rw [run_bind, run_requirePassed]
  rcases result.passed with _ | _
  · refine .failed hblock hlast ?_ hcurrent
    rw [Session.stages_entered, hstages]
  · exact h s hstages hcurrent

theorem EndsCase.pure (report : CaseReport R) : EndsCase earlier caseStages c (pure report) :=
  fun _ hstages _ => .passed hstages

end Harness

/-! ### The verification -/

open Harness

theorem endsCase_verifyWith (draw : TransformCase R → Except (Failure R) (Thunk (Volume R)))
    (clock : ℕ → R) (ceiling : ℤ) (candidate : Candidate R) (requested : TransformCase R)
    (earlier : List Stage) :
    EndsCase earlier [.selectCase] requested
      (verifyWith draw clock ceiling candidate requested) := by
  rw [verifyWith]
  -- every step that may fail comes with a block of stages that a case may end after
  refine .enter <| .quiet (quiet_ofExcept _) (by decide) fun c => .setCurrent ?_
  refine .quiet (quiet_print _) (by decide) fun _ => .enter ?_
  refine .quiet ((quiet_ofExcept _).timed clock _) (by decide) fun stimulus => ?_
  refine .quiet (quiet_ofExcept _) (by decide) fun grids => ?_
  refine .quiet (quiet_act _ _) (by decide) fun grids => .enter ?_
  refine .quiet ((quiet_act _ _).timed clock _) (by decide) fun grids => .enter ?_
  refine .quiet ((quiet_ofExcept _).timed clock _) (by decide) fun expected => ?_
  refine .quiet ((quiet_ofExcept _).timed clock _) (by decide) fun forward => ?_
  refine .requirePassed (by decide) rfl <| .enter ?_
  refine .quiet ((quiet_act _ _).timed clock _) (by decide) fun grids => .enter ?_
  refine .quiet ((quiet_ofExcept _).timed clock _) (by decide) fun roundTrip => ?_
  exact .requirePassed (by decide) rfl <| .enter <| .pure _

/-- A verification of a case that was taken up ends it, whatever the candidate does. -/
theorem caseEnd_verify (clock : ℕ → R) (configuration : Configuration) (candidate : Candidate R)
    (requested : TransformCase R) {earlier : List Stage} {s : Session R}
    (hstages : s.stages = earlier ++ [.selectCase]) (hcurrent : s.current = some requested) :
    CaseEnd earlier ((verify clock configuration candidate requested).run.run s) :=
  endsCase_verifyWith _ clock configuration.ceiling candidate requested earlier s hstages hcurrent

end FourierAudit
