/-
The report of a run.

The report lists the outcomes of all pairs, in the order in which the run takes them up, and each
pair is in one of its three lists. The first pair whose failure is no outcome ends the run, with
that failure, and no later pair is verified:

* `run_of_outcomes` — the report of a run in which every pair has an outcome;
* `first_failure_of_run`, `run_of_first_failure` — where a run got that ended in a failure;
* `run_report` — both together.

A verification makes the extents of its case legal first, and does so once. So the verifications of
a run are counted by the times the session has entered that stage.
-/
import FourierAudit.Proofs.FailingSteps
import FourierAudit.Proofs.RunCourse
import FourierAudit.Proofs.Verdict

namespace FourierAudit

section Course

variable {clock : ℕ → Float} {configuration : Configuration}

/-- A pair with an outcome adds to one of the three lists. -/
theorem count_lists {pair : CasePair}
    (h : ∃ result, outcome clock configuration pair = .ok result) :
    (passedReport? clock configuration pair).isSome.toNat
      + (skippedRemark? clock configuration pair).isSome.toNat
      + (errorRemark? clock configuration pair).isSome.toNat = 1 := by
  obtain ⟨result, hresult⟩ := h
  rw [passedReport?, skippedRemark?, errorRemark?, hresult]
  cases result <;> rfl

theorem errorRemark?_eq_none_iff {pair : CasePair} : errorRemark? clock configuration pair = none ↔
    ∀ cause, outcome clock configuration pair ≠ .ok (.misconfigured cause) := by
  rw [errorRemark?]
  split
  · rename_i cause hcause
    exact ⟨fun h => absurd h (Option.some_ne_none _), fun h => absurd hcause (h cause)⟩
  · rename_i hother
    exact ⟨fun _ => hother, fun _ => rfl⟩

theorem length_lists {pairs : List CasePair}
    (h : ∀ pair ∈ pairs, ∃ result, outcome clock configuration pair = .ok result) :
    (pairs.filterMap (passedReport? clock configuration)).length
      + (pairs.filterMap (skippedRemark? clock configuration)).length
      + (pairs.filterMap (errorRemark? clock configuration)).length = pairs.length := by
  simp only [List.length_filterMap_eq_countP]
  induction pairs with
  | nil => rfl
  | cons pair rest ih =>
    have hpair := count_lists (h pair List.mem_cons_self)
    have hrest := ih fun pair hpair => h pair (List.mem_cons_of_mem _ hpair)
    simp only [Bool.toNat, Bool.cond_eq_ite] at hpair
    simp only [List.countP_cons, List.length_cons]
    omega

/-! ### Counting verifications -/

/-- A case that ended was verified once. -/
theorem CaseEnd.count_normaliseShape {earlier : List Stage}
    {result : Except (Failure Float) (CaseReport Float)} {s : Session Float}
    (h : CaseEnd earlier (result, s)) :
    s.stages.count .normaliseShape = earlier.count .normaliseShape + 1 := by
  cases h with
  | passed hstages => rw [hstages, List.count_append]; rfl
  | failed hblock _ hstages =>
    rw [hstages, List.count_append, List.count_append, hblock.count_normaliseShape]
    rfl
  | interrupted hblock _ hstages =>
    rw [hstages, List.count_append, hblock.count_normaliseShape]

theorem count_normaliseShape_entries (entries : List (Entry clock configuration)) :
    (entries.flatMap Entry.stages).count .normaliseShape = entries.length := by
  rw [List.flatMap_def, count_normaliseShape_flatten, List.length_map]
  rw [List.forall_mem_map]
  exact fun entry _ => entry.fits.isAttempt

/-! ### The report -/

variable {candidates : List (Candidate Float)} {cases : List (TransformCase Float)}
  {s : Session Float}

theorem outcome_entries {entries : List (Entry clock configuration)} {pairs : List CasePair}
    (hpairs : entries.map Entry.pair = pairs) :
    ∀ pair ∈ pairs, ∃ result, outcome clock configuration pair = .ok result := by
  intro pair hpair
  rw [← hpairs] at hpair
  obtain ⟨entry, -, rfl⟩ := List.mem_map.mp hpair
  exact ⟨entry.outcome, entry.outcome_eq⟩

/-- A run in which every pair has an outcome. -/
theorem run_of_outcomes (hnames : ∀ candidate ∈ candidates, candidate.name.isSome = true)
    (hs : s.timer.Named)
    (houtcomes : ∀ pair ∈ candidates ×ˢ cases,
      ∃ result, outcome clock configuration pair = .ok result) :
    ((run clock configuration candidates cases).run.run s).1 =
      .ok ⟨(candidates ×ˢ cases).filterMap (passedReport? clock configuration),
        (candidates ×ˢ cases).filterMap (skippedRemark? clock configuration),
        (candidates ×ˢ cases).filterMap (errorRemark? clock configuration)⟩ := by
  have hend := @runEnd_run clock configuration candidates hnames cases s hs
  generalize (run clock configuration candidates cases).run.run s = out at hend
  cases hend with
  | returned hpairs =>
    rw [RunReport.recordAll_eq, hpairs]
    rfl
  | @stopped e t h =>
    obtain ⟨entries, pair, later, hpairs, houtcome, -⟩ := h
    have hpair : pair ∈ candidates ×ˢ cases := by
      rw [← hpairs]
      exact List.mem_append_right _ List.mem_cons_self
    obtain ⟨result, hresult⟩ := houtcomes pair hpair
    cases houtcome.symm.trans hresult

/-- A run that returns went past all pairs. -/
theorem outcomes_of_run (hnames : ∀ candidate ∈ candidates, candidate.name.isSome = true)
    (hs : s.timer.Named) {report : RunReport}
    (h : ((run clock configuration candidates cases).run.run s).1 = .ok report) :
    (∀ pair ∈ candidates ×ˢ cases, ∃ result, outcome clock configuration pair = .ok result) ∧
      ((run clock configuration candidates cases).run.run s).2.stages.count .normaliseShape
        = s.stages.count .normaliseShape + (candidates ×ˢ cases).length := by
  have hend := @runEnd_run clock configuration candidates hnames cases s hs
  generalize (run clock configuration candidates cases).run.run s = out at hend h
  cases hend with
  | @returned entries t hpairs hstages =>
    refine ⟨outcome_entries hpairs, ?_⟩
    rw [hstages, List.count_append, List.count_append, count_normaliseShape_entries, ← hpairs,
      List.length_map]
    rfl
  | stopped => cases h

/-- A run that ends in a failure got to the first pair that has no outcome. -/
theorem first_failure_of_run (hnames : ∀ candidate ∈ candidates, candidate.name.isSome = true)
    (hs : s.timer.Named) {e : Failure Float}
    (h : ((run clock configuration candidates cases).run.run s).1 = .error e) :
    ∃ before pair later, candidates ×ˢ cases = before ++ pair :: later ∧
      (∀ earlier ∈ before, ∃ result, outcome clock configuration earlier = .ok result) ∧
      outcome clock configuration pair = .error e ∧
      ((run clock configuration candidates cases).run.run s).2.stages.count .normaliseShape
        = s.stages.count .normaliseShape + (before.length + 1) := by
  have hend := @runEnd_run clock configuration candidates hnames cases s hs
  generalize (run clock configuration candidates cases).run.run s = out at hend h
  cases hend with
  | returned => cases h
  | @stopped _ t hstopped =>
    cases h
    obtain ⟨entries, pair, later, hpairs, houtcome, hend⟩ := hstopped
    refine ⟨_, pair, later, hpairs.symm, outcome_entries rfl, houtcome, ?_⟩
    rw [hend.count_normaliseShape, List.count_append, count_normaliseShape_entries,
      List.length_map, Nat.add_assoc]

/-- The first pair that has no outcome ends a run. -/
theorem run_of_first_failure (hnames : ∀ candidate ∈ candidates, candidate.name.isSome = true)
    (hs : s.timer.Named) {before later : List CasePair} {pair : CasePair} {e : Failure Float}
    (hpairs : candidates ×ˢ cases = before ++ pair :: later)
    (hbefore : ∀ earlier ∈ before, ∃ result, outcome clock configuration earlier = .ok result)
    (hpair : outcome clock configuration pair = .error e) :
    ((run clock configuration candidates cases).run.run s).1 = .error e ∧
      ((run clock configuration candidates cases).run.run s).2.stages.count .normaliseShape
        = s.stages.count .normaliseShape + (before.length + 1) := by
  rcases hresult : ((run clock configuration candidates cases).run.run s).1 with e' | report
  · obtain ⟨before', pair', later', hpairs', hbefore', hpair', hcount⟩ :=
      first_failure_of_run hnames hs hresult
    obtain ⟨rfl, rfl⟩ :=
      first_failure_unique (hpairs.symm.trans hpairs') hbefore hpair hbefore' hpair'
    cases hpair.symm.trans hpair'
    exact ⟨rfl, hcount⟩
  · have hmem : pair ∈ candidates ×ˢ cases := by
      rw [hpairs]
      exact List.mem_append_right _ List.mem_cons_self
    obtain ⟨result, hok⟩ := (outcomes_of_run hnames hs hresult).1 pair hmem
    cases hpair.symm.trans hok

/-- **The report of a run records the outcome of every pair.** A run returns if and only if every
pair has an outcome. Then its three lists are the outcomes of the pairs in order, each pair is in
exactly one of them, the run succeeded if and only if every pair could be set up, and every pair was
verified once; candidates or cases in another order give the same lists in another order, also in
another session. Otherwise the run ends with the failure of the first pair that has no outcome, and
no pair after it is verified. -/
theorem run_report (hnames : ∀ candidate ∈ candidates, candidate.name.isSome = true)
    (hs : s.timer.Named) :
    let pairs := candidates ×ˢ cases
    let run (candidates : List (Candidate Float)) (cases : List (TransformCase Float)) :=
      (run clock configuration candidates cases).run.run
    let final := (run candidates cases s).2
    ((∃ report, (run candidates cases s).1 = .ok report) ↔
        ∀ pair ∈ pairs, ∃ result, outcome clock configuration pair = .ok result) ∧
      (∀ report, (run candidates cases s).1 = .ok report →
        report = ⟨pairs.filterMap (passedReport? clock configuration),
          pairs.filterMap (skippedRemark? clock configuration),
          pairs.filterMap (errorRemark? clock configuration)⟩ ∧
        (∀ pair ∈ pairs, (passedReport? clock configuration pair).isSome.toNat
          + (skippedRemark? clock configuration pair).isSome.toNat
          + (errorRemark? clock configuration pair).isSome.toNat = 1) ∧
        report.passed.length + report.skipped.length + report.errors.length
          = candidates.length * cases.length ∧
        (report.succeeded = true ↔
          ∀ pair ∈ pairs, ∀ cause, outcome clock configuration pair ≠ .ok (.misconfigured cause)) ∧
        final.stages.count .normaliseShape = s.stages.count .normaliseShape + pairs.length ∧
        ∀ candidates' cases' (s' : Session Float), candidates'.Perm candidates →
          cases'.Perm cases → s'.timer.Named → ∃ report',
            (run candidates' cases' s').1 = .ok report' ∧ report'.passed.Perm report.passed ∧
              report'.skipped.Perm report.skipped ∧ report'.errors.Perm report.errors) ∧
      (∀ e, (run candidates cases s).1 = .error e → ∃ before pair later,
        pairs = before ++ pair :: later ∧
          (∀ earlier ∈ before, ∃ result, outcome clock configuration earlier = .ok result) ∧
          outcome clock configuration pair = .error e ∧
          final.stages.count .normaliseShape
            = s.stages.count .normaliseShape + (before.length + 1)) := by
  intro pairs run final
  refine ⟨⟨?_, ?_⟩, ?_, ?_⟩
  · rintro ⟨report, hreport⟩
    exact (outcomes_of_run hnames hs hreport).1
  · exact fun h => ⟨_, run_of_outcomes hnames hs h⟩
  · intro report hreport
    obtain ⟨houtcomes, hcount⟩ := outcomes_of_run hnames hs hreport
    obtain rfl := Except.ok.inj (hreport.symm.trans (run_of_outcomes hnames hs houtcomes))
    refine ⟨rfl, fun pair hpair => count_lists (houtcomes pair hpair), ?_, ?_, hcount, ?_⟩
    · exact (length_lists houtcomes).trans (List.length_product candidates cases)
    · rw [RunReport.succeeded, List.isEmpty_iff, List.filterMap_eq_nil_iff]
      exact forall₂_congr fun pair _ => errorRemark?_eq_none_iff
    · intro candidates' cases' s' hcandidates hcases hs'
      have hperm : (candidates' ×ˢ cases').Perm pairs := hcandidates.product hcases
      refine ⟨_, run_of_outcomes ?_ hs' ?_, hperm.filterMap _, hperm.filterMap _,
        hperm.filterMap _⟩
      · exact fun candidate h => hnames candidate (hcandidates.mem_iff.mp h)
      · exact fun pair h => houtcomes pair (hperm.mem_iff.mp h)
  · intro e he
    exact first_failure_of_run hnames hs he

end Course

/-! ### Candidates that refuse, fail or pass -/

theorem outcome_refusingCandidate : outcome (fun _ => 0) {} (refusingCandidate, pairCase)
    = .ok (.skipped (.precision "Refusing" .double)) :=
  rfl

theorem outcome_lateCandidate : outcome (fun _ => 0) {} (lateCandidate, pairCase)
    = .ok (.skipped (.precision "Refusing" .double)) :=
  rfl

theorem outcome_brokenCandidate :
    outcome (fun _ => 0) {} (brokenCandidate, pairCase) = .error .notImplemented :=
  rfl

/-- Zeros pass if they are in tolerance, which is up to the cosines of the machine. -/
theorem outcome_zeroCandidate :
    (∃ report, outcome (fun _ => 0) {} (zeroCandidate, pairCase) = .ok (.passed report)) ∨
      ∃ e, outcome (fun _ => 0) {} (zeroCandidate, pairCase) = .error e :=
  verify_zeroCandidate.imp (fun ⟨report, h⟩ => ⟨report, congrArg settled h⟩)
    fun ⟨_, _, h⟩ => ⟨_, congrArg settled h⟩

/-- The pairs of a run that breaks down at the first case of its second candidate. -/
theorem pairs_brokenCandidate :
    [refusingCandidate, brokenCandidate, lateCandidate] ×ˢ [pairCase, pairCase] =
      [(refusingCandidate, pairCase), (refusingCandidate, pairCase)] ++
        (brokenCandidate, pairCase) :: [(brokenCandidate, pairCase),
          (lateCandidate, pairCase), (lateCandidate, pairCase)] :=
  rfl

theorem isSome_name_brokenCandidate :
    ∀ candidate ∈ [refusingCandidate, brokenCandidate, lateCandidate],
      candidate.name.isSome = true := by
  simp [refusingCandidate, brokenCandidate, lateCandidate]

theorem exists_outcome_refusingCandidate : ∀ pair ∈ [(refusingCandidate, pairCase),
    (refusingCandidate, pairCase)], ∃ result, outcome (fun _ => 0) {} pair = .ok result := by
  simp [outcome_refusingCandidate]

/-- The failure of a pair ends the run of three candidates, with no pair after it verified. Of two
candidates that refuse the case and one between them, the run returns with all outcomes in order
if that one passes, and ends with it otherwise. -/
theorem run_report_brokenCandidate :
    let first := (run (fun _ => 0) {} [refusingCandidate, brokenCandidate, lateCandidate]
      [pairCase, pairCase]).run.run Session.start
    let second := (run (fun _ => 0) {} [refusingCandidate, zeroCandidate, lateCandidate]
      [pairCase]).run.run Session.start
    let refused (name : String) : Remark Unsupported :=
      ⟨some name, pairCase, .precision "Refusing" .double⟩
    (first.1 = .error .notImplemented ∧ first.2.stages.count .normaliseShape = 3) ∧
      ((∃ report, second.1 = .ok ⟨[report], [refused "Refusing", refused "Late"], []⟩ ∧
          second.2.stages.count .normaliseShape = 3) ∨
        ∃ e, second.1 = .error e ∧ second.2.stages.count .normaliseShape = 2) := by
  intro first second refused
  have hsecond : [refusingCandidate, zeroCandidate, lateCandidate] ×ˢ [pairCase] =
      [(refusingCandidate, pairCase)] ++ (zeroCandidate, pairCase) ::
        [(lateCandidate, pairCase)] := rfl
  have hnames₂ : ∀ candidate ∈ [refusingCandidate, zeroCandidate, lateCandidate],
      candidate.name.isSome = true := by simp [refusingCandidate, zeroCandidate, lateCandidate]
  obtain ⟨hreturns₁, -, hstops₁⟩ := @run_report (fun _ => 0) {}
    [refusingCandidate, brokenCandidate, lateCandidate] [pairCase, pairCase] Session.start
    isSome_name_brokenCandidate Timer.Named.empty
  obtain ⟨hreturns₂, hreport₂, -⟩ := @run_report (fun _ => 0) {}
    [refusingCandidate, zeroCandidate, lateCandidate] [pairCase] Session.start hnames₂
    Timer.Named.empty
  beta_reduce at hreturns₁ hstops₁ hreturns₂ hreport₂
  rw [pairs_brokenCandidate] at hreturns₁ hstops₁
  rw [hsecond] at hreturns₂ hreport₂
  have hrefused : ∃ result, outcome (fun _ => 0) {} (refusingCandidate, pairCase) = .ok result :=
    ⟨_, outcome_refusingCandidate⟩
  constructor
  · -- the second of the three candidates has no outcome
    rcases hresult : first.1 with e | report
    · obtain ⟨before, pair, later, hpairs, hearlier, houtcome, hcount⟩ := hstops₁ e hresult
      obtain ⟨rfl, rfl⟩ := first_failure_unique hpairs
        exists_outcome_refusingCandidate outcome_brokenCandidate hearlier houtcome
      cases outcome_brokenCandidate.symm.trans houtcome
      refine ⟨rfl, ?_⟩
      rw [hcount]
      rfl
    · obtain ⟨result, hbroken⟩ := hreturns₁.mp ⟨report, hresult⟩ (brokenCandidate, pairCase)
        (List.mem_append_right _ List.mem_cons_self)
      cases hbroken.symm.trans outcome_brokenCandidate
  · rcases outcome_zeroCandidate with ⟨report, hpasses⟩ | ⟨e, hfails⟩
    · have houtcomes : ∀ pair ∈ [(refusingCandidate, pairCase)] ++ (zeroCandidate, pairCase) ::
          [(lateCandidate, pairCase)], ∃ result, outcome (fun _ => 0) {} pair = .ok result := by
        rw [List.forall_mem_append, List.forall_mem_singleton, List.forall_mem_cons,
          List.forall_mem_singleton]
        exact ⟨hrefused, ⟨_, hpasses⟩, ⟨_, outcome_lateCandidate⟩⟩
      obtain ⟨lists, hlists⟩ := hreturns₂.mpr houtcomes
      obtain ⟨hthree, -, -, -, hcount, -⟩ := hreport₂ lists hlists
      refine .inl ⟨report, ?_, ?_⟩
      · rw [hlists, hthree]
        simp only [List.filterMap_append, List.filterMap_cons, List.filterMap_nil, passedReport?,
          skippedRemark?, errorRemark?, hpasses, outcome_refusingCandidate, outcome_lateCandidate]
        rfl
      · rw [hcount]
        rfl
    · obtain ⟨hfailed, hcount⟩ := run_of_first_failure hnames₂ (s := Session.start)
        Timer.Named.empty hsecond (List.forall_mem_singleton.mpr hrefused) hfails
      refine .inr ⟨e, hfailed, ?_⟩
      rw [hcount]
      rfl

end FourierAudit
