/-
How a run ends, candidates without names included.

A run returns if and only if each of its pairs has an outcome and nothing keeps it from its timing
summary. Its result does not depend on the session, so the loops of a run compute a fold over the
outcomes of the pairs:

* `recordPair`, `computes_loop` — the fold;
* `Completes` — what a run has to have to return;
* `run_of_completes` — the report of a run that completes, and its summary;
* `completes_of_run` — only such a run returns.
-/
import FourierAudit.Proofs.Measurements
import FourierAudit.Proofs.NamelessSections

namespace FourierAudit

theorem Harness.Computes.foldlM {R α β : Type} [Scalar R] {body : β → α → Harness R β}
    {step : β → α → Except (Failure R) β} (h : ∀ b a, (body b a).Computes (step b a))
    (items : List α) (b : β) : (items.foldlM body b).Computes (items.foldlM step b) := by
  induction items generalizing b with
  | nil => exact computes_pure b
  | cons a rest ih =>
    rw [List.foldlM_cons, List.foldlM_cons]
    exact (h b a).bind fun b => ih b

/-- A loop inside a loop is one loop over the pairs. -/
theorem foldlM_product {α β γ ε : Type} (step : γ → α × β → Except ε γ) (as : List α)
    (bs : List β) (c : γ) :
    as.foldlM (fun c a => bs.foldlM (fun c b => step c (a, b)) c) c = (as ×ˢ bs).foldlM step c := by
  induction as generalizing c with
  | nil => rfl
  | cons a rest ih =>
    rw [List.product_cons, List.foldlM_cons, List.foldlM_append, List.foldlM_map]
    exact congrArg _ (funext fun c => ih c)

section Run

variable (clock : ℕ → Float) (configuration : Configuration)

/-! ### The loops -/

/-- A report with the outcome of one more pair. -/
def recordPair (report : RunReport) (pair : CasePair) : Except (Failure Float) RunReport := do
  let result ← outcome clock configuration pair
  return report.record pair.1.name pair.2 result

theorem computes_attempt (pair : CasePair) :
    (attempt clock configuration pair.1 pair.2).Computes (outcome clock configuration pair) := by
  intro s
  obtain ⟨t, hrun, -⟩ := @exists_run_attempt clock configuration pair s
  rw [hrun]

theorem computes_loop (candidates : List (Candidate Float)) (cases : List (TransformCase Float))
    (report : RunReport) :
    (candidates.foldlM (runBackend clock configuration cases) report).Computes
      ((candidates ×ˢ cases).foldlM (recordPair clock configuration) report) := by
  rw [← foldlM_product]
  refine Harness.Computes.foldlM (fun report candidate => ?_) candidates report
  refine (Harness.computes_print _).skip (Harness.Computes.timed ?_ clock _)
  refine Harness.Computes.foldlM (fun report requested => ?_) cases report
  exact (computes_attempt clock configuration (candidate, requested)).bind fun result =>
    Harness.computes_pure _

variable {clock configuration} {pairs : List CasePair}

/-- Outcomes of all pairs, one after another, add to each list what the pairs add to it. -/
theorem foldlM_recordPair
    (h : ∀ pair ∈ pairs, ∃ result, outcome clock configuration pair = .ok result)
    (report : RunReport) : pairs.foldlM (recordPair clock configuration) report =
      .ok ⟨report.passed ++ pairs.filterMap (passedReport? clock configuration),
        report.skipped ++ pairs.filterMap (skippedRemark? clock configuration),
        report.errors ++ pairs.filterMap (errorRemark? clock configuration)⟩ := by
  induction pairs generalizing report with
  | nil => simp only [List.filterMap_nil, List.append_nil]; rfl
  | cons pair rest ih =>
    obtain ⟨result, hresult⟩ := h pair List.mem_cons_self
    have hrest := ih fun pair hpair => h pair (List.mem_cons_of_mem _ hpair)
    have hrecord : recordPair clock configuration report pair
        = .ok (report.record pair.1.name pair.2 result) := by
      rw [recordPair, hresult, ok_bind]
      rfl
    rw [List.foldlM_cons, hrecord, ok_bind, hrest]
    simp only [List.filterMap_cons, passedReport?, skippedRemark?, errorRemark?, hresult]
    cases result <;> simp [RunReport.record]

theorem outcomes_of_foldlM {report result : RunReport}
    (h : pairs.foldlM (recordPair clock configuration) report = .ok result) :
    ∀ pair ∈ pairs, ∃ result, outcome clock configuration pair = .ok result := by
  induction pairs generalizing report with
  | nil => exact nofun
  | cons pair rest ih =>
    rw [List.foldlM_cons] at h
    obtain ⟨report', hpair, h⟩ := exists_of_bind_eq_ok h
    obtain ⟨result, hresult, -⟩ := exists_of_bind_eq_ok hpair
    rw [List.forall_mem_cons]
    exact ⟨⟨result, hresult⟩, ih h⟩

/-! ### The end of a run -/

/-- Every pair has an outcome, and nothing keeps the run from its timing summary. -/
structure Completes (clock : ℕ → Float) (configuration : Configuration)
    (candidates : List (Candidate Float)) (cases : List (TransformCase Float)) : Prop where
  outcomes : ∀ pair ∈ candidates ×ˢ cases,
    ∃ result, outcome clock configuration pair = .ok result
  named : configuration.timings = true →
    ∀ candidate ∈ candidates, candidate.name.isSome = true

variable {candidates : List (Candidate Float)} {cases : List (TransformCase Float)}

/-- Once a run is through with its loops, there is a summary unless a candidate has no name. -/
theorem summary_of_loop {report : RunReport} {t : Session Float}
    (h : (candidates.foldlM (runBackend clock configuration cases) RunReport.empty).run.run
      Session.start = (.ok report, t)) :
    (∃ lines, t.summary = .ok lines) ↔ ∀ candidate ∈ candidates, candidate.name.isSome = true := by
  constructor
  · rintro ⟨lines, hlines⟩ candidate hcandidate
    by_contra hname
    obtain ⟨hsettled, hroots⟩ := settled_loop Timer.settled_empty h
    have hroot : none ∈ t.timer.roots :=
      hroots.mpr (.inr ⟨candidate, hcandidate, by simpa using hname⟩)
    obtain ⟨e, he⟩ := hsettled.exists_lines_error hroot TimingTable.defaultTitle
      TimingTable.defaultNameWidth
    cases he.symm.trans hlines
  · intro hnames
    have hstart : (Session.start : Session Float).timer.Named := Timer.Named.empty
    have hloop := Progress.foldlM (fun candidate hcandidate report s hs =>
      @progress_runBackend clock configuration candidate (hnames candidate hcandidate) cases report
        s hs) .empty hstart
    rw [h] at hloop
    cases hloop with
    | completed _ _ hnamed => exact hnamed.exists_lines

/-- What a run makes of its loops. -/
theorem run_run (s : Session Float) : (run clock configuration candidates cases).run.run s =
    match (candidates.foldlM (runBackend clock configuration cases) RunReport.empty).run.run s with
    | (.error e, t) => (.error e, t)
    | (.ok report, t) =>
      (do
        if configuration.timings then printSummary
        return report : Harness Float RunReport).run.run ((t.entered .done).withCurrent none) := by
  rw [run, Harness.run_bind]
  rcases (candidates.foldlM (runBackend clock configuration cases) RunReport.empty).run.run s
    with ⟨e | report, t⟩
  · rfl
  · simp only [Harness.run_bind, Harness.run_enter, Harness.run_setCurrent]

/-- A run that completes returns with the outcomes of its pairs, and ends with its summary if there
is to be one. -/
theorem run_of_completes (h : Completes clock configuration candidates cases) : ∃ t,
    (run clock configuration candidates cases).run.run Session.start =
        (.ok ⟨(candidates ×ˢ cases).filterMap (passedReport? clock configuration),
          (candidates ×ˢ cases).filterMap (skippedRemark? clock configuration),
          (candidates ×ˢ cases).filterMap (errorRemark? clock configuration)⟩, t) ∧
      (configuration.timings = true →
        ∃ earlier lines, t.printed = earlier ++ lines ∧ t.summary = .ok lines) := by
  have hresult := computes_loop clock configuration candidates cases RunReport.empty Session.start
  rw [foldlM_recordPair h.outcomes] at hresult
  rw [run_run]
  rcases hloop : (candidates.foldlM (runBackend clock configuration cases)
    RunReport.empty).run.run Session.start with ⟨result, t⟩
  rw [hloop] at hresult
  subst hresult
  rcases htimings : configuration.timings with _ | _
  · exact ⟨_, rfl, nofun⟩
  · obtain ⟨lines, hlines⟩ := (summary_of_loop hloop).mpr (h.named htimings)
    have hlines' : ((t.entered .done).withCurrent none).summary = .ok lines := hlines
    simp only [if_true, Harness.run_bind, run_printSummary, hlines']
    exact ⟨_, rfl, fun _ => ⟨t.printed, lines, rfl, hlines⟩⟩

/-- Only a run that completes returns. -/
theorem completes_of_run {report : RunReport}
    (h : ((run clock configuration candidates cases).run.run Session.start).1 = .ok report) :
    Completes clock configuration candidates cases := by
  have hresult := computes_loop clock configuration candidates cases RunReport.empty Session.start
  rw [run_run] at h
  rcases hloop : (candidates.foldlM (runBackend clock configuration cases)
    RunReport.empty).run.run Session.start with ⟨e | result, t⟩ <;> rw [hloop] at h hresult
  · cases h
  refine ⟨outcomes_of_foldlM hresult.symm, fun htimings => ?_⟩
  rw [htimings] at h
  refine (summary_of_loop hloop).mp ?_
  rcases hsummary : t.summary with e | lines
  · have hsummary' : ((t.entered .done).withCurrent none).summary = .error e := hsummary
    simp only [if_true, Harness.run_bind, run_printSummary, hsummary'] at h
    cases h
  · exact ⟨lines, rfl⟩

end Run

end FourierAudit
