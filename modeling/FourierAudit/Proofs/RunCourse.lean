/-
The course of a run.

A run takes the cases up pair by pair, a candidate with each case before the next candidate. Every
pair that does not end the run leaves an outcome in the report and its stages in the session:

* `verdict`, `outcome` — what a verification gives for a pair, and what the run makes of it;
* `passedReport?`, `skippedRemark?`, `errorRemark?` — what a pair adds to each list of the report;
* `Entry` — a pair that the run went past, with its outcome and its stages;
* `Progress` — how far a part of a run got, and `progress_foldlM`, one part after another;
* `RunEnd`, `runEnd_run` — how a run ends.

Candidates need names here: the timing summary at the end of a run fails without them.
-/
import FourierAudit.Proofs.CaseStages
import FourierAudit.Proofs.SessionIndependence
import FourierAudit.Run

namespace FourierAudit

/-- A candidate and a case that it is asked to run. -/
abbrev CasePair := Candidate Float × TransformCase Float

/-! ### The outcome of a pair -/

/-- What the verification of a case on a candidate gives. -/
def verdict (clock : ℕ → Float) (configuration : Configuration) (pair : CasePair) :
    Except (Failure Float) (CaseReport Float) :=
  ((verify clock configuration pair.1 pair.2).run.run Session.start).1

/-- The outcome that a run makes of a verdict, or the failure that ends the run. -/
def settled : Except (Failure Float) (CaseReport Float) → Except (Failure Float) Outcome
  | .ok report => .ok (.passed report)
  | .error (.unsupported cause) => .ok (.skipped cause)
  | .error (.misconfigured cause) => .ok (.misconfigured cause)
  | .error e => .error e

/-- The outcome of a case on a candidate, or the failure that ends the run. -/
def outcome (clock : ℕ → Float) (configuration : Configuration) (pair : CasePair) :
    Except (Failure Float) Outcome :=
  settled (verdict clock configuration pair)

theorem verify_result {clock : ℕ → Float} {configuration : Configuration} (pair : CasePair)
    (s : Session Float) :
    ((verify clock configuration pair.1 pair.2).run.run s).1 = verdict clock configuration pair :=
  (orderly_verify clock configuration pair.1 pair.2).result_eq s Session.start

theorem error_of_settled {result : Except (Failure Float) (CaseReport Float)} {e : Failure Float}
    (h : settled result = .error e) : result = .error e := by
  cases result with
  | ok report => cases h
  | error cause =>
    cases cause with
    | unsupported cause => cases h
    | misconfigured cause => cases h
    | _ => exact congrArg Except.error (Except.error.inj h)

/-- Settling an outcome prints a line at most. -/
theorem exists_run_settle (name : Option String) (body : Harness Float (CaseReport Float))
    (s : Session Float) : ∃ texts, (settle name body).run.run s =
      match body.run.run s with
      | (result, s) => (settled result, { s with printed := s.printed ++ texts }) := by
  rw [settle, Harness.run_tryCatch, Harness.run_bind]
  rcases body.run.run s with ⟨cause | report, t⟩
  · have hsame : t = { t with printed := t.printed ++ [] } := by rw [List.append_nil]
    cases cause with
    | unsupported cause => exact ⟨[_], rfl⟩
    | misconfigured cause => exact ⟨[_], rfl⟩
    | _ => exact ⟨[], congrArg (Prod.mk _) hsame⟩
  · exact ⟨[], congrArg (Prod.mk _) (by rw [List.append_nil])⟩

/-! ### The lists of a report -/

section Lists

variable (clock : ℕ → Float) (configuration : Configuration) (pair : CasePair)

def passedReport? : Option (CaseReport Float) :=
  match outcome clock configuration pair with
  | .ok (.passed report) => some report
  | _ => none

def skippedRemark? : Option (Remark Unsupported) :=
  match outcome clock configuration pair with
  | .ok (.skipped cause) => some ⟨pair.1.name, pair.2, cause⟩
  | _ => none

def errorRemark? : Option (Remark (Misconfiguration Float)) :=
  match outcome clock configuration pair with
  | .ok (.misconfigured cause) => some ⟨pair.1.name, pair.2, cause⟩
  | _ => none

end Lists

section Course

variable {clock : ℕ → Float} {configuration : Configuration}

/-- An attempt gives the outcome of its pair, and its case has ended in the session that it
leaves. -/
theorem exists_run_attempt (pair : CasePair) (s : Session Float) : ∃ t,
    (attempt clock configuration pair.1 pair.2).run.run s
        = (outcome clock configuration pair, t) ∧
      CaseEnd s.stages (verdict clock configuration pair, t) ∧
      (s.timer.Named → t.timer.Named) := by
  set taken : Session Float := (s.entered .selectCase).withCurrent (some pair.2)
  set body := Harness.timed clock (some pair.2.label)
    (verify clock configuration pair.1 pair.2) with hbody
  have hend : CaseEnd s.stages (body.run.run taken) :=
    (caseEnd_verify clock configuration pair.1 pair.2 rfl rfl).timed
  have hresult : (body.run.run taken).1 = verdict clock configuration pair := verify_result pair _
  have hnamed : taken.timer.Named → (body.run.run taken).2.timer.Named :=
    ((orderly_verify clock configuration pair.1 pair.2).timed clock rfl).named taken
  -- settling the result adds to what was printed, which neither the stages nor the timer see
  obtain ⟨texts, hsettle⟩ := exists_run_settle pair.1.name body taken
  rcases hrun : body.run.run taken with ⟨result, t⟩
  rw [hrun] at hend hresult hnamed hsettle
  obtain rfl : result = verdict clock configuration pair := hresult
  exact ⟨_, hsettle, hend.congr rfl rfl, hnamed⟩

/-! ### Pairs that the run went past -/

/-- A block of stages fits a pair: it has the stages of a case as far as it went, and ends with the
last one if and only if the verification of the pair passes. -/
structure FitsPair (clock : ℕ → Float) (configuration : Configuration) (pair : CasePair)
    (block : List Stage) : Prop where
  isAttempt : IsAttempt block
  passed_iff : block.getLast? = some .passed ↔
    ∃ report, verdict clock configuration pair = .ok report

theorem FitsPair.of_error {pair : CasePair} {block : List Stage} {e : Failure Float}
    (hblock : IsAttempt block) (hlast : block.getLast? ≠ some .passed)
    (hverdict : verdict clock configuration pair = .error e) :
    FitsPair clock configuration pair block := by
  refine ⟨hblock, fun h => absurd h hlast, ?_⟩
  rintro ⟨report, hreport⟩
  cases hverdict.symm.trans hreport

/-- A pair that a run went past, with its outcome and the stages that it went through. -/
structure Entry (clock : ℕ → Float) (configuration : Configuration) where
  pair : CasePair
  outcome : Outcome
  stages : List Stage
  outcome_eq : FourierAudit.outcome clock configuration pair = .ok outcome
  fits : FitsPair clock configuration pair stages

theorem exists_entry {pair : CasePair} {result : Outcome} {earlier : List Stage}
    {s : Session Float} (houtcome : outcome clock configuration pair = .ok result)
    (hend : CaseEnd earlier (verdict clock configuration pair, s)) :
    ∃ entry : Entry clock configuration, entry.pair = pair ∧ entry.outcome = result ∧
      s.stages = earlier ++ entry.stages := by
  have hsettled := houtcome
  rw [outcome] at hsettled
  generalize hverdict : verdict clock configuration pair = verdict at hend hsettled
  cases hend with
  | @passed report s hstages =>
    have hfits : FitsPair clock configuration pair caseStages :=
      ⟨by decide, fun _ => ⟨report, hverdict⟩, fun _ => rfl⟩
    exact ⟨⟨pair, result, caseStages, houtcome, hfits⟩, rfl, rfl, hstages⟩
  | failed => cases hsettled
  | @interrupted e s block hblock hpassed hstages =>
    have hlast : block.getLast? ≠ some .passed := fun h => hpassed (List.mem_of_getLast? h)
    have hfits : FitsPair clock configuration pair block := .of_error hblock hlast hverdict
    exact ⟨⟨pair, result, block, houtcome, hfits⟩, rfl, rfl, hstages⟩

def RunReport.recordAll (report : RunReport) (entries : List (Entry clock configuration)) :
    RunReport :=
  entries.foldl (fun report entry => report.record entry.pair.1.name entry.pair.2 entry.outcome)
    report

/-- The outcomes of some pairs, one after another, add to each list what the pairs add to it. -/
theorem RunReport.recordAll_eq (report : RunReport) (entries : List (Entry clock configuration)) :
    report.recordAll entries =
      ⟨report.passed ++ (entries.map Entry.pair).filterMap (passedReport? clock configuration),
        report.skipped ++ (entries.map Entry.pair).filterMap (skippedRemark? clock configuration),
        report.errors ++ (entries.map Entry.pair).filterMap
          (errorRemark? clock configuration)⟩ := by
  induction entries generalizing report with
  | nil => simp only [List.map_nil, List.filterMap_nil, List.append_nil]; rfl
  | cons entry rest ih =>
    have hcons : report.recordAll (entry :: rest)
        = (report.record entry.pair.1.name entry.pair.2 entry.outcome).recordAll rest := rfl
    rw [hcons, ih]
    simp only [List.map_cons, List.filterMap_cons, passedReport?, skippedRemark?, errorRemark?,
      entry.outcome_eq]
    cases entry.outcome <;> simp [RunReport.record]

/-- The failure of a pair ended a run, which had gone past those before it. -/
inductive Stopped (clock : ℕ → Float) (configuration : Configuration) (earlier : List Stage)
    (pairs : List CasePair) (e : Failure Float) (s : Session Float) : Prop where
  | intro (entries : List (Entry clock configuration)) (pair : CasePair) (later : List CasePair)
      (hpairs : entries.map Entry.pair ++ pair :: later = pairs)
      (houtcome : outcome clock configuration pair = .error e)
      (hend : CaseEnd (earlier ++ entries.flatMap Entry.stages) (.error e, s))

/-- How far a part of a run got with its pairs, from a report and a list of stages: it went past
all of them, or the failure of one of them ended the run. -/
inductive Progress (clock : ℕ → Float) (configuration : Configuration) (earlier : List Stage)
    (report : RunReport) (pairs : List CasePair) :
    Except (Failure Float) RunReport × Session Float → Prop where
  | completed {entries : List (Entry clock configuration)} {s : Session Float}
      (hpairs : entries.map Entry.pair = pairs)
      (hstages : s.stages = earlier ++ entries.flatMap Entry.stages) (hnamed : s.timer.Named) :
      Progress clock configuration earlier report pairs (.ok (report.recordAll entries), s)
  | stopped {e : Failure Float} {s : Session Float}
      (h : Stopped clock configuration earlier pairs e s) :
      Progress clock configuration earlier report pairs (.error e, s)

namespace Progress

variable {earlier : List Stage} {report : RunReport} {pairs : List CasePair}

theorem congr {result : Except (Failure Float) RunReport} {s s' : Session Float}
    (h : Progress clock configuration earlier report pairs (result, s))
    (hstages : s'.stages = s.stages) (hcurrent : s'.current = s.current)
    (hnamed : s.timer.Named → s'.timer.Named) :
    Progress clock configuration earlier report pairs (result, s') := by
  cases h with
  | completed hpairs h ht => exact .completed hpairs (hstages.trans h) (hnamed ht)
  | stopped h =>
    obtain ⟨entries, pair, later, hpairs, houtcome, hend⟩ := h
    exact .stopped ⟨entries, pair, later, hpairs, houtcome, hend.congr hstages hcurrent⟩

/-- Progress with the pairs that follow some others. -/
theorem prepend {entries : List (Entry clock configuration)}
    {out : Except (Failure Float) RunReport × Session Float}
    (h : Progress clock configuration (earlier ++ entries.flatMap Entry.stages)
      (report.recordAll entries) pairs out) :
    Progress clock configuration earlier report (entries.map Entry.pair ++ pairs) out := by
  cases h with
  | @completed rest s hpairs hstages hnamed =>
    have hrecord : (report.recordAll entries).recordAll rest = report.recordAll (entries ++ rest) :=
      List.foldl_append.symm
    rw [hrecord]
    refine .completed ?_ ?_ hnamed
    · rw [List.map_append, hpairs]
    · rw [hstages, List.flatMap_append, List.append_assoc]
  | stopped h =>
    obtain ⟨rest, pair, later, hpairs, houtcome, hend⟩ := h
    refine .stopped ⟨entries ++ rest, pair, later, ?_, houtcome, ?_⟩
    · rw [List.map_append, List.append_assoc, hpairs]
    · rwa [List.flatMap_append, ← List.append_assoc]

/-- A run that has ended does not get to later pairs. -/
theorem append {e : Failure Float} {s : Session Float}
    (h : Progress clock configuration earlier report pairs (.error e, s)) (later : List CasePair) :
    Progress clock configuration earlier report (pairs ++ later) (.error e, s) := by
  cases h with
  | stopped h =>
    obtain ⟨entries, pair, rest, hpairs, houtcome, hend⟩ := h
    refine .stopped ⟨entries, pair, rest ++ later, ?_, houtcome, hend⟩
    rw [← hpairs, List.append_assoc, List.cons_append]

/-- A loop over parts of a run, if each part makes progress with its pairs. -/
theorem foldlM {α : Type} {body : RunReport → α → Harness Float RunReport}
    {pairsOf : α → List CasePair} {items : List α}
    (hbody : ∀ a ∈ items, ∀ report (s : Session Float), s.timer.Named →
      Progress clock configuration s.stages report (pairsOf a) ((body report a).run.run s))
    (report : RunReport) {s : Session Float} (hs : s.timer.Named) :
    Progress clock configuration s.stages report (items.flatMap pairsOf)
      ((items.foldlM body report).run.run s) := by
  -- each part starts from the report and the stages that the parts before it have left
  induction items generalizing report s with
  | nil => exact @Progress.completed _ _ _ report _ [] s rfl (List.append_nil _).symm hs
  | cons a rest ih =>
    have hfirst := hbody a List.mem_cons_self report s hs
    rw [List.foldlM_cons, Harness.run_bind, List.flatMap_cons]
    rcases hrun : (body report a).run.run s with ⟨e | report', t⟩ <;> rw [hrun] at hfirst
    · exact hfirst.append _
    · cases hfirst with
      | @completed entries _ hpairs hstages hnamed =>
        have hrest := ih (fun b hb => hbody b (List.mem_cons_of_mem a hb))
          (report.recordAll entries) hnamed
        rw [hstages] at hrest
        rw [← hpairs]
        exact hrest.prepend

end Progress

/-! ### The parts of a run -/

theorem progress_attempt (pair : CasePair) (report : RunReport) {s : Session Float}
    (hs : s.timer.Named) :
    Progress clock configuration s.stages report [pair]
      ((do
        let outcome ← attempt clock configuration pair.1 pair.2
        return report.record pair.1.name pair.2 outcome : Harness Float RunReport).run.run s) := by
  obtain ⟨t, hrun, hend, hnamed⟩ := @exists_run_attempt clock configuration pair s
  rw [Harness.run_bind, hrun]
  rcases houtcome : outcome clock configuration pair with e | result
  · rw [error_of_settled houtcome] at hend
    refine .stopped ⟨[], pair, [], rfl, houtcome, ?_⟩
    rwa [List.flatMap_nil, List.append_nil]
  · obtain ⟨entry, rfl, rfl, hstages⟩ := exists_entry houtcome hend
    refine @Progress.completed _ _ _ report _ [entry] t rfl ?_ (hnamed hs)
    rw [hstages, List.flatMap_singleton]

theorem progress_runBackend {candidate : Candidate Float} (hname : candidate.name.isSome = true)
    (cases : List (TransformCase Float)) (report : RunReport) {s : Session Float}
    (hs : s.timer.Named) :
    Progress clock configuration s.stages report (cases.map (Prod.mk candidate))
      ((runBackend clock configuration cases report candidate).run.run s) := by
  have hopened : ((s.withPrinted ("Testing " ++ nameText candidate.name)).opened clock
      candidate.name).timer.Named := hs.enter hname _
  have hloop := Progress.foldlM (fun requested (_ : requested ∈ cases) report s hs =>
    @progress_attempt clock configuration (candidate, requested) report s hs) report hopened
  rw [← List.map_eq_flatMap] at hloop
  rw [runBackend, Harness.run_bind, Harness.run_print]
  exact hloop.congr rfl rfl fun hnamed => hnamed.leave _

theorem run_printLines (lines : List String) (s : Session Float) :
    (lines.forM fun line => Harness.print line).run.run s
      = (.ok (), { s with printed := s.printed ++ lines }) := by
  induction lines generalizing s with
  | nil => rw [List.append_nil]; rfl
  | cons line rest ih =>
    show (Harness.print line >>= fun _ => rest.forM fun line => Harness.print line).run.run s = _
    rw [Harness.run_bind, Harness.run_print]
    show (rest.forM fun line => Harness.print line).run.run (s.withPrinted line) = _
    rw [ih, Session.withPrinted, List.append_assoc]
    rfl

/-- The timing summary of a session. -/
def Session.summary (s : Session Float) : Except (Failure Float) (List String) :=
  TimingTable.lines s.timer TimingTable.defaultTitle TimingTable.defaultNameWidth

theorem run_printSummary (s : Session Float) : printSummary.run.run s = match s.summary with
    | .ok lines => (.ok (), { s with printed := s.printed ++ lines })
    | .error e => (.error e, s) := by
  show (Harness.ofExcept s.summary >>= fun lines => lines.forM fun line =>
    Harness.print line).run.run s = _
  rw [Harness.run_bind, Harness.run_ofExcept]
  rcases s.summary with e | lines
  · rfl
  · exact run_printLines lines s

theorem exists_run_printSummary {s : Session Float} (hs : s.timer.Named) : ∃ lines,
    printSummary.run.run s = (.ok (), { s with printed := s.printed ++ lines }) := by
  obtain ⟨lines, hlines⟩ := hs.exists_lines
  have hsummary : s.summary = .ok lines := hlines
  exact ⟨lines, by rw [run_printSummary, hsummary]⟩

/-- How a run ends: it went past all pairs and is done, or the failure of one of them ended it. -/
inductive RunEnd (clock : ℕ → Float) (configuration : Configuration) (earlier : List Stage)
    (pairs : List CasePair) : Except (Failure Float) RunReport × Session Float → Prop where
  | returned {entries : List (Entry clock configuration)} {s : Session Float}
      (hpairs : entries.map Entry.pair = pairs)
      (hstages : s.stages = earlier ++ entries.flatMap Entry.stages ++ [.done])
      (hcurrent : s.current = none) :
      RunEnd clock configuration earlier pairs (.ok (RunReport.empty.recordAll entries), s)
  | stopped {e : Failure Float} {s : Session Float}
      (h : Stopped clock configuration earlier pairs e s) :
      RunEnd clock configuration earlier pairs (.error e, s)

theorem runEnd_run {candidates : List (Candidate Float)}
    (hnames : ∀ candidate ∈ candidates, candidate.name.isSome = true)
    (cases : List (TransformCase Float)) {s : Session Float} (hs : s.timer.Named) :
    RunEnd clock configuration s.stages (candidates ×ˢ cases)
      ((run clock configuration candidates cases).run.run s) := by
  have hloop := Progress.foldlM (fun candidate hcandidate report s hs =>
    @progress_runBackend clock configuration candidate (hnames candidate hcandidate) cases report
      s hs) .empty hs
  rw [run, Harness.run_bind]
  rcases hrun : (candidates.foldlM (runBackend clock configuration cases)
    RunReport.empty).run.run s with ⟨e | report, t⟩ <;> rw [hrun] at hloop
  · cases hloop with
    | stopped h => exact .stopped h
  · cases hloop with
    | @completed entries _ hpairs hstages hnamed =>
      have hdone : ((t.entered .done).withCurrent none).stages
          = s.stages ++ entries.flatMap Entry.stages ++ [.done] := by
        rw [Session.stages_withCurrent, Session.stages_entered, hstages]
      have hnamed' : ((t.entered .done).withCurrent none).timer.Named := hnamed
      -- the summary comes after the last stage, so it must not fail
      obtain ⟨lines, hlines⟩ := exists_run_printSummary hnamed'
      simp only [Harness.run_bind, Harness.run_enter, Harness.run_setCurrent]
      split
      · rw [Harness.run_bind, hlines]
        exact .returned hpairs hdone rfl
      · exact .returned hpairs hdone rfl

end Course

/-- A candidate that takes no case. -/
def refusingCandidate : Candidate Float where
  name := some "Refusing"
  normalise c _ := .error (.unsupported (.precision "Refusing" c.precision))
  openGrids c := .error (.unsupported (.precision "Refusing" c.precision))
  upload _ _ grids := (grids, .ok ())
  forward _ grids := (grids, .ok ())
  inverse _ grids := (grids, .ok ())

/-- Another one, for the end of a run. -/
def lateCandidate : Candidate Float := { refusingCandidate with name := some "Late" }

end FourierAudit
