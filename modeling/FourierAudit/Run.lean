/-
Running all cases on all backends.

Every case is verified on every backend, one after the other. A case that a backend cannot
run is skipped for that backend, a case that cannot be set up is noted as an error, and
anything else ends the run.

* `attempt` — one case on one backend, with its outcome if that does not end the run;
* `RunReport` — the outcomes of a run by their kind, in the order they came up;
* `run` — the whole run, and the timing summary if it is asked for.
-/
import FourierAudit.TimingTable
import FourierAudit.Verification

namespace FourierAudit

/-- How a case went on a backend, if the run goes on. -/
inductive Outcome where
  /-- Both checks passed. -/
  | passed (report : CaseReport Float)
  | skipped (cause : Unsupported)
  | misconfigured (cause : Misconfiguration Float)

/-- A requested case that did not run, and why. -/
structure Remark (α : Type) where
  backend : Option String
  requested : TransformCase Float
  cause : α

structure RunReport where
  passed : List (CaseReport Float)
  skipped : List (Remark Unsupported)
  errors : List (Remark (Misconfiguration Float))

namespace RunReport

/-- The report of a run before its first case. -/
def empty : RunReport := ⟨[], [], []⟩

def succeeded (report : RunReport) : Bool := report.errors.isEmpty

/-- The report with one more outcome. -/
def record (report : RunReport) (backend : Option String) (requested : TransformCase Float) :
    Outcome → RunReport
  | .passed result => { report with passed := report.passed ++ [result] }
  | .skipped cause => { report with skipped := report.skipped ++ [⟨backend, requested, cause⟩] }
  | .misconfigured cause =>
    { report with errors := report.errors ++ [⟨backend, requested, cause⟩] }

end RunReport

/-- The outcome of an activity, unless its failure ends the run. -/
def settle (name : Option String) (body : Harness Float (CaseReport Float)) :
    Harness Float Outcome :=
  tryCatch (return .passed (← body)) fun
    | .unsupported cause => do
      Harness.print ("Skipping case on " ++ nameText name ++ ": " ++ cause.message)
      return .skipped cause
    | .misconfigured cause => do
      Harness.print ("Configuration error on " ++ nameText name ++ ": " ++ cause.message)
      return .misconfigured cause
    | failure => throw failure

/-- One case on one backend. -/
def attempt (clock : Nat → Float) (configuration : Configuration) (candidate : Candidate Float)
    (requested : TransformCase Float) : Harness Float Outcome := do
  Harness.enter .selectCase
  Harness.setCurrent (some requested)
  settle candidate.name
    (Harness.timed clock (some requested.label) (verify clock configuration candidate requested))

def runBackend (clock : Nat → Float) (configuration : Configuration)
    (cases : List (TransformCase Float)) (report : RunReport) (candidate : Candidate Float) :
    Harness Float RunReport := do
  Harness.print ("Testing " ++ nameText candidate.name)
  Harness.timed clock candidate.name <|
    cases.foldlM (fun report requested => do
      let outcome ← attempt clock configuration candidate requested
      return report.record candidate.name requested outcome) report

/-- The timing summary of the session, printed. -/
def printSummary : Harness Float Unit := do
  let lines ← Harness.ofExcept
    (TimingTable.lines (← get).timer TimingTable.defaultTitle TimingTable.defaultNameWidth)
  lines.forM fun line => Harness.print line

def run (clock : Nat → Float) (configuration : Configuration)
    (candidates : List (Candidate Float)) (cases : List (TransformCase Float)) :
    Harness Float RunReport := do
  let report ← candidates.foldlM (runBackend clock configuration cases) RunReport.empty
  Harness.enter .done
  Harness.setCurrent none
  if configuration.timings then printSummary
  return report

end FourierAudit
