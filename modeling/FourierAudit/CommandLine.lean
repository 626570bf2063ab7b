/-
The answer of the command line.

* `CommandLine.respond` — what is printed and the exit code, from the arguments to the end of
  the run;
* `CommandLine.selectBackends` — the backends that were asked for, all if none was;
* `CommandLine.verdict` — how the end of a run is reported.

The exit code is 0 if every case passed or was skipped, 1 if something failed, and 2 if the
arguments cannot be read.

Design notes: the backends are looked up before the cases are made, and both before anything is
run. What a run printed before it failed stays printed.
-/
import FourierAudit.Arguments
import FourierAudit.Registry
import FourierAudit.Run

namespace FourierAudit.CommandLine

def programName : String := "fft3d_check"

def usage : String := "usage: " ++ programName ++ " [-h] [-b BACKENDS] [-s SEED] [-t] [precision]"

def helpText : List String :=
  [usage,
   "",
   "Verify 3D FFT backends against a reference transform",
   "",
   "positional arguments:",
   "  precision             Floating point precision of the grids, 'single' or",
   "                        'double' (default: single)",
   "",
   "options:",
   "  -h, --help            show this help message and exit",
   "  -b BACKENDS, --backend BACKENDS",
   "                        FFT backend to check, can be given multiple times. One",
   "                        of 'numpy', 'cupy', 'host', 'device' or 'default'",
   "                        (default: all available)",
   "  -s SEED, --seed SEED  Seed of the random stimulus (default: 0)",
   "  -t, --timings         Print a timing summary at the end of the run (default:",
   "                        off)"]

structure Response where
  exitCode : Nat
  /-- The texts on standard output, each on lines of its own. -/
  output : List String
  /-- The texts on standard error, each on lines of its own. -/
  complaints : List String
deriving DecidableEq, Repr

structure Environment where
  registry : Registry Float
  /-- The library for device memory, if it is there. -/
  accelerator : Option Accelerator
  /-- The clock, by the number of the reading. -/
  clock : Nat → Float
  /-- The cases that are run in a precision. -/
  cases : Precision → Except (Failure Float) (List (TransformCase Float))

def configuration (a : Arguments) : Except (Failure Float) Configuration := do
  let precision ← (Precision.parse a.precision).mapError .misconfigured
  return { precision, backends := a.backends, seed := a.seed, timings := a.timings }

/-- The backends that were asked for, in that order; all of the registry if none was. -/
def selectBackends (registry : Registry Float) (identifiers : List (Option String)) :
    Except (Failure Float) (List (Backend Float)) :=
  if identifiers.isEmpty then .ok (registry.entries.map (·.backend))
  else identifiers.mapM fun
    | some identifier => (registry.find identifier).mapError .unknownBackend
    | none => .error .missingIdentifier

/-- The run that the arguments ask for. -/
def perform (environment : Environment) (a : Arguments) : Harness Float RunReport := do
  let configuration ← Harness.ofExcept (configuration a)
  let backends ← Harness.ofExcept (selectBackends environment.registry configuration.backends)
  let cases ← Harness.ofExcept (environment.cases configuration.precision)
  run environment.clock configuration (backends.map (·.candidate environment.accelerator)) cases

def errorLine (remark : Remark (Misconfiguration Float)) : String :=
  "error: " ++ remark.requested.text ++ " on " ++ nameText remark.backend ++ ": " ++
    remark.cause.message

/-- The exit code and the last lines of a run. -/
def verdict : Except (Failure Float) RunReport → Nat × List String
  | .error failure => (1, ["exception: " ++ failure.message])
  | .ok report => if report.succeeded then (0, ["Done"]) else (1, report.errors.map errorLine)

/-- The answer to the arguments. -/
def respond (environment : Environment) (arguments : List String) : Response :=
  match Arguments.interpret arguments with
  | .error e => ⟨2, [], [usage, programName ++ ": error: " ++ e.message]⟩
  | .ok .help => ⟨0, helpText, []⟩
  | .ok (.run a) =>
    let (outcome, session) := (perform environment a).run.run .start
    let (exitCode, lines) := verdict outcome
    ⟨exitCode, session.printed ++ lines, []⟩

end FourierAudit.CommandLine
