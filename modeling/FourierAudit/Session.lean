/-
The state of a verification session.

A session goes through the stages of one case after the other. Its state is everything that
can be seen of it from outside: the stages it went through, the case at hand, the timer, how
often the clock was read, and what was printed.

* `Session` — the state, and `Session.stage`, the stage it is in;
* `Harness` — an activity in a session, which may fail;
* `Harness.timed` — an activity as a section of the timer, which is closed in either case.

Design notes: the stages are kept as the whole history. The clock is a function of the number
of the reading, so that a session is a pure function of what goes into it.
-/
import FourierAudit.Engine
import FourierAudit.Timer

namespace FourierAudit

variable {R : Type} [Scalar R]

/-- The stages of a case, and how a session may end. -/
inductive Stage where
  /-- A case is taken up. -/
  | selectCase
  /-- Its extents are made legal for the backend. -/
  | normaliseShape
  | generateStimulus
  | runForward
  | compareForward
  | runInverse
  | compareRoundTrip
  | passed
  | failed
  | done
deriving DecidableEq, Repr

def Stage.name : Stage → String
  | selectCase => "SelectCase"
  | normaliseShape => "NormalizeShape"
  | generateStimulus => "GenerateStimulus"
  | runForward => "RunForward"
  | compareForward => "CompareForward"
  | runInverse => "RunInverse"
  | compareRoundTrip => "CompareRoundTrip"
  | passed => "Pass"
  | failed => "Fail"
  | done => "Done"

/-- The state of a session. -/
structure Session (R : Type) [Scalar R] where
  /-- The stages entered so far, in order. -/
  stages : List Stage
  current : Option (TransformCase R)
  timer : Timer R
  /-- How often the clock was read. -/
  readings : Nat
  /-- The texts printed so far, each on lines of its own. -/
  printed : List String

namespace Session

def start : Session R := ⟨[], none, .empty, 0, []⟩

/-- The stage that a session is in. -/
def stage (s : Session R) : Stage := s.stages.getLastD .selectCase

end Session

/-- The configuration of a session. -/
structure Configuration where
  /-- The precision of the standard cases. -/
  precision : Precision := .single
  /-- The identifiers of the backends; all that are there if it is empty. One that was asked for
  without an identifier is none. -/
  backends : List (Option String) := []
  /-- The seed of the stimulus, none if it was asked for without one. -/
  seed : Option Int := some 0
  /-- The largest extent that is looked at for a legal one. -/
  ceiling : Int := 65536
  /-- Whether a timing summary ends the session. -/
  timings : Bool := false

/-- An activity in a session: it may fail, and the state stays as it was left then. -/
abbrev Harness (R : Type) [Scalar R] := ExceptT (Failure R) (StateM (Session R))

namespace Harness

def enter (stage : Stage) : Harness R Unit :=
  modify fun s => { s with stages := s.stages ++ [stage] }

def setCurrent (case : Option (TransformCase R)) : Harness R Unit :=
  modify fun s => { s with current := case }

def print (text : String) : Harness R Unit :=
  modify fun s => { s with printed := s.printed ++ [text] }

/-- The result of a computation that may fail. -/
def ofExcept {α : Type} (result : Except (Failure R) α) : Harness R α :=
  match result with
  | .ok a => pure a
  | .error e => throw e

/-- The grids after an action on them. -/
def act (action : GridAction R) (grids : GridPair R) : Harness R (GridPair R) :=
  match action grids with
  | (grids, .ok ()) => pure grids
  | (_, .error e) => throw e

/-- An activity as a section of the timer. The clock is read when the section has been opened
and when the activity has ended, whether it failed or not. -/
def timed {α : Type} (clock : Nat → R) (name : Option String) (body : Harness R α) :
    Harness R α := fun s =>
  let s : Session R :=
    { s with timer := s.timer.enter name (clock s.readings), readings := s.readings + 1 }
  let (result, s) := body.run.run s
  (result,
    { s with
      timer := (s.timer.leave? (clock s.readings)).getD s.timer
      readings := s.readings + 1 })

end Harness

end FourierAudit
