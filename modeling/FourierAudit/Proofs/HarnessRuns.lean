/-
What an activity does to a session.

An activity is run by giving it a session: `body.run.run s` is its result and the session it
leaves, whether it failed or not. Activities are put together from a few steps, and each step says
what it does in one equation:

* `Harness.run_bind` — one activity after another; the first failure is the result;
* `Harness.run_tryCatch` — an activity whose failure is handled;
* `Harness.run_enter`, `run_setCurrent`, `run_print` — the steps that record something;
* `Harness.run_timed` — a section of the timer.

What a step does to the session is a function with a name, so that the session after many steps
can be written down.
-/
import FourierAudit.Session

namespace FourierAudit

variable {R : Type} [Scalar R]

namespace Session

/-- The session once it has entered a stage. -/
def entered (stage : Stage) (s : Session R) : Session R := { s with stages := s.stages ++ [stage] }

/-- The session with a case at hand, or none. -/
def withCurrent (case : Option (TransformCase R)) (s : Session R) : Session R :=
  { s with current := case }

/-- The session once a text has been printed. -/
def withPrinted (text : String) (s : Session R) : Session R :=
  { s with printed := s.printed ++ [text] }

/-- The session once a section of the timer has been opened in it. -/
def opened (clock : Nat → R) (name : Option String) (s : Session R) : Session R :=
  { s with timer := s.timer.enter name (clock s.readings), readings := s.readings + 1 }

/-- The session once the innermost section of the timer has been closed in it. -/
def closed (clock : Nat → R) (s : Session R) : Session R :=
  { s with
    timer := (s.timer.leave? (clock s.readings)).getD s.timer
    readings := s.readings + 1 }

section Fields

variable (stage : Stage) (case : Option (TransformCase R)) (text : String) (clock : Nat → R)
  (name : Option String) (s : Session R)

@[simp] theorem stages_entered : (s.entered stage).stages = s.stages ++ [stage] := rfl
@[simp] theorem stages_withCurrent : (s.withCurrent case).stages = s.stages := rfl
@[simp] theorem stages_withPrinted : (s.withPrinted text).stages = s.stages := rfl
@[simp] theorem stages_opened : (s.opened clock name).stages = s.stages := rfl
@[simp] theorem stages_closed : (s.closed clock).stages = s.stages := rfl

@[simp] theorem current_entered : (s.entered stage).current = s.current := rfl
@[simp] theorem current_withCurrent : (s.withCurrent case).current = case := rfl
@[simp] theorem current_withPrinted : (s.withPrinted text).current = s.current := rfl
@[simp] theorem current_opened : (s.opened clock name).current = s.current := rfl
@[simp] theorem current_closed : (s.closed clock).current = s.current := rfl

@[simp] theorem stage_entered : (s.entered stage).stage = stage := by
  rw [Session.stage, stages_entered, List.getLastD_concat]

end Fields

end Session

/-- The result of an action on the grids: the grids, unless it failed. -/
def GridAction.result (action : GridAction R) (grids : GridPair R) :
    Except (Failure R) (GridPair R) :=
  match action grids with
  | (grids, .ok ()) => .ok grids
  | (_, .error e) => .error e

theorem GridAction.result_ofExcept (change : GridPair R → Except (Failure R) (GridPair R))
    (grids : GridPair R) : (GridAction.ofExcept change).result grids = change grids := by
  rw [GridAction.result, GridAction.ofExcept]
  rcases change grids with _ | _ <;> rfl

namespace Harness

variable {α β : Type} (s : Session R)

theorem run_bind (x : Harness R α) (f : α → Harness R β) :
    (x >>= f).run.run s = match x.run.run s with
      | (.ok a, s) => (f a).run.run s
      | (.error e, s) => (.error e, s) := by
  rw [ExceptT.run_bind, StateT.run_bind]
  rcases x.run.run s with ⟨_ | _, _⟩ <;> rfl

theorem run_pure (a : α) : (pure a : Harness R α).run.run s = (.ok a, s) := rfl

theorem run_enter (stage : Stage) :
    (enter stage : Harness R Unit).run.run s = (.ok (), s.entered stage) := rfl

theorem run_setCurrent (case : Option (TransformCase R)) :
    (setCurrent case).run.run s = (.ok (), s.withCurrent case) := rfl

theorem run_print (text : String) :
    (print text : Harness R Unit).run.run s = (.ok (), s.withPrinted text) := rfl

theorem run_ofExcept (result : Except (Failure R) α) :
    (ofExcept result).run.run s = (result, s) := by
  cases result <;> rfl

theorem run_act (action : GridAction R) (grids : GridPair R) :
    (act action grids).run.run s = (action.result grids, s) := by
  rw [act, GridAction.result]
  rcases action grids with ⟨_, _ | _⟩ <;> rfl

theorem run_tryCatch (body : Harness R α) (handle : Failure R → Harness R α) :
    (tryCatch body handle).run.run s = match body.run.run s with
      | (.ok a, s) => (.ok a, s)
      | (.error e, s) => (handle e).run.run s := by
  show (ExceptT.tryCatch body handle).run.run s = _
  rw [ExceptT.tryCatch, ExceptT.run_mk, StateT.run_bind]
  rcases hrun : body.run.run s with ⟨_ | _, _⟩ <;> rw [ExceptT.run] at hrun <;> rw [hrun] <;> rfl

theorem run_timed (clock : Nat → R) (name : Option String) (body : Harness R α) :
    (timed clock name body).run.run s = match body.run.run (s.opened clock name) with
      | (result, s) => (result, s.closed clock) :=
  rfl

end Harness

end FourierAudit
