/-
Code that uses a timer.

A section is opened for a part of the code and closed when that part is left, whether it has failed
or not. A failure leaves all sections on its way, until something handles it:

* `TimedCode` — one run of such code: sections, failures, and parts whose failure is handled;
* `TimedCode.activity` — the code as an activity of a session;
* `TimedCode.events`, `run_activity` — what a timer sees of it, and that this is all;
* `stack_events` — the sections that were open before are open afterwards;
* `ticks_events` — the readings are those of the clock in their order.
-/
import FourierAudit.Proofs.ExactArithmetic
import FourierAudit.Proofs.HarnessRuns
import FourierAudit.Proofs.TimerRecords

namespace FourierAudit

variable {R : Type} [Scalar R]

/-- One run of code that uses a timer. -/
inductive TimedCode (R : Type) [Scalar R] where
  | done
  | fails (cause : Failure R)
  /-- A section with a name, and what follows unless it fails. -/
  | timed (name : String) (inside rest : TimedCode R)
  /-- A part whose failure is handled, and what follows in either case. -/
  | handled (inside rest : TimedCode R)

open Timer (Event)

/-- The session once a timer has seen some events, each with a reading of the clock. -/
def Session.followed (events : List (Event R)) (s : Session R) : Session R :=
  { s with timer := events.foldl Timer.step s.timer, readings := s.readings + events.length }

theorem Session.followed_append (s : Session R) (events later : List (Event R)) :
    s.followed (events ++ later) = (s.followed events).followed later := by
  simp only [followed, List.foldl_append, List.length_append, Nat.add_assoc]

theorem Session.followed_cons (s : Session R) (event : Event R) (later : List (Event R)) :
    s.followed (event :: later) = (s.followed [event]).followed later :=
  s.followed_append [event] later

namespace TimedCode

def activity (clock : ℕ → R) : TimedCode R → Harness R Unit
  | done => pure ()
  | fails cause => Harness.ofExcept (.error cause)
  | timed name inside rest => do
    Harness.timed clock (some name) (inside.activity clock)
    rest.activity clock
  | handled inside rest => do
    tryCatch (inside.activity clock) fun _ => pure ()
    rest.activity clock

/-- How the code ends. -/
def result : TimedCode R → Except (Failure R) Unit
  | done => .ok ()
  | fails cause => .error cause
  | timed _ inside rest => do
    inside.result
    rest.result
  | handled _ rest => rest.result

/-- What a timer sees of the code, if the clock has been read some times before. -/
def events (clock : ℕ → R) : TimedCode R → ℕ → List (Event R)
  | done, _ => []
  | fails _, _ => []
  | timed name inside rest, readings =>
    let within := inside.events clock (readings + 1)
    let last := readings + 1 + within.length
    let follows := match inside.result with
      | .ok () => rest.events clock (last + 1)
      | .error _ => []
    .opened name (clock readings) :: (within ++ .closed (clock last) :: follows)
  | handled inside rest, readings =>
    let within := inside.events clock readings
    within ++ rest.events clock (readings + within.length)

variable (clock : ℕ → R) (code : TimedCode R)

theorem run_activity (s : Session R) : (code.activity clock).run.run s =
    (code.result, s.followed (code.events clock s.readings)) := by
  induction code generalizing s with
  | done => rfl
  | fails cause => exact Harness.run_ofExcept s _
  | timed name inside rest ihinside ihrest =>
    -- the section is closed whether what is inside has failed or not
    have hsection : (Harness.timed clock (some name) (inside.activity clock)).run.run s =
        (inside.result,
          ((s.opened clock (some name)).followed (inside.events clock (s.readings + 1))).closed
            clock) := by
      rw [Harness.run_timed, ihinside]
      rfl
    rw [activity, Harness.run_bind, hsection, result, events, Session.followed_cons,
      Session.followed_append, Session.followed_cons]
    rcases inside.result with cause | ⟨⟩
    · rfl
    · exact ihrest _
  | handled inside rest ihinside ihrest =>
    rw [activity, Harness.run_bind, Harness.run_tryCatch, ihinside, result, events,
      Session.followed_append]
    rcases inside.result with cause | ⟨⟩
    · exact ihrest _
    · exact ihrest _

/-- What is opened is closed again. -/
theorem stack_events (readings : ℕ) (t : Timer R) :
    ((code.events clock readings).foldl Timer.step t).stack = t.stack := by
  induction code generalizing readings t with
  | done => rfl
  | fails cause => rfl
  | timed name inside rest ihinside ihrest =>
    have hinside := ihinside (readings + 1) (t.enter (some name) (clock readings))
    rw [Timer.stack_enter] at hinside
    rw [events, List.foldl_cons, List.foldl_append, List.foldl_cons]
    have hclosed := Timer.stack_leave hinside
      (clock (readings + 1 + (inside.events clock (readings + 1)).length))
    rcases inside.result with cause | ⟨⟩
    · exact hclosed
    · exact (ihrest _ _).trans hclosed
  | handled inside rest ihinside ihrest =>
    rw [events, List.foldl_append, ihrest, ihinside]

/-- Events that come with the readings of a clock from a given one on. -/
def Ticks (readings : ℕ) (events : List (Event R)) : Prop :=
  events.map Event.now = (List.range' readings events.length).map clock

variable {clock} in
omit [Scalar R] in
theorem Ticks.append {readings : ℕ} {events later : List (Event R)}
    (h : Ticks clock readings events) (hlater : Ticks clock (readings + events.length) later) :
    Ticks clock readings (events ++ later) := by
  rw [Ticks, List.map_append, List.length_append, h, hlater, ← List.map_append,
    List.range'_append_1]

variable {clock} in
omit [Scalar R] in
theorem Ticks.cons {readings : ℕ} {event : Event R} {later : List (Event R)}
    (h : event.now = clock readings) (hlater : Ticks clock (readings + 1) later) :
    Ticks clock readings (event :: later) := by
  have hfirst : Ticks clock readings [event] := congrArg (fun now => [now]) h
  exact hfirst.append hlater

/-- The clock is read once for every event. -/
theorem ticks_events (readings : ℕ) : Ticks clock readings (code.events clock readings) := by
  induction code generalizing readings with
  | done => rfl
  | fails cause => rfl
  | timed name inside rest ihinside ihrest =>
    rw [events]
    refine .cons rfl <| (ihinside (readings + 1)).append <| .cons rfl ?_
    rcases inside.result with cause | ⟨⟩
    · rfl
    · exact ihrest _
  | handled inside rest ihinside ihrest =>
    rw [events]
    exact (ihinside readings).append (ihrest _)

/-- The readings of a clock that never goes back. -/
theorem pairwise_events {clock : ℕ → ℝ} (hclock : Monotone clock) (code : TimedCode ℝ)
    (readings : ℕ) : ((code.events clock readings).map Event.now).Pairwise (· ≤ ·) := by
  rw [code.ticks_events clock readings, List.pairwise_map]
  exact List.pairwise_le_range'.imp fun hle => hclock hle

end TimedCode

end FourierAudit
