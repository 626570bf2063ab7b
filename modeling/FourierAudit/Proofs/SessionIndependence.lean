/-
Verifications do not depend on what went before.

A session keeps the stages, the case at hand, the timer and what was printed, and a verification
writes to all of them. It reads none of them, so its result is the same in every session:

* `Harness.Closed` — a property of activities that is kept by every way to put them together, and
  `Harness.Closed.verifyWith`, which gives it to a verification;
* `Harness.Orderly` — the result of an activity is the same in every session, and all sections that
  it opens have names;
* `Harness.Orderly.bind`, `Harness.Orderly.timed` — one activity after another, and an activity as
  a section with a name;
* `orderly_verify` — a verification.
-/
import FourierAudit.Proofs.NamedSections
import FourierAudit.Proofs.VerificationRuns

namespace FourierAudit

variable {R : Type} [Scalar R]

/-- A property of the steps of a session that is kept by every way to put them together, where
sections have names. -/
structure Harness.Closed (P : ∀ {α : Type}, Harness R α → Prop) : Prop where
  pure : ∀ {α : Type} (a : α), P (pure a : Harness R α)
  enter : ∀ stage : Stage, P (Harness.enter stage)
  setCurrent : ∀ case : Option (TransformCase R), P (Harness.setCurrent case)
  print : ∀ text : String, P (Harness.print text)
  ofExcept : ∀ {α : Type} (result : Except (Failure R) α), P (Harness.ofExcept result)
  act : ∀ (action : GridAction R) (grids : GridPair R), P (Harness.act action grids)
  timed : ∀ {α : Type} {body : Harness R α}, P body → ∀ (clock : ℕ → R) {name : Option String},
    name.isSome = true → P (Harness.timed clock name body)
  bind : ∀ {α β : Type} {x : Harness R α} {f : α → Harness R β}, P x → (∀ a, P (f a)) →
    P (x >>= f)

namespace Harness.Closed

variable {P : ∀ {α : Type}, Harness R α → Prop}

theorem requirePassed (hP : Closed P) (c : TransformCase R) (check : Check)
    (result : Comparison R) : P (requirePassed c check result) := by
  rw [FourierAudit.requirePassed]
  split
  · exact hP.pure ()
  · exact hP.bind (hP.enter _) fun _ => hP.ofExcept (.error _)

/-- What every way to put activities together keeps, a verification has. -/
theorem verifyWith (hP : Closed P)
    (draw : TransformCase R → Except (Failure R) (Thunk (Volume R))) (clock : ℕ → R) (ceiling : ℤ)
    (candidate : Candidate R) (requested : TransformCase R) :
    P (verifyWith draw clock ceiling candidate requested) := by
  rw [FourierAudit.verifyWith]
  refine hP.bind (hP.enter _) fun _ => hP.bind (hP.ofExcept _) fun c => ?_
  refine hP.bind (hP.setCurrent _) fun _ => hP.bind (hP.print _) fun _ => ?_
  refine hP.bind (hP.enter _) fun _ => ?_
  refine hP.bind (hP.timed (hP.ofExcept _) clock rfl) fun stimulus => ?_
  refine hP.bind (hP.ofExcept _) fun grids => hP.bind (hP.act _ _) fun grids => ?_
  refine hP.bind (hP.enter _) fun _ => hP.bind (hP.timed (hP.act _ _) clock rfl) fun grids => ?_
  refine hP.bind (hP.enter _) fun _ => ?_
  refine hP.bind (hP.timed (hP.ofExcept _) clock rfl) fun expected => ?_
  refine hP.bind (hP.timed (hP.ofExcept _) clock rfl) fun forward => ?_
  refine hP.bind (hP.requirePassed c .forward forward) fun _ => ?_
  refine hP.bind (hP.enter _) fun _ => hP.bind (hP.timed (hP.act _ _) clock rfl) fun grids => ?_
  refine hP.bind (hP.enter _) fun _ => ?_
  refine hP.bind (hP.timed (hP.ofExcept _) clock rfl) fun roundTrip => ?_
  refine hP.bind (hP.requirePassed c .roundTrip roundTrip) fun _ => ?_
  exact hP.bind (hP.enter _) fun _ => hP.pure _

end Harness.Closed

/-- An activity that reads nothing from the session and opens sections with names only. -/
structure Harness.Orderly {α : Type} (x : Harness R α) : Prop where
  result_eq : ∀ s s', (x.run.run s).1 = (x.run.run s').1
  named : ∀ s, s.timer.Named → (x.run.run s).2.timer.Named

namespace Harness

variable {α β : Type}

/-- A step that has one result and does not touch the timer. -/
theorem Orderly.of_run {x : Harness R α} {result : Except (Failure R) α}
    {change : Session R → Session R} (hrun : ∀ s, x.run.run s = (result, change s))
    (hchange : ∀ s, (change s).timer = s.timer) : x.Orderly where
  result_eq s s' := by rw [hrun, hrun]
  named s hs := by rwa [hrun, hchange]

theorem orderly_pure (a : α) : (pure a : Harness R α).Orderly :=
  .of_run (fun s => run_pure s a) fun _ => rfl

theorem orderly_enter (stage : Stage) : (enter stage : Harness R Unit).Orderly :=
  .of_run (fun s => run_enter s stage) fun _ => rfl

theorem orderly_setCurrent (case : Option (TransformCase R)) : (setCurrent case).Orderly :=
  .of_run (fun s => run_setCurrent s case) fun _ => rfl

theorem orderly_print (text : String) : (print text : Harness R Unit).Orderly :=
  .of_run (fun s => run_print s text) fun _ => rfl

theorem orderly_ofExcept (result : Except (Failure R) α) : (ofExcept result).Orderly :=
  .of_run (fun s => run_ofExcept s result) fun _ => rfl

theorem orderly_act (action : GridAction R) (grids : GridPair R) : (act action grids).Orderly :=
  .of_run (fun s => run_act s action grids) fun _ => rfl

theorem Orderly.bind {x : Harness R α} {f : α → Harness R β} (hx : x.Orderly)
    (hf : ∀ a, (f a).Orderly) : (x >>= f).Orderly where
  result_eq s s' := by
    -- both runs get past the first activity, with one value, or neither does
    have hresult := hx.result_eq s s'
    rw [run_bind, run_bind]
    rcases hs : x.run.run s with ⟨_ | a, t⟩ <;> rcases hs' : x.run.run s' with ⟨_ | a', t'⟩ <;>
      rw [hs, hs'] at hresult <;> cases hresult
    · rfl
    · exact (hf a).result_eq t t'
  named s hs := by
    have hnamed := hx.named s hs
    rw [run_bind]
    rcases hrun : x.run.run s with ⟨_ | a, t⟩ <;> rw [hrun] at hnamed
    · exact hnamed
    · exact (hf a).named t hnamed

/-- A section with a name, around an activity. -/
theorem Orderly.timed {body : Harness R α} (hbody : body.Orderly) (clock : ℕ → R)
    {name : Option String} (hname : name.isSome = true) : (timed clock name body).Orderly where
  result_eq s s' := by
    rw [run_timed, run_timed]
    exact hbody.result_eq _ _
  named s hs := by
    rw [run_timed]
    have hopened : (s.opened clock name).timer.Named := hs.enter hname _
    exact (hbody.named _ hopened).leave _

theorem closed_orderly : Closed fun {α : Type} (x : Harness R α) => x.Orderly where
  pure := orderly_pure
  enter := orderly_enter
  setCurrent := orderly_setCurrent
  print := orderly_print
  ofExcept := orderly_ofExcept
  act := orderly_act
  timed hbody clock _ hname := hbody.timed clock hname
  bind := Orderly.bind

end Harness

/-- A verification has the same result in every session, and all its sections have names. -/
theorem orderly_verify (clock : ℕ → R) (configuration : Configuration) (candidate : Candidate R)
    (requested : TransformCase R) : (verify clock configuration candidate requested).Orderly :=
  Harness.closed_orderly.verifyWith _ clock configuration.ceiling candidate requested

end FourierAudit
