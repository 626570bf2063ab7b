/-
Sections without names.

A candidate without a name opens a section without one. It is opened with no other section open, so
its path is among the roots of the timer, and the timing summary fails there:

* `Harness.Inner` — an activity that runs inside a section adds no root and closes what it opens;
* `Timer.Settled` — no section is open, and the roots say whether there is a section without path;
* `settled_loop` — a candidate without a name, among those that a run went through;
* `Timer.exists_lines_error` — the summary.

Design notes: a name that was used inside of another section is no root when it comes up again. No
path inside of a section is missing, so this cannot happen to a missing name.
-/
import FourierAudit.Proofs.RunCourse
import FourierAudit.Proofs.TimerRecords

namespace FourierAudit

variable {R : Type}

/-! ### Roots of the timer -/

namespace Timer

/-- The same sections are open, and there is no new root. -/
structure SameRoots (t t' : Timer R) : Prop where
  stack : t'.stack = t.stack
  roots : t'.roots = t.roots
  nameless : none ∈ t'.paths ↔ none ∈ t.paths

variable {t t' t'' : Timer R}

theorem SameRoots.refl (t : Timer R) : t.SameRoots t := ⟨rfl, rfl, Iff.rfl⟩

theorem SameRoots.trans (h : t.SameRoots t') (h' : t'.SameRoots t'') : t.SameRoots t'' :=
  ⟨h'.stack.trans h.stack, h'.roots.trans h.roots, h'.nameless.trans h.nameless⟩

variable [Scalar R]

/-- Inside a section, opening another one gives no new root. -/
theorem enter_sameRoots (h : t.stack ≠ []) (name : Option String) (now : R) :
    t.SameRoots { (t.enter name now) with stack := t.stack } := by
  obtain ⟨⟨parent, start⟩, rest, hstack⟩ := List.exists_cons_of_ne_nil h
  have hpath : (t.pathOf name).isSome = true := by
    rw [pathOf, hstack]
    rfl
  by_cases hmem : t.pathOf name ∈ t.paths
  · rw [enter, register_eq_self hmem]
    exact .refl t
  · obtain ⟨-, hpaths, hroots⟩ := register_new hmem
    refine ⟨rfl, hroots.trans (if_neg h), ?_⟩
    show none ∈ (t.register (t.pathOf name)).paths ↔ _
    rw [hpaths, List.mem_append, List.mem_singleton]
    exact or_iff_left fun hnone => Option.isSome_iff_ne_none.mp hpath hnone.symm

/-- What happens between opening a section and closing it decides about the roots. -/
theorem SameRoots.leave {name : Option String} {now : R}
    (h : (t.enter name now).SameRoots t') (now' : R) :
    ({ (t.enter name now) with stack := t.stack } : Timer R).SameRoots
      ((t'.leave? now').getD t') := by
  have hstack : t'.stack = (t.pathOf name, now) :: t.stack := h.stack.trans (stack_enter t name now)
  rw [leave_eq hstack]
  refine ⟨rfl, h.roots, ?_⟩
  rw [paths_modify]
  · exact h.nameless
  · exact fun _ => rfl

end Timer

/-! ### Activities inside a section -/

variable [Scalar R]

/-- An activity that runs inside a section adds no root, and closes what it opens. -/
def Harness.Inner {α : Type} (x : Harness R α) : Prop :=
  ∀ s : Session R, s.timer.stack ≠ [] → s.timer.SameRoots (x.run.run s).2.timer

namespace Harness

variable {α β : Type}

/-- A step that does not touch the timer. -/
theorem Inner.of_run {x : Harness R α} {result : Except (Failure R) α}
    {change : Session R → Session R} (hrun : ∀ s, x.run.run s = (result, change s))
    (hchange : ∀ s, (change s).timer = s.timer) : x.Inner := by
  intro s _
  rw [hrun, hchange]
  exact .refl _

theorem Inner.bind {x : Harness R α} {f : α → Harness R β} (hx : x.Inner)
    (hf : ∀ a, (f a).Inner) : (x >>= f).Inner := by
  intro s hs
  have hfirst := hx s hs
  rw [run_bind]
  rcases hrun : x.run.run s with ⟨_ | a, t⟩ <;> rw [hrun] at hfirst
  · exact hfirst
  · exact hfirst.trans (hf a t (hfirst.stack ▸ hs))

theorem Inner.tryCatch {body : Harness R α} {handle : Failure R → Harness R α} (hbody : body.Inner)
    (hhandle : ∀ e, (handle e).Inner) : (tryCatch body handle).Inner := by
  intro s hs
  have hfirst := hbody s hs
  rw [run_tryCatch]
  rcases hrun : body.run.run s with ⟨e | _, t⟩ <;> rw [hrun] at hfirst
  · exact hfirst.trans (hhandle e t (hfirst.stack ▸ hs))
  · exact hfirst

theorem Inner.timed {body : Harness R α} (hbody : body.Inner) (clock : ℕ → R)
    (name : Option String) : (timed clock name body).Inner := by
  intro s hs
  have hopened : (s.opened clock name).timer.stack ≠ [] := by
    rw [Session.opened, Timer.stack_enter]
    exact List.cons_ne_nil _ _
  rw [run_timed]
  exact (Timer.enter_sameRoots hs name _).trans ((hbody _ hopened).leave _)

theorem closed_inner : Closed fun {α : Type} (x : Harness R α) => x.Inner where
  pure a := .of_run (fun s => run_pure s a) fun _ => rfl
  enter stage := .of_run (fun s => run_enter s stage) fun _ => rfl
  setCurrent case := .of_run (fun s => run_setCurrent s case) fun _ => rfl
  print text := .of_run (fun s => run_print s text) fun _ => rfl
  ofExcept result := .of_run (fun s => run_ofExcept s result) fun _ => rfl
  act action grids := .of_run (fun s => run_act s action grids) fun _ => rfl
  timed hbody clock name _ := hbody.timed clock name
  bind := Inner.bind

theorem Inner.foldlM {body : β → α → Harness R β} (hbody : ∀ b a, (body b a).Inner)
    (items : List α) (b : β) : (items.foldlM body b).Inner := by
  induction items generalizing b with
  | nil => exact closed_inner.pure b
  | cons a rest ih =>
    rw [List.foldlM_cons]
    exact (hbody b a).bind fun b => ih b

end Harness

/-! ### Sections of candidates -/

/-- No section is open, and a section without path is recorded if and only if it is a root. -/
structure Timer.Settled (t : Timer R) : Prop where
  stack : t.stack = []
  nameless : none ∈ t.roots ↔ none ∈ t.paths

omit [Scalar R] in
theorem Timer.settled_empty : (Timer.empty : Timer R).Settled := ⟨rfl, Iff.rfl⟩

namespace Timer.Settled

variable {t t' : Timer R}

theorem roots_enter (h : t.Settled) (name : Option String) (now : R) :
    (none ∈ (t.enter name now).roots ↔ none ∈ (t.enter name now).paths) ∧
      (none ∈ (t.enter name now).roots ↔ none ∈ t.roots ∨ name = none) := by
  have hpath : t.pathOf name = name := by rw [pathOf, h.stack]
  show (none ∈ (t.register (t.pathOf name)).roots ↔ none ∈ (t.register (t.pathOf name)).paths) ∧
    (none ∈ (t.register (t.pathOf name)).roots ↔ _)
  rw [hpath]
  by_cases hmem : name ∈ t.paths
  · rw [register_eq_self hmem]
    refine ⟨h.nameless, (or_iff_left_of_imp ?_).symm⟩
    rintro rfl
    exact h.nameless.mpr hmem
  · obtain ⟨-, hpaths, hroots⟩ := register_new hmem
    rw [if_pos h.stack] at hroots
    rw [hpaths, hroots, List.mem_append, List.mem_append, List.mem_singleton, h.nameless,
      eq_comm (a := none)]
    exact ⟨Iff.rfl, Iff.rfl⟩

/-- A section that was opened with no other one open, and closed again. -/
theorem leave (h : t.Settled) {name : Option String} {now : R}
    (hinner : (t.enter name now).SameRoots t') (now' : R) :
    ((t'.leave? now').getD t').Settled ∧
      (none ∈ ((t'.leave? now').getD t').roots ↔ none ∈ t.roots ∨ name = none) := by
  obtain ⟨hnameless, hroots⟩ := h.roots_enter name now
  have hleft := hinner.leave now'
  rw [hleft.roots]
  refine ⟨⟨hleft.stack.trans h.stack, ?_⟩, hroots⟩
  rw [hleft.roots, hleft.nameless]
  exact hnameless

end Timer.Settled

section Loop

variable {clock : ℕ → Float} {configuration : Configuration}

theorem inner_settle {body : Harness Float (CaseReport Float)} (hbody : body.Inner)
    (name : Option String) : (settle name body).Inner := by
  rw [settle]
  refine Harness.Inner.tryCatch (hbody.bind fun _ => Harness.closed_inner.pure _) fun e => ?_
  have hprint (text : String) (result : Outcome) :
      (do Harness.print text; return result : Harness Float Outcome).Inner :=
    (Harness.closed_inner.print text).bind fun _ => Harness.closed_inner.pure _
  cases e with
  | unsupported cause => exact hprint _ _
  | misconfigured cause => exact hprint _ _
  | _ => exact Harness.closed_inner.ofExcept (.error _)

theorem inner_attempt (candidate : Candidate Float) (requested : TransformCase Float) :
    (attempt clock configuration candidate requested).Inner := by
  refine (Harness.closed_inner.enter _).bind fun _ =>
    (Harness.closed_inner.setCurrent _).bind fun _ => inner_settle ?_ _
  exact (Harness.closed_inner.verifyWith _ clock _ candidate requested).timed clock _

/-- The section of a candidate is closed, however its cases went, and it is a root. -/
theorem settled_runBackend (cases : List (TransformCase Float)) (report : RunReport)
    (candidate : Candidate Float) {s : Session Float} (hs : s.timer.Settled) :
    let t := ((runBackend clock configuration cases report candidate).run.run s).2.timer
    t.Settled ∧ (none ∈ t.roots ↔ none ∈ s.timer.roots ∨ candidate.name = none) := by
  have hinner := Harness.Inner.foldlM (fun report requested =>
    (@inner_attempt clock configuration candidate requested).bind
      fun outcome => Harness.closed_inner.pure (report.record candidate.name requested outcome))
    cases report
  have hopened : ((s.withPrinted ("Testing " ++ nameText candidate.name)).opened clock
      candidate.name).timer.stack ≠ [] := by
    rw [Session.opened, Timer.stack_enter]
    exact List.cons_ne_nil _ _
  rw [runBackend, Harness.run_bind, Harness.run_print]
  exact hs.leave (hinner _ hopened) _

/-- Once a run is through with some candidates, the sections of those without names are roots. -/
theorem settled_loop {cases : List (TransformCase Float)} {candidates : List (Candidate Float)}
    {report result : RunReport} {s t : Session Float} (hs : s.timer.Settled)
    (h : (candidates.foldlM (runBackend clock configuration cases) report).run.run s
      = (.ok result, t)) :
    t.timer.Settled ∧ (none ∈ t.timer.roots ↔
      none ∈ s.timer.roots ∨ ∃ candidate ∈ candidates, candidate.name = none) := by
  induction candidates generalizing report s with
  | nil =>
    cases h
    exact ⟨hs, by simp⟩
  | cons candidate rest ih =>
    obtain ⟨hsettled, hroots⟩ :=
      @settled_runBackend clock configuration cases report candidate s hs
    rw [List.foldlM_cons, Harness.run_bind] at h
    rcases hrun : (runBackend clock configuration cases report candidate).run.run s
      with ⟨e | report', s'⟩ <;> rw [hrun] at h hsettled hroots
    · cases h
    · obtain ⟨hsettled', hroots'⟩ := ih hsettled h
      refine ⟨hsettled', hroots'.trans ?_⟩
      rw [hroots, List.exists_mem_cons_iff, or_assoc]

end Loop

/-! ### The summary -/

/-- A timer with a root without name has no summary. -/
theorem Timer.Settled.exists_lines_error {t : Timer Float} (h : t.Settled) (hroot : none ∈ t.roots)
    (title : String) (width : ℤ) : ∃ e, TimingTable.lines t title width = .error e := by
  obtain ⟨r, hr, -⟩ := List.mem_map.mp (h.nameless.mp hroot)
  obtain ⟨levels, hlevels⟩ := Nat.exists_eq_add_one.mpr (List.length_pos_of_mem hr)
  have hnameless : t.rowsBelow t.records.length 0 none none = .error .namelessSection := by
    rw [hlevels, rowsBelow]
  obtain ⟨e, he⟩ := exists_mapM_error hroot hnameless
  refine ⟨e, ?_⟩
  have hsome : ¬t.records.isEmpty = true := by
    rw [List.isEmpty_iff]
    exact List.ne_nil_of_mem hr
  rw [TimingTable.lines, if_neg hsome, rows, he]
  rfl

end FourierAudit
