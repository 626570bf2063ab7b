/-
The calls of sections after a run.

A run opens a section for every candidate that it starts, inside of it one for every case that it
takes up, and inside of that one those of the verification. What ends a case or the run passes
through all of them. The calls in the timer say how far everything got:

* `TransformCase.isPlain_label` — labels of cases are plain names;
* `Tally` — stages and sections that belong together, and `tallied_verifyWith`, that those of a
  verification do;
* `visited` — the stages of a pair, and `exists_leaves_verify`, its sections;
* `startedCandidates`, `attemptedPairs` — what a run gets to, and `gains_run`, what it leaves;
* `count_runSections`, `count_runSections_cons` — how often a place comes up in the sections of a
  run;
* `run_calls` — the calls of all these sections.
-/
import FourierAudit.Proofs.ClosedSections
import FourierAudit.Proofs.RunCourse
import FourierAudit.Proofs.Verdict

namespace FourierAudit

open Harness

/-! ### Labels -/

theorem IsPlain.append {name name' : String} (h : IsPlain name) (h' : IsPlain name') :
    IsPlain (name ++ name') := by
  rw [IsPlain, String.toList_append, List.mem_append, not_or]
  exact ⟨h, h'⟩

theorem isPlain_toString (n : ℕ) : IsPlain (toString n) := by
  intro hslash
  rw [Nat.toString_eq_repr, Nat.toList_repr] at hslash
  have hdigit := Nat.isDigit_of_mem_toDigits (by decide) (by decide) hslash
  exact absurd hdigit (by decide)

theorem TransformCase.isPlain_label {R : Type} [Scalar R] (c : TransformCase R) :
    IsPlain c.label := by
  have hkind : IsPlain (c.kind.name ++ " ") := by
    rcases c.kind with _ | _ <;> decide
  have hx : IsPlain "x" := by decide
  exact hkind.append ((((isPlain_toString c.extents.x).append hx).append
    (isPlain_toString c.extents.y)).append hx |>.append (isPlain_toString c.extents.z))

/-! ### The sections of a verification -/

/-- Stages and places of sections that belong together: both transforms are sections of their
own, right inside, and there is one for each time that their stage was entered. -/
def Tally (stages : List Stage) (sections : List (List String)) : Prop :=
  [] ∉ sections ∧ sections.count ["forward"] = stages.count .runForward ∧
    sections.count ["inverse"] = stages.count .runInverse

instance (stages : List Stage) (sections : List (List String)) :
    Decidable (Tally stages sections) :=
  inferInstanceAs (Decidable (_ ∧ _ ∧ _))

theorem Tally.append {stages stages' : List Stage} {sections sections' : List (List String)}
    (h : Tally stages sections) (h' : Tally stages' sections') :
    Tally (stages ++ stages') (sections ++ sections') := by
  refine ⟨fun hmem => (List.mem_append.mp hmem).elim h.1 h'.1, ?_, ?_⟩
  · rw [List.count_append, List.count_append, h.2.1, h'.2.1]
  · rw [List.count_append, List.count_append, h.2.2, h'.2.2]

section Verification

variable {R : Type} [Scalar R] {α β : Type}

/-- An activity that leaves stages and sections that belong together. -/
def Harness.Tallied (x : Harness R α) : Prop :=
  ∃ result stages sections, Harness.Leaves x result stages sections ∧ Tally stages sections

namespace Harness

theorem Leaves.tallied {x : Harness R α} {result : Except (Failure R) α} {stages : List Stage}
    {sections : List (List String)} (h : Leaves x result stages sections)
    (htally : Tally stages sections) : Tallied x :=
  ⟨result, stages, sections, h, htally⟩

theorem Tallied.bind {x : Harness R α} {f : α → Harness R β} (hx : Tallied x)
    (hf : ∀ a, Tallied (f a)) : Tallied (x >>= f) := by
  obtain ⟨result, stages, sections, hleaves, htally⟩ := hx
  cases result with
  | error e => exact hleaves.bind_error.tallied htally
  | ok a =>
    obtain ⟨result, stages', sections', hleaves', htally'⟩ := hf a
    exact (hleaves.bind_ok hleaves').tallied (htally.append htally')

/-- A step within a stage. -/
theorem Leaves.bind_tallied {x : Harness R α} {f : α → Harness R β}
    {result : Except (Failure R) α} (hx : Leaves x result [] []) (hf : ∀ a, Tallied (f a)) :
    Tallied (x >>= f) :=
  (hx.tallied (by decide)).bind hf

/-- A stage, and a section that belongs to it. -/
theorem tallied_section {body : Harness R α} {result : Except (Failure R) α}
    (hbody : Leaves body result [] []) (clock : ℕ → R) {stage : Stage} {name : String}
    (hname : IsPlain name) (htally : Tally [stage] [[name]]) {f : α → Harness R β}
    (hf : ∀ a, Tallied (f a)) :
    Tallied (enter stage >>= fun _ => timed clock (some name) body >>= f) := by
  have hassoc : (enter stage >>= fun _ => timed clock (some name) body >>= f) =
      (enter stage >>= fun _ => timed clock (some name) body) >>= f := (bind_assoc _ _ _).symm
  rw [hassoc]
  exact (((leaves_enter stage).bind_ok (hbody.timed clock hname)).tallied htally).bind hf

theorem tallied_requirePassed (c : TransformCase R) (check : Check) (result : Comparison R) :
    Tallied (requirePassed c check result) := by
  rw [requirePassed]
  split
  · exact (leaves_pure ()).tallied (by decide)
  · exact ((leaves_enter .failed).tallied (by decide)).bind fun _ =>
      (leaves_ofExcept (.error _)).tallied (by decide)

end Harness

theorem tallied_verifyWith (draw : TransformCase R → Except (Failure R) (Thunk (Volume R)))
    (clock : ℕ → R) (ceiling : ℤ) (candidate : Candidate R) (requested : TransformCase R) :
    Tallied (verifyWith draw clock ceiling candidate requested) := by
  have hstimulus : IsPlain "stimulus" := by decide
  have hforward : IsPlain "forward" := by decide
  have hreference : IsPlain "reference" := by decide
  have hinverse : IsPlain "inverse" := by decide
  have hcompare {c : TransformCase R} {check : Check} {result : Except (Failure R) (Comparison R)}
      {f : Comparison R → Unit → Harness R (CaseReport R)} (hf : ∀ a b, Tallied (f a b)) :
      Tallied (timed clock (some "compare") (Harness.ofExcept result) >>= fun a =>
        requirePassed c check a >>= f a) :=
    (((leaves_ofExcept result).timed clock (by decide)).tallied (by decide)).bind fun a =>
      (tallied_requirePassed c check a).bind (hf a)
  rw [verifyWith]
  -- all sections but those of the comparisons come right behind a stage of their own
  refine ((leaves_enter _).tallied (by decide)).bind fun _ => ?_
  refine (leaves_ofExcept _).bind_tallied fun c => ?_
  refine (leaves_setCurrent _).bind_tallied fun _ => (leaves_print _).bind_tallied fun _ => ?_
  refine tallied_section (leaves_ofExcept _) clock hstimulus (by decide) fun stimulus => ?_
  refine (leaves_ofExcept _).bind_tallied fun grids => (leaves_act _ _).bind_tallied fun grids => ?_
  refine tallied_section (leaves_act _ _) clock hforward (by decide) fun grids => ?_
  refine tallied_section (leaves_ofExcept _) clock hreference (by decide) fun expected => ?_
  refine hcompare fun forward _ => ?_
  refine tallied_section (leaves_act _ _) clock hinverse (by decide) fun grids => ?_
  refine ((leaves_enter _).tallied (by decide)).bind fun _ => hcompare fun roundTrip _ => ?_
  exact ((leaves_enter _).tallied (by decide)).bind fun _ => (leaves_pure _).tallied (by decide)

end Verification

section Pairs

variable (clock : ℕ → Float) (configuration : Configuration)

/-- The stages that the verification of a pair goes through. -/
def visited (pair : CasePair) : List Stage :=
  ((verify clock configuration pair.1 pair.2).run.run Session.start).2.stages

/-- A verification leaves the same stages in every session, and sections that belong to them. -/
theorem exists_leaves_verify (pair : CasePair) : ∃ sections,
    (verify clock configuration pair.1 pair.2).Leaves (verdict clock configuration pair)
      (visited clock configuration pair) sections ∧
      Tally (visited clock configuration pair) sections := by
  have htallied : Tallied (verify clock configuration pair.1 pair.2) :=
    tallied_verifyWith _ clock configuration.ceiling pair.1 pair.2
  obtain ⟨result, stages, sections, hleaves, htally⟩ := htallied
  have hresult : verdict clock configuration pair = result := hleaves.result_eq Session.start
  have hstages : visited clock configuration pair = stages :=
    (hleaves.gains Session.start).stages_eq
  rw [hresult, hstages]
  exact ⟨sections, hleaves, htally⟩

/-- A verification enters no stage twice. -/
theorem nodup_visited (pair : CasePair) : (visited clock configuration pair).Nodup := by
  obtain ⟨sections, hleaves, -⟩ := exists_leaves_verify clock configuration pair
  set taken : Session Float := (Session.start.entered .selectCase).withCurrent (some pair.2)
  have hend : CaseEnd [] ((verify clock configuration pair.1 pair.2).run.run taken) :=
    caseEnd_verify clock configuration pair.1 pair.2 rfl rfl
  have hstages : ((verify clock configuration pair.1 pair.2).run.run taken).2.stages =
      .selectCase :: visited clock configuration pair := (hleaves.gains taken).stages_eq
  suffices hnodup : ((verify clock configuration pair.1 pair.2).run.run taken).2.stages.Nodup by
    rw [hstages] at hnodup
    exact hnodup.tail
  generalize (verify clock configuration pair.1 pair.2).run.run taken = out at hend
  cases hend with
  | passed h => exact h ▸ (by decide : caseStages.Nodup)
  | @failed check c result s block hblock _ h _ =>
    have hunmarked : .failed ∉ block := fun hmem =>
      absurd (hblock.2.subset hmem) (by decide : .failed ∉ caseStages)
    rw [h, List.nil_append, ← List.concat_eq_append]
    exact hblock.nodup.concat hunmarked
  | interrupted hblock _ h => exact h ▸ hblock.nodup

/-! ### What a run leaves -/

/-- Whether a pair ends the run. -/
def isFatal (pair : CasePair) : Bool := !(outcome clock configuration pair).isOk

/-- The pairs that a run takes up, the one that ends it included. -/
def attemptedPairs (candidates : List (Candidate Float)) (cases : List (TransformCase Float)) :
    List CasePair :=
  throughFirst (isFatal clock configuration) (candidates ×ˢ cases)

/-- The candidates that a run starts with, the one that it ends with included. -/
def startedCandidates (candidates : List (Candidate Float)) (cases : List (TransformCase Float)) :
    List (Candidate Float) :=
  throughFirst (fun candidate => (cases.map (Prod.mk candidate)).any (isFatal clock configuration))
    candidates

/-- The pairs of a candidate that a run takes up once it has started with that one. -/
def candidatePairs (cases : List (TransformCase Float)) (candidate : Candidate Float) :
    List CasePair :=
  throughFirst (isFatal clock configuration) (cases.map (Prod.mk candidate))

theorem attemptedPairs_eq (candidates : List (Candidate Float))
    (cases : List (TransformCase Float)) :
    attemptedPairs clock configuration candidates cases =
      (startedCandidates clock configuration candidates cases).flatMap
        (candidatePairs clock configuration cases) :=
  throughFirst_flatMap _ candidates

/-- The places of the sections of a candidate, from those of the verifications. -/
def candidateSections (sectionsOf : CasePair → List (List String))
    (cases : List (TransformCase Float)) (candidate : Candidate Float) : List (List String) :=
  Timer.within (candidate.name.getD "") <|
    (candidatePairs clock configuration cases candidate).flatMap fun pair =>
      Timer.within pair.2.label (sectionsOf pair)

end Pairs

section Run

variable {clock : ℕ → Float} {configuration : Configuration}

/-- Settling an outcome changes neither the stages nor the sections. -/
theorem leaves_settle {body : Harness Float (CaseReport Float)}
    {result : Except (Failure Float) (CaseReport Float)} {stages : List Stage}
    {sections : List (List String)} (h : Leaves body result stages sections)
    (name : Option String) : Leaves (settle name body) (settled result) stages sections := by
  refine ⟨fun s => ?_, fun s => ?_⟩ <;> obtain ⟨texts, hrun⟩ := exists_run_settle name body s
  · rw [hrun]
    exact congrArg settled (h.result_eq s)
  · rw [hrun]
    exact ⟨(h.gains s).stages_eq, (h.gains s).exists_events⟩

/-- What a pair adds to a run. -/
theorem leaves_attempt {pair : CasePair} {sections : List (List String)}
    (h : Leaves (verify clock configuration pair.1 pair.2) (verdict clock configuration pair)
      (visited clock configuration pair) sections) :
    Leaves (attempt clock configuration pair.1 pair.2) (outcome clock configuration pair)
      (.selectCase :: visited clock configuration pair)
      (Timer.within pair.2.label sections) := by
  rw [attempt]
  exact (leaves_enter .selectCase).bind_ok <| (leaves_setCurrent _).bind_ok <|
    leaves_settle (h.timed clock pair.2.isPlain_label) _

variable {sectionsOf : CasePair → List (List String)}
  (hverify : ∀ pair, Leaves (verify clock configuration pair.1 pair.2)
    (verdict clock configuration pair) (visited clock configuration pair) (sectionsOf pair))

include hverify in
/-- What a candidate adds to a run. -/
theorem exists_leaves_runBackend {candidate : Candidate Float}
    (hname : ∃ name, candidate.name = some name ∧ IsPlain name)
    (cases : List (TransformCase Float)) (report : RunReport) :
    ∃ result, Leaves (runBackend clock configuration cases report candidate) result
      ((candidatePairs clock configuration cases candidate).flatMap fun pair =>
        .selectCase :: visited clock configuration pair)
      (candidateSections clock configuration sectionsOf cases candidate) ∧
      result.isOk = !(cases.map (Prod.mk candidate)).any (isFatal clock configuration) := by
  have hround : ∀ pair ∈ cases.map (Prod.mk candidate), ∀ report : RunReport, ∃ result,
      Leaves (do
        let outcome ← attempt clock configuration pair.1 pair.2
        return report.record pair.1.name pair.2 outcome) result
        (.selectCase :: visited clock configuration pair)
        (Timer.within pair.2.label (sectionsOf pair)) ∧
        result.isOk = !isFatal clock configuration pair := by
    intro pair _ report
    have hattempt := leaves_attempt (hverify pair)
    rw [isFatal, Bool.not_not]
    rcases houtcome : outcome clock configuration pair with e | outcome <;>
      rw [houtcome] at hattempt
    · exact ⟨.error e, hattempt.bind_error, rfl⟩
    · have hrecorded := hattempt.bind_ok (f := fun outcome => pure _)
        (leaves_pure (report.record pair.1.name pair.2 outcome))
      rw [List.append_nil, List.append_nil] at hrecorded
      exact ⟨_, hrecorded, rfl⟩
  obtain ⟨result, hloop, hok⟩ := leaves_foldlM hround report
  refine ⟨result, ?_, hok⟩
  obtain ⟨name, hname, hplain⟩ := hname
  rw [List.foldlM_map] at hloop
  have htimed := hloop.timed clock hplain
  rw [candidateSections, hname]
  rw [← hname] at htimed
  exact (leaves_print _).bind_ok htimed

include hverify in
/-- What a run leaves, whether it returns or not. -/
theorem gains_run {candidates : List (Candidate Float)}
    (hnames : ∀ candidate ∈ candidates, ∃ name, candidate.name = some name ∧ IsPlain name)
    (cases : List (TransformCase Float)) (s : Session Float) :
    s.Gains ((run clock configuration candidates cases).run.run s).2
      ((attemptedPairs clock configuration candidates cases).flatMap
        (fun pair => .selectCase :: visited clock configuration pair) ++
          if (candidates ×ˢ cases).any (isFatal clock configuration) then [] else [.done])
      ((startedCandidates clock configuration candidates cases).flatMap
        (candidateSections clock configuration sectionsOf cases)) := by
  obtain ⟨result, hloop, hok⟩ := leaves_foldlM (fun candidate hcandidate report =>
    exists_leaves_runBackend hverify (hnames candidate hcandidate) cases report) RunReport.empty
  have hgains := hloop.gains s
  have hresult := hloop.result_eq s
  have hany : (candidates ×ˢ cases).any (isFatal clock configuration) = !result.isOk := by
    rw [hok, Bool.not_not]
    exact List.any_flatMap
  rw [← List.flatMap_assoc, ← startedCandidates, ← attemptedPairs_eq] at hgains
  rw [run, run_bind, hany]
  rcases hrun : (candidates.foldlM (runBackend clock configuration cases)
    RunReport.empty).run.run s with ⟨e | report, t⟩ <;> rw [hrun] at hgains hresult <;>
    rw [← hresult]
  · exact (List.append_nil _).symm ▸ hgains
  · -- the summary is printed, or it fails; it adds nothing to the timer
    rw [← List.append_nil (List.flatMap (candidateSections _ _ _ _) _)]
    refine hgains.trans ?_
    simp only [run_bind, run_enter, run_setCurrent]
    split
    · rw [run_bind, run_printSummary]
      rcases ((t.entered .done).withCurrent none).summary with e | lines
      · exact .of_timer_eq rfl rfl
      · exact .of_timer_eq rfl rfl
    · exact .of_timer_eq rfl rfl

/-! ### Counting the sections -/

theorem filter_attemptedPairs (candidates : List (Candidate Float))
    (cases : List (TransformCase Float)) (name : String) :
    (attemptedPairs clock configuration candidates cases).filter (·.1.name = some name) =
      ((startedCandidates clock configuration candidates cases).filter
        (·.name = some name)).flatMap (candidatePairs clock configuration cases) := by
  rw [attemptedPairs_eq]
  induction startedCandidates clock configuration candidates cases with
  | nil => rfl
  | cons candidate rest ih =>
    have hown : ∀ pair ∈ candidatePairs clock configuration cases candidate,
        pair.1.name = candidate.name := by
      intro pair hpair
      obtain ⟨requested, -, rfl⟩ := List.mem_map.mp (mem_of_mem_throughFirst hpair)
      rfl
    rw [List.flatMap_cons, List.filter_append, ih, List.filter_cons]
    by_cases hname : candidate.name = some name
    · rw [if_pos (decide_eq_true hname), List.flatMap_cons, List.filter_eq_self.mpr]
      exact fun pair hpair => decide_eq_true ((hown pair hpair).trans hname)
    · rw [if_neg (by simpa using hname), List.filter_eq_nil_iff.mpr, List.nil_append]
      intro pair hpair hname'
      exact hname ((hown pair hpair).symm.trans (of_decide_eq_true hname'))

/-- A section of a verification that comes up as often as a stage does. -/
theorem count_flatMap_sectionsOf {names : List String} {stage : Stage}
    (h : ∀ pair, (sectionsOf pair).count names = (visited clock configuration pair).count stage)
    (pairs : List CasePair) : (pairs.flatMap sectionsOf).count names =
      pairs.countP fun pair => stage ∈ visited clock configuration pair := by
  induction pairs with
  | nil => rfl
  | cons pair rest ih =>
    rw [List.flatMap_cons, List.count_append, ih, h, (nodup_visited _ _ pair).count,
      List.countP_cons, add_comm]
    simp only [decide_eq_true_eq]

section Counts

variable {candidates : List (Candidate Float)} {cases : List (TransformCase Float)}
  (hnames : ∀ candidate ∈ candidates, ∃ name, candidate.name = some name ∧ IsPlain name)

include hnames

/-- A place comes up in the sections of a run as often as it does in those of the candidates with
its first name. -/
theorem count_runSections (name : String) (rest : List String) :
    ((startedCandidates clock configuration candidates cases).flatMap
      (candidateSections clock configuration sectionsOf cases)).count (name :: rest) =
      (((attemptedPairs clock configuration candidates cases).filter
        (·.1.name = some name)).flatMap fun pair =>
          Timer.within pair.2.label (sectionsOf pair)).count rest +
        if rest = [] then (startedCandidates clock configuration candidates cases).countP
          (·.name = some name) else 0 := by
  have hname : ∀ candidate ∈ startedCandidates clock configuration candidates cases,
      decide (candidate.name.getD "" = name) = decide (candidate.name = some name) := by
    intro candidate hcandidate
    obtain ⟨own, hown, -⟩ := hnames candidate (mem_of_mem_throughFirst hcandidate)
    rw [hown]
    exact decide_eq_decide.mpr Option.some_inj.symm
  have hcount := Timer.count_flatMap_within
    (startedCandidates clock configuration candidates cases) (·.name.getD "")
    (fun candidate => (candidatePairs clock configuration cases candidate).flatMap fun pair =>
      Timer.within pair.2.label (sectionsOf pair)) name rest
  rw [List.filter_congr hname, ← List.flatMap_assoc, ← filter_attemptedPairs,
    List.countP_congr fun candidate hcandidate => by rw [hname candidate hcandidate]] at hcount
  exact hcount

/-- A place with two names or more comes up as often as it does in the sections of the pairs with
these names. -/
theorem count_runSections_cons (name label : String) (rest : List String) :
    ((startedCandidates clock configuration candidates cases).flatMap
      (candidateSections clock configuration sectionsOf cases)).count (name :: label :: rest) =
      (((attemptedPairs clock configuration candidates cases).filter fun pair =>
        pair.1.name = some name ∧ pair.2.label = label).flatMap sectionsOf).count rest +
        if rest = [] then ((attemptedPairs clock configuration candidates cases).filter fun pair =>
          pair.1.name = some name ∧ pair.2.label = label).length else 0 := by
  have hpairs : ((attemptedPairs clock configuration candidates cases).filter
      (·.1.name = some name)).filter (·.2.label = label) =
      (attemptedPairs clock configuration candidates cases).filter fun pair =>
        pair.1.name = some name ∧ pair.2.label = label := by
    rw [List.filter_filter]
    refine List.filter_congr fun pair _ => ?_
    rw [Bool.decide_and, Bool.and_comm]
  rw [count_runSections hnames, if_neg (List.cons_ne_nil _ _), add_zero,
    Timer.count_flatMap_within, List.countP_eq_length_filter, hpairs]

/-- The first name of every place is that of a candidate that was started. -/
theorem exists_started {names : List String}
    (h : names ∈ (startedCandidates clock configuration candidates cases).flatMap
      (candidateSections clock configuration sectionsOf cases)) :
    ∃ candidate ∈ startedCandidates clock configuration candidates cases, ∃ own rest,
      candidate.name = some own ∧ IsPlain own ∧ names = own :: rest := by
  obtain ⟨candidate, hcandidate, hmem⟩ := List.mem_flatMap.mp h
  obtain ⟨rest, hrest⟩ := Timer.mem_within hmem
  obtain ⟨own, hown, hplain⟩ := hnames candidate (mem_of_mem_throughFirst hcandidate)
  rw [hown] at hrest
  exact ⟨candidate, hcandidate, own, rest, hown, hplain, hrest⟩

end Counts

/-- **The calls of a run.** Whatever the candidates do, once a run with a new timer has returned or
failed, no section is open. The section of a name was closed as often as candidates of the name were
started, that of a case inside of it as often as cases with that label were taken up on candidates
of the name, and those of the transforms inside of that one as often as these cases got to the stage
of the transform; what was not entered has no record. A name of a candidate that comes only behind
one whose case ended the run has no record, and nothing is recorded below it. -/
theorem run_calls {candidates : List (Candidate Float)} {cases : List (TransformCase Float)}
    {s : Session Float}
    (hnames : ∀ candidate ∈ candidates, ∃ name, candidate.name = some name ∧ IsPlain name)
    (hs : s.timer = .empty) :
    let t := ((run clock configuration candidates cases).run.run s).2
    let started := startedCandidates clock configuration candidates cases
    let attempted := attemptedPairs clock configuration candidates cases
    t.timer.stack = [] ∧
    t.stages = s.stages ++ (attempted.flatMap
      (fun pair => .selectCase :: visited clock configuration pair) ++
        if (candidates ×ˢ cases).any (isFatal clock configuration) then [] else [.done]) ∧
    (∀ name, IsPlain name →
      t.timer.calls? (.ofNames [name]) =
        Timer.recordedCalls (started.countP (·.name = some name)) ∧
      ∀ requested : TransformCase Float,
        let pairs := attempted.filter fun pair =>
          pair.1.name = some name ∧ pair.2.label = requested.label
        let reached (stage : Stage) :=
          pairs.countP fun pair => stage ∈ visited clock configuration pair
        t.timer.calls? (.ofNames [name, requested.label]) =
          Timer.recordedCalls pairs.length ∧
        t.timer.calls? (.ofNames [name, requested.label, "forward"]) =
          Timer.recordedCalls (reached .runForward) ∧
        t.timer.calls? (.ofNames [name, requested.label, "inverse"]) =
          Timer.recordedCalls (reached .runInverse)) ∧
    ∀ before candidate later, candidates = before ++ candidate :: later →
      (∃ requested ∈ cases, isFatal clock configuration (candidate, requested) = true) →
      ∀ name, IsPlain name → (∀ earlier ∈ before ++ [candidate], earlier.name ≠ some name) →
        ∀ path ∈ t.timer.paths, ¬path.BeginsWith name := by
  intro t started attempted
  choose sectionsOf hverify htally using exists_leaves_verify clock configuration
  have hgains := gains_run hverify hnames cases s
  obtain ⟨hstack, hpaths⟩ := hgains.mem_paths hs
  refine ⟨hstack, hgains.stages_eq, fun name hname => ⟨?_, fun requested => ?_⟩, ?_⟩
  · rw [hgains.calls?_ofNames hs (List.cons_ne_nil _ _) (by simpa using hname),
      count_runSections hnames,
      List.count_eq_zero_of_not_mem (Timer.nil_not_mem_flatMap_within _ _ _), if_pos rfl, zero_add]
  · intro pairs reached
    have hlabel : IsPlain requested.label := requested.isPlain_label
    -- the sections of both transforms come up as often as their stages were entered
    have hreached {last : String} {stage : Stage} (hlast : IsPlain last)
        (hcount : ∀ pair, (sectionsOf pair).count [last] =
          (visited clock configuration pair).count stage) :
        t.timer.calls? (.ofNames [name, requested.label, last]) =
          Timer.recordedCalls (reached stage) := by
      have hplain : ∀ other ∈ [name, requested.label, last], IsPlain other := by
        simpa using ⟨hname, hlabel, hlast⟩
      rw [hgains.calls?_ofNames hs (List.cons_ne_nil _ _) hplain, count_runSections_cons hnames,
        if_neg (List.cons_ne_nil _ _), add_zero, count_flatMap_sectionsOf hcount]
    refine ⟨?_, hreached (by decide) fun pair => (htally pair).2.1,
      hreached (by decide) fun pair => (htally pair).2.2⟩
    have hplain : ∀ other ∈ [name, requested.label], IsPlain other := by
      simpa using ⟨hname, hlabel⟩
    have hnil : [] ∉ pairs.flatMap sectionsOf := fun hmem =>
      (List.mem_flatMap.mp hmem).elim fun pair h => (htally pair).1 h.2
    rw [hgains.calls?_ofNames hs (List.cons_ne_nil _ _) hplain, count_runSections_cons hnames,
      List.count_eq_zero_of_not_mem hnil, if_pos rfl, zero_add]
  · rintro before candidate later hsplit ⟨requested, hrequested, hfatal⟩ name hname hnew path hpath
      hbegins
    -- the path begins with the name of a candidate that was started, so not of a later one
    obtain ⟨names, hmem, rfl⟩ := hpaths path hpath
    obtain ⟨opened, hopened, own, rest, hown, hplain, rfl⟩ := exists_started hnames hmem
    have hsame : own = name :=
      (SectionPath.beginsWith_ofNames own rest).unique hbegins hplain hname
    have hends : (cases.map (Prod.mk candidate)).any (isFatal clock configuration) = true :=
      List.any_eq_true.mpr ⟨_, List.mem_map_of_mem hrequested, hfatal⟩
    have hearlier : opened ∈ before ++ [candidate] :=
      mem_before_of_mem_throughFirst hends (hsplit ▸ hopened)
    exact hnew opened hearlier (hsame ▸ hown)

end Run

/-- A run that ends with the second of three candidates, in the forward transform of its first
case. -/
theorem run_calls_brokenCandidate :
    let candidates := [refusingCandidate, brokenCandidate, lateCandidate]
    let t := ((run (fun _ => 0) {} candidates [pairCase, pairCase]).run.run Session.start).2
    (∀ candidate ∈ candidates, ∃ name, candidate.name = some name ∧ IsPlain name) ∧
      t.timer.stack = [] ∧
      t.timer.calls? (.ofNames ["Refusing"]) = some 1 ∧
      t.timer.calls? (.ofNames ["Refusing", pairCase.label]) = some 2 ∧
      t.timer.calls? (.ofNames ["Broken", pairCase.label, "forward"]) = some 1 ∧
      t.timer.calls? (.ofNames ["Broken", pairCase.label, "inverse"]) = none ∧
      ∀ path ∈ t.timer.paths, ¬path.BeginsWith "Late" := by
  intro candidates t
  have hnames : ∀ candidate ∈ candidates, ∃ name, candidate.name = some name ∧ IsPlain name := by
    simp only [candidates, List.forall_mem_cons]
    exact ⟨⟨"Refusing", rfl, by decide⟩, ⟨"Broken", rfl, by decide⟩, ⟨"Late", rfl, by decide⟩,
      nofun⟩
  have hstarted : startedCandidates (fun _ => 0) {} candidates [pairCase, pairCase] =
      [refusingCandidate, brokenCandidate] := rfl
  have hattempted : attemptedPairs (fun _ => 0) {} candidates [pairCase, pairCase] =
      [(refusingCandidate, pairCase), (refusingCandidate, pairCase), (brokenCandidate, pairCase)] :=
    rfl
  obtain ⟨hstack, -, hcalls, hlate⟩ := @run_calls (fun _ => 0) {} candidates [pairCase, pairCase]
    Session.start hnames rfl
  obtain ⟨hrefusing, hcases⟩ := hcalls "Refusing" (by decide)
  obtain ⟨-, hforward, hinverse⟩ := (hcalls "Broken" (by decide)).2 pairCase
  have hlabelled := (hcases pairCase).1
  rw [hstarted] at hrefusing
  rw [hattempted] at hlabelled hforward hinverse
  have hfatal : ∃ requested ∈ [pairCase, pairCase],
      isFatal (fun _ => 0) {} (brokenCandidate, requested) = true :=
    ⟨pairCase, List.mem_cons_self, rfl⟩
  have hearlier : ∀ earlier ∈ [refusingCandidate] ++ [brokenCandidate],
      earlier.name ≠ some "Late" := by
    simp only [List.singleton_append, List.forall_mem_cons]
    exact ⟨by decide, by decide, nofun⟩
  refine ⟨hnames, ?_⟩
  -- written out, the session is the same text on both sides, and the run need not be computed
  simp only [t]
  exact ⟨hstack, hrefusing, hlabelled, hforward, hinverse, hlate [refusingCandidate]
    brokenCandidate [lateCandidate] rfl hfatal "Late" (by decide) hearlier⟩

end FourierAudit
