/-
The stages of a run.

The stages that a run goes through fall into blocks, one for each pair that it takes up. A block
has the stages of a case in their order, as far as the case went. Two stages come on top, each as
the last one of a run:

* a failed comparison is marked, right after the stage of that comparison;
* a run that returns is marked as done, and leaves no case at hand.

`run_stages` says this of every run, whatever the candidates do.
-/
import FourierAudit.Proofs.RunReports

namespace FourierAudit

variable {clock : ℕ → Float} {configuration : Configuration}

theorem passedReport?_eq (pair : CasePair) :
    passedReport? clock configuration pair = (verdict clock configuration pair).toOption := by
  rw [passedReport?, outcome]
  rcases verdict clock configuration pair with e | report
  · cases e <;> rfl
  · rfl

theorem forall₂_entries (entries : List (Entry clock configuration)) :
    List.Forall₂ (FitsPair clock configuration) (entries.map Entry.pair)
      (entries.map Entry.stages) := by
  rw [List.forall₂_map_left_iff, List.forall₂_map_right_iff, List.forall₂_same]
  exact fun entry _ => entry.fits

/-- The same with the block of the pair that ended the run. -/
theorem forall₂_entries_concat (entries : List (Entry clock configuration)) {pair : CasePair}
    {block : List Stage} (h : FitsPair clock configuration pair block) (later : List CasePair) :
    List.Forall₂ (FitsPair clock configuration)
      ((entries.map Entry.pair ++ pair :: later).take (entries.map Entry.stages ++ [block]).length)
      (entries.map Entry.stages ++ [block]) := by
  have hlength : (entries.map Entry.pair ++ [pair]).length
      = (entries.map Entry.stages ++ [block]).length := by
    rw [List.length_append, List.length_append, List.length_map, List.length_map]
    rfl
  rw [List.append_cons (entries.map Entry.pair), List.take_left' hlength]
  exact List.rel_append (forall₂_entries entries) (.cons h .nil)

/-- The reports that a run lists are those of the pairs whose blocks end with the last stage. -/
theorem filterMap_entries (entries : List (Entry clock configuration)) :
    (entries.map Entry.pair).filterMap (passedReport? clock configuration)
      = ((entries.map Entry.pair).zip (entries.map Entry.stages)).filterMap fun attempt =>
          if attempt.2.getLast? = some .passed then (verdict clock configuration attempt.1).toOption
          else none := by
  rw [List.zip_map', List.filterMap_map, List.filterMap_map]
  refine List.filterMap_congr fun entry _ => ?_
  simp only [Function.comp_apply, passedReport?_eq]
  split
  · rfl
  · rename_i hlast
    rw [entry.fits.passed_iff] at hlast
    rcases hverdict : verdict clock configuration entry.pair with e | report
    · rfl
    · exact absurd ⟨report, hverdict⟩ hlast

/-- **The stages of a run.** Whatever the candidates do, the stages of a run are one block after
another, for the pairs as far as the run took them up, and each block has the stages of a case as
far as that case went. A run that returns took up all pairs; it is then done, with no case at hand,
and its report has the pairs whose blocks end with the last stage of a case. A comparison that
failed is marked right after its stage, and the run ends with it, at that case. Any other failure
ends the run within a block. -/
theorem run_stages {candidates : List (Candidate Float)} {cases : List (TransformCase Float)}
    {s : Session Float} (hnames : ∀ candidate ∈ candidates, candidate.name.isSome = true)
    (hs : s.timer.Named) :
    let pairs := candidates ×ˢ cases
    let out := (run clock configuration candidates cases).run.run s
    ∃ blocks : List (List Stage),
      List.Forall₂ (FitsPair clock configuration) (pairs.take blocks.length) blocks ∧
      ((∃ report, out.1 = .ok report ∧ blocks.length = pairs.length ∧
          out.2.stages = s.stages ++ blocks.flatten ++ [.done] ∧ out.2.current = none ∧
          report.passed = (pairs.zip blocks).filterMap fun attempt =>
            if attempt.2.getLast? = some .passed then
              (verdict clock configuration attempt.1).toOption
            else none) ∨
        (∃ check c result, out.1 = .error (.mismatch check c result) ∧
          out.2.stages = s.stages ++ blocks.flatten ++ [.failed] ∧
          blocks.flatten.getLast? = some check.stage ∧ out.2.current = some c) ∨
        ∃ e, out.1 = .error e ∧ out.2.stages = s.stages ++ blocks.flatten) := by
  intro pairs out
  have hend : RunEnd clock configuration s.stages pairs out := runEnd_run hnames cases hs
  generalize out = out at hend
  cases hend with
  | @returned entries t hpairs hstages hcurrent =>
    have hlength : (entries.map Entry.stages).length = pairs.length := by
      rw [← hpairs, List.length_map, List.length_map]
    refine ⟨entries.map Entry.stages, ?_, .inl ⟨_, rfl, hlength, ?_, hcurrent, ?_⟩⟩
    · rw [hlength, List.take_length, ← hpairs]
      exact forall₂_entries entries
    · rw [hstages, List.flatMap_def]
    · rw [RunReport.recordAll_eq, ← hpairs]
      exact filterMap_entries entries
  | @stopped e t h =>
    obtain ⟨entries, pair, later, hpairs, houtcome, hend⟩ := h
    -- the last block is that of the pair that failed, so it does not end with the last stage
    have hverdict := error_of_settled houtcome
    rw [← hpairs]
    cases hend with
    | @failed check c result _ block hblock hlast hstages hcurrent =>
      have hunpassed : block.getLast? ≠ some .passed := by
        rw [hlast]
        cases check <;> decide
      refine ⟨_, forall₂_entries_concat entries (.of_error hblock hunpassed hverdict) later,
        .inr (.inl ⟨check, c, result, rfl, ?_, ?_, hcurrent⟩)⟩
      · rw [hstages, List.flatten_concat, List.flatMap_def, List.append_assoc s.stages]
      · rw [List.flatten_concat, List.getLast?_append, hlast, Option.some_or]
    | @interrupted _ _ block hblock hpassed hstages =>
      have hunpassed : block.getLast? ≠ some .passed := fun h => hpassed (List.mem_of_getLast? h)
      refine ⟨_, forall₂_entries_concat entries (.of_error hblock hunpassed hverdict) later,
        .inr (.inr ⟨e, rfl, ?_⟩)⟩
      rw [hstages, List.flatten_concat, List.flatMap_def, List.append_assoc]

/-- There are as many blocks as verifications. -/
theorem length_eq_count {pairs : List CasePair} {blocks : List (List Stage)}
    (hblocks : List.Forall₂ (FitsPair clock configuration) pairs blocks) {stages mark : List Stage}
    (hstages : stages = blocks.flatten ++ mark) (hmark : .normaliseShape ∉ mark) :
    blocks.length = stages.count .normaliseShape := by
  have hattempts : ∀ block ∈ blocks, IsAttempt block := by
    intro block hblock
    obtain ⟨pair, -, hfits⟩ := exists_of_forall₂ hblocks hblock
    exact hfits.isAttempt
  rw [hstages, List.count_append, count_normaliseShape_flatten hattempts,
    List.count_eq_zero_of_not_mem hmark, Nat.add_zero]

/-- A run that ends within the first case of the second of three candidates, after one block for
each case of the first. A run of two candidates has two blocks and is done, or the second block
ends it. -/
theorem run_stages_brokenCandidate :
    let first := (run (fun _ => 0) {} [refusingCandidate, brokenCandidate, lateCandidate]
      [pairCase, pairCase]).run.run Session.start
    let second := (run (fun _ => 0) {} [refusingCandidate, zeroCandidate] [pairCase]).run.run
      Session.start
    (∃ blocks, List.Forall₂ (FitsPair (fun _ => 0) {})
        [(refusingCandidate, pairCase), (refusingCandidate, pairCase), (brokenCandidate, pairCase)]
        blocks ∧ first.1 = .error .notImplemented ∧ first.2.stages = blocks.flatten) ∧
      ∃ refused block, FitsPair (fun _ => 0) {} (refusingCandidate, pairCase) refused ∧
        FitsPair (fun _ => 0) {} (zeroCandidate, pairCase) block ∧
        ((∃ report, second.1 = .ok report ∧ block.getLast? = some .passed ∧
            second.2.stages = [refused, block].flatten ++ [.done]) ∨
          ∃ e, second.1 = .error e ∧ (second.2.stages = [refused, block].flatten ++ [.failed] ∨
            second.2.stages = [refused, block].flatten)) := by
  have hnames : ∀ candidate ∈ [refusingCandidate, zeroCandidate],
      candidate.name.isSome = true := by simp [refusingCandidate, zeroCandidate]
  have hpairs : [refusingCandidate, zeroCandidate] ×ˢ [pairCase] =
      [(refusingCandidate, pairCase)] ++ (zeroCandidate, pairCase) :: [] := rfl
  have hrefused : ∃ result, outcome (fun _ => 0) {} (refusingCandidate, pairCase) = .ok result :=
    ⟨_, outcome_refusingCandidate⟩
  obtain ⟨blocks₁, hblocks₁, hend₁⟩ := @run_stages (fun _ => 0) {}
    [refusingCandidate, brokenCandidate, lateCandidate] [pairCase, pairCase] Session.start
    isSome_name_brokenCandidate Timer.Named.empty
  obtain ⟨blocks₂, hblocks₂, hend₂⟩ := @run_stages (fun _ => 0) {}
    [refusingCandidate, zeroCandidate] [pairCase] Session.start hnames Timer.Named.empty
  have hstart : (Session.start : Session Float).stages = [] := rfl
  rw [hstart, List.nil_append] at hend₁ hend₂
  constructor
  · obtain ⟨hbroken, hcount⟩ := run_of_first_failure isSome_name_brokenCandidate
      (s := Session.start) Timer.Named.empty pairs_brokenCandidate exists_outcome_refusingCandidate
      outcome_brokenCandidate
    rcases hend₁ with ⟨report, hreturned, -⟩ | ⟨check, c, result, hfailed, -⟩ | ⟨e, -, hstages⟩
    · cases hbroken.symm.trans hreturned
    · cases hbroken.symm.trans hfailed
    · have hlength := length_eq_count hblocks₁ (hstages.trans (List.append_nil _).symm) (by decide)
      rw [hlength, hcount] at hblocks₁
      exact ⟨blocks₁, hblocks₁, hbroken, hstages⟩
  · have hsplit (hlength : blocks₂.length = 2) : ∃ refused block, blocks₂ = [refused, block] ∧
        FitsPair (fun _ => 0) {} (refusingCandidate, pairCase) refused ∧
        FitsPair (fun _ => 0) {} (zeroCandidate, pairCase) block := by
      obtain ⟨refused, block, rfl⟩ := List.length_eq_two.mp hlength
      obtain ⟨hfits, hrest⟩ := List.forall₂_cons.mp hblocks₂
      exact ⟨refused, block, rfl, hfits, (List.forall₂_cons.mp hrest).1⟩
    rcases verify_zeroCandidate with ⟨report, hpasses⟩ | ⟨check, comparison, hfails⟩
    · have houtcomes : ∀ pair ∈ [refusingCandidate, zeroCandidate] ×ˢ [pairCase],
          ∃ result, outcome (fun _ => 0) {} pair = .ok result :=
        List.forall_mem_cons.mpr
          ⟨hrefused, List.forall_mem_singleton.mpr ⟨_, congrArg settled hpasses⟩⟩
      have hreturned := run_of_outcomes hnames (s := Session.start) Timer.Named.empty houtcomes
      rcases hend₂ with ⟨lists, hlists, hlength, hstages, -⟩ | ⟨check, c, result, hfailed, -⟩ |
        ⟨e, hfailed, -⟩
      · obtain ⟨refused, block, rfl, hfits, hzero⟩ := hsplit hlength
        exact ⟨refused, block, hfits, hzero,
          .inl ⟨lists, hlists, hzero.passed_iff.mpr ⟨report, hpasses⟩, hstages⟩⟩
      · cases hreturned.symm.trans hfailed
      · cases hreturned.symm.trans hfailed
    · obtain ⟨hstopped, hcount⟩ := run_of_first_failure hnames (s := Session.start)
        Timer.Named.empty hpairs (List.forall_mem_singleton.mpr hrefused)
        (congrArg settled hfails)
      rcases hend₂ with ⟨lists, hlists, -⟩ | ⟨check, c, result, hfailed, hstages, -⟩ |
        ⟨e, hfailed, hstages⟩
      · cases hstopped.symm.trans hlists
      · have hlength := length_eq_count hblocks₂ hstages (by decide)
        obtain ⟨refused, block, rfl, hfits, hzero⟩ := hsplit (hlength.trans hcount)
        exact ⟨refused, block, hfits, hzero, .inr ⟨_, hfailed, .inl hstages⟩⟩
      · have hlength := length_eq_count hblocks₂ (hstages.trans (List.append_nil _).symm)
          (by decide)
        obtain ⟨refused, block, rfl, hfits, hzero⟩ := hsplit (hlength.trans hcount)
        exact ⟨refused, block, hfits, hzero, .inr ⟨_, hfailed, .inr hstages⟩⟩

end FourierAudit
