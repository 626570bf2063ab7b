/-
The exit code and the last line.

The answer to arguments that can be read is that of their run: first the backends and the cases are
looked up, then the run prints what it prints, and one or more lines about its end follow:

* `CommandLine.Plan`, `CommandLine.plan` — what the arguments ask for, if it can be looked up;
* `CommandLine.Clears` — a case that passes on a backend, or is skipped;
* `CommandLine.Succeeds` — everything that was asked for can be looked up, and every case clears;
* `CommandLine.Environment.Ready` — surroundings in which backends have names and cases can be made,
  as the backends that the program detects and the standard cases do;
* `CommandLine.answer_truthful` — the exit code is 0, and the last line says so, if and only if the
  arguments succeed.

Design notes: no failure can leave the answer, which is a value for all arguments.
-/
import FourierAudit.Main
import FourierAudit.Proofs.CaseSizes
import FourierAudit.Proofs.RunResults

namespace FourierAudit.CommandLine

/-! ### What the arguments ask for -/

/-- A run: its configuration, and the candidates and cases that it goes through. -/
structure Plan where
  configuration : Configuration
  candidates : List (Candidate Float)
  cases : List (TransformCase Float)

def plan (environment : Environment) (a : Arguments) : Except (Failure Float) Plan := do
  let configuration ← configuration a
  let backends ← selectBackends environment.registry configuration.backends
  let cases ← environment.cases configuration.precision
  return ⟨configuration, backends.map (·.candidate environment.accelerator), cases⟩

theorem run_perform (environment : Environment) (a : Arguments) (s : Session Float) :
    (perform environment a).run.run s = match plan environment a with
      | .error e => (.error e, s)
      | .ok p => (run environment.clock p.configuration p.candidates p.cases).run.run s := by
  rw [perform, plan, Harness.run_bind, Harness.run_ofExcept]
  rcases configuration a with e | configuration
  · rfl
  rw [ok_bind]
  dsimp only
  rw [Harness.run_bind, Harness.run_ofExcept]
  rcases selectBackends environment.registry configuration.backends with e | backends
  · rfl
  rw [ok_bind]
  dsimp only
  rw [Harness.run_bind, Harness.run_ofExcept]
  rcases environment.cases configuration.precision with e | cases
  · rfl
  · rfl

/-- The backend of an identifier. -/
def lookUp (registry : Registry Float) : Option String → Except (Failure Float) (Backend Float)
  | some identifier => (registry.find identifier).mapError .unknownBackend
  | none => .error .missingIdentifier

theorem lookUp_eq_ok {registry : Registry Float} {identifier : Option String}
    {b : Backend Float} : lookUp registry identifier = .ok b ↔
      ∃ name, identifier = some name ∧ registry.find name = .ok b := by
  cases identifier with
  | none => simp [lookUp]
  | some name =>
    rcases hfind : registry.find name with e | b <;> simp [lookUp, hfind, Except.mapError]

/-- The backends can be looked up if each identifier names one. -/
theorem exists_selectBackends_iff {registry : Registry Float}
    {identifiers : List (Option String)} :
    (∃ backends, selectBackends registry identifiers = .ok backends) ↔
      ∀ identifier ∈ identifiers, ∃ b, lookUp registry identifier = .ok b := by
  rw [selectBackends]
  split
  · rename_i hempty
    rw [List.isEmpty_iff.mp hempty]
    exact ⟨fun _ => nofun, fun _ => ⟨_, rfl⟩⟩
  · show (∃ backends, identifiers.mapM (lookUp registry) = .ok backends) ↔ _
    constructor
    · rintro ⟨backends, hbackends⟩ identifier hidentifier
      rcases hlookUp : lookUp registry identifier with e | b
      · obtain ⟨e', he'⟩ := exists_mapM_error hidentifier hlookUp
        cases he'.symm.trans hbackends
      · exact ⟨b, rfl⟩
    · exact exists_mapM_ok

theorem plan_eq_ok {environment : Environment} {a : Arguments} {p : Plan} :
    plan environment a = .ok p ↔ ∃ precision backends cases,
      Precision.parse? a.precision = some precision ∧
      selectBackends environment.registry a.backends = .ok backends ∧
      environment.cases precision = .ok cases ∧
      p = {
        configuration := {
          precision, backends := a.backends, seed := a.seed, timings := a.timings }
        candidates := backends.map (·.candidate environment.accelerator)
        cases } := by
  rw [plan, configuration, Precision.parse]
  rcases Precision.parse? a.precision with _ | precision
  · simp [Except.mapError, error_bind]
  simp only [Except.mapError, ok_bind, Option.some.injEq, pure_bind]
  constructor
  · intro h
    obtain ⟨backends, hbackends, h⟩ := exists_of_bind_eq_ok h
    obtain ⟨cases, hcases, h⟩ := exists_of_bind_eq_ok h
    cases h
    exact ⟨precision, backends, cases, rfl, hbackends, hcases, rfl⟩
  · rintro ⟨_, backends, cases, rfl, hbackends, hcases, rfl⟩
    rw [hbackends, ok_bind, hcases, ok_bind]
    rfl

theorem timings_of_plan {environment : Environment} {a : Arguments} {p : Plan}
    (h : plan environment a = .ok p) : p.configuration.timings = a.timings := by
  obtain ⟨precision, backends, cases, -, -, -, rfl⟩ := plan_eq_ok.mp h
  rfl

/-! ### Success -/

/-- A case passes on a backend, or is skipped. -/
def Clears (clock : ℕ → Float) (configuration : Configuration) (pair : CasePair) : Prop :=
  (∃ report, FourierAudit.verdict clock configuration pair = .ok report) ∨
    ∃ cause, FourierAudit.verdict clock configuration pair = .error (.unsupported cause)

theorem clears_iff {clock : ℕ → Float} {configuration : Configuration} {pair : CasePair} :
    Clears clock configuration pair ↔
      (∃ result, outcome clock configuration pair = .ok result) ∧
        errorRemark? clock configuration pair = none := by
  rw [Clears, errorRemark?, outcome]
  rcases FourierAudit.verdict clock configuration pair with e | report
  · cases e <;> simp [settled]
  · simp [settled]

/-- Everything that was asked for can be looked up, and every case passes or is skipped on every
backend. -/
def Succeeds (environment : Environment) (a : Arguments) : Prop :=
  ∃ p, plan environment a = .ok p ∧
    ∀ pair ∈ p.candidates ×ˢ p.cases, Clears environment.clock p.configuration pair

/-! ### The surroundings -/

/-- All backends have names, and the cases can be made in either precision. What the program
detects, with the standard cases, is so (`Environment.Ready.of_detect`). -/
structure Environment.Ready (environment : Environment) : Prop where
  named : ∀ entry ∈ environment.registry.entries, entry.backend.name.isSome = true
  exists_cases : ∀ precision, ∃ cases, environment.cases precision = .ok cases

theorem mem_entries_of_find {registry : Registry Float} {name : String} {b : Backend Float}
    (h : registry.find name = .ok b) : ∃ entry ∈ registry.entries, entry.backend = b := by
  rw [Registry.find] at h
  split at h
  · cases h
  · split at h
    · rename_i entry hentry
      cases h
      exact ⟨entry, List.mem_of_find?_eq_some hentry, rfl⟩
    · cases h

/-- Only backends of the registry are looked up. -/
theorem mem_entries_of_selectBackends {registry : Registry Float}
    {identifiers : List (Option String)} {backends : List (Backend Float)}
    (h : selectBackends registry identifiers = .ok backends) :
    ∀ b ∈ backends, ∃ entry ∈ registry.entries, entry.backend = b := by
  rw [selectBackends] at h
  split at h
  · cases h
    intro b hb
    exact List.mem_map.mp hb
  · intro b hb
    have h : identifiers.mapM (lookUp registry) = .ok backends := h
    obtain ⟨identifier, -, hlookUp⟩ := exists_of_mem_mapM h hb
    obtain ⟨name, -, hfind⟩ := lookUp_eq_ok.mp hlookUp
    exact mem_entries_of_find hfind

namespace Environment.Ready

variable {environment : Environment} (h : environment.Ready) {a : Arguments}

include h

/-- A run is planned if the precision is known and each identifier names a backend. -/
theorem exists_plan_iff :
    (∃ p, plan environment a = .ok p) ↔
      (∃ precision, Precision.parse? a.precision = some precision) ∧
        ∀ identifier ∈ a.backends, ∃ name b, identifier = some name ∧
          environment.registry.find name = .ok b := by
  have hbackends : (∃ backends, selectBackends environment.registry a.backends = .ok backends) ↔
      ∀ identifier ∈ a.backends, ∃ name b, identifier = some name ∧
        environment.registry.find name = .ok b := by
    simp only [exists_selectBackends_iff, lookUp_eq_ok, exists_comm (α := String)]
  simp only [plan_eq_ok, ← hbackends]
  constructor
  · rintro ⟨-, precision, backends, -, hprecision, hbackends, -⟩
    exact ⟨⟨precision, hprecision⟩, backends, hbackends⟩
  · rintro ⟨⟨precision, hprecision⟩, backends, hbackends⟩
    obtain ⟨cases, hcases⟩ := h.exists_cases precision
    exact ⟨_, precision, backends, cases, hprecision, hbackends, hcases, rfl⟩

theorem isSome_name {p : Plan} (hp : plan environment a = .ok p) :
    ∀ candidate ∈ p.candidates, candidate.name.isSome = true := by
  obtain ⟨precision, backends, cases, -, hbackends, -, rfl⟩ := plan_eq_ok.mp hp
  intro candidate hcandidate
  obtain ⟨b, hb, rfl⟩ := List.mem_map.mp hcandidate
  obtain ⟨entry, hentry, rfl⟩ := mem_entries_of_selectBackends hbackends b hb
  exact h.named entry hentry

/-- Arguments succeed if their run completes, and no case of it could not be set up. -/
theorem succeeds_iff : Succeeds environment a ↔ ∃ p, plan environment a = .ok p ∧
    Completes environment.clock p.configuration p.candidates p.cases ∧
    (p.candidates ×ˢ p.cases).filterMap (errorRemark? environment.clock p.configuration) = [] := by
  refine exists_congr fun p => and_congr_right fun hp => ?_
  simp only [clears_iff, List.filterMap_eq_nil_iff]
  constructor
  · intro hclears
    exact ⟨⟨fun pair hpair => (hclears pair hpair).1, fun _ => h.isSome_name hp⟩,
      fun pair hpair => (hclears pair hpair).2⟩
  · rintro ⟨⟨houtcomes, -⟩, herrors⟩
    exact fun pair hpair => ⟨houtcomes pair hpair, herrors pair hpair⟩

end Environment.Ready

/-- The backends that the program detects have names. -/
theorem isSome_name_of_detect (accelerator : Option Accelerator) :
    ∀ entry ∈ (Registry.detect accelerator : Registry Float).entries,
      entry.backend.name.isSome = true := by
  unfold Registry.detect
  split
  · simp [Registry.hostEntry, hostBackend]
  · split
    · split <;> simp [Registry.hostEntry, Registry.deviceEntry, hostBackend, deviceBackend]
    · simp [Registry.hostEntry, hostBackend]

/-- A backend with a name can be registered. -/
theorem isSome_name_of_register {registry : Registry Float} {entry : RegistryEntry Float}
    (hentries : ∀ other ∈ registry.entries, other.backend.name.isSome = true)
    (hentry : entry.backend.name.isSome = true) :
    ∀ other ∈ (registry.register entry).entries, other.backend.name.isSome = true := by
  rw [Registry.register]
  split
  · rw [List.forall_mem_map]
    intro other hother
    split
    · exact hentry
    · exact hentries other hother
  · rw [List.forall_mem_append, List.forall_mem_singleton]
    exact ⟨hentries, hentry⟩

/-- There is a standard case for every line of the matrix, in either precision. -/
theorem exists_standardCases (precision : Precision) : ∃ cases : List (TransformCase Float),
    standardCases precision = .ok cases ∧
      List.Forall₂ (fun line c => c.kind = line.1 ∧ c.extents = line.2.1 ∧
        c.precision = precision) standardMatrix cases := by
  have hpos : ∀ line ∈ standardMatrix, 0 < line.2.1.x ∧ 0 < line.2.1.y ∧ 0 < line.2.1.z := by
    decide
  have hscale : ∀ line ∈ standardMatrix,
      Scalar.lt Scalar.zero (Scalar.ofInt line.2.2 : Float) = true := by
    decide
  have hcase : ∀ line ∈ standardMatrix, ∃ c : TransformCase Float,
      standardCase precision line = .ok c ∧ c.kind = line.1 ∧ c.extents = line.2.1 ∧
        c.precision = precision := by
    intro line hline
    cases precision with
    | single => exact ⟨_, make_whole (hpos line hline) _ _ (hscale line hline), rfl, rfl, rfl⟩
    | double => exact ⟨_, make_whole (hpos line hline) _ _ zero_lt_one_float, rfl, rfl, rfl⟩
  obtain ⟨cases, hcases⟩ := exists_mapM_ok fun line hline =>
    (hcase line hline).imp fun _ h => h.1
  refine ⟨cases, hcases, ?_⟩
  refine (List.forall₂_and_left _ _ |>.mpr ⟨hcase, mapM_eq_ok_iff.mp hcases⟩).imp ?_
  rintro line c ⟨⟨c', hc', hline⟩, hc⟩
  cases hc'.symm.trans hc
  exact hline

/-- The surroundings of the program, with any device. -/
theorem Environment.Ready.of_detect {environment : Environment}
    (hregistry : environment.registry = .detect environment.accelerator)
    (hcases : environment.cases = standardCases) : environment.Ready where
  named := hregistry ▸ isSome_name_of_detect environment.accelerator
  exists_cases precision := by
    obtain ⟨cases, h, -⟩ := exists_standardCases precision
    exact ⟨cases, hcases ▸ h⟩

/-! ### The answer -/

/-- The answer to arguments that can be read and ask for a run. -/
def answer (environment : Environment) (a : Arguments) : Response :=
  let (outcome, session) := (perform environment a).run.run .start
  let (exitCode, lines) := verdict outcome
  ⟨exitCode, session.printed ++ lines, []⟩

theorem respond_eq_answer {environment : Environment} {arguments : List String} {a : Arguments}
    (h : Arguments.interpret arguments = .ok (.run a)) :
    respond environment arguments = answer environment a := by
  rw [respond, h]
  rfl

section Answer

variable {environment : Environment} {a : Arguments} {p : Plan}

theorem answer_of_error {e : Failure Float}
    (h : ((perform environment a).run.run Session.start).1 = .error e) :
    answer environment a = ⟨1, ((perform environment a).run.run Session.start).2.printed ++
      ["exception: " ++ e.message], []⟩ := by
  rw [answer]
  rcases hrun : (perform environment a).run.run Session.start with ⟨result, t⟩
  rw [hrun] at h
  subst h
  rfl

theorem answer_of_report {report : RunReport}
    (h : ((perform environment a).run.run Session.start).1 = .ok report) :
    answer environment a = ⟨if report.errors = [] then 0 else 1,
      ((perform environment a).run.run Session.start).2.printed ++
        if report.errors = [] then ["Done"] else report.errors.map errorLine, []⟩ := by
  rw [answer]
  rcases hrun : (perform environment a).run.run Session.start with ⟨result, t⟩
  rw [hrun] at h
  subst h
  rcases herrors : report.errors with _ | ⟨first, rest⟩ <;>
    simp [verdict, RunReport.succeeded, herrors]

end Answer

/-- No line about a failure is that of success. -/
theorem ne_done {text : String} (h : text.toList.head? = some 'e') : text ≠ "Done" := by
  rintro rfl
  exact absurd h (by decide)

theorem errorLine_ne_done (remark : Remark (Misconfiguration Float)) :
    errorLine remark ≠ "Done" := by
  apply ne_done
  simp [errorLine, String.toList_append]

section Truthful

variable {environment : Environment} (h : environment.Ready) {a : Arguments}

include h

/-- Arguments that succeed, with the timing summary before the last line. -/
theorem Environment.Ready.answer_of_succeeds (hsucceeds : Succeeds environment a) :
    let final := (perform environment a).run.run Session.start
    answer environment a = ⟨0, final.2.printed ++ ["Done"], []⟩ ∧
      (a.timings = true →
        ∃ earlier lines, final.2.printed = earlier ++ lines ∧ final.2.summary = .ok lines) := by
  intro final
  have hfinal : final = (perform environment a).run.run Session.start := rfl
  obtain ⟨p, hp, hcompletes, herrors⟩ := h.succeeds_iff.mp hsucceeds
  obtain ⟨t, hrun, hsummary⟩ := run_of_completes hcompletes
  rw [run_perform, hp] at hfinal
  have hreport := congrArg Prod.fst (hfinal.trans hrun)
  have hsession : final.2 = t := congrArg Prod.snd (hfinal.trans hrun)
  refine ⟨?_, ?_⟩
  · rw [answer_of_report hreport, if_pos herrors, if_pos herrors]
  · rw [hsession, ← timings_of_plan hp]
    exact hsummary

/-- Arguments that do not succeed, with what is reported about them. -/
theorem Environment.Ready.answer_of_fails (hfails : ¬Succeeds environment a) :
    let final := (perform environment a).run.run Session.start
    ∃ reports, answer environment a = ⟨1, final.2.printed ++ reports, []⟩ ∧ "Done" ∉ reports ∧
      ((∃ e, final.1 = .error e ∧ reports = ["exception: " ++ e.message]) ∨
        ∃ p report, plan environment a = .ok p ∧ final.1 = .ok report ∧
          report.errors = (p.candidates ×ˢ p.cases).filterMap
            (errorRemark? environment.clock p.configuration) ∧
          report.errors ≠ [] ∧ reports = report.errors.map errorLine) := by
  intro final
  have hfinal : final = (perform environment a).run.run Session.start := rfl
  rcases hresult : final.1 with e | report
  · have hline : "exception: " ++ e.message ≠ "Done" := ne_done (by simp [String.toList_append])
    refine ⟨_, answer_of_error hresult, ?_, .inl ⟨e, rfl, rfl⟩⟩
    rw [List.mem_singleton]
    exact hline.symm
  · -- a run that returned completed, so one of its cases could not be set up
    rw [run_perform] at hfinal
    rcases hp : plan environment a with e | p <;> rw [hp] at hfinal
    · rw [hfinal] at hresult
      cases hresult
    · have hcompletes := completes_of_run ((congrArg Prod.fst hfinal).symm.trans hresult)
      obtain ⟨t, hrun, -⟩ := run_of_completes hcompletes
      have hreport := hresult.symm.trans (congrArg Prod.fst (hfinal.trans hrun))
      cases hreport
      have hne : (p.candidates ×ˢ p.cases).filterMap
          (errorRemark? environment.clock p.configuration) ≠ [] := fun herrors =>
        hfails (h.succeeds_iff.mpr ⟨p, hp, hcompletes, herrors⟩)
      refine ⟨_, ?_, ?_, .inr ⟨p, _, rfl, rfl, rfl, hne, rfl⟩⟩
      · rw [answer_of_report hresult, if_neg hne, if_neg hne]
      · rw [List.mem_map]
        rintro ⟨remark, -, hremark⟩
        exact errorLine_ne_done remark hremark

end Truthful

/-- A case in a precision that a backend does not offer is skipped, once it has its stimulus. -/
theorem clears_of_not_mem_precisions {clock : ℕ → Float} {configuration : Configuration} {seed : ℤ}
    {b : Backend Float} {accelerator : Option Accelerator} {requested c : TransformCase Float}
    (hseed : configuration.seed = some seed) (hword : 0 ≤ seed ∧ seed < 2 ^ 32)
    (hc : b.normalise requested configuration.ceiling = .ok c)
    (hvolume : 16 * c.extents.volume < 2 ^ 63) (hprecision : c.precision ∉ b.precisions) :
    Clears clock configuration (b.candidate accelerator, requested) := by
  have hpoints : c.points = c.extents.volume := points_eq (by omega)
  obtain ⟨-, stimulus, hstimulus, -⟩ :=
    (prepare_natural (R := Float) hword.1 hword.2 (volume_pos c) c.precision).resolve_right
      fun h => by omega
  rw [← hpoints] at hstimulus
  have hopened : b.openGrids accelerator c
      = .error (.unsupported (.precision (nameText b.name) c.precision)) := by
    rw [Backend.openGrids, Backend.checkSupported_of_precision hprecision]
    rfl
  refine .inr ⟨_, @run_verifyWith_of_openGrids_error _ _ _ _ _ _ _ stimulus _ hc ?_ hopened clock
    Session.start⟩
  simp only [hseed]
  exact hstimulus

/-- A backend that offers no precision. -/
def vacantBackend : Backend Float :=
  { (abstractBackend : Backend Float) with name := some "Vacant", precisions := [] }

/-- Host memory, with this backend and the standard cases. -/
def vacantEnvironment : Environment where
  registry := (Registry.detect none).register ⟨"vacant", vacantBackend, "host"⟩
  accelerator := none
  clock _ := 0
  cases := standardCases

/-- All standard cases are skipped on this backend. -/
theorem succeeds_vacant : Succeeds vacantEnvironment
    { backends := [some "vacant"], timings := true } := by
  obtain ⟨cases, hcases, hlines⟩ := exists_standardCases .single
  have hsmall : ∀ line ∈ standardMatrix,
      (∀ n ∈ line.2.1.toList, (n : ℤ) ≤ 65536) ∧ 16 * line.2.1.volume < 2 ^ 63 := by
    decide
  refine ⟨_, plan_eq_ok.mpr ⟨.single, [vacantBackend], cases, by decide +kernel, rfl, hcases, rfl⟩,
    ?_⟩
  rintro ⟨candidate, c⟩ hpair
  obtain ⟨hcandidate, hc⟩ := List.mem_product.mp hpair
  cases List.mem_singleton.mp hcandidate
  obtain ⟨line, hline, -, hextents, -⟩ := exists_of_forall₂ hlines hc
  obtain ⟨hceiling, hvolume⟩ := hsmall line hline
  rw [← hextents] at hceiling hvolume
  have hlegal : ∀ n ∈ c.dims, vacantBackend.legal n = .ok true := by
    intro n hn
    have hpos := dims_pos c n hn
    show isSmooth none (n : ℤ) = .ok true
    rw [isSmooth, if_neg (by omega)]
  exact clears_of_not_mem_precisions rfl (by decide)
    (Backend.normalise_of_legal hlegal hceiling) hvolume List.not_mem_nil

end FourierAudit.CommandLine
