/-
The records of a timer as sections are opened and closed.

* `Timer.paths` — the paths of all records;
* `Timer.register_eq_self`, `Timer.register_new` — opening a section again, and for the first time;
* `Timer.leave_eq` — closing the innermost section;
* `Timer.field?_register`, `Timer.field?_leave` — what both do to a field of the records, by path;
* `Timer.after` — a timer after any sequence of both, which may end with sections still open.
-/
import FourierAudit.Proofs.FailingSteps
import FourierAudit.Timer

namespace FourierAudit

variable {R : Type}

@[simp] theorem SectionPath.text_some (name : String) : SectionPath.text (some name) = name := rfl

/-- The record with another child. -/
def TimerRecord.withChild (r : TimerRecord R) (path : SectionPath) : TimerRecord R :=
  { r with children := r.children ++ [path] }

namespace Timer

/-- The paths of all recorded sections. -/
def paths (t : Timer R) : List SectionPath := t.records.map (·.path)

section Records

variable (t : Timer R)

theorem paths_modify (path : SectionPath) {change : TimerRecord R → TimerRecord R}
    (hchange : ∀ r, (change r).path = r.path) : (t.modify path change).paths = t.paths := by
  simp only [paths, modify, List.map_map]
  refine List.map_congr_left fun r _ => ?_
  rw [Function.comp_apply]
  split
  · exact hchange r
  · rfl

/-- A change that keeps the children of every record. -/
theorem children_modify (path : SectionPath) {change : TimerRecord R → TimerRecord R}
    (hchange : ∀ r, (change r).children = r.children) :
    (t.modify path change).records.flatMap (·.children) = t.records.flatMap (·.children) := by
  rw [modify, List.flatMap_map]
  refine List.flatMap_congr fun r _ => ?_
  split
  · exact hchange r
  · rfl

theorem record?_eq_some {t : Timer R} {path : SectionPath} {r : TimerRecord R}
    (h : t.record? path = some r) : r ∈ t.records ∧ r.path = path := by
  rw [record?] at h
  have hpath := List.find?_some h
  exact ⟨List.mem_of_find?_eq_some h, eq_of_beq hpath⟩

theorem record?_isSome_iff {path : SectionPath} :
    (t.record? path).isSome = true ↔ path ∈ t.paths := by
  rw [record?, List.find?_isSome, paths, List.mem_map]
  exact exists_congr fun r => and_congr_right' beq_iff_eq

theorem record?_eq_none {t : Timer R} {path : SectionPath} (h : path ∉ t.paths) :
    t.record? path = none :=
  Option.not_isSome_iff_eq_none.mp (t.record?_isSome_iff.not.mpr h)

/-- Where no path comes twice, a record is the one for its path. -/
theorem record?_of_mem {t : Timer R} (hnodup : t.paths.Nodup) {r : TimerRecord R}
    (h : r ∈ t.records) : t.record? r.path = some r := by
  obtain ⟨found, hfound⟩ := Option.isSome_iff_exists.mp
    (t.record?_isSome_iff.mpr (List.mem_map_of_mem h))
  obtain ⟨hmem, hpath⟩ := record?_eq_some hfound
  rw [hfound, List.inj_on_of_nodup_map hnodup hmem h hpath]

/-- A field of the record for a path. -/
def field? {α : Type} (t : Timer R) (field : TimerRecord R → α) (path : SectionPath) : Option α :=
  (t.record? path).map field

theorem field?_of_mem {α : Type} {t : Timer R} (hnodup : t.paths.Nodup) {r : TimerRecord R}
    (h : r ∈ t.records) (field : TimerRecord R → α) : t.field? field r.path = some (field r) := by
  rw [field?, record?_of_mem hnodup h]
  rfl

theorem field?_eq_none {α : Type} {t : Timer R} {path : SectionPath} (h : path ∉ t.paths)
    (field : TimerRecord R → α) : t.field? field path = none := by
  rw [field?, record?_eq_none h]
  rfl

theorem field?_isSome_iff {α : Type} {t : Timer R} {path : SectionPath}
    (field : TimerRecord R → α) : (t.field? field path).isSome = true ↔ path ∈ t.paths := by
  rw [field?, Option.isSome_map, t.record?_isSome_iff]

theorem record?_modify (path : SectionPath) {change : TimerRecord R → TimerRecord R}
    (hchange : ∀ r, (change r).path = r.path) (p : SectionPath) :
    (t.modify path change).record? p =
      (t.record? p).map fun r => if p = path then change r else r := by
  have hsame : ((fun r : TimerRecord R => r.path == p) ∘
      fun r => if r.path == path then change r else r) = fun r => r.path == p := by
    funext r
    rw [Function.comp_apply]
    split
    · rw [hchange]
    · rfl
  rw [record?, modify, List.find?_map, hsame]
  show (t.record? p).map _ = _
  rcases hfound : t.record? p with _ | r
  · rfl
  · simp only [Option.map_some, (record?_eq_some hfound).2, beq_iff_eq]

/-- A field that a change alters in its own way. -/
theorem field?_modify {α : Type} (field : TimerRecord R → α) (path : SectionPath)
    (change : TimerRecord R → TimerRecord R) (alter : α → α)
    (hchange : ∀ r, (change r).path = r.path) (hfield : ∀ r, field (change r) = alter (field r))
    (p : SectionPath) : (t.modify path change).field? field p =
      (t.field? field p).map fun a => if p = path then alter a else a := by
  rw [field?, t.record?_modify path hchange, field?, Option.map_map, Option.map_map]
  refine congrArg (Option.map · _) (funext fun r => ?_)
  simp only [Function.comp_apply]
  split
  · exact hfield r
  · rfl

end Records

variable [Scalar R] {t : Timer R}

theorem register_eq_self {path : SectionPath} (h : path ∈ t.paths) : t.register path = t := by
  obtain ⟨found, hfound⟩ := Option.isSome_iff_exists.mp (t.record?_isSome_iff.mpr h)
  rw [register, hfound]

/-- The timer with another record. -/
def withRecord (t : Timer R) (path : SectionPath) : Timer R :=
  { t with records := t.records ++ [⟨path, Scalar.zero, 0, []⟩] }

/-- A new section is recorded as a root if no other one is open. -/
theorem register_root {path : SectionPath} (h : path ∉ t.paths) (hstack : t.stack = []) :
    t.register path = { t.withRecord path with roots := t.roots ++ [path] } := by
  simp only [register, record?_eq_none h, hstack, withRecord]

/-- A new section is recorded as a child of the innermost open one, if there is one. -/
theorem register_child {path parent : SectionPath} {start : R} {rest : List (SectionPath × R)}
    (h : path ∉ t.paths) (hstack : t.stack = (parent, start) :: rest) :
    t.register path = (t.withRecord path).modify parent (·.withChild path) := by
  simp only [register, record?_eq_none h, hstack, withRecord]
  rfl

theorem register_new {path : SectionPath} (h : path ∉ t.paths) :
    (t.register path).stack = t.stack ∧ (t.register path).paths = t.paths ++ [path] ∧
      (t.register path).roots = if t.stack = [] then t.roots ++ [path] else t.roots := by
  rcases hstack : t.stack with _ | ⟨⟨parent, start⟩, rest⟩
  · rw [register_root h hstack]
    exact ⟨hstack, List.map_append, rfl⟩
  · rw [register_child h hstack, paths_modify]
    · exact ⟨hstack, List.map_append, rfl⟩
    · exact fun _ => rfl

theorem mem_paths_register (t : Timer R) (path p : SectionPath) :
    p ∈ (t.register path).paths ↔ p ∈ t.paths ∨ p = path := by
  by_cases hmem : path ∈ t.paths
  · rw [register_eq_self hmem]
    refine (or_iff_left_of_imp ?_).symm
    rintro rfl
    exact hmem
  · rw [(register_new hmem).2.1, List.mem_append, List.mem_singleton]

theorem field?_withRecord {α : Type} (field : TimerRecord R → α) {path : SectionPath}
    (hnew : path ∉ t.paths) (p : SectionPath) : (t.withRecord path).field? field p =
      if p = path then some (field ⟨path, Scalar.zero, 0, []⟩) else t.field? field p := by
  rw [field?, record?, withRecord, List.find?_append, ← record?, List.find?_singleton]
  split_ifs with hp hsame hsame
  · rw [hsame, record?_eq_none hnew]
    rfl
  · exact absurd (eq_of_beq hp).symm hsame
  · exact absurd (beq_iff_eq.mpr hsame.symm) hp
  · rw [Option.or_none, field?]

/-- A new section has a record of its own; no other one changes but in its children. -/
theorem field?_register {α : Type} {field : TimerRecord R → α}
    (hfield : ∀ r child, field (r.withChild child) = field r) (t : Timer R)
    (path p : SectionPath) : (t.register path).field? field p =
      if p = path ∧ path ∉ t.paths then some (field ⟨path, Scalar.zero, 0, []⟩)
      else t.field? field p := by
  by_cases hmem : path ∈ t.paths
  · rw [register_eq_self hmem, if_neg fun h => h.2 hmem]
  · simp only [hmem, not_false_eq_true, and_true]
    rw [← field?_withRecord field hmem]
    rcases hstack : t.stack with _ | ⟨⟨parent, start⟩, rest⟩
    · rw [register_root hmem hstack]
      rfl
    · rw [register_child hmem hstack, (t.withRecord path).field?_modify field parent
        (·.withChild path) id (fun _ => rfl) fun r => hfield r path]
      simp only [id_eq, ite_self, Option.map_id']

theorem stack_enter (t : Timer R) (name : Option String) (now : R) :
    (t.enter name now).stack = (t.pathOf name, now) :: t.stack := by
  rw [enter]
  by_cases hmem : t.pathOf name ∈ t.paths
  · rw [register_eq_self hmem]
  · rw [(register_new hmem).1]

/-- The innermost open section closed. -/
theorem leave_eq {path : SectionPath} {start : R} {rest : List (SectionPath × R)}
    (h : t.stack = (path, start) :: rest) (now : R) :
    (t.leave? now).getD t = ({ t with stack := rest } : Timer R).modify path fun r =>
      { r with total := r.total + (now - start), calls := r.calls + 1 } := by
  rw [leave?, h]
  rfl

theorem stack_leave {path : SectionPath} {start : R} {rest : List (SectionPath × R)}
    (h : t.stack = (path, start) :: rest) (now : R) : ((t.leave? now).getD t).stack = rest := by
  rw [leave_eq h]
  rfl

theorem paths_leave (t : Timer R) (now : R) : ((t.leave? now).getD t).paths = t.paths := by
  rcases hstack : t.stack with _ | ⟨⟨path, start⟩, rest⟩
  · rw [leave?, hstack]
    rfl
  · rw [leave_eq hstack, paths_modify]
    · rfl
    · exact fun _ => rfl

/-- Only the record of the section that is closed changes, in its total and its calls. -/
theorem field?_leave {α : Type} (field : TimerRecord R → α) (alter : α → α) {path : SectionPath}
    {start : R} {rest : List (SectionPath × R)} (h : t.stack = (path, start) :: rest) (now : R)
    (hfield : ∀ r : TimerRecord R,
      field { r with total := r.total + (now - start), calls := r.calls + 1 } = alter (field r))
    (p : SectionPath) : ((t.leave? now).getD t).field? field p =
      (t.field? field p).map fun a => if p = path then alter a else a := by
  rw [leave_eq h]
  refine field?_modify _ field path _ alter ?_ hfield p
  exact fun _ => rfl

/-! ### Any use of a timer -/

/-- A section with a name opened, or the innermost one closed, at a reading of the clock. It does
not matter to a timer whether a section is closed by a failure. -/
inductive Event (R : Type) where
  | opened (name : String) (now : R)
  | closed (now : R)

/-- The reading that comes with an event. -/
def Event.now {R : Type} : Event R → R
  | .opened _ now => now
  | .closed now => now

/-- The timer after an event. Where no section is open, there is none to close. -/
def step (t : Timer R) : Event R → Timer R
  | .opened name now => t.enter (some name) now
  | .closed now => (t.leave? now).getD t

/-- A new timer after a sequence of events. -/
def after (events : List (Event R)) : Timer R := events.foldl step empty

theorem after_concat (events : List (Event R)) (event : Event R) :
    after (events ++ [event]) = (after events).step event := by
  rw [after, after, List.foldl_append]
  rfl

/-- What a new timer has, and every event keeps, holds at every moment. -/
theorem after_induction {p : Timer R → Prop} (hempty : p empty)
    (hstep : ∀ t event, p t → p (t.step event)) (events : List (Event R)) : p (after events) := by
  induction events using List.reverseRecOn with
  | nil => exact hempty
  | append_singleton events event ih =>
    rw [after_concat]
    exact hstep _ event ih

end Timer

end FourierAudit
