/-
Sections with names.

The timing summary takes paths apart, which it cannot do with a section that has no name and was
opened with no other one open. A timer on which no such section has been opened has a summary:

* `Timer.Named` — no such section is recorded;
* `Timer.Named.enter`, `Timer.Named.leave` — opening a section with a name and closing one keep it
  so;
* `Timer.Named.exists_lines` — the summary.
-/
import FourierAudit.Proofs.FailingSteps
import FourierAudit.TimingTable

namespace FourierAudit

variable {R : Type}

/-- Every section that the summary goes through has a path. -/
structure Timer.Named (t : Timer R) : Prop where
  roots : ∀ path ∈ t.roots, path.isSome = true
  children : ∀ r ∈ t.records, ∀ path ∈ r.children, path.isSome = true

namespace Timer.Named

variable {t : Timer R}

theorem empty : (Timer.empty : Timer R).Named := ⟨nofun, nofun⟩

/-- A change that gives a record no child without path. -/
theorem modify (h : t.Named) (path : SectionPath) {change : TimerRecord R → TimerRecord R}
    (hchange : ∀ r, ∀ child ∈ (change r).children, child ∈ r.children ∨ child.isSome = true) :
    (t.modify path change).Named where
  roots := h.roots
  children := by
    intro r hr child hchild
    obtain ⟨old, hold, rfl⟩ := List.mem_map.mp hr
    split at hchild
    · exact (hchange old child hchild).elim (h.children old hold child) id
    · exact h.children old hold child hchild

theorem isSome_pathOf (t : Timer R) {name : Option String} (hname : name.isSome = true) :
    (t.pathOf name).isSome = true := by
  rw [pathOf]
  split
  · exact hname
  · rfl

variable [Scalar R]

theorem register (h : t.Named) {path : SectionPath} (hpath : path.isSome = true) :
    (t.register path).Named := by
  rw [Timer.register]
  split
  · exact h
  · -- the fresh record has no children; its path is a root, or a child of the innermost section
    have hfresh : ∀ r ∈ t.records ++ [⟨path, Scalar.zero, 0, []⟩], ∀ child ∈ r.children,
        child.isSome = true := by
      intro r hr child hchild
      rcases List.mem_append.mp hr with hr | hr
      · exact h.children r hr child hchild
      · rw [List.mem_singleton.mp hr] at hchild
        exact absurd hchild List.not_mem_nil
    have hadded :
        ({ t with records := t.records ++ [⟨path, Scalar.zero, 0, []⟩] } : Timer R).Named :=
      ⟨h.roots, hfresh⟩
    dsimp only
    split
    · refine ⟨?_, hfresh⟩
      intro root hroot
      rcases List.mem_append.mp hroot with hroot | hroot
      · exact h.roots root hroot
      · rwa [List.mem_singleton.mp hroot]
    · refine hadded.modify _ ?_
      intro r child hchild
      refine (List.mem_append.mp hchild).imp id ?_
      intro hnew
      rwa [List.mem_singleton.mp hnew]

theorem enter (h : t.Named) {name : Option String} (hname : name.isSome = true) (now : R) :
    (t.enter name now).Named :=
  have hregistered := h.register (isSome_pathOf t hname)
  ⟨hregistered.roots, hregistered.children⟩

theorem leave (h : t.Named) (now : R) : ((t.leave? now).getD t).Named := by
  rw [Timer.leave?]
  split
  · exact h
  · rename_i rest _
    have hpopped : ({ t with stack := rest } : Timer R).Named := ⟨h.roots, h.children⟩
    exact hpopped.modify _ fun _ _ hchild => .inl hchild

/-! ### The summary -/

theorem exists_rowsBelow (h : t.Named) (levels depth : ℕ) (parent : Option R) {path : SectionPath}
    (hpath : path.isSome = true) : ∃ rows, t.rowsBelow levels depth parent path = .ok rows := by
  induction levels generalizing depth parent path with
  | zero => exact ⟨[], by rw [rowsBelow]⟩
  | succ levels ih =>
    obtain ⟨name, rfl⟩ := Option.isSome_iff_exists.mp hpath
    rcases hrecord : t.record? (some name) with _ | r
    · exact ⟨[], by simp only [rowsBelow, hrecord]⟩
    · have hr : r ∈ t.records := List.mem_of_find?_eq_some hrecord
      obtain ⟨below, hbelow⟩ := exists_mapM_ok fun child hchild =>
        ih (depth + 1) (some r.total) (h.children r hr child hchild)
      refine ⟨row depth parent name r :: below.flatten, ?_⟩
      simp only [rowsBelow, hrecord, hbelow]
      rfl

theorem exists_rows (h : t.Named) : ∃ rows, t.rows = .ok rows := by
  obtain ⟨lines, hlines⟩ := exists_mapM_ok fun root hroot =>
    h.exists_rowsBelow t.records.length 0 none (h.roots root hroot)
  refine ⟨lines.flatten, ?_⟩
  rw [rows, hlines]
  rfl

end Timer.Named

/-- A timer with names has a summary. -/
theorem Timer.Named.exists_lines {t : Timer Float} (h : t.Named) : ∃ lines,
    TimingTable.lines t TimingTable.defaultTitle TimingTable.defaultNameWidth = .ok lines := by
  rw [TimingTable.lines]
  split
  · exact ⟨_, rfl⟩
  · obtain ⟨rows, hrows⟩ := h.exists_rows
    have hwidth : (decide (0 ≤ TimingTable.defaultNameWidth) && isWord TimingTable.defaultNameWidth)
        = true := by decide
    rw [hrows]
    simp only [hwidth]
    exact ⟨_, rfl⟩

end FourierAudit
