/-
How recorded sections are linked.

The records of a timer refer to each other by path, and a path may be reached in several ways, since
names may have slashes in them. Whatever is opened and closed:

* `Timer.Linked` — every path is once among the roots and the children of the records, and a child
  extends the path of its parent;
* `Linked.perm_register`, `mem_children_register` — what a section opened for the first time adds;
* `linked_after` — the links hold at every moment;
* `Linked.not_transGen`, `Linked.depth_unique` — no path is below itself, and each has one depth.
-/
import FourierAudit.Proofs.TimerRecords

namespace FourierAudit

variable {R : Type}

namespace Timer

/-- Every path is once among the roots and the children, and so is that of every open section. A
child has the path of its parent with a slash and a name behind it. -/
structure Linked (t : Timer R) : Prop where
  nodup : t.paths.Nodup
  once : (t.roots ++ t.records.flatMap (·.children)).Perm t.paths
  stack : ∀ opened ∈ t.stack, opened.1 ∈ t.paths
  child : ∀ r ∈ t.records, ∀ path ∈ r.children, ∃ name, path = some (r.path.text ++ "/" ++ name)

theorem linked_empty : (empty : Timer R).Linked :=
  ⟨List.nodup_nil, List.Perm.refl _, nofun, nofun⟩

/-- Where no path comes twice, giving a record another child adds one to all the children. -/
theorem perm_flatMap_withChild {records : List (TimerRecord R)}
    (hnodup : (records.map (·.path)).Nodup) {parent : SectionPath}
    (hparent : parent ∈ records.map (·.path)) (path : SectionPath) :
    ((records.map fun r => if r.path == parent then r.withChild path else r).flatMap
      (·.children)).Perm (records.flatMap (·.children) ++ [path]) := by
  induction records with
  | nil => exact absurd hparent List.not_mem_nil
  | cons r rest ih =>
    rw [List.map_cons, List.nodup_cons] at hnodup
    rw [List.map_cons, List.flatMap_cons, List.flatMap_cons, List.append_assoc]
    by_cases heq : r.path = parent
    · -- no other record has the path
      have hrest : (rest.map fun r => if r.path == parent then r.withChild path else r) = rest := by
        refine (List.map_congr_left fun other hother => ?_).trans rest.map_id
        refine if_neg fun hsame => hnodup.1 ?_
        rw [heq, ← eq_of_beq hsame]
        exact List.mem_map_of_mem hother
      rw [hrest, if_pos (beq_iff_eq.mpr heq), TimerRecord.withChild, List.append_assoc]
      exact List.perm_append_comm.append_left _
    · rw [if_neg (mt eq_of_beq heq)]
      exact (ih hnodup.2 ((List.mem_cons.mp hparent).resolve_left (Ne.symm heq))).append_left _

/-- A change that keeps the path and the children of every record. -/
theorem Linked.modify {t : Timer R} (h : t.Linked) (path : SectionPath)
    {change : TimerRecord R → TimerRecord R} (hpath : ∀ r, (change r).path = r.path)
    (hchildren : ∀ r, (change r).children = r.children) : (t.modify path change).Linked := by
  have hpaths := t.paths_modify path hpath
  refine ⟨by rw [hpaths]; exact h.nodup, ?_, by rw [hpaths]; exact h.stack, ?_⟩
  · rw [hpaths, children_modify t path hchildren]
    exact h.once
  · intro r hr child hchild
    obtain ⟨old, hold, rfl⟩ := List.mem_map.mp hr
    split_ifs at hchild ⊢
    · rw [hpath]
      exact h.child old hold child (hchildren old ▸ hchild)
    · exact h.child old hold child hchild

variable [Scalar R] {t : Timer R}

/-- A new path becomes one root or one child. -/
theorem Linked.perm_register (h : t.Linked) {path : SectionPath} (hnew : path ∉ t.paths) :
    ((t.register path).roots ++ (t.register path).records.flatMap (·.children)).Perm
      (t.roots ++ t.records.flatMap (·.children) ++ [path]) := by
  have hfresh : (t.withRecord path).records.flatMap (·.children) =
      t.records.flatMap (·.children) := by
    rw [withRecord, List.flatMap_append]
    exact List.append_nil _
  rcases hstack : t.stack with _ | ⟨⟨parent, start⟩, rest⟩
  · rw [register_root hnew hstack]
    change (t.roots ++ [path] ++ (t.withRecord path).records.flatMap _).Perm _
    rw [hfresh, List.append_assoc, List.append_assoc]
    exact List.perm_append_comm.append_left _
  · rw [register_child hnew hstack]
    have hpaths : (t.withRecord path).paths = t.paths ++ [path] := List.map_append
    have hnodup : (t.withRecord path).paths.Nodup := by
      rw [hpaths, ← List.concat_eq_append]
      exact h.nodup.concat hnew
    have hparent : parent ∈ (t.withRecord path).paths := by
      rw [hpaths]
      exact List.mem_append_left _ (h.stack (parent, start) (hstack ▸ List.mem_cons_self))
    have hperm := perm_flatMap_withChild hnodup hparent path
    rw [hfresh] at hperm
    rw [List.append_assoc]
    exact hperm.append_left _

/-- What is a child in one step is one already, or it is the new path, with the innermost open
section for its parent. -/
theorem mem_children_register {path : SectionPath} (hnew : path ∉ t.paths) {r : TimerRecord R}
    (hr : r ∈ (t.register path).records) {child : SectionPath} (hchild : child ∈ r.children) :
    (∃ old ∈ t.records, old.path = r.path ∧ child ∈ old.children) ∨
      child = path ∧ ∃ start rest, t.stack = (r.path, start) :: rest := by
  have hfresh {r : TimerRecord R} (hr : r ∈ (t.withRecord path).records)
      (hchild : child ∈ r.children) :
      ∃ old ∈ t.records, old.path = r.path ∧ child ∈ old.children := by
    rcases List.mem_append.mp hr with hold | hnew
    · exact ⟨r, hold, rfl, hchild⟩
    · rw [List.mem_singleton.mp hnew] at hchild
      exact absurd hchild List.not_mem_nil
  rcases hstack : t.stack with _ | ⟨⟨parent, start⟩, rest⟩
  · rw [register_root hnew hstack] at hr
    exact .inl (hfresh hr hchild)
  · rw [register_child hnew hstack] at hr
    obtain ⟨old, hold, rfl⟩ := List.mem_map.mp hr
    by_cases heq : old.path = parent
    · rw [if_pos (beq_iff_eq.mpr heq)] at hchild ⊢
      rcases List.mem_append.mp hchild with hchild | hchild
      · have hkept := hfresh hold hchild
        exact .inl hkept
      · exact .inr ⟨List.mem_singleton.mp hchild, start, rest, by rw [← heq]; rfl⟩
    · rw [if_neg (mt eq_of_beq heq)] at hchild ⊢
      exact .inl (hfresh hold hchild)

theorem Linked.register (h : t.Linked) (name : String) :
    (t.register (t.pathOf (some name))).Linked ∧
      t.pathOf (some name) ∈ (t.register (t.pathOf (some name))).paths := by
  by_cases hmem : t.pathOf (some name) ∈ t.paths
  · rw [register_eq_self hmem]
    exact ⟨h, hmem⟩
  · obtain ⟨hstack, hpaths, -⟩ := register_new hmem
    refine ⟨⟨?_, ?_, ?_, ?_⟩, ?_⟩
    · rw [hpaths, ← List.concat_eq_append]
      exact h.nodup.concat hmem
    · rw [hpaths]
      exact (h.perm_register hmem).trans (h.once.append_right _)
    · intro opened hopened
      rw [hpaths]
      exact List.mem_append_left _ (h.stack opened (hstack ▸ hopened))
    · intro r hr child hchild
      rcases mem_children_register hmem hr hchild with
        ⟨old, hold, hpath, hchild⟩ | ⟨rfl, _, _, hopen⟩
      · rw [← hpath]
        exact h.child old hold child hchild
      · refine ⟨name, ?_⟩
        rw [pathOf, hopen]
        rfl
    · rw [hpaths]
      exact List.mem_append_right _ (List.mem_singleton_self _)

theorem Linked.enter (h : t.Linked) (name : String) (now : R) :
    (t.enter (some name) now).Linked := by
  obtain ⟨hlinked, hmem⟩ := h.register name
  refine ⟨hlinked.nodup, hlinked.once, ?_, hlinked.child⟩
  intro opened hopened
  rcases List.mem_cons.mp hopened with rfl | hopened
  · exact hmem
  · exact hlinked.stack opened hopened

theorem Linked.leave (h : t.Linked) (now : R) : ((t.leave? now).getD t).Linked := by
  rcases hstack : t.stack with _ | ⟨⟨path, start⟩, rest⟩
  · rwa [leave?, hstack]
  · rw [leave_eq hstack]
    have hpopped : ({ t with stack := rest } : Timer R).Linked :=
      ⟨h.nodup, h.once, fun opened hopened =>
        h.stack opened (hstack ▸ List.mem_cons_of_mem _ hopened), h.child⟩
    exact hpopped.modify path (fun _ => rfl) fun _ => rfl

theorem linked_after (events : List (Event R)) : (after events : Timer R).Linked := by
  refine after_induction linked_empty (fun t event h => ?_) events
  cases event with
  | opened name now => exact h.enter name now
  | closed now => exact h.leave now

/-! ### Paths and their lengths -/

namespace Linked

omit [Scalar R]

theorem mem_of_root (h : t.Linked) {path : SectionPath} (hpath : path ∈ t.roots) :
    path ∈ t.paths :=
  h.once.mem_iff.mp (List.mem_append_left _ hpath)

theorem mem_of_child (h : t.Linked) {r : TimerRecord R} (hr : r ∈ t.records) {path : SectionPath}
    (hpath : path ∈ r.children) : path ∈ t.paths :=
  h.once.mem_iff.mp (List.mem_append_right _ (List.mem_flatMap.mpr ⟨r, hr, hpath⟩))

theorem length_lt (h : t.Linked) {r : TimerRecord R} (hr : r ∈ t.records) {path : SectionPath}
    (hpath : path ∈ r.children) : r.path.text.length < path.text.length := by
  obtain ⟨name, rfl⟩ := h.child r hr path hpath
  rw [SectionPath.text_some, String.length_append, String.length_append]
  have hslash : "/".length = 1 := rfl
  omega

end Linked

/-- Whether a path is that of a child of a record with another path. -/
def IsParent (t : Timer R) (parent child : SectionPath) : Prop :=
  ∃ r ∈ t.records, r.path = parent ∧ child ∈ r.children

namespace Linked

omit [Scalar R]

theorem length_lt_of_isParent (h : t.Linked) {parent child : SectionPath}
    (hparent : t.IsParent parent child) : parent.text.length < child.text.length := by
  obtain ⟨r, hr, rfl, hchild⟩ := hparent
  exact h.length_lt hr hchild

/-- A root is no child. -/
theorem not_isParent_of_root (h : t.Linked) {parent path : SectionPath} (hroot : path ∈ t.roots) :
    ¬t.IsParent parent path := by
  rintro ⟨r, hr, -, hchild⟩
  have hnodup := h.once.nodup_iff.mpr h.nodup
  exact (List.nodup_append.mp hnodup).2.2 _ hroot _ (List.mem_flatMap.mpr ⟨r, hr, hchild⟩) rfl

/-- No path is below itself. -/
theorem not_transGen (h : t.Linked) (path : SectionPath) :
    ¬Relation.TransGen t.IsParent path path := by
  have hlonger : ∀ last, Relation.TransGen t.IsParent path last →
      path.text.length < last.text.length := by
    intro last hbelow
    induction hbelow with
    | single hparent => exact h.length_lt_of_isParent hparent
    | tail _ hparent ih => exact ih.trans (h.length_lt_of_isParent hparent)
  exact fun hcycle => Nat.lt_irrefl _ (hlonger path hcycle)

end Linked

/-- How far below a root a path is. -/
inductive HasDepth (t : Timer R) : SectionPath → ℕ → Prop
  | root {path : SectionPath} (hpath : path ∈ t.roots) : t.HasDepth path 0
  | child {path parent : SectionPath} {depth : ℕ} (hparent : t.IsParent parent path)
    (hdepth : t.HasDepth parent depth) : t.HasDepth path (depth + 1)

omit [Scalar R] in
/-- A path has one parent at most. -/
theorem Linked.parent_unique (h : t.Linked) {path parent parent' : SectionPath}
    (hparent : t.IsParent parent path) (hparent' : t.IsParent parent' path) : parent = parent' := by
  obtain ⟨r, hr, rfl, hchild⟩ := hparent
  obtain ⟨r', hr', rfl, hchild'⟩ := hparent'
  have hnodup := (List.nodup_append.mp (h.once.nodup_iff.mpr h.nodup)).2.1
  have hsymm : Std.Symm (Function.onFun List.Disjoint fun r : TimerRecord R => r.children) :=
    ⟨fun _ _ hdisjoint => hdisjoint.symm⟩
  by_contra hne
  exact (List.nodup_flatMap.mp hnodup).2.forall hr hr' (fun heq => hne (congrArg _ heq)) hchild
    hchild'

omit [Scalar R] in
theorem Linked.depth_unique (h : t.Linked) {path : SectionPath} {depth depth' : ℕ}
    (hdepth : t.HasDepth path depth) (hdepth' : t.HasDepth path depth') : depth = depth' := by
  induction hdepth generalizing depth' with
  | root hpath =>
    cases hdepth' with
    | root _ => rfl
    | child hparent _ => exact absurd hparent (h.not_isParent_of_root hpath)
  | child hparent _ ih =>
    cases hdepth' with
    | root hpath => exact absurd hparent (h.not_isParent_of_root hpath)
    | child hparent' hdepth' =>
      rw [ih (h.parent_unique hparent hparent' ▸ hdepth')]

end Timer

end FourierAudit
