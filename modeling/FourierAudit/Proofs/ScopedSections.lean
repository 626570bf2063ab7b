/-
Sections that were opened inside others.

A section belongs to the one that it was opened in. A timer finds that one by path, so sections stay
apart as long as their names are plain:

* `Timer.Grows` — nothing that a timer has recorded of roots and children is lost;
* `Timer.RecordedAt` — the section of a place is a root, or a child of the one around it;
* `recordedAt_after` — with plain names every section that was opened is;
* `accounted_by_names` — records and places, for all names and for plain ones;
* `shared_record_of_slash` — a name with a slash in it, and a record that two places share.
-/
import FourierAudit.Proofs.SectionNames

namespace FourierAudit.Timer

open SectionPath

variable {R : Type}

/-! ### What is never lost -/

/-- The roots of a timer, and the children of its records, are those of a later one as well. -/
structure Grows (t t' : Timer R) : Prop where
  roots : ∀ path ∈ t.roots, path ∈ t'.roots
  parents : ∀ parent child, t.IsParent parent child → t'.IsParent parent child

theorem Grows.refl (t : Timer R) : t.Grows t := ⟨fun _ => id, fun _ _ => id⟩

/-- A change that takes no child away. -/
theorem IsParent.modify {t : Timer R} {parent child : SectionPath} (h : t.IsParent parent child)
    (path : SectionPath) {change : TimerRecord R → TimerRecord R}
    (hpath : ∀ r, (change r).path = r.path)
    (hchildren : ∀ r, ∀ child ∈ r.children, child ∈ (change r).children) :
    (t.modify path change).IsParent parent child := by
  obtain ⟨r, hr, rfl, hchild⟩ := h
  refine ⟨_, List.mem_map_of_mem hr, ?_, ?_⟩
  · split
    · exact hpath r
    · rfl
  · split
    · exact hchildren r child hchild
    · exact hchild

theorem IsParent.withRecord [Scalar R] {t : Timer R} {parent child : SectionPath}
    (h : t.IsParent parent child) (path : SectionPath) :
    (t.withRecord path).IsParent parent child := by
  obtain ⟨r, hr, hpath, hchild⟩ := h
  exact ⟨r, List.mem_append_left _ hr, hpath, hchild⟩

section Steps

variable [Scalar R] (t : Timer R)

theorem grows_register (path : SectionPath) : t.Grows (t.register path) := by
  by_cases hmem : path ∈ t.paths
  · rw [register_eq_self hmem]
    exact .refl t
  · rcases hstack : t.stack with _ | ⟨⟨parent, start⟩, rest⟩
    · rw [register_root hmem hstack]
      exact ⟨fun root => List.mem_append_left _, fun _ _ h => h.withRecord path⟩
    · rw [register_child hmem hstack]
      refine ⟨fun root => id, fun _ _ h => ?_⟩
      exact (h.withRecord path).modify parent (fun _ => rfl) fun _ _ => List.mem_append_left _

theorem grows_enter (name : Option String) (now : R) : t.Grows (t.enter name now) :=
  ⟨(t.grows_register _).roots, (t.grows_register _).parents⟩

theorem grows_leave (now : R) : t.Grows ((t.leave? now).getD t) := by
  rcases hstack : t.stack with _ | ⟨⟨path, start⟩, rest⟩
  · rw [leave?, hstack]
    exact .refl t
  · rw [leave_eq hstack]
    exact ⟨fun root => id, fun _ _ h =>
      IsParent.modify (t := { t with stack := rest }) h path (fun _ => rfl) fun _ _ => id⟩

end Steps

/-! ### Roots and children by names -/

/-- The section of a place is a root if its name is the only one, and otherwise a child of the
section around it. -/
inductive RecordedAt (t : Timer R) : List String → Prop
  | root {name : String} (hroot : ofNames [name] ∈ t.roots) : t.RecordedAt [name]
  | child {outer : List String} {name : String} (hne : outer ≠ [])
    (hchild : t.IsParent (ofNames outer) (ofNames (outer ++ [name]))) :
    t.RecordedAt (outer ++ [name])

theorem RecordedAt.grow {t t' : Timer R} {names : List String} (h : t.RecordedAt names)
    (hgrows : t.Grows t') : t'.RecordedAt names := by
  cases h with
  | root hroot => exact .root (hgrows.roots _ hroot)
  | child hne hchild => exact .child hne (hgrows.parents _ _ hchild)

theorem RecordedAt.mem_roots {t : Timer R} {name : String} (h : t.RecordedAt [name]) :
    ofNames [name] ∈ t.roots := by
  generalize hnames : [name] = names at h
  cases h with
  | root hroot => exact hroot
  | child hne _ => exact absurd (List.append_eq_singleton_iff.mp hnames.symm) (by simp [hne])

theorem RecordedAt.isParent {t : Timer R} {outer : List String} {name : String} (hne : outer ≠ [])
    (h : t.RecordedAt (outer ++ [name])) :
    t.IsParent (ofNames outer) (ofNames (outer ++ [name])) := by
  generalize hnames : outer ++ [name] = names at h
  cases h with
  | root hroot => exact absurd (List.append_eq_singleton_iff.mp hnames) (by simp [hne])
  | child _ hchild =>
    obtain ⟨rfl, -⟩ := List.append_inj' hnames rfl
    exact hchild

variable [Scalar R]

/-- A section whose path is new is recorded where it is opened. -/
theorem recordedAt_enter {t : Timer R} {l : Ledger} (hlinked : t.Linked) (h : t.Accounts l)
    {name : String} (hnew : ofNames (l.opened ++ [name]) ∉ t.paths) (now : R) :
    (t.enter (some name) now).RecordedAt (l.opened ++ [name]) := by
  have hpath : t.pathOf (some name) = ofNames (l.opened ++ [name]) := h.pathOf_eq name
  by_cases hopened : l.opened = []
  · rw [hopened] at hnew hpath ⊢
    refine .root ?_
    show _ ∈ (t.register _).roots
    rw [hpath, register_root hnew (h.stack_eq_nil hopened)]
    exact List.mem_append_right _ (List.mem_singleton_self _)
  · obtain ⟨start, rest, hstack, -⟩ := h.exists_stack hopened
    refine .child hopened ?_
    have houter : ofNames l.opened ∈ t.paths :=
      hlinked.stack (ofNames l.opened, start) (hstack ▸ List.mem_cons_self)
    obtain ⟨r, hr, hrpath⟩ := List.mem_map.mp houter
    show (t.register _).IsParent _ _
    rw [hpath, register_child hnew hstack]
    refine ⟨_, List.mem_map_of_mem (List.mem_append_left _ hr), ?_, ?_⟩
    · rw [hrpath, if_pos (beq_self_eq_true _)]
      exact hrpath
    · rw [hrpath, if_pos (beq_self_eq_true _)]
      exact List.mem_append_right _ (List.mem_singleton_self _)

/-- With plain names, every section that was opened is recorded where it was opened. -/
theorem recordedAt_after {events : List (Event R)} (hplain : PlainNames events)
    {names : List String} (hnames : (ledger events).Holds names) :
    (after events).RecordedAt names := by
  induction events using List.reverseRecOn generalizing names with
  | nil =>
    obtain ⟨hne, hused⟩ := of_holds_ledger hnames
    obtain ⟨name, hname⟩ := List.exists_mem_of_ne_nil names hne
    obtain ⟨now, hmem⟩ := hused name hname
    exact absurd hmem List.not_mem_nil
  | append_singleton events event ih =>
    have hplaces : ∀ name ∈ names, IsPlain name := fun name hname =>
      ((of_holds_ledger hnames).2 name hname).elim fun now hmem => hplain name now hmem
    rw [ledger_concat] at hnames
    rw [after_concat]
    cases event with
    | closed now =>
      exact (ih hplain.init ((Ledger.holds_closed _ now names).mp hnames)).grow (grows_leave _ now)
    | opened name now =>
      have haccounts : (after events).Accounts (ledger events) := accounts_after events
      rcases (Ledger.holds_opened _ name now names).mp hnames with hold | rfl
      · exact (ih hplain.init hold).grow (grows_enter _ _ now)
      · by_cases hmem : ofNames ((ledger events).opened ++ [name]) ∈ (after events).paths
        · -- the path is recorded, so it is that of an earlier section at the same place
          obtain ⟨earlier, hearlier, heq⟩ := (haccounts.paths _).mp hmem
          rw [hplain.init.ofNames_inj hearlier (List.concat_ne_nil _ _) hplaces] at heq
          exact (ih hplain.init (heq ▸ hearlier)).grow (grows_enter _ _ now)
        · exact recordedAt_enter (linked_after events) haccounts hmem now

/-- **Records and places.** Whatever is opened and closed, there is one record for all the places
of a path, the open sections are those of the ledger, and the calls of a record are the sections
that were closed at places of its path. If all names are plain, different places have different
records, so that the calls of a record are the sections that were closed at its place; a section
that was opened with no other one open is a root, and one that was opened inside another is among
the children of that one. -/
theorem accounted_by_names (events : List (Event R)) :
    let t : Timer R := after events
    let l := ledger events
    t.stack.map (·.1) = openPaths l.opened ∧
    (∀ path, path ∈ t.paths ↔ ∃ names, l.Holds names ∧ ofNames names = path) ∧
    (∀ path ∈ t.paths,
      t.calls? path = some (l.closed.countP fun names => ofNames names = path)) ∧
    (PlainNames events →
      (∀ names names', l.Holds names → l.Holds names' →
        (ofNames names = ofNames names' ↔ names = names')) ∧
      (∀ names, l.Holds names → t.calls? (ofNames names) = some (l.closed.count names)) ∧
      (∀ name, l.Holds [name] → some name ∈ t.roots) ∧
      ∀ outer name, outer ≠ [] → l.Holds (outer ++ [name]) →
        t.IsParent (ofNames outer) (ofNames (outer ++ [name]))) := by
  intro t l
  have haccounts : t.Accounts l := accounts_after events
  refine ⟨haccounts.stack, haccounts.paths, haccounts.calls, fun hplain => ?_⟩
  have hplaces {names : List String} (h : l.Holds names) :
      names ≠ [] ∧ ∀ name ∈ names, IsPlain name :=
    (of_holds_ledger h).imp_right fun hused name hname =>
      (hused name hname).elim fun now hmem => hplain name now hmem
  refine ⟨fun names names' h h' => hplain.ofNames_inj h (hplaces h').1 (hplaces h').2,
    fun names h => ?_, fun name h => ?_, fun outer name hne h => ?_⟩
  · rw [calls?_ofNames hplain (hplaces h).1 (hplaces h).2, if_pos h]
  · rw [← ofNames_singleton]
    exact (recordedAt_after hplain h).mem_roots
  · exact (recordedAt_after hplain h).isParent hne

/-- Two sections of one name, opened inside different ones. -/
def twoParents : List (Event Float) :=
  [.opened "NumpyFFT" 0, .opened "forward" 1, .closed 3, .closed 4,
    .opened "CupyFFT" 4, .opened "forward" 5, .closed 6, .closed 8]

theorem plainNames_twoParents : PlainNames twoParents := by
  intro name now h
  simp only [twoParents, List.mem_cons, Event.opened.injEq, reduceCtorEq, List.not_mem_nil,
    false_or, or_false] at h
  rcases h with ⟨rfl, -⟩ | ⟨rfl, -⟩ | ⟨rfl, -⟩ | ⟨rfl, -⟩ <;> simp [IsPlain]

/-- They have a record each, with one call, among the children of the section around them. -/
theorem accounted_by_names_twoParents : PlainNames twoParents ∧
    (∀ outer ∈ ["NumpyFFT", "CupyFFT"],
      (after twoParents).calls? (ofNames [outer, "forward"]) = some 1 ∧
        some outer ∈ (after twoParents).roots ∧
        (after twoParents).IsParent (ofNames [outer]) (ofNames [outer, "forward"])) ∧
    ofNames ["NumpyFFT", "forward"] ≠ ofNames ["CupyFFT", "forward"] := by
  obtain ⟨-, -, -, hplain⟩ := accounted_by_names twoParents
  obtain ⟨hapart, hcalls, hroots, hchildren⟩ := hplain plainNames_twoParents
  have hholds : ∀ outer ∈ ["NumpyFFT", "CupyFFT"], (ledger twoParents).Holds [outer] ∧
      (ledger twoParents).Holds [outer, "forward"] ∧
      (ledger twoParents).closed.count [outer, "forward"] = 1 := by
    decide
  refine ⟨plainNames_twoParents, fun outer houter => ?_, ?_⟩
  · obtain ⟨hroot, hforward, hcount⟩ := hholds outer houter
    exact ⟨hcount ▸ hcalls _ hforward, hroots outer hroot,
      hchildren [outer] "forward" (List.cons_ne_nil _ _) hforward⟩
  · rw [Ne, hapart _ _ (hholds "NumpyFFT" (by decide)).2.1 (hholds "CupyFFT" (by decide)).2.1]
    decide

/-- A section with a slash in its name, and then one inside another whose path is the same. -/
def slashedName : List (Event Float) :=
  [.opened "a/b" 0, .closed 1, .opened "a" 1, .opened "b" 2, .closed 3, .closed 4]

/-- Both sections are accounted in one record, though they were opened at different places. The one
that was opened inside the other is not among the children of that one. -/
theorem shared_record_of_slash :
    (ledger slashedName).closed = [["a/b"], ["a", "b"], ["a"]] ∧
      ofNames ["a/b"] = ofNames ["a", "b"] ∧
      (ledger slashedName).closed.count ["a/b"] = 1 ∧
      (ledger slashedName).closed.count ["a", "b"] = 1 ∧
      (after slashedName).calls? (ofNames ["a", "b"]) = some 2 ∧
      ¬(after slashedName).IsParent (ofNames ["a"]) (ofNames ["a", "b"]) := by
  refine ⟨by decide, by decide, by decide, by decide, rfl, ?_⟩
  have hchildren : (after slashedName).records.map (·.children) = [[], []] := rfl
  rintro ⟨r, hr, -, hchild⟩
  have hmem : r.children ∈ (after slashedName).records.map (·.children) := List.mem_map_of_mem hr
  rw [hchildren] at hmem
  simp only [List.mem_cons, List.not_mem_nil, or_false, or_self] at hmem
  rw [hmem] at hchild
  exact List.not_mem_nil hchild

end FourierAudit.Timer
