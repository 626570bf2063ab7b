/-
The forest of recorded sections.

The timing summary follows the children of records by path. What it goes through is a forest:

* `SectionForest` — a forest as data, with its records in the order of the summary;
* `IsOf.children_behind`, `IsOf.hasDepth` — the order and the depths in a forest of records;
* `IsOf.mapM_rowsBelow` — the summary goes through a forest, if it has levels enough;
* `Linked.exists_forest` — the records below given paths;
* `Linked.perm_records` — below the roots is every record, once;
* `forest_after` — all of it for a timer after any sequence of events.

Design notes: a record has the records below it only through their paths, so the forest is found by
induction on the length that is left to the longest path. That nothing is in it twice is not seen
from the forest but from the paths: the roots and the children of what is there make up what is
there, and there is only one such collection, since children have longer paths.
-/
import FourierAudit.Proofs.NamedSections
import FourierAudit.Proofs.SectionLinks

namespace FourierAudit

variable {R : Type}

/-! ### Forests -/

/-- A finite forest of records: none, or a first tree, with a record at its root and a forest below,
and the other trees. -/
inductive SectionForest (R : Type) where
  | empty
  | tree (root : TimerRecord R) (below rest : SectionForest R)

/-- A record in its place in a forest. -/
structure SectionEntry (R : Type) where
  depth : ℕ
  /-- The total of the record right above, if there is one. -/
  above : Option R
  record : TimerRecord R

/-- The line of the summary for a record in its place. -/
def SectionEntry.row [Scalar R] (e : SectionEntry R) : TimingRow R :=
  Timer.row e.depth e.above e.record.path.text e.record

namespace SectionForest

def roots : SectionForest R → List SectionPath
  | empty => []
  | tree root _ rest => root.path :: rest.roots

/-- All records, every one before those below it. -/
def records : SectionForest R → List (TimerRecord R)
  | empty => []
  | tree root below rest => root :: (below.records ++ rest.records)

/-- All records in their places, where the roots have a given depth and a given total above. -/
def entries (depth : ℕ) (above : Option R) : SectionForest R → List (SectionEntry R)
  | empty => []
  | tree root below rest =>
    ⟨depth, above, root⟩ ::
      (below.entries (depth + 1) (some root.total) ++ rest.entries depth above)

def height : SectionForest R → ℕ
  | empty => 0
  | tree _ below rest => max (below.height + 1) rest.height

/-- Whether a forest is made of the records of a timer, with the children of each record right below
it. -/
def IsOf (t : Timer R) : SectionForest R → Prop
  | empty => True
  | tree root below rest =>
    t.record? root.path = some root ∧ below.roots = root.children ∧ below.IsOf t ∧ rest.IsOf t

variable {t : Timer R}

theorem map_record_entries (forest : SectionForest R) (depth : ℕ) (above : Option R) :
    (forest.entries depth above).map (·.record) = forest.records := by
  induction forest generalizing depth above with
  | empty => rfl
  | tree root below rest ihbelow ihrest =>
    rw [entries, List.map_cons, List.map_append, ihbelow, ihrest, records]

theorem height_le (forest : SectionForest R) : forest.height ≤ forest.records.length := by
  induction forest with
  | empty => exact Nat.le_refl 0
  | tree root below rest ihbelow ihrest =>
    rw [height, records, List.length_cons, List.length_append]
    omega

theorem exists_entry (forest : SectionForest R) (depth : ℕ) (above : Option R) :
    ∀ path ∈ forest.roots, ∃ r, r.path = path ∧ ⟨depth, above, r⟩ ∈ forest.entries depth above := by
  induction forest with
  | empty => exact nofun
  | tree root below rest ihbelow ihrest =>
    intro path hpath
    rcases List.mem_cons.mp hpath with rfl | hpath
    · exact ⟨root, rfl, List.mem_cons_self⟩
    · obtain ⟨r, hr, hmem⟩ := ihrest path hpath
      exact ⟨r, hr, List.mem_cons_of_mem _ (List.mem_append_right _ hmem)⟩

theorem IsOf.record {forest : SectionForest R} (h : forest.IsOf t) :
    ∀ r ∈ forest.records, t.record? r.path = some r := by
  induction forest with
  | empty => exact nofun
  | tree root below rest ihbelow ihrest =>
    obtain ⟨hroot, -, hbelow, hrest⟩ := h
    intro r hr
    rcases List.mem_cons.mp hr with rfl | hr
    · exact hroot
    · exact (List.mem_append.mp hr).elim (ihbelow hbelow r) (ihrest hrest r)

/-- Every entry has its children behind it, a level deeper and with its total above them. -/
theorem IsOf.children_behind {forest : SectionForest R} (h : forest.IsOf t) {depth : ℕ}
    {above : Option R} {before behind : List (SectionEntry R)} {e : SectionEntry R}
    (hsplit : forest.entries depth above = before ++ e :: behind) :
    ∀ child ∈ e.record.children, ∃ r, r.path = child ∧
      ⟨e.depth + 1, some e.record.total, r⟩ ∈ behind := by
  induction forest generalizing depth above before behind with
  | empty => exact absurd hsplit (List.append_ne_nil_of_right_ne_nil _ (List.cons_ne_nil _ _)).symm
  | tree root below rest ihbelow ihrest =>
    obtain ⟨-, hroots, hbelow, hrest⟩ := h
    rw [entries] at hsplit
    rcases List.cons_eq_append_iff.mp hsplit with ⟨rfl, hfirst⟩ | ⟨before', rfl, hlater⟩
    · -- the entry is the root of the first tree
      obtain ⟨rfl, rfl⟩ := List.cons.inj hfirst
      intro child hchild
      obtain ⟨r, hr, hmem⟩ :=
        below.exists_entry (depth + 1) (some root.total) child (hroots ▸ hchild)
      exact ⟨r, hr, List.mem_append_left _ hmem⟩
    · rcases List.append_eq_append_iff.mp hlater with ⟨inner, rfl, hinner⟩ | ⟨inner, hinner, hcons⟩
      · exact ihrest hrest hinner
      · rcases List.cons_eq_append_iff.mp hcons with ⟨rfl, hinrest⟩ | ⟨inner', rfl, rfl⟩
        · exact ihrest hrest (hinrest.trans (List.nil_append _).symm)
        · -- what is behind it below the first root is behind it altogether
          intro child hchild
          obtain ⟨r, hr, hmem⟩ := ihbelow hbelow hinner child hchild
          exact ⟨r, hr, List.mem_append_left _ hmem⟩

/-- The depths of the entries, from those of the roots. -/
theorem IsOf.hasDepth {forest : SectionForest R} (h : forest.IsOf t) {depth : ℕ} (above : Option R)
    (hroots : ∀ path ∈ forest.roots, t.HasDepth path depth) :
    ∀ e ∈ forest.entries depth above, t.HasDepth e.record.path e.depth := by
  induction forest generalizing depth above with
  | empty => exact nofun
  | tree root below rest ihbelow ihrest =>
    obtain ⟨hroot, hchildren, hbelow, hrest⟩ := h
    have hdepth : t.HasDepth root.path depth := hroots _ List.mem_cons_self
    have hparent : ∀ path ∈ below.roots, t.HasDepth path (depth + 1) := fun path hpath =>
      .child ⟨root, (Timer.record?_eq_some hroot).1, rfl, hchildren ▸ hpath⟩ hdepth
    intro e he
    rcases List.mem_cons.mp he with rfl | he
    · exact hdepth
    · rcases List.mem_append.mp he with he | he
      · exact ihbelow hbelow _ hparent e he
      · exact ihrest hrest _ (fun path hpath => hroots path (List.mem_cons_of_mem _ hpath)) e he

/-! ### The summary of a forest -/

/-- With as many levels as the forest has, the summary goes through all of it. -/
theorem IsOf.mapM_rowsBelow [Scalar R] {forest : SectionForest R} (h : forest.IsOf t)
    (hnamed : ∀ r ∈ forest.records, r.path.isSome = true) (levels : ℕ)
    (hlevels : forest.height ≤ levels) (depth : ℕ) (above : Option R) :
    ∃ lines, forest.roots.mapM (t.rowsBelow levels depth above) = .ok lines ∧
      lines.flatten = (forest.entries depth above).map SectionEntry.row := by
  induction forest generalizing levels depth above with
  | empty => exact ⟨[], rfl, rfl⟩
  | tree root below rest ihbelow ihrest =>
    obtain ⟨hroot, hchildren, hbelow, hrest⟩ := h
    rw [height] at hlevels
    obtain ⟨levels, rfl⟩ : ∃ n, levels = n + 1 := ⟨levels - 1, by omega⟩
    have hinner : ∀ r ∈ below.records ++ rest.records, r.path.isSome = true :=
      fun r hr => hnamed r (List.mem_cons_of_mem _ hr)
    obtain ⟨children, hfound, hchildLines⟩ := ihbelow hbelow
      (fun r hr => hinner r (List.mem_append_left _ hr)) levels (by omega) (depth + 1)
      (some root.total)
    obtain ⟨others, hothers, hotherLines⟩ := ihrest hrest
      (fun r hr => hinner r (List.mem_append_right _ hr)) (levels + 1) (by omega) depth above
    obtain ⟨name, hname⟩ := Option.isSome_iff_exists.mp (hnamed root List.mem_cons_self)
    have hline : t.rowsBelow (levels + 1) depth above root.path =
        .ok (SectionEntry.row ⟨depth, above, root⟩ :: children.flatten) := by
      rw [SectionEntry.row, hname]
      rw [hname] at hroot
      simp only [Timer.rowsBelow, hroot, ← hchildren, hfound]
      rfl
    refine ⟨(SectionEntry.row ⟨depth, above, root⟩ :: children.flatten) :: others, ?_, ?_⟩
    · rw [roots, List.mapM_cons, hline, ok_bind, hothers, ok_bind]
      rfl
    · rw [List.flatten_cons, hchildLines, hotherLines, entries, List.map_cons, List.map_append]
      rfl

end SectionForest

/-! ### Collections made up of roots and children -/

/-- There is only one collection that is made up of given roots and the children of its own members,
if children rank higher than their parents. -/
theorem eq_of_eq_add_bind {α : Type} {roots first second : Multiset α} {below : α → Multiset α}
    {rank : α → ℕ} (hrank : ∀ a, ∀ b ∈ below a, rank a < rank b)
    (hfirst : first = roots + first.bind below) (hsecond : second = roots + second.bind below) :
    first = second := by
  -- members of a rank come from members of lower rank
  have hstep : ∀ {members : Multiset α}, members = roots + members.bind below → ∀ n,
      members.filter (rank · < n + 1) =
        (roots + (members.filter (rank · < n)).bind below).filter (rank · < n + 1) := by
    intro members hmembers n
    have hhigh : ((members.filter (¬rank · < n)).bind below).filter (rank · < n + 1) = 0 := by
      rw [Multiset.filter_eq_nil]
      intro b hb hlow
      obtain ⟨a, ha, hbelow⟩ := Multiset.mem_bind.mp hb
      have hlonger := hrank a b hbelow
      have hhigh := (Multiset.mem_filter.mp ha).2
      omega
    conv_lhs => rw [hmembers, ← Multiset.filter_add_not (rank · < n) members, Multiset.add_bind,
      ← add_assoc, Multiset.filter_add, hhigh, add_zero]
  have hfilter : ∀ n, first.filter (rank · < n) = second.filter (rank · < n) := by
    intro n
    induction n with
    | zero => simp
    | succ n ih => rw [hstep hfirst, hstep hsecond, ih]
  classical
  ext a
  have hcount (members : Multiset α) :
      (members.filter (rank · < rank a + 1)).count a = members.count a :=
    Multiset.count_filter_of_pos (Nat.lt_succ_self _)
  rw [← hcount first, hfilter, hcount second]

/-! ### The forest of a timer -/

namespace Timer

/-- The children of the record for a path. -/
def childrenOf (t : Timer R) (path : SectionPath) : List SectionPath :=
  ((t.record? path).map (·.children)).getD []

variable {t : Timer R}

theorem childrenOf_of_record? {r : TimerRecord R} (h : t.record? r.path = some r) :
    t.childrenOf r.path = r.children := by
  rw [childrenOf, h]
  rfl

/-- There is a forest below any recorded paths. -/
theorem Linked.exists_forest (h : t.Linked) {paths : List SectionPath}
    (hpaths : ∀ path ∈ paths, path ∈ t.paths) :
    ∃ forest : SectionForest R, forest.IsOf t ∧ forest.roots = paths := by
  -- children are longer than their parent, and no path is longer than all of them together
  have hbound : ∀ path ∈ t.paths, path.text.length ≤ (t.paths.map (·.text.length)).sum :=
    fun path hpath => List.le_sum_of_mem (List.mem_map_of_mem hpath)
  suffices hleft : ∀ left : ℕ, ∀ paths : List SectionPath,
      (∀ path ∈ paths, path ∈ t.paths ∧
        (t.paths.map (·.text.length)).sum < path.text.length + left) →
      ∃ forest : SectionForest R, forest.IsOf t ∧ forest.roots = paths from
    hleft ((t.paths.map (·.text.length)).sum + 1) paths fun path hpath =>
      ⟨hpaths path hpath, by omega⟩
  intro left
  induction left with
  | zero =>
    intro paths hpaths
    cases paths with
    | nil => exact ⟨.empty, trivial, rfl⟩
    | cons path rest =>
      obtain ⟨hmem, hlength⟩ := hpaths path List.mem_cons_self
      exact absurd (hbound path hmem) (by omega)
  | succ left ih =>
    intro paths hpaths
    induction paths with
    | nil => exact ⟨.empty, trivial, rfl⟩
    | cons path rest ihrest =>
      obtain ⟨hmem, hlength⟩ := hpaths path List.mem_cons_self
      -- the trees of the other paths, and the forest below the first one
      obtain ⟨others, hothers, hroots⟩ :=
        ihrest fun other hother => hpaths other (List.mem_cons_of_mem _ hother)
      obtain ⟨r, hr⟩ := Option.isSome_iff_exists.mp (t.record?_isSome_iff.mpr hmem)
      obtain ⟨hrecord, rfl⟩ := record?_eq_some hr
      obtain ⟨below, hbelow, hchildren⟩ := ih r.children fun child hchild => by
        have hlonger := h.length_lt hrecord hchild
        exact ⟨h.mem_of_child hrecord hchild, by omega⟩
      exact ⟨.tree r below others, ⟨hr, hchildren, hbelow, hothers⟩, by
        rw [SectionForest.roots, hroots]⟩

/-- The paths of a forest are its roots and the children of its records. -/
theorem paths_forest {forest : SectionForest R} (h : forest.IsOf t) :
    ((forest.records.map (·.path) : List SectionPath) : Multiset SectionPath) =
      (forest.roots : Multiset SectionPath) +
        ((forest.records.map (·.path) : List SectionPath) : Multiset SectionPath).bind
          fun path => t.childrenOf path := by
  induction forest with
  | empty => rfl
  | tree root below rest ihbelow ihrest =>
    obtain ⟨hroot, hchildren, hbelow, hrest⟩ := h
    rw [SectionForest.records, SectionForest.roots, List.map_cons, List.map_append,
      ← Multiset.cons_coe, ← Multiset.coe_add, ← Multiset.cons_coe, Multiset.cons_bind,
      Multiset.add_bind, childrenOf_of_record? hroot, ← hchildren, Multiset.cons_add]
    congr 1
    nth_rewrite 1 [ihbelow hbelow, ihrest hrest]
    abel

namespace Linked

/-- The paths of a timer are its roots and the children of its records. -/
theorem paths_eq (h : t.Linked) :
    (t.paths : Multiset SectionPath) =
      (t.roots : Multiset SectionPath) +
        (t.paths : Multiset SectionPath).bind fun path => t.childrenOf path := by
  have hchildren : t.paths.flatMap t.childrenOf = t.records.flatMap (·.children) := by
    rw [paths, List.flatMap_map]
    exact List.flatMap_congr fun r hr => childrenOf_of_record? (t.record?_of_mem h.nodup hr)
  rw [Multiset.coe_bind, hchildren, Multiset.coe_add]
  exact (Multiset.coe_eq_coe.mpr h.once).symm

/-- Below the roots of a timer is every record, once. -/
theorem perm_records (h : t.Linked) {forest : SectionForest R} (hforest : forest.IsOf t)
    (hroots : forest.roots = t.roots) : forest.records.Perm t.records := by
  have hrank : ∀ path, ∀ child ∈ (t.childrenOf path : Multiset SectionPath),
      path.text.length < child.text.length := by
    intro path child hchild
    rw [Multiset.mem_coe, childrenOf] at hchild
    rcases hr : t.record? path with _ | r
    · rw [hr] at hchild
      exact absurd hchild List.not_mem_nil
    · rw [hr] at hchild
      obtain ⟨hmem, rfl⟩ := record?_eq_some hr
      exact h.length_lt hmem hchild
  have hpaths : (forest.records.map (·.path)).Perm t.paths := by
    have hforestPaths := paths_forest hforest
    rw [hroots] at hforestPaths
    exact Multiset.coe_eq_coe.mp (eq_of_eq_add_bind hrank hforestPaths h.paths_eq)
  -- a path stands for one record
  have hfind : ∀ {records : List (TimerRecord R)}, (∀ r ∈ records, t.record? r.path = some r) →
      (records.map (·.path)).filterMap t.record? = records := by
    intro records hrecords
    rw [List.filterMap_map]
    exact (List.filterMap_congr hrecords).trans List.filterMap_some
  rw [← hfind hforest.record, ← hfind fun r hr => t.record?_of_mem h.nodup hr]
  exact hpaths.filterMap _

/-- There are no more levels than records. -/
theorem mapM_roots [Scalar R] (h : t.Linked) (hnamed : ∀ r ∈ t.records, r.path.isSome = true)
    {forest : SectionForest R} (hforest : forest.IsOf t) (hroots : forest.roots = t.roots)
    {levels : ℕ} (hlevels : t.records.length ≤ levels) :
    (t.roots.mapM (t.rowsBelow levels 0 none)).map List.flatten =
      .ok ((forest.entries 0 none).map SectionEntry.row) := by
  have hperm := h.perm_records hforest hroots
  have hheight : forest.height ≤ levels :=
    forest.height_le.trans (hperm.length_eq.trans_le hlevels)
  obtain ⟨lines, hfound, hflat⟩ := hforest.mapM_rowsBelow
    (fun r hr => hnamed r (hperm.mem_iff.mp hr)) levels hheight 0 none
  rw [← hroots, hfound, ← hflat]
  rfl

end Linked

theorem rows_eq [Scalar R] (t : Timer R) :
    t.rows = (t.roots.mapM (t.rowsBelow t.records.length 0 none)).map List.flatten := by
  rw [rows]
  cases t.roots.mapM (t.rowsBelow t.records.length 0 none) <;> rfl

theorem named_after [Scalar R] (events : List (Event R)) : (after events : Timer R).Named := by
  refine after_induction Named.empty (fun t event h => ?_) events
  cases event with
  | opened name now => exact h.enter rfl now
  | closed now => exact h.leave now

theorem isSome_path_after [Scalar R] (events : List (Event R)) :
    ∀ r ∈ (after events : Timer R).records, r.path.isSome = true := by
  intro r hr
  have hmem : r.path ∈ (after events).paths := List.mem_map_of_mem hr
  rcases List.mem_append.mp ((linked_after events).once.mem_iff.mpr hmem) with hroot | hchild
  · exact (named_after events).roots _ hroot
  · obtain ⟨parent, hparent, hchild⟩ := List.mem_flatMap.mp hchild
    exact (named_after events).children parent hparent _ hchild

/-- A record that is there already stays where it is when it is reached from elsewhere. -/
example [Scalar R] (now : R) :
    let t : Timer R := after [.opened "a" now, .opened "b" now, .closed now, .closed now,
      .opened "a/b" now]
    t.roots = [some "a"] ∧ t.records.map (·.children) = [[some "a/b"], []] ∧
      t.stack.map (·.1) = [some "a/b"] :=
  ⟨rfl, rfl, rfl⟩

end Timer

end FourierAudit
