/-
Sections by their names.

While a section is open it has a place: the names of all open sections, the outermost one first and
its own last. A timer keeps one text for a place, the names with slashes between them. What was
opened and closed is written down in a ledger here, by places, and a timer is held against it:

* `SectionPath.ofNames`, `ofNames_injective` — the path of a place; places of plain names, those
  without slashes, have different paths;
* `SectionPath.BeginsWith` — whether the first name of a path is a given one;
* `Timer.Ledger`, `Timer.ledger` — the open sections, and the place of every closed one;
* `Timer.Accounts`, `accounts_after` — what the paths of a timer say of a ledger, whatever names are
  used: the open sections, what was opened, and how often it was closed;
* `calls?_ofNames` — with plain names, the number of calls by place.
-/
import FourierAudit.Proofs.SectionLinks

namespace FourierAudit

variable {R : Type}

/-! ### Places and their paths -/

/-- A name that does not run into those around it. -/
def IsPlain (name : String) : Prop := '/' ∉ name.toList

instance (name : String) : Decidable (IsPlain name) := inferInstanceAs (Decidable (¬_))

namespace SectionPath

/-- The path of a place. -/
def ofNames (names : List String) : SectionPath := some ("/".intercalate names)

theorem ofNames_singleton (name : String) : ofNames [name] = some name :=
  congrArg some String.intercalate_singleton

theorem ofNames_concat {names : List String} (h : names ≠ []) (name : String) :
    ofNames (names ++ [name]) = some ((ofNames names).text ++ "/" ++ name) := by
  rw [ofNames, String.intercalate_append_of_ne_nil h (List.cons_ne_nil name []),
    String.intercalate_singleton]
  rfl

theorem splitOn_ofNames {names : List String} (hne : names ≠ [])
    (hplain : ∀ name ∈ names, IsPlain name) :
    (ofNames names).text.toList.splitOn '/' = names.map String.toList := by
  have hslash : "/".toList = ['/'] := rfl
  rw [ofNames, text_some, String.toList_intercalate, hslash]
  refine List.splitOn_intercalate '/' (fun letters hletters => ?_) (by simpa using hne)
  obtain ⟨name, hname, rfl⟩ := List.mem_map.mp hletters
  exact hplain name hname

/-- Places of plain names have different paths. -/
theorem ofNames_injective {names names' : List String} (hne : names ≠ []) (hne' : names' ≠ [])
    (hplain : ∀ name ∈ names, IsPlain name) (hplain' : ∀ name ∈ names', IsPlain name)
    (h : ofNames names = ofNames names') : names = names' := by
  refine List.map_injective_iff.mpr (fun _ _ => String.toList_inj.mp) ?_
  rw [← splitOn_ofNames hne hplain, ← splitOn_ofNames hne' hplain', h]

/-- A path of a root with a name, or of something below it. -/
def BeginsWith (path : SectionPath) (name : String) : Prop :=
  path = some name ∨ ∃ rest, path = some (name ++ "/" ++ rest)

theorem beginsWith_ofNames (name : String) (rest : List String) :
    (ofNames (name :: rest)).BeginsWith name := by
  rcases rest with _ | ⟨second, rest⟩
  · exact .inl (ofNames_singleton name)
  · refine .inr ⟨"/".intercalate (second :: rest), congrArg some ?_⟩
    rw [← List.singleton_append, String.intercalate_append_of_ne_nil (List.cons_ne_nil _ _)
      (List.cons_ne_nil _ _), String.intercalate_singleton]

/-- A path begins with one plain name only. -/
theorem BeginsWith.unique {path : SectionPath} {name name' : String} (h : path.BeginsWith name)
    (h' : path.BeginsWith name') (hname : IsPlain name) (hname' : IsPlain name') :
    name = name' := by
  -- the name is what comes before the first slash
  have hfirst {name : String} (h : path.BeginsWith name) (hname : IsPlain name) :
      path.text.toList.takeWhile (· ≠ '/') = name.toList := by
    have hletters : ∀ c ∈ name.toList, decide (c ≠ '/') = true := fun c hc =>
      decide_eq_true fun heq => hname (heq ▸ hc)
    obtain rfl | ⟨rest, rfl⟩ := h
    · exact List.takeWhile_eq_self_iff.mpr hletters
    · rw [text_some, String.toList_append, String.toList_append, List.append_assoc,
        List.takeWhile_append_of_pos hletters]
      exact List.append_nil _
  exact String.toList_inj.mp ((hfirst h hname).symm.trans (hfirst h' hname'))

end SectionPath

namespace Timer

open SectionPath

/-! ### What was opened and closed -/

/-- The open sections by their names, the outermost one first, and the places of those that were
closed, in order. -/
structure Ledger where
  opened : List String
  closed : List (List String)

/-- The ledger after an event. Where no section is open, there is none to close. -/
def Ledger.step (l : Ledger) : Event R → Ledger
  | .opened name _ => { l with opened := l.opened ++ [name] }
  | .closed _ => if l.opened = [] then l else ⟨l.opened.dropLast, l.closed ++ [l.opened]⟩

/-- The ledger of a sequence of events. -/
def ledger (events : List (Event R)) : Ledger := events.foldl Ledger.step ⟨[], []⟩

theorem ledger_concat (events : List (Event R)) (event : Event R) :
    ledger (events ++ [event]) = (ledger events).step event := by
  rw [ledger, ledger, List.foldl_append]
  rfl

/-- Whether a section has been opened at a place: it was closed again, or it is still open. -/
def Ledger.Holds (l : Ledger) (names : List String) : Prop :=
  names ∈ l.closed ∨ names ≠ [] ∧ names <+: l.opened

instance (l : Ledger) (names : List String) : Decidable (l.Holds names) :=
  inferInstanceAs (Decidable (_ ∨ _ ∧ _))

namespace Ledger

theorem holds_opened (l : Ledger) (name : String) (now : R) (names : List String) :
    (l.step (.opened name now)).Holds names ↔ l.Holds names ∨ names = l.opened ++ [name] := by
  simp only [step, Holds, List.prefix_concat_iff]
  have hne : l.opened ++ [name] ≠ [] := List.concat_ne_nil name l.opened
  constructor
  · rintro (h | ⟨hnames, rfl | h⟩)
    · exact .inl (.inl h)
    · exact .inr rfl
    · exact .inl (.inr ⟨hnames, h⟩)
  · rintro ((h | ⟨hnames, h⟩) | rfl)
    · exact .inl h
    · exact .inr ⟨hnames, .inr h⟩
    · exact .inr ⟨hne, .inl rfl⟩

theorem step_closed {l : Ledger} (h : l.opened ≠ []) (now : R) :
    l.step (.closed now) = ⟨l.opened.dropLast, l.closed ++ [l.opened]⟩ := if_neg h

/-- A section that is closed has been opened all the same. -/
theorem holds_closed (l : Ledger) (now : R) (names : List String) :
    (l.step (.closed now)).Holds names ↔ l.Holds names := by
  rcases List.eq_nil_or_concat' l.opened with hopened | ⟨outer, last, hopened⟩
  · rw [step, if_pos hopened]
  · have hne : outer ++ [last] ≠ [] := List.concat_ne_nil last outer
    rw [step_closed (hopened ▸ hne), Holds, Holds, hopened, List.dropLast_concat, List.mem_append,
      List.mem_singleton, List.prefix_concat_iff]
    constructor
    · rintro ((h | rfl) | ⟨hnames, h⟩)
      · exact .inl h
      · exact .inr ⟨hne, .inl rfl⟩
      · exact .inr ⟨hnames, .inr h⟩
    · rintro (h | ⟨hnames, rfl | h⟩)
      · exact .inl (.inl h)
      · exact .inl (.inr rfl)
      · exact .inr ⟨hnames, h⟩

end Ledger

/-- Whether all sections of a sequence of events have plain names. -/
def PlainNames (events : List (Event R)) : Prop :=
  ∀ name now, .opened name now ∈ events → IsPlain name

theorem PlainNames.init {events : List (Event R)} {event : Event R}
    (h : PlainNames (events ++ [event])) : PlainNames events :=
  fun name now hmem => h name now (List.mem_append_left _ hmem)

theorem Ledger.holds_self {l : Ledger} (h : l.opened ≠ []) : l.Holds l.opened :=
  .inr ⟨h, List.prefix_rfl⟩

/-- A place has names, and only those that were used. -/
theorem of_holds_ledger {events : List (Event R)} {names : List String}
    (h : (ledger events).Holds names) :
    names ≠ [] ∧ ∀ name ∈ names, ∃ now, .opened name now ∈ events := by
  induction events using List.reverseRecOn generalizing names with
  | nil =>
    rcases h with h | ⟨hne, hprefix⟩
    · exact absurd h List.not_mem_nil
    · exact absurd (List.prefix_nil.mp hprefix) hne
  | append_singleton events event ih =>
    have hused {names : List String} (h : (ledger events).Holds names) :
        names ≠ [] ∧ ∀ name ∈ names, ∃ now, .opened name now ∈ events ++ [event] :=
      (ih h).imp_right fun hall name hname =>
        (hall name hname).imp fun now hmem => List.mem_append_left _ hmem
    rw [ledger_concat] at h
    cases event with
    | closed now => exact hused ((Ledger.holds_closed _ now names).mp h)
    | opened newest now =>
      rcases (Ledger.holds_opened _ newest now names).mp h with h | rfl
      · exact hused h
      · -- the names around the new section are those of the innermost open one
        refine ⟨List.concat_ne_nil _ _, fun name hname => ?_⟩
        rcases List.mem_append.mp hname with hname | hname
        · exact (hused (Ledger.holds_self (List.ne_nil_of_mem hname))).2 name hname
        · rw [List.mem_singleton.mp hname]
          exact ⟨now, List.mem_append_right _ (List.mem_singleton_self _)⟩

/-- Places of plain names are told apart by their paths. -/
theorem PlainNames.ofNames_inj {events : List (Event R)} (h : PlainNames events)
    {names names' : List String} (hnames : (ledger events).Holds names) (hne' : names' ≠ [])
    (hplain' : ∀ name ∈ names', IsPlain name) :
    ofNames names = ofNames names' ↔ names = names' := by
  obtain ⟨hne, hused⟩ := of_holds_ledger hnames
  have hplain : ∀ name ∈ names, IsPlain name := fun name hname =>
    (hused name hname).elim fun now hmem => h name now hmem
  exact ⟨ofNames_injective hne hne' hplain hplain', congrArg ofNames⟩

/-! ### The paths of a timer -/

/-- The paths of open sections, the innermost one first, from their names, the outermost first. -/
def openPaths (names : List String) : List SectionPath := (names.inits.tail.map ofNames).reverse

theorem openPaths_concat (names : List String) (name : String) :
    openPaths (names ++ [name]) = ofNames (names ++ [name]) :: openPaths names := by
  have htail : (names ++ [name]).inits.tail = names.inits.tail ++ [names ++ [name]] := by
    rw [List.inits_append, List.tail_append_of_ne_nil (by cases names <;> simp)]
    rfl
  rw [openPaths, htail, List.map_append, List.reverse_append]
  rfl

/-- How often the sections of a path were closed. -/
def calls? (t : Timer R) : SectionPath → Option ℕ := t.field? (·.calls)

/-- A timer has one record for all places of a path, opened once the first of them is, and its
calls are the sections that were closed at any of them. -/
structure Accounts (t : Timer R) (l : Ledger) : Prop where
  stack : t.stack.map (·.1) = openPaths l.opened
  paths : ∀ path, path ∈ t.paths ↔ ∃ names, l.Holds names ∧ ofNames names = path
  calls : ∀ path ∈ t.paths, t.calls? path = some (l.closed.countP fun names => ofNames names = path)

namespace Accounts

variable {t : Timer R} {l : Ledger}

theorem stack_eq_nil (h : t.Accounts l) (hopened : l.opened = []) : t.stack = [] := by
  have hstack := h.stack
  rw [hopened] at hstack
  exact List.map_eq_nil_iff.mp hstack

/-- The innermost open section, and those around it. -/
theorem exists_stack (h : t.Accounts l) (hopened : l.opened ≠ []) :
    ∃ start rest, t.stack = (ofNames l.opened, start) :: rest ∧
      rest.map (·.1) = openPaths l.opened.dropLast := by
  obtain ⟨outer, last, hlast⟩ := (List.eq_nil_or_concat' l.opened).resolve_left hopened
  have hstack := h.stack
  rw [hlast, openPaths_concat, List.map_eq_cons_iff] at hstack
  obtain ⟨⟨path, start⟩, rest, hstack, hpath, hrest⟩ := hstack
  refine ⟨start, rest, ?_, ?_⟩
  · rw [hstack, hlast]
    exact congrArg (fun path => (path, start) :: rest) hpath
  · rw [hrest, hlast, List.dropLast_concat]

theorem pathOf_eq (h : t.Accounts l) (name : String) :
    t.pathOf (some name) = ofNames (l.opened ++ [name]) := by
  by_cases hopened : l.opened = []
  · rw [pathOf, h.stack_eq_nil hopened, hopened, List.nil_append, ofNames_singleton]
  · obtain ⟨start, rest, hstack, -⟩ := h.exists_stack hopened
    rw [pathOf, hstack, ofNames_concat hopened]
    rfl

/-- Nothing was closed at a path that is not recorded. -/
theorem countP_eq_zero (h : t.Accounts l) {path : SectionPath} (hpath : path ∉ t.paths) :
    (l.closed.countP fun names => ofNames names = path) = 0 := by
  rw [List.countP_eq_zero]
  intro names hnames heq
  exact hpath ((h.paths path).mpr ⟨names, .inl hnames, of_decide_eq_true heq⟩)

theorem empty : (Timer.empty : Timer R).Accounts ⟨[], []⟩ where
  stack := rfl
  paths path := by
    refine ⟨nofun, ?_⟩
    rintro ⟨names, h | ⟨hne, hprefix⟩, -⟩
    · exact absurd h List.not_mem_nil
    · exact absurd (List.prefix_nil.mp hprefix) hne
  calls := nofun

variable [Scalar R]

theorem opened (h : t.Accounts l) (name : String) (now : R) :
    (t.enter (some name) now).Accounts (l.step (.opened name now)) where
  stack := by
    rw [stack_enter, List.map_cons, h.pathOf_eq, h.stack, Ledger.step, openPaths_concat]
  paths path := by
    show path ∈ (t.register _).paths ↔ _
    rw [mem_paths_register, h.pathOf_eq, h.paths]
    simp only [Ledger.holds_opened, or_and_right, exists_or, exists_eq_left]
    exact or_congr_right eq_comm
  calls path hpath := by
    show (t.register _).field? _ path = _
    rw [field?_register (fun _ _ => rfl)]
    split_ifs with hnew
    · rw [← hnew.1] at hnew
      exact congrArg some (h.countP_eq_zero hnew.2).symm
    · refine h.calls path ?_
      by_contra hmem
      refine hnew ⟨((mem_paths_register t _ path).mp hpath).resolve_left hmem, ?_⟩
      rwa [← ((mem_paths_register t _ path).mp hpath).resolve_left hmem]

theorem closed (h : t.Accounts l) (now : R) :
    ((t.leave? now).getD t).Accounts (l.step (.closed now)) := by
  by_cases hopened : l.opened = []
  · rw [leave?, h.stack_eq_nil hopened, Ledger.step, if_pos hopened]
    exact h
  · obtain ⟨start, rest, hstack, hrest⟩ := h.exists_stack hopened
    refine ⟨?_, fun path => ?_, fun path hpath => ?_⟩
    · rw [stack_leave hstack, hrest, Ledger.step_closed hopened]
    · rw [paths_leave, h.paths]
      simp only [Ledger.holds_closed]
    · rw [paths_leave] at hpath
      have hcalls : t.field? (·.calls) path = _ := h.calls path hpath
      rw [calls?, field?_leave (·.calls) (· + 1) hstack now fun _ => rfl, hcalls,
        Ledger.step_closed hopened, List.countP_append, List.countP_singleton]
      by_cases hpath : ofNames l.opened = path
      · simp [hpath]
      · simp [hpath, Ne.symm hpath]

end Accounts

variable [Scalar R]

/-- Whatever is opened and closed, a timer accounts for it by paths. -/
theorem accounts_after (events : List (Event R)) : (after events).Accounts (ledger events) := by
  induction events using List.reverseRecOn with
  | nil => exact Accounts.empty
  | append_singleton events event ih =>
    rw [after_concat, ledger_concat]
    cases event with
    | opened name now => exact ih.opened name now
    | closed now => exact ih.closed now

/-- With plain names, the calls of a path are the sections that were closed at its place. There is
no record before the first of them is opened. -/
theorem calls?_ofNames {events : List (Event R)} (hplain : PlainNames events)
    {names : List String} (hne : names ≠ []) (hnames : ∀ name ∈ names, IsPlain name) :
    (after events).calls? (ofNames names) =
      if (ledger events).Holds names then some ((ledger events).closed.count names) else none := by
  have h := accounts_after events
  have hinj {names' : List String} (h : (ledger events).Holds names') :
      ofNames names' = ofNames names ↔ names' = names := hplain.ofNames_inj h hne hnames
  split_ifs with hholds
  · rw [h.calls _ ((h.paths _).mpr ⟨names, hholds, rfl⟩), List.count]
    refine congrArg some (List.countP_congr fun names' hmem => ?_)
    rw [decide_eq_true_iff, hinj (.inl hmem), beq_iff_eq]
  · refine field?_eq_none (fun hpath => hholds ?_) _
    obtain ⟨names', hholds', heq⟩ := (h.paths _).mp hpath
    rwa [← (hinj hholds').mp heq]

end Timer

end FourierAudit
