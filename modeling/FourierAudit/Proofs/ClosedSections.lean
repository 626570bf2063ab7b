/-
Sections that are closed again.

An activity closes all sections that it opens, whether it fails or not. If they have plain names,
what it leaves in a session is known from two lists, the stages that it went through and the places
of the sections that it closed:

* `Timer.within`, `Timer.count_flatMap_within` — sections inside others, and how often a place comes
  up in them;
* `Timer.Completes` — events that close what they open, with the places of what they close;
* `Session.Gains` — a session after another one, with the stages and the sections in between;
* `Harness.Leaves` — an activity with the same result, stages and sections in every session, and
  what becomes of these as activities are put together;
* `throughFirst`, `Harness.leaves_foldlM` — a loop gets through its items up to the first one that
  fails.
-/
import FourierAudit.Proofs.HarnessRuns
import FourierAudit.Proofs.SectionNames

namespace FourierAudit

variable {R : Type}

/-! ### Events -/

namespace Timer

/-- The places of sections inside one with a name, and the place of that one. -/
def within (name : String) (inside : List (List String)) : List (List String) :=
  inside.map (name :: ·) ++ [[name]]

theorem mem_within {name : String} {inside : List (List String)} {names : List String}
    (h : names ∈ within name inside) : ∃ rest, names = name :: rest := by
  rcases List.mem_append.mp h with h | h
  · obtain ⟨rest, -, rfl⟩ := List.mem_map.mp h
    exact ⟨rest, rfl⟩
  · exact ⟨[], List.mem_singleton.mp h⟩

/-- Every section has a name. -/
theorem nil_not_mem_flatMap_within {α : Type} (items : List α) (nameOf : α → String)
    (inside : α → List (List String)) :
    [] ∉ items.flatMap fun a => within (nameOf a) (inside a) := by
  intro hmem
  obtain ⟨a, -, ha⟩ := List.mem_flatMap.mp hmem
  obtain ⟨rest, hrest⟩ := mem_within ha
  cases hrest

theorem count_within (name first : String) (inside : List (List String)) (rest : List String) :
    (within name inside).count (first :: rest) =
      if name = first then inside.count rest + (if rest = [] then 1 else 0) else 0 := by
  split_ifs with hname hrest
  · rw [hname, hrest, within, List.count_append,
      List.count_map_of_injective _ _ List.cons_injective, List.count_singleton_self]
  · have hother : first :: rest ∉ [[first]] := fun hmem =>
      hrest (List.cons.inj (List.mem_singleton.mp hmem)).2
    rw [hname, within, List.count_append, List.count_map_of_injective _ _ List.cons_injective,
      List.count_eq_zero_of_not_mem hother]
  · refine List.count_eq_zero_of_not_mem fun hmem => hname ?_
    obtain ⟨rest', heq⟩ := mem_within hmem
    exact (List.cons.inj heq).1.symm

/-- How often a place comes up in sections with others inside: that many times in those of its first
name, and once more for each of these if it has no other name. -/
theorem count_flatMap_within {α : Type} (items : List α) (nameOf : α → String)
    (inside : α → List (List String)) (first : String) (rest : List String) :
    (items.flatMap fun a => within (nameOf a) (inside a)).count (first :: rest) =
      ((items.filter (nameOf · = first)).flatMap inside).count rest +
        if rest = [] then items.countP (nameOf · = first) else 0 := by
  induction items with
  | nil => simp
  | cons a later ih =>
    rw [List.flatMap_cons, List.count_append, count_within, ih]
    simp only [List.filter_cons, List.countP_cons, decide_eq_true_eq]
    by_cases ha : nameOf a = first
    · simp only [ha, if_true, List.flatMap_cons, List.count_append]
      split_ifs <;> omega
    · simp only [ha, if_false, zero_add, add_zero]

/-- The calls in the record of a section that was closed so often, without others of its path being
open. There is no record of one that never was. -/
def recordedCalls : ℕ → Option ℕ
  | 0 => none
  | calls + 1 => some (calls + 1)

/-- Events with plain names that close what they open and nothing else. The places of the sections
are seen from where the events begin. -/
structure Completes (events : List (Event R)) (sections : List (List String)) : Prop where
  plain : PlainNames events
  ledger : ∀ l : Ledger,
    events.foldl Ledger.step l = ⟨l.opened, l.closed ++ sections.map (l.opened ++ ·)⟩

namespace Completes

variable {events later : List (Event R)} {sections sections' : List (List String)}

theorem nil : Completes ([] : List (Event R)) [] :=
  ⟨fun _ _ h => absurd h List.not_mem_nil, fun l => by rw [List.map_nil, List.append_nil]; rfl⟩

theorem append (h : Completes events sections) (h' : Completes later sections') :
    Completes (events ++ later) (sections ++ sections') where
  plain name now hmem := (List.mem_append.mp hmem).elim (h.plain name now) (h'.plain name now)
  ledger l := by
    rw [List.foldl_append, h.ledger, h'.ledger, List.map_append, List.append_assoc]

/-- A section around events. -/
theorem enclose (h : Completes events sections) {name : String} (hname : IsPlain name)
    (first last : R) :
    Completes (.opened name first :: (events ++ [.closed last])) (within name sections) where
  plain other now hmem := by
    rcases List.mem_cons.mp hmem with heq | hmem
    · rw [Event.opened.injEq] at heq
      exact heq.1 ▸ hname
    · refine (List.mem_append.mp hmem).elim (h.plain other now) fun hclosed => ?_
      cases List.mem_singleton.mp hclosed
  ledger l := by
    have hopened : l.opened ++ [name] ≠ [] := List.concat_ne_nil name l.opened
    rw [List.foldl_cons, List.foldl_append, h.ledger]
    show Ledger.step _ (.closed last) = _
    rw [Ledger.step_closed hopened]
    simp only [Ledger.step, List.dropLast_concat, within, List.map_append, List.map_map,
      Function.comp_def, List.append_assoc, List.cons_append, List.nil_append, List.map_cons,
      List.map_nil]

end Completes

end Timer

variable [Scalar R]

/-! ### Sessions -/

/-- What one session has more than another: some stages, and sections at some places, which are all
closed. -/
structure Session.Gains (s t : Session R) (stages : List Stage) (sections : List (List String)) :
    Prop where
  stages_eq : t.stages = s.stages ++ stages
  exists_events : ∃ events, Timer.Completes events sections ∧
    t.timer = events.foldl Timer.step s.timer

namespace Session.Gains

variable {s t u : Session R} {stages stages' : List Stage} {sections sections' : List (List String)}

theorem of_timer_eq (hstages : t.stages = s.stages ++ stages) (htimer : t.timer = s.timer) :
    s.Gains t stages [] :=
  ⟨hstages, [], .nil, htimer⟩

theorem trans (h : s.Gains t stages sections) (h' : t.Gains u stages' sections') :
    s.Gains u (stages ++ stages') (sections ++ sections') := by
  obtain ⟨events, hevents, htimer⟩ := h.exists_events
  obtain ⟨later, hlater, htimer'⟩ := h'.exists_events
  refine ⟨?_, events ++ later, hevents.append hlater, ?_⟩
  · rw [h'.stages_eq, h.stages_eq, List.append_assoc]
  · rw [htimer', htimer, List.foldl_append]

/-- A section around what was gained. -/
theorem enclose {clock : ℕ → R} {name : String} (hname : IsPlain name)
    (h : (s.opened clock (some name)).Gains t stages sections) :
    s.Gains (t.closed clock) stages (Timer.within name sections) := by
  obtain ⟨events, hevents, htimer⟩ := h.exists_events
  refine ⟨h.stages_eq, _, hevents.enclose hname (clock s.readings) (clock t.readings), ?_⟩
  rw [List.foldl_cons, List.foldl_append]
  exact congrArg (fun timer => (timer.leave? (clock t.readings)).getD timer) htimer

/-- A timer that was new at the start has seen nothing but these sections. -/
theorem exists_after (h : s.Gains t stages sections) (hs : s.timer = .empty) :
    ∃ events, Timer.PlainNames events ∧ t.timer = Timer.after events ∧
      Timer.ledger events = ⟨[], sections⟩ := by
  obtain ⟨events, hevents, htimer⟩ := h.exists_events
  have hledger : Timer.ledger events = ⟨[], [] ++ sections.map ([] ++ ·)⟩ := hevents.ledger ⟨[], []⟩
  refine ⟨events, hevents.plain, by rw [htimer, hs]; rfl, ?_⟩
  rw [hledger, List.nil_append]
  exact congrArg (Timer.Ledger.mk []) (List.map_id sections)

/-- What such a timer says of a place. -/
theorem calls?_ofNames (h : s.Gains t stages sections) (hs : s.timer = .empty)
    {names : List String} (hne : names ≠ []) (hnames : ∀ name ∈ names, IsPlain name) :
    t.timer.calls? (.ofNames names) = Timer.recordedCalls (sections.count names) := by
  obtain ⟨events, hplain, htimer, hledger⟩ := h.exists_after hs
  have hholds : (Timer.ledger events).Holds names ↔ 0 < sections.count names := by
    rw [hledger, List.count_pos_iff]
    exact or_iff_left fun hopened => hne (List.prefix_nil.mp hopened.2)
  rw [htimer, Timer.calls?_ofNames hplain hne hnames, hledger]
  rw [hledger] at hholds
  simp only [hholds]
  rcases sections.count names with _ | calls <;> rfl

/-- No section is open in it, and every path is that of one of the sections. -/
theorem mem_paths (h : s.Gains t stages sections) (hs : s.timer = .empty) :
    t.timer.stack = [] ∧ ∀ path ∈ t.timer.paths, ∃ names ∈ sections, .ofNames names = path := by
  obtain ⟨events, -, htimer, hledger⟩ := h.exists_after hs
  have haccounts := Timer.accounts_after events
  rw [hledger, ← htimer] at haccounts
  refine ⟨haccounts.stack_eq_nil rfl, fun path hpath => ?_⟩
  obtain ⟨names, hclosed | ⟨hne, hopened⟩, hpath⟩ := (haccounts.paths path).mp hpath
  · exact ⟨names, hclosed, hpath⟩
  · exact absurd (List.prefix_nil.mp hopened) hne

end Session.Gains

/-! ### Activities -/

namespace Harness

variable {α β : Type}

/-- An activity that has the same result in every session, and leaves the same stages and sections
in it. -/
structure Leaves (x : Harness R α) (result : Except (Failure R) α) (stages : List Stage)
    (sections : List (List String)) : Prop where
  result_eq : ∀ s : Session R, (x.run.run s).1 = result
  gains : ∀ s : Session R, s.Gains (x.run.run s).2 stages sections

/-- A step that does not touch the timer. -/
theorem Leaves.of_run {x : Harness R α} {result : Except (Failure R) α} {stages : List Stage}
    {change : Session R → Session R} (hrun : ∀ s, x.run.run s = (result, change s))
    (hstages : ∀ s, (change s).stages = s.stages ++ stages)
    (htimer : ∀ s, (change s).timer = s.timer) : x.Leaves result stages [] where
  result_eq s := by rw [hrun]
  gains s := by
    rw [hrun]
    exact .of_timer_eq (hstages s) (htimer s)

theorem leaves_pure (a : α) : (pure a : Harness R α).Leaves (.ok a) [] [] :=
  .of_run (fun s => run_pure s a) (fun _ => (List.append_nil _).symm) fun _ => rfl

theorem leaves_enter (stage : Stage) : (enter stage : Harness R Unit).Leaves (.ok ()) [stage] [] :=
  .of_run (fun s => run_enter s stage) (fun _ => rfl) fun _ => rfl

theorem leaves_setCurrent (case : Option (TransformCase R)) :
    (setCurrent case).Leaves (.ok ()) [] [] :=
  .of_run (fun s => run_setCurrent s case) (fun _ => (List.append_nil _).symm) fun _ => rfl

theorem leaves_print (text : String) : (print text : Harness R Unit).Leaves (.ok ()) [] [] :=
  .of_run (fun s => run_print s text) (fun _ => (List.append_nil _).symm) fun _ => rfl

theorem leaves_ofExcept (result : Except (Failure R) α) : (ofExcept result).Leaves result [] [] :=
  .of_run (fun s => run_ofExcept s result) (fun _ => (List.append_nil _).symm) fun _ => rfl

theorem leaves_act (action : GridAction R) (grids : GridPair R) :
    (act action grids).Leaves (action.result grids) [] [] :=
  .of_run (fun s => run_act s action grids) (fun _ => (List.append_nil _).symm) fun _ => rfl

namespace Leaves

variable {x : Harness R α} {f : α → Harness R β} {stages stages' : List Stage}
  {sections sections' : List (List String)}

theorem bind_ok {a : α} {result : Except (Failure R) β} (hx : x.Leaves (.ok a) stages sections)
    (hf : (f a).Leaves result stages' sections') :
    (x >>= f).Leaves result (stages ++ stages') (sections ++ sections') := by
  have hrun : ∀ s, (x >>= f).run.run s = (f a).run.run (x.run.run s).2 := by
    intro s
    have hresult := hx.result_eq s
    rw [run_bind]
    rcases hrun : x.run.run s with ⟨e | b, t⟩ <;> rw [hrun] at hresult
    · cases hresult
    · cases hresult
      rfl
  refine ⟨fun s => ?_, fun s => ?_⟩
  · rw [hrun]
    exact hf.result_eq _
  · rw [hrun]
    exact (hx.gains s).trans (hf.gains _)

theorem bind_error {e : Failure R} (hx : x.Leaves (.error e) stages sections) :
    (x >>= f).Leaves (.error e) stages sections := by
  have hrun : ∀ s, (x >>= f).run.run s = (.error e, (x.run.run s).2) := by
    intro s
    have hresult := hx.result_eq s
    rw [run_bind]
    rcases hrun : x.run.run s with ⟨e' | b, t⟩ <;> rw [hrun] at hresult
    · cases hresult
      rfl
    · cases hresult
  refine ⟨fun s => ?_, fun s => ?_⟩
  · rw [hrun]
  · rw [hrun]
    exact hx.gains s

theorem timed {result : Except (Failure R) α} (hx : x.Leaves result stages sections)
    (clock : ℕ → R) {name : String} (hname : IsPlain name) :
    (timed clock (some name) x).Leaves result stages (Timer.within name sections) where
  result_eq s := by
    rw [run_timed]
    exact hx.result_eq _
  gains s := by
    rw [run_timed]
    exact (hx.gains _).enclose hname

end Leaves

end Harness

/-! ### Loops -/

section Loops

variable {α β : Type} (p : α → Bool)

/-- The items up to the first one with a property, that one included. -/
def throughFirst : List α → List α
  | [] => []
  | a :: rest => if p a then [a] else a :: throughFirst rest

variable {p}

theorem throughFirst_of_any_eq_false {items : List α} (h : items.any p = false) :
    throughFirst p items = items := by
  induction items with
  | nil => rfl
  | cons a rest ih =>
    rw [List.any_cons, Bool.or_eq_false_iff] at h
    rw [throughFirst, h.1, ih h.2]
    rfl

theorem throughFirst_append (items later : List α) : throughFirst p (items ++ later) =
    if items.any p then throughFirst p items else items ++ throughFirst p later := by
  induction items with
  | nil => rfl
  | cons a rest ih =>
    rw [List.cons_append, throughFirst, throughFirst, List.any_cons, ih]
    rcases p a with _ | _
    · simp only [Bool.false_eq_true, if_false, Bool.false_or, List.cons_append]
      split <;> rfl
    · rfl

/-- Items that were put together from those of other items. -/
theorem throughFirst_flatMap (f : β → List α) (items : List β) :
    throughFirst p (items.flatMap f) =
      (throughFirst (fun b => (f b).any p) items).flatMap fun b => throughFirst p (f b) := by
  induction items with
  | nil => rfl
  | cons b rest ih =>
    rw [List.flatMap_cons, throughFirst_append, throughFirst]
    split_ifs with hb
    · rw [List.flatMap_singleton]
    · rw [List.flatMap_cons, ih, throughFirst_of_any_eq_false (Bool.eq_false_iff.mpr hb)]

theorem mem_of_mem_throughFirst {items : List α} {a : α} (h : a ∈ throughFirst p items) :
    a ∈ items := by
  induction items with
  | nil => exact h
  | cons b rest ih =>
    rw [throughFirst] at h
    split at h
    · exact List.mem_singleton.mp h ▸ List.mem_cons_self
    · exact (List.mem_cons.mp h).elim (fun heq => heq ▸ List.mem_cons_self) fun hrest =>
        List.mem_cons_of_mem b (ih hrest)

/-- Nothing behind an item with the property is reached. -/
theorem mem_before_of_mem_throughFirst {before later : List α} {a b : α} (ha : p a = true)
    (hb : b ∈ throughFirst p (before ++ a :: later)) : b ∈ before ++ [a] := by
  have hsame : throughFirst p (before ++ a :: later) = throughFirst p (before ++ [a]) := by
    rw [throughFirst_append, throughFirst_append, throughFirst, throughFirst, if_pos ha, if_pos ha]
  exact mem_of_mem_throughFirst (hsame ▸ hb)

/-- A loop leaves what its rounds leave, up to the first one that fails. -/
theorem Harness.leaves_foldlM {body : β → α → Harness R β} {stagesOf : α → List Stage}
    {sectionsOf : α → List (List String)} {items : List α}
    (hbody : ∀ a ∈ items, ∀ b, ∃ result, (body b a).Leaves result (stagesOf a) (sectionsOf a) ∧
      result.isOk = !p a) (b : β) :
    ∃ result, (items.foldlM body b).Leaves result ((throughFirst p items).flatMap stagesOf)
      ((throughFirst p items).flatMap sectionsOf) ∧ result.isOk = !items.any p := by
  induction items generalizing b with
  | nil => exact ⟨_, leaves_pure b, rfl⟩
  | cons a rest ih =>
    obtain ⟨result, hleaves, hok⟩ := hbody a List.mem_cons_self b
    rw [List.foldlM_cons, throughFirst, List.any_cons]
    -- the loop ends with a round if and only if that one fails
    rcases ha : p a with _ | _ <;> rcases result with e | b <;> rw [ha] at hok
    · cases hok
    · obtain ⟨result, hrest, hok'⟩ := ih (fun a' ha' => hbody a' (List.mem_cons_of_mem a ha')) b
      exact ⟨result, hleaves.bind_ok hrest, hok'⟩
    · refine ⟨.error e, ?_, rfl⟩
      rw [if_pos rfl, List.flatMap_singleton, List.flatMap_singleton]
      exact hleaves.bind_error
    · cases hok

end Loops

end FourierAudit
