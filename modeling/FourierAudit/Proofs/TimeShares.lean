/-
Shares of the time of a section.

The summary says for every record what share of the time of the record above it took. In exact
arithmetic, with a clock that never goes back, and once all sections are closed, these are shares
indeed:

* `SectionForest.IsOf.entries_behind` — right behind an entry of a forest are those below it;
* `SectionForest.map_path_filter_depth` — the entries of the depth of the roots are the roots;
* `Timer.shareOf`, `Timer.Timely.shareOf_le`, `Timer.Timely.sum_shareOf_le` — a child takes no
  more than all of the time of its parent, and so do all children together;
* `TimingRow.linesBelow` — the lines of the summary right below a line;
* `nested_times` — code that uses a timer: the open sections, the times and the shares.
-/
import FourierAudit.Proofs.NestedTimes
import FourierAudit.Proofs.TimedCode

namespace FourierAudit

/-! ### The entries below an entry -/

namespace SectionForest

variable {R : Type} {t : Timer R} {depth : ℕ} {above : Option R}

/-- No entry is above the roots. -/
theorem depth_le (forest : SectionForest R) :
    ∀ e ∈ forest.entries depth above, depth ≤ e.depth := by
  induction forest generalizing depth above with
  | empty => exact nofun
  | tree root below rest ihbelow ihrest =>
    rw [entries, List.forall_mem_cons, List.forall_mem_append]
    exact ⟨le_rfl, fun e he => Nat.le_of_succ_le (ihbelow e he), ihrest⟩

/-- The entries of the depth of the roots are the roots, each with what is above all of them. -/
theorem map_path_filter_depth (forest : SectionForest R) (depth : ℕ) (above : Option R) :
    ((forest.entries depth above).filter (·.depth = depth)).map (·.record.path) = forest.roots ∧
      ∀ e ∈ (forest.entries depth above).filter (·.depth = depth), e.above = above := by
  induction forest with
  | empty => exact ⟨rfl, nofun⟩
  | tree root below rest _ ihrest =>
    have hbelow : (below.entries (depth + 1) (some root.total)).filter (·.depth = depth) = [] := by
      rw [List.filter_eq_nil_iff]
      intro e he heq
      have hdepth := below.depth_le e he
      have heq := of_decide_eq_true heq
      omega
    have hentries : ((tree root below rest).entries depth above).filter (·.depth = depth) =
        ⟨depth, above, root⟩ :: (rest.entries depth above).filter (·.depth = depth) := by
      rw [entries, List.filter_cons_of_pos (by simp), List.filter_append, hbelow, List.nil_append]
    rw [hentries, List.map_cons, ihrest.1, List.forall_mem_cons]
    exact ⟨rfl, rfl, ihrest.2⟩

/-- Entries that begin with those of a forest at its depth or above end those that are deeper. -/
theorem takeWhile_append_entries {n : ℕ} (hn : depth ≤ n) (forest : SectionForest R)
    (first : List (SectionEntry R)) :
    (first ++ forest.entries depth above).takeWhile (n < ·.depth) =
      first.takeWhile (n < ·.depth) := by
  have hforest : (forest.entries depth above).takeWhile (n < ·.depth) = [] := by
    cases forest with
    | empty => rfl
    | tree root below rest => exact List.takeWhile_cons_of_neg (by simpa using hn)
  rw [List.takeWhile_append]
  split_ifs with hall
  · rw [hforest, List.append_nil, (List.takeWhile_prefix _).eq_of_length hall]
  · rfl

/-- Right behind an entry are the entries below it, and they are the deeper ones. -/
theorem IsOf.entries_behind {forest : SectionForest R} (h : forest.IsOf t)
    {before behind : List (SectionEntry R)} {e : SectionEntry R}
    (hsplit : forest.entries depth above = before ++ e :: behind) :
    ∃ below : SectionForest R, below.IsOf t ∧ below.roots = e.record.children ∧
      behind.takeWhile (e.depth < ·.depth) =
        below.entries (e.depth + 1) (some e.record.total) := by
  induction forest generalizing depth above before behind with
  | empty => exact absurd hsplit (List.append_ne_nil_of_right_ne_nil _ (List.cons_ne_nil _ _)).symm
  | tree root below rest ihbelow ihrest =>
    obtain ⟨-, hroots, hbelow, hrest⟩ := h
    rw [entries] at hsplit
    rcases List.cons_eq_append_iff.mp hsplit with ⟨rfl, hfirst⟩ | ⟨before', rfl, hlater⟩
    · -- the entry is the root of the first tree
      obtain ⟨rfl, rfl⟩ := List.cons.inj hfirst
      refine ⟨below, hbelow, hroots, ?_⟩
      rw [takeWhile_append_entries le_rfl, List.takeWhile_eq_self_iff]
      exact fun e he => decide_eq_true (below.depth_le e he)
    · rcases List.append_eq_append_iff.mp hlater with ⟨inner, rfl, hinner⟩ | ⟨inner, hinner, hcons⟩
      · exact ihrest hrest hinner
      · rcases List.cons_eq_append_iff.mp hcons with ⟨rfl, hinrest⟩ | ⟨inner', rfl, rfl⟩
        · exact ihrest hrest (hinrest.trans (List.nil_append _).symm)
        · -- the trees behind the first one are not deep enough
          have he : depth + 1 ≤ e.depth :=
            below.depth_le e (hinner ▸ List.mem_append_right _ List.mem_cons_self)
          rw [takeWhile_append_entries (Nat.le_of_succ_le he)]
          exact ihbelow hbelow hinner

/-- What is above an entry is the total of a record that it is a child of. -/
theorem IsOf.above_of_mem {forest : SectionForest R} (h : forest.IsOf t) :
    ∀ e ∈ forest.entries depth above,
      e.above = above ∧ e.record.path ∈ forest.roots ∨
        ∃ parent ∈ forest.records, e.above = some parent.total ∧
          e.record.path ∈ parent.children := by
  induction forest generalizing depth above with
  | empty => exact nofun
  | tree root below rest ihbelow ihrest =>
    obtain ⟨-, hroots, hbelow, hrest⟩ := h
    rw [entries, List.forall_mem_cons, List.forall_mem_append]
    refine ⟨.inl ⟨rfl, List.mem_cons_self⟩, fun e he => ?_, fun e he => ?_⟩
    · rcases ihbelow hbelow e he with ⟨habove, hpath⟩ | ⟨parent, hparent, hchild⟩
      · exact .inr ⟨root, List.mem_cons_self, habove, hroots ▸ hpath⟩
      · exact .inr ⟨parent, List.mem_cons_of_mem _ (List.mem_append_left _ hparent), hchild⟩
    · rcases ihrest hrest e he with ⟨habove, hpath⟩ | ⟨parent, hparent, hchild⟩
      · exact .inl ⟨habove, List.mem_cons_of_mem _ hpath⟩
      · exact .inr ⟨parent, List.mem_cons_of_mem _ (List.mem_append_right _ hparent), hchild⟩

end SectionForest

/-- The lines right below a line of the summary, among the lines that follow it: those that are one
level deeper, up to the first one that is not deeper. -/
def TimingRow.linesBelow {R : Type} (row : TimingRow R) (behind : List (TimingRow R)) :
    List (TimingRow R) :=
  (behind.takeWhile (row.depth < ·.depth)).filter (·.depth = row.depth + 1)

/-! ### Shares -/

namespace Timer

/-- The share of a time that another one takes, in percent; none of no time at all. -/
noncomputable def shareOf (whole part : ℝ) : Option ℝ :=
  if whole = 0 then none else some (100 * part / whole)

theorem share_row (e : SectionEntry ℝ) :
    e.row.share = e.above.bind fun whole => shareOf whole e.record.total := by
  obtain ⟨depth, above, r⟩ := e
  rcases above with _ | whole
  · rfl
  · have hzero : (Scalar.le whole Scalar.zero && Scalar.le Scalar.zero whole) = true ↔
        whole = 0 := by
      rw [Bool.and_eq_true, Scalar.le_real, Scalar.le_real, Scalar.zero_real]
      exact le_antisymm_iff.symm
    simp only [SectionEntry.row, row, hzero, Option.bind_some, shareOf, Scalar.ofInt_real,
      Int.cast_ofNat]

namespace Timely

variable {t : Timer ℝ} {now : ℝ}

/-- Once all sections are closed, the children of each took no more time than it did. -/
theorem belowTime_le (h : t.Timely now) (hclosed : t.stack = []) (path : SectionPath) :
    t.belowTime path ≤ t.totalOf path :=
  h.settled path (by rw [hclosed]; exact List.not_mem_nil)

/-- A share of a child. -/
theorem shareOf_le (h : t.Timely now) (hclosed : t.stack = []) {parent child : SectionPath}
    (hchild : child ∈ t.childrenOf parent) {share : ℝ}
    (hshare : shareOf (t.totalOf parent) (t.totalOf child) = some share) :
    0 ≤ share ∧ share ≤ 100 := by
  rw [shareOf] at hshare
  split_ifs at hshare with hzero
  obtain rfl := Option.some.inj hshare
  have hwhole : 0 < t.totalOf parent := lt_of_le_of_ne (h.nonneg parent) (Ne.symm hzero)
  have hterms : ∀ time ∈ (t.childrenOf parent).map t.totalOf, 0 ≤ time :=
    List.forall_mem_map.mpr fun path _ => h.nonneg path
  have hpart : t.totalOf child ≤ t.totalOf parent :=
    (List.single_le_sum hterms _ (List.mem_map_of_mem hchild)).trans
      (h.belowTime_le hclosed parent)
  refine ⟨div_nonneg (mul_nonneg (by norm_num) (h.nonneg child)) hwhole.le, ?_⟩
  rw [div_le_iff₀ hwhole]
  exact mul_le_mul_of_nonneg_left hpart (by norm_num)

/-- The shares of all children. -/
theorem sum_shareOf_le (h : t.Timely now) (hclosed : t.stack = []) (parent : SectionPath) :
    ((t.childrenOf parent).filterMap fun child =>
      shareOf (t.totalOf parent) (t.totalOf child)).sum ≤ 100 := by
  by_cases hzero : t.totalOf parent = 0
  · simp [shareOf, hzero]
  · have hwhole : 0 < t.totalOf parent := lt_of_le_of_ne (h.nonneg parent) (Ne.symm hzero)
    have hshares : ((t.childrenOf parent).filterMap fun child =>
        shareOf (t.totalOf parent) (t.totalOf child)) =
        ((t.childrenOf parent).map t.totalOf).map fun part => 100 / t.totalOf parent * part := by
      simp only [shareOf, hzero, if_false, List.map_map]
      rw [← List.filterMap_eq_map]
      refine List.filterMap_congr fun child _ => congrArg some ?_
      rw [Function.comp_apply]
      ring
    rw [hshares, List.sum_map_mul_left, List.map_id', div_mul_eq_mul_div, div_le_iff₀ hwhole]
    exact mul_le_mul_of_nonneg_left (h.belowTime_le hclosed parent) (by norm_num)

end Timely

/-- The shares of the lines right below a line are those of the children of its record. -/
theorem filterMap_share_linesBelow {t : Timer ℝ} (h : t.Linked) {forest : SectionForest ℝ}
    (hforest : forest.IsOf t) {before behind : List (SectionEntry ℝ)} {e : SectionEntry ℝ}
    (hsplit : forest.entries 0 none = before ++ e :: behind) :
    (e.row.linesBelow (behind.map SectionEntry.row)).filterMap (·.share) =
      (t.childrenOf e.record.path).filterMap fun child =>
        shareOf (t.totalOf e.record.path) (t.totalOf child) := by
  obtain ⟨below, hbelow, hchildren, hbehind⟩ := hforest.entries_behind hsplit
  have hrecord : t.record? e.record.path = some e.record := hforest.record _ <| by
    rw [← forest.map_record_entries 0 none, hsplit]
    exact List.mem_map_of_mem (List.mem_append_right _ List.mem_cons_self)
  obtain ⟨hpaths, habove⟩ :=
    below.map_path_filter_depth (e.depth + 1) (some e.record.total)
  have hlines : e.row.linesBelow (behind.map SectionEntry.row) =
      ((below.entries (e.depth + 1) (some e.record.total)).filter
        (·.depth = e.depth + 1)).map SectionEntry.row := by
    rw [TimingRow.linesBelow, List.takeWhile_map, List.filter_map, ← hbehind]
    rfl
  rw [hlines, childrenOf_of_record? hrecord, ← hchildren, ← hpaths, List.filterMap_map,
    List.filterMap_map]
  refine List.filterMap_congr fun child hchild => ?_
  have hmem : child.record ∈ t.records := by
    have hentry := List.mem_of_mem_filter hchild
    refine (record?_eq_some (hbelow.record child.record ?_)).1
    exact below.map_record_entries _ _ ▸ List.mem_map_of_mem hentry
  rw [Function.comp_apply, Function.comp_apply, share_row, habove child hchild, Option.bind_some,
    totalOf_of_mem h hmem, totalOf_of_mem h (record?_eq_some hrecord).1]

/-- The shares in the summary of a timer once all sections are closed. -/
theorem Timely.rows_share {events : List (Event ℝ)} {now : ℝ} (h : (after events).Timely now)
    (hclosed : (after events).stack = []) :
    ∃ rows, (after events).rows = .ok rows ∧
      ∀ before row behind, rows = before ++ row :: behind →
        (∀ share, row.share = some share → 0 ≤ share ∧ share ≤ 100) ∧
          ((row.linesBelow behind).filterMap (·.share)).sum ≤ 100 := by
  have hlinked : (after events).Linked := linked_after events
  obtain ⟨forest, hforest, hroots⟩ := hlinked.exists_forest fun path hpath =>
    hlinked.mem_of_root hpath
  have hrows : (after events).rows = .ok ((forest.entries 0 none).map SectionEntry.row) :=
    (after events).rows_eq.trans
      (hlinked.mapM_roots (isSome_path_after events) hforest hroots le_rfl)
  refine ⟨_, hrows, fun before row behind hsplit => ?_⟩
  obtain ⟨entriesBefore, later, hentries, -, hlater⟩ := List.map_eq_append_iff.mp hsplit
  obtain ⟨e, entriesBehind, rfl, rfl, rfl⟩ := List.map_eq_cons_iff.mp hlater
  refine ⟨fun share hshare => ?_, ?_⟩
  · have he : e ∈ forest.entries 0 none :=
      hentries ▸ List.mem_append_right _ List.mem_cons_self
    have hrecord {r : TimerRecord ℝ} (hr : r ∈ forest.records) :
        (after events).record? r.path = some r := hforest.record r hr
    rw [share_row] at hshare
    rcases hforest.above_of_mem e he with ⟨habove, -⟩ | ⟨parent, hparent, habove, hchild⟩
    · rw [habove] at hshare
      cases hshare
    · have he := hrecord (forest.map_record_entries 0 none ▸ List.mem_map_of_mem he)
      have hparent := hrecord hparent
      rw [← childrenOf_of_record? hparent] at hchild
      rw [habove, Option.bind_some, ← totalOf_of_mem hlinked (record?_eq_some hparent).1,
        ← totalOf_of_mem hlinked (record?_eq_some he).1] at hshare
      exact h.shareOf_le hclosed hchild hshare
  · rw [filterMap_share_linesBelow hlinked hforest hentries]
    exact h.sum_shareOf_le hclosed e.record.path

end Timer

/-! ### Code that uses a timer -/

open Timer (after)

/-- **Times nest.** Whatever code does within a section, and whether it fails there or not, the
sections that were open before are open once it is left. If the clock never goes back and the names
of the sections are plain, then at every moment all times are nonnegative, and the children of a
record whose section is not open took together no more time than it did. Whenever no section is
open, every share in the summary is between 0 and 100, and those right below one line are 100
together at most. -/
theorem TimedCode.nested_times {clock : ℕ → ℝ} (hclock : Monotone clock) (code : TimedCode ℝ)
    (hplain : Timer.PlainNames (code.events clock 0)) :
    (∀ (s : Session ℝ) (name : String), ∃ s' : Session ℝ,
      (Harness.timed clock (some name) (code.activity clock)).run.run s = (code.result, s') ∧
        s'.timer.stack = s.timer.stack) ∧
    (∃ s' : Session ℝ, (code.activity clock).run.run .start = (code.result, s') ∧
      s'.timer = after (code.events clock 0) ∧ s'.timer.stack = []) ∧
    ∀ events, events <+: code.events clock 0 →
      let t := after events
      (∀ r ∈ t.records, 0 ≤ r.total ∧
        (r.path ∉ t.stack.map (·.1) → (r.children.map t.totalOf).sum ≤ r.total)) ∧
      (t.stack = [] → ∃ rows, t.rows = .ok rows ∧
        ∀ before row behind, rows = before ++ row :: behind →
          (∀ share, row.share = some share → 0 ≤ share ∧ share ≤ 100) ∧
            ((row.linesBelow behind).filterMap (·.share)).sum ≤ 100) := by
  refine ⟨fun s name => ?_, ?_, fun events hevents => ?_⟩
  · have hinside := code.stack_events clock (s.readings + 1)
      (s.timer.enter (some name) (clock s.readings))
    rw [Timer.stack_enter] at hinside
    refine ⟨_, by rw [Harness.run_timed, code.run_activity], Timer.stack_leave hinside _⟩
  · exact ⟨_, code.run_activity clock .start, rfl, code.stack_events clock 0 .empty⟩
  · intro t
    have hlinked : t.Linked := Timer.linked_after events
    obtain ⟨later, hlater⟩ := hevents
    -- the readings so far are in order, and there is a moment after all of them
    have hreadings := code.pairwise_events hclock 0
    rw [← hlater, List.map_append] at hreadings
    have hplain : Timer.PlainNames events := fun name now hopened =>
      hplain name now (hlater ▸ List.mem_append_left _ hopened)
    obtain ⟨last, hlast⟩ := (events.map Timer.Event.now).toFinset.bddAbove
    have htimely : t.Timely last :=
      Timer.timely_after hplain (List.pairwise_append.mp hreadings).1 fun event hevent =>
        hlast (List.mem_toFinset.mpr (List.mem_map_of_mem hevent))
    refine ⟨fun r hr => ⟨?_, fun hclosed => ?_⟩, htimely.rows_share⟩
    · rw [← Timer.totalOf_of_mem hlinked hr]
      exact htimely.nonneg r.path
    · have hbelow := htimely.settled r.path hclosed
      rw [Timer.belowTime, Timer.totalOf_of_mem hlinked hr,
        Timer.childrenOf_of_record? (Timer.record?_of_mem hlinked.nodup hr)] at hbelow
      exact hbelow

/-- A section with two others inside, the first of which is left by a failure. -/
def interruptedCode : TimedCode ℝ :=
  .timed "case" (.handled (.timed "forward" (.fails .notImplemented) .done)
    (.timed "inverse" .done .done)) .done

/-- A clock that counts its readings. -/
def countingClock (readings : ℕ) : ℝ := readings

/-- The two sections took no more time than the one around them. -/
theorem TimedCode.nested_times_interruptedCode :
    let t := after (interruptedCode.events countingClock 0)
    Monotone countingClock ∧ Timer.PlainNames (interruptedCode.events countingClock 0) ∧
      t.stack = [] ∧ ∃ r ∈ t.records, r.path = some "case" ∧
        r.children = [some "case/forward", some "case/inverse"] ∧
        t.totalOf (some "case/forward") + t.totalOf (some "case/inverse") ≤ r.total := by
  have hclock : Monotone countingClock := Nat.mono_cast
  have hevents : interruptedCode.events countingClock 0 =
      [.opened "case" (countingClock 0), .opened "forward" (countingClock 1),
        .closed (countingClock 2), .opened "inverse" (countingClock 3),
        .closed (countingClock 4), .closed (countingClock 5)] := rfl
  have hplain : Timer.PlainNames (interruptedCode.events countingClock 0) := by
    intro name now hopened
    simp only [hevents, List.mem_cons, Timer.Event.opened.injEq, reduceCtorEq, List.not_mem_nil,
      false_or, or_false] at hopened
    rcases hopened with ⟨rfl, -⟩ | ⟨rfl, -⟩ | ⟨rfl, -⟩ <;> simp [IsPlain]
  obtain ⟨-, -, hmoments⟩ := nested_times hclock interruptedCode hplain
  have hrecords := (hmoments _ List.prefix_rfl).1
  intro t
  have hclosed : t.stack = [] := rfl
  have hcase : ∃ total calls rest, t.records =
      ⟨some "case", total, calls, [some "case/forward", some "case/inverse"]⟩ :: rest :=
    ⟨_, _, _, rfl⟩
  obtain ⟨total, calls, rest, hcase⟩ := hcase
  have hmem : ⟨some "case", total, calls, [some "case/forward", some "case/inverse"]⟩ ∈ t.records :=
    hcase ▸ List.mem_cons_self
  have hbelow := (hrecords _ hmem).2 (by rw [hclosed]; exact List.not_mem_nil)
  rw [List.map_cons, List.map_singleton, List.sum_cons, List.sum_singleton] at hbelow
  exact ⟨hclock, hplain, hclosed, _, hmem, rfl, rfl, hbelow⟩

end FourierAudit
