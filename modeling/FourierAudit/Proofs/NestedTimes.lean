/-
Times of nested sections.

A section that is opened inside another one is closed before that one, so no more time passes in it.
The times that a timer adds up, with a clock that never goes back, are read over the real numbers
here:

* `Timer.totalOf`, `Timer.belowTime` — the time of a path, and that of its children together;
* `Timer.Nests`, `nests_after` — with plain names, every open section is a child of the one around
  it;
* `Timer.Timely` — what holds at a moment: the children of a section that is not open took no more
  time than it did, and those of an open one no more than it did if it were closed now;
* `timely_after` — it holds at every moment.

Design notes: the time of a section is only added up when it is closed, while that of its children
is there before. So the starts of the open sections are a part of the invariant, from the innermost
section outwards: each has until now, or until the start of the one inside, to have its children in.
-/
import FourierAudit.Proofs.ExactArithmetic
import FourierAudit.Proofs.ScopedSections
import FourierAudit.Proofs.SectionForest

namespace FourierAudit.Timer

open SectionPath

/-! ### Children as sections are opened and closed -/

section Children

variable {R : Type} {t : Timer R}

theorem childrenOf_eq (t : Timer R) (path : SectionPath) :
    t.childrenOf path = (t.field? (·.children) path).getD [] := rfl

theorem Linked.mem_childrenOf (h : t.Linked) {parent child : SectionPath} :
    child ∈ t.childrenOf parent ↔ t.IsParent parent child := by
  constructor
  · intro hchild
    rcases hr : t.record? parent with _ | r
    · rw [childrenOf, hr] at hchild
      exact absurd hchild List.not_mem_nil
    · rw [childrenOf, hr] at hchild
      obtain ⟨hmem, rfl⟩ := record?_eq_some hr
      exact ⟨r, hmem, rfl, hchild⟩
  · rintro ⟨r, hr, rfl, hchild⟩
    rwa [childrenOf_of_record? (record?_of_mem h.nodup hr)]

theorem Linked.nodup_childrenOf (h : t.Linked) (path : SectionPath) :
    (t.childrenOf path).Nodup := by
  rcases hr : t.record? path with _ | r
  · rw [childrenOf, hr]
    exact List.nodup_nil
  · rw [childrenOf, hr]
    have hnodup := (List.nodup_append.mp (h.once.nodup_iff.mpr h.nodup)).2.1
    exact (List.nodup_flatMap.mp hnodup).1 r (record?_eq_some hr).1

variable [Scalar R]

/-- What is opened adds itself to the children of one path at most, and only if it is new. -/
theorem childrenOf_register (t : Timer R) (path p : SectionPath) :
    (t.register path).childrenOf p = t.childrenOf p ∨
      path ∉ t.paths ∧ (t.register path).childrenOf p = t.childrenOf p ++ [path] := by
  by_cases hmem : path ∈ t.paths
  · rw [register_eq_self hmem]
    exact .inl rfl
  · have hfresh : (t.withRecord path).childrenOf p = t.childrenOf p := by
      rw [childrenOf_eq, field?_withRecord _ hmem, childrenOf_eq]
      split_ifs with hp
      · rw [hp, field?_eq_none hmem]
        rfl
      · rfl
    rcases hstack : t.stack with _ | ⟨⟨parent, start⟩, rest⟩
    · rw [register_root hmem hstack]
      exact .inl hfresh
    · have hadded := (t.withRecord path).field?_modify (·.children) parent (·.withChild path)
        (· ++ [path]) (fun _ => rfl) (fun _ => rfl) p
      rw [register_child hmem hstack, ← hfresh, childrenOf_eq, childrenOf_eq, hadded]
      rcases (t.withRecord path).field? (·.children) p with _ | children
      · exact .inl rfl
      · by_cases hp : p = parent
        · exact .inr ⟨hmem, by simp [hp]⟩
        · exact .inl (by simp [hp])

theorem childrenOf_leave (t : Timer R) (now : R) (p : SectionPath) :
    ((t.leave? now).getD t).childrenOf p = t.childrenOf p := by
  rcases hstack : t.stack with _ | ⟨⟨path, start⟩, rest⟩
  · rw [leave?, hstack]
    rfl
  · rw [childrenOf_eq, field?_leave (·.children) id hstack now fun _ => rfl]
    simp only [id_eq, ite_self, Option.map_id', childrenOf_eq]

end Children

/-! ### Open sections -/

/-- Every open section is a child of the one around it, and the outermost one is a root. -/
structure Nests {R : Type} (t : Timer R) : Prop where
  chain : (t.stack.map (·.1)).IsChain fun inner outer => t.IsParent outer inner
  outermost : ∀ path ∈ (t.stack.map (·.1)).getLast?, path ∈ t.roots

theorem nests_after {R : Type} [Scalar R] {events : List (Event R)} (hplain : PlainNames events) :
    (after events).Nests := by
  have haccounts : (after events).Accounts (ledger events) := accounts_after events
  suffices hnested : ∀ names, names <+: (ledger events).opened →
      (openPaths names).IsChain (fun inner outer => (after events).IsParent outer inner) ∧
        ∀ path ∈ (openPaths names).getLast?, path ∈ (after events).roots by
    obtain ⟨hchain, hlast⟩ := hnested _ List.prefix_rfl
    exact ⟨haccounts.stack ▸ hchain, haccounts.stack ▸ hlast⟩
  intro names
  induction names using List.reverseRecOn with
  | nil => exact fun _ => ⟨List.isChain_nil, nofun⟩
  | append_singleton outer name ih =>
    intro hopened
    have hrecorded : (after events).RecordedAt (outer ++ [name]) :=
      recordedAt_after hplain (.inr ⟨List.concat_ne_nil _ _, hopened⟩)
    obtain ⟨hchain, hlast⟩ := ih ((List.prefix_append outer [name]).trans hopened)
    rw [openPaths_concat]
    rcases List.eq_nil_or_concat' outer with rfl | ⟨around, last, rfl⟩
    · refine ⟨List.isChain_singleton _, fun path hpath => ?_⟩
      rw [← Option.mem_some.mp hpath]
      exact hrecorded.mem_roots
    · rw [openPaths_concat] at hchain hlast ⊢
      exact ⟨List.isChain_cons_cons.mpr ⟨hrecorded.isParent (List.concat_ne_nil _ _), hchain⟩,
        fun path hpath => hlast path hpath⟩

namespace Nests

variable {R : Type} {t : Timer R}

/-- The paths of open sections are longer than those of the sections around them. -/
theorem pairwise (h : t.Nests) (hlinked : t.Linked) :
    (t.stack.map (·.1)).Pairwise fun inner outer => outer.text.length < inner.text.length := by
  have htrans : Trans (fun inner outer : SectionPath => outer.text.length < inner.text.length)
      (fun inner outer : SectionPath => outer.text.length < inner.text.length)
      (fun inner outer : SectionPath => outer.text.length < inner.text.length) :=
    ⟨fun hinner houter => houter.trans hinner⟩
  exact (h.chain.imp fun _ _ hparent => hlinked.length_lt_of_isParent hparent).pairwise

/-- The innermost open section has the one around it for its only parent. -/
theorem mem_childrenOf_iff (h : t.Nests) (hlinked : t.Linked) {path : SectionPath} {start : R}
    {rest : List (SectionPath × R)} (hstack : t.stack = (path, start) :: rest) (p : SectionPath) :
    path ∈ t.childrenOf p ↔ (rest.map (·.1)).head? = some p := by
  rw [hlinked.mem_childrenOf]
  have hchain := h.chain
  have houtermost := h.outermost
  rw [hstack] at hchain houtermost
  rcases rest with _ | ⟨⟨outer, start'⟩, rest⟩
  · exact iff_of_false (hlinked.not_isParent_of_root (houtermost path rfl)) nofun
  · have hparent : t.IsParent outer path := (List.isChain_cons_cons.mp hchain).1
    exact ⟨fun hother => congrArg some (hlinked.parent_unique hparent hother),
      fun hp => Option.some.inj hp ▸ hparent⟩

end Nests

/-! ### Times -/

/-- The time of a path. -/
noncomputable def totalOf (t : Timer ℝ) (path : SectionPath) : ℝ :=
  (t.field? (·.total) path).getD 0

/-- The time of the children of a path. -/
noncomputable def belowTime (t : Timer ℝ) (path : SectionPath) : ℝ :=
  ((t.childrenOf path).map t.totalOf).sum

variable {t : Timer ℝ}

theorem totalOf_of_mem (h : t.Linked) {r : TimerRecord ℝ} (hr : r ∈ t.records) :
    t.totalOf r.path = r.total := by
  rw [totalOf, field?_of_mem h.nodup hr]
  rfl

theorem totalOf_of_not_mem {path : SectionPath} (h : path ∉ t.paths) : t.totalOf path = 0 := by
  rw [totalOf, field?_eq_none h]
  rfl

/-- No time is added when a section is opened. -/
theorem totalOf_register (t : Timer ℝ) (path p : SectionPath) :
    (t.register path).totalOf p = t.totalOf p := by
  rw [totalOf, field?_register fun _ _ => rfl]
  split_ifs with h
  · rw [h.1, totalOf_of_not_mem h.2]
    exact Scalar.zero_real
  · rfl

theorem belowTime_register (t : Timer ℝ) (path p : SectionPath) :
    (t.register path).belowTime p = t.belowTime p := by
  have htotals : (t.register path).totalOf = t.totalOf := funext (t.totalOf_register path)
  rw [belowTime, belowTime, htotals]
  rcases t.childrenOf_register path p with hsame | ⟨hnew, hadded⟩
  · rw [hsame]
  · rw [hadded, List.map_append, List.sum_append, List.map_singleton, List.sum_singleton,
      totalOf_of_not_mem hnew, add_zero]

/-- A sum over different terms in which one of them has grown. -/
theorem sum_map_add_of_nodup {α : Type} [DecidableEq α] {terms : List α} (h : terms.Nodup)
    (f : α → ℝ) (a : α) (more : ℝ) :
    (terms.map fun b => if b = a then f b + more else f b).sum =
      if a ∈ terms then (terms.map f).sum + more else (terms.map f).sum := by
  rw [List.sum_map_ite_eq, h.count, add_sub_cancel_left]
  split_ifs
  · rw [one_smul, add_comm]
  · rw [zero_smul, zero_add]

section Leave

variable {path : SectionPath} {start : ℝ} {rest : List (SectionPath × ℝ)}

theorem totalOf_leave (h : t.Linked) (hstack : t.stack = (path, start) :: rest) (now : ℝ)
    (p : SectionPath) : ((t.leave? now).getD t).totalOf p =
      if p = path then t.totalOf p + (now - start) else t.totalOf p := by
  rw [totalOf, field?_leave (·.total) (· + (now - start)) hstack now fun _ => rfl, totalOf]
  rcases hp : t.field? (·.total) p with _ | total
  · have hne : p ≠ path := by
      rintro rfl
      have hmem : p ∈ t.paths := h.stack (p, start) (hstack ▸ List.mem_cons_self)
      rw [← t.field?_isSome_iff (·.total), hp] at hmem
      exact Bool.false_ne_true hmem
    rw [if_neg hne]
    rfl
  · by_cases hp : p = path <;> simp [hp]

/-- The time of a section that is closed is added to what is below the section around it. -/
theorem belowTime_leave (h : t.Linked) (hnests : t.Nests)
    (hstack : t.stack = (path, start) :: rest) (now : ℝ) (p : SectionPath) :
    ((t.leave? now).getD t).belowTime p =
      if (rest.map (·.1)).head? = some p then t.belowTime p + (now - start) else t.belowTime p := by
  rw [belowTime, childrenOf_leave, funext (totalOf_leave h hstack now),
    sum_map_add_of_nodup (h.nodup_childrenOf p), belowTime]
  simp only [hnests.mem_childrenOf_iff h hstack]

end Leave

/-! ### Time enough -/

/-- The children of open sections took no more time than is left for them: up to now in the
innermost section, and up to the start of the one inside in the others. -/
def Covered (t : Timer ℝ) (now : ℝ) : List (SectionPath × ℝ) → Prop
  | [] => True
  | (path, start) :: rest =>
    start ≤ now ∧ t.belowTime path ≤ t.totalOf path + (now - start) ∧ t.Covered start rest

theorem Covered.mono {now later : ℝ} {opened : List (SectionPath × ℝ)}
    (h : t.Covered now opened) (hle : now ≤ later) : t.Covered later opened := by
  cases opened with
  | nil => trivial
  | cons innermost rest =>
    obtain ⟨hstart, hbelow, hrest⟩ := h
    exact ⟨hstart.trans hle, hbelow.trans (by linarith), hrest⟩

/-- Only the times of the sections themselves matter. -/
theorem Covered.congr {t' : Timer ℝ} {now : ℝ} {opened : List (SectionPath × ℝ)}
    (h : t.Covered now opened)
    (htotal : ∀ path ∈ opened.map (·.1), t'.totalOf path = t.totalOf path)
    (hbelow : ∀ path ∈ opened.map (·.1), t'.belowTime path = t.belowTime path) :
    t'.Covered now opened := by
  induction opened generalizing now with
  | nil => trivial
  | cons innermost rest ih =>
    obtain ⟨hstart, htime, hrest⟩ := h
    rw [List.map_cons, List.forall_mem_cons] at htotal hbelow
    exact ⟨hstart, by rw [hbelow.1, htotal.1]; exact htime, ih hrest htotal.2 hbelow.2⟩

/-- No children took more time than their section had, at a moment. -/
structure Timely (t : Timer ℝ) (now : ℝ) : Prop where
  nonneg : ∀ path, 0 ≤ t.totalOf path
  settled : ∀ path ∉ t.stack.map (·.1), t.belowTime path ≤ t.totalOf path
  covered : t.Covered now t.stack

namespace Timely

variable {now : ℝ}

theorem empty (now : ℝ) : (Timer.empty : Timer ℝ).Timely now where
  nonneg _ := le_refl 0
  settled _ _ := le_refl 0
  covered := trivial

theorem mono {later : ℝ} (h : t.Timely now) (hle : now ≤ later) : t.Timely later :=
  ⟨h.nonneg, h.settled, h.covered.mono hle⟩

/-- A section is opened that is not open. -/
theorem enter (h : t.Timely now) {name : String} (hnew : t.pathOf (some name) ∉ t.stack.map (·.1)) :
    (t.enter (some name) now).Timely now := by
  have htotal : ∀ p, (t.enter (some name) now).totalOf p = t.totalOf p :=
    t.totalOf_register (t.pathOf (some name))
  have hbelow : ∀ p, (t.enter (some name) now).belowTime p = t.belowTime p :=
    t.belowTime_register (t.pathOf (some name))
  refine ⟨fun path => ?_, fun path hpath => ?_, ?_⟩
  · rw [htotal]
    exact h.nonneg path
  · rw [stack_enter, List.map_cons, List.mem_cons, not_or] at hpath
    rw [htotal, hbelow]
    exact h.settled path hpath.2
  · rw [stack_enter]
    refine ⟨le_refl now, ?_, h.covered.congr (fun path _ => htotal path) fun path _ => hbelow path⟩
    rw [htotal, hbelow, sub_self, add_zero]
    exact h.settled _ hnew

/-- The innermost section is closed. Its time has room in the section around it, since that one is
open and was opened before. -/
theorem leave (h : t.Timely now) (hlinked : t.Linked) (hnests : t.Nests) :
    ((t.leave? now).getD t).Timely now := by
  rcases hstack : t.stack with _ | ⟨⟨path, start⟩, rest⟩
  · rw [leave?, hstack]
    exact h
  · have htotal := totalOf_leave hlinked hstack now
    have hbelow := belowTime_leave hlinked hnests hstack now
    have hlengths := hnests.pairwise hlinked
    have hcovered := h.covered
    rw [hstack] at hcovered hlengths
    obtain ⟨hstart, htime, hrest⟩ := hcovered
    obtain ⟨hlonger, hlengths⟩ := List.pairwise_cons.mp hlengths
    have hnotopen : path ∉ rest.map (·.1) := fun hmem => Nat.lt_irrefl _ (hlonger path hmem)
    refine ⟨fun p => ?_, fun p hp => ?_, ?_⟩
    · rw [htotal]
      split_ifs
      · exact add_nonneg (h.nonneg p) (sub_nonneg.mpr hstart)
      · exact h.nonneg p
    · rw [stack_leave hstack] at hp
      rw [htotal, hbelow, if_neg fun hhead => hp (List.mem_of_head? hhead)]
      split_ifs with heq
      · rw [heq]
        exact htime
      · refine h.settled p fun hmem => ?_
        rw [hstack] at hmem
        exact (List.mem_cons.mp hmem).elim heq hp
    · rw [stack_leave hstack]
      rcases rest with _ | ⟨⟨outer, earlier⟩, rest⟩
      · trivial
      · obtain ⟨hearlier, houter, hrest⟩ := hrest
        have hne {p : SectionPath} (hp : p ∈ outer :: rest.map (·.1)) : p ≠ path := by
          rintro rfl
          exact hnotopen hp
        have hnothead {p : SectionPath} (hp : p ∈ rest.map (·.1)) : some outer ≠ some p := by
          rintro ⟨⟩
          exact Nat.lt_irrefl _ ((List.pairwise_cons.mp hlengths).1 _ hp)
        refine ⟨hearlier.trans hstart, ?_, hrest.congr (fun p hp => ?_) fun p hp => ?_⟩
        · rw [htotal, if_neg (hne List.mem_cons_self), hbelow, List.map_cons, List.head?_cons,
            if_pos rfl]
          linarith
        · rw [htotal, if_neg (hne (List.mem_cons_of_mem _ hp))]
        · rw [hbelow]
          exact if_neg (hnothead hp)

end Timely

/-- With plain names and a clock that never goes back, no children take more time than their section
has, at any moment. -/
theorem timely_after {events : List (Event ℝ)} (hplain : PlainNames events)
    (hclock : (events.map Event.now).Pairwise (· ≤ ·)) {now : ℝ}
    (hnow : ∀ event ∈ events, event.now ≤ now) : (after events).Timely now := by
  induction events using List.reverseRecOn generalizing now with
  | nil => exact Timely.empty now
  | append_singleton events event ih =>
    rw [List.map_append, List.pairwise_append] at hclock
    have hbefore : (after events).Timely event.now :=
      ih hplain.init hclock.1 fun earlier hearlier =>
        hclock.2.2 _ (List.mem_map_of_mem hearlier) _ (List.mem_singleton_self _)
    have hlinked : (after events).Linked := linked_after events
    have hnests : (after events).Nests := nests_after hplain.init
    have hle : event.now ≤ now := hnow event (List.mem_append_right _ (List.mem_singleton_self _))
    rw [after_concat]
    cases event with
    | closed now => exact (hbefore.leave hlinked hnests).mono hle
    | opened name now =>
      refine (hbefore.enter fun hmem => ?_).mono hle
      -- the path of what is opened is longer than those of all open sections
      have hlengths := (nests_after hplain).pairwise (linked_after _)
      rw [after_concat, step, stack_enter, List.map_cons, List.pairwise_cons] at hlengths
      exact Nat.lt_irrefl _ (hlengths.1 _ hmem)

end FourierAudit.Timer
