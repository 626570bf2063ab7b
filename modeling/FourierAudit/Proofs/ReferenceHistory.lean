/-
Reference transforms that are used again.

A reference transform keeps its root tables from call to call, for both directions and for all axes
of an extent. What was called before does not show in any later answer:

* `Reference.transform_fst` — the answer to a call, with what it reads from the tables: those of its
  own direction and of its own extents, each of which is made if it is not there;
* `Reference.after`, `Reference.answers` — a reference transform after a sequence of calls, and the
  answers to them;
* `Reference.sound_after` — the tables are right at every moment;
* `Reference.answers_fresh` — every answer is that of a reference transform that has not been used.
-/
import FourierAudit.Proofs.RootTables

namespace FourierAudit

variable {R : Type} [Scalar R]

theorem size_rootTable (d : Direction) (n : ℕ) : (rootTable d n : Volume R).size = n :=
  Array.size_ofFn

/-- A table of roots has the kernel at every frequency and position. -/
theorem getD_rootTable (d : Direction) {n k j : ℕ} (hn : 0 < n) :
    (rootTable d n).getD (k * j % n) Sample.zero
      = dftEntry (Scalar.ofInt d.sign : R) n k j := by
  have hphase : k * j % n < n := Nat.mod_lt _ hn
  rw [rootTable, Array.getD_eq_getD_getElem?, Array.getElem?_ofFn, dif_pos hphase,
    Option.getD_some, dftEntry]

/-- A call of a reference transform. -/
structure Reference.Call (R : Type) where
  direction : Direction
  volume : Volume R

namespace Reference

/-! ### What a call reads -/

/-- The table that a call of a direction works with along an axis of extent `n`. -/
def tableFor (r : Reference R) (d : Direction) (n : ℕ) : Volume R :=
  (r.table? n d).getD (rootTable d n)

theorem table?_load (r : Reference R) (d : Direction) (m n : ℕ) :
    (r.load d m).table? n d = if n = m then some (r.tableFor d n) else r.table? n d := by
  split
  · next h =>
    subst h
    rw [load, tableFor]
    rcases htable : r.table? n d with _ | table
    · rw [table?, List.lookup_cons_self]
      rfl
    · exact htable
  · next h => exact r.table?_load_of_ne fun heq => h (congrArg Prod.fst heq)

/-- The tables of all extents are loaded first, and then each of them is there. -/
theorem table?_foldl_load_of_mem (r : Reference R) (d : Direction) {dims : List ℕ} {n : ℕ}
    (hn : n ∈ dims) : (dims.foldl (load · d) r).table? n d = some (r.tableFor d n) := by
  suffices hfold : ∀ (dims : List ℕ) (r : Reference R),
      (dims.foldl (load · d) r).table? n d
        = if n ∈ dims then some (r.tableFor d n) else r.table? n d by
    rw [hfold, if_pos hn]
  intro dims
  induction dims with
  | nil => exact fun r => (if_neg List.not_mem_nil).symm
  | cons m rest ih =>
    intro r
    rw [List.foldl_cons, ih, tableFor, table?_load]
    by_cases hnm : n = m
    · rw [if_pos hnm, Option.getD_some, if_pos (List.mem_cons.mpr (.inl hnm)), ite_self]
    · simp only [hnm, if_false, List.mem_cons, false_or, tableFor]

/-- The answer to a call. It reads no table but those of its direction and of its own extents. -/
theorem transform_fst (r : Reference R) (d : Direction) (v : Volume R) :
    (r.transform d v).1 =
      if (v.size : ℤ) ≠ wordProduct r.dims then
        .error (.invalid (.volumeSize v.size (wordProduct r.dims) r.dims))
      else match (ofDims r.dims : Reference R).layout? v.size with
        | none => .error (.invalid .layout)
        | some dims =>
          if !dims.all hasKernel then .error (.invalid .arrayTooLong)
          else .ok (separable (r.tableFor d) dims v) := by
  have hlayout : r.layout? v.size = (ofDims r.dims : Reference R).layout? v.size := rfl
  rw [transform, points, hlayout]
  split
  · rfl
  · rcases (ofDims r.dims : Reference R).layout? v.size with _ | dims
    · rfl
    · dsimp only
      split
      · rfl
      · rename_i hkernels
        have hall : dims.all hasKernel = true := by simpa using hkernels
        rw [takeWhile_hasKernel hall]
        refine congrArg Except.ok (separable_congr (fun n hn => ?_) v)
        rw [table?_foldl_load_of_mem r d hn, Option.getD_some]

omit [Scalar R] in
/-- The extents of a layout are those of the reference. -/
theorem layout?_eq_some {r : Reference R} {size : ℕ} {dims : List ℕ}
    (h : r.layout? size = some dims) : dims = r.dims.map Int.toNat := by
  rw [layout?] at h
  split at h
  · split at h
    · split at h <;> cases h
      rfl
    · split at h <;> cases h
      rfl
    · cases h
  · cases h

/-- References of the same extents that agree on the tables of a direction and of these extents
answer alike, whatever other tables they keep. -/
theorem transform_fst_congr {r r' : Reference R} (hdims : r.dims = r'.dims) {d : Direction}
    (htables : ∀ n ∈ r.dims.map Int.toNat, r.tableFor d n = r'.tableFor d n) (v : Volume R) :
    (r.transform d v).1 = (r'.transform d v).1 := by
  rw [transform_fst, transform_fst, ← hdims]
  rcases hlayout : (ofDims r.dims : Reference R).layout? v.size with _ | dims
  · rfl
  · have hloaded : ∀ n ∈ dims, r.tableFor d n = r'.tableFor d n := by
      rw [layout?_eq_some hlayout]
      exact htables
    simp only [separable_congr hloaded v]

theorem Sound.tableFor {r : Reference R} (h : r.Sound) (d : Direction) (n : ℕ) :
    r.tableFor d n = rootTable d n := by
  rw [Reference.tableFor]
  rcases htable : r.table? n d with _ | table
  · rfl
  · exact h n d table htable

/-- With tables that are right, a call is answered as by a reference that has made none. -/
theorem Sound.transform_fst {r : Reference R} (h : r.Sound) (d : Direction) (v : Volume R) :
    (r.transform d v).1 = ((ofDims r.dims : Reference R).transform d v).1 := by
  have hfresh : (ofDims r.dims : Reference R).Sound := sound_ofDims r.dims
  have hdims : r.dims = (ofDims r.dims : Reference R).dims := rfl
  exact transform_fst_congr hdims
    (fun n _ => (h.tableFor d n).trans (hfresh.tableFor d n).symm) v

/-! ### Any sequence of calls -/

/-- A reference transform after a sequence of calls, some of which may have been refused. -/
def after (r : Reference R) (calls : List (Call R)) : Reference R :=
  calls.foldl (fun r call => (r.transform call.direction call.volume).2) r

/-- The answers to a sequence of calls. -/
def answers (r : Reference R) : List (Call R) → List (Except (Failure R) (Volume R))
  | [] => []
  | call :: rest =>
    (r.transform call.direction call.volume).1 ::
      (r.transform call.direction call.volume).2.answers rest

theorem sound_after {r : Reference R} (h : r.Sound) (calls : List (Call R)) :
    (r.after calls).Sound := by
  induction calls generalizing r with
  | nil => exact h
  | cons call rest ih => exact ih (h.transform call.direction call.volume)

theorem dims_after (r : Reference R) (calls : List (Call R)) : (r.after calls).dims = r.dims := by
  induction calls generalizing r with
  | nil => rfl
  | cons call rest ih => exact (ih _).trans (r.dims_transform call.direction call.volume)

theorem Sound.answers_eq {r : Reference R} (h : r.Sound) (calls : List (Call R)) :
    r.answers calls = calls.map fun call =>
      ((ofDims r.dims : Reference R).transform call.direction call.volume).1 := by
  induction calls generalizing r with
  | nil => rfl
  | cons call rest ih =>
    have hrest := ih (h.transform call.direction call.volume)
    rw [r.dims_transform] at hrest
    rw [answers, hrest, List.map_cons, h.transform_fst]

/-- **The tables that a reference transform keeps do not show.** Whatever extents it has and
whatever calls were made of it, refused ones included, every answer is that of a reference of the
same extents that has not been used. At every moment a table that is kept for an extent and a
direction is the kernel of that extent and direction, and a call reads no table of another extent
or of the other direction. -/
theorem answers_fresh (dims : List ℤ) (calls : List (Call R)) :
    let fresh : Reference R := ofDims dims
    fresh.answers calls
        = calls.map (fun call => (fresh.transform call.direction call.volume).1) ∧
      (∀ d v, ((fresh.after calls).transform d v).1 = (fresh.transform d v).1) ∧
      (∀ n d table, (fresh.after calls).table? n d = some table → table.size = n ∧
        ∀ k < n, ∀ j < n,
          table.getD (k * j % n) Sample.zero = dftEntry (Scalar.ofInt d.sign) n k j) ∧
      ∀ (other : Reference R) (d : Direction), other.dims = dims →
        (∀ n ∈ dims.map Int.toNat, other.table? n d = (fresh.after calls).table? n d) →
        ∀ v, (other.transform d v).1 = ((fresh.after calls).transform d v).1 := by
  intro fresh
  have hsound : (fresh.after calls).Sound := sound_after (sound_ofDims dims) calls
  have hdims : (fresh.after calls).dims = dims := dims_after fresh calls
  refine ⟨(sound_ofDims dims).answers_eq calls, fun d v => ?_, fun n d table htable => ?_,
    fun other d hother htables v => ?_⟩
  · rw [hsound.transform_fst, hdims]
  · rw [hsound n d table htable]
    exact ⟨size_rootTable d n, fun k hk j _ => getD_rootTable d (Nat.zero_lt_of_lt hk)⟩
  · refine transform_fst_congr (hother.trans hdims.symm) (fun n hn => ?_) v
    rw [hother] at hn
    rw [tableFor, tableFor, htables n hn]

/-- A call that is refused for its size, and one that is not. -/
def refusedThenAnswered : List (Call Float) :=
  [⟨.inverse, #[]⟩, ⟨.forward, #[Sample.zero, Sample.zero]⟩]

/-- The second call leaves the table of its direction, and a reference that keeps this table and
one of another extent, which is wrong, answers in this direction as well. -/
theorem answers_fresh_refused_call :
    let used : Reference Float := (ofDims [2]).after refusedThenAnswered
    let other : Reference Float :=
      ⟨[2], [((3, .forward), #[]), ((2, .forward), rootTable .forward 2)]⟩
    used.table? 2 .forward = some (rootTable .forward 2) ∧
      (rootTable .forward 2 : Volume Float).getD (1 * 1 % 2) Sample.zero
        = dftEntry (Scalar.ofInt Direction.forward.sign) 2 1 1 ∧
      other.dims = [2] ∧
      (∀ n ∈ [2], other.table? n .forward = used.table? n .forward) ∧
      ∀ v, (other.transform .forward v).1 = (used.transform .forward v).1 := by
  intro used other
  obtain ⟨-, -, hkept, hread⟩ := answers_fresh (R := Float) [2] refusedThenAnswered
  have hused : used.table? 2 .forward = some (rootTable .forward 2) := rfl
  have hother : ∀ n ∈ [2], other.table? n .forward = used.table? n .forward := by
    intro n hn
    rw [List.mem_singleton.mp hn, hused]
    rfl
  exact ⟨hused, (hkept 2 .forward _ hused).2 1 (by decide) 1 (by decide), rfl, hother,
    hread other .forward rfl hother⟩

end Reference

end FourierAudit
