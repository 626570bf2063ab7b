/-
The root tables of a reference transform.

A reference transform keeps the tables that it made. They are never anything but the roots of unity
of their extent and direction, so a call cannot tell whether its tables were made by it or before:

* `Reference.Sound` — every table kept is the right one; `Reference.Sound.foldl_load` is the
  step that a call adds, so `Reference.Sound.transform` says that it stays so;
* `Reference.transform_eq` — a call in full, for natural extents: the transform if the volume has
  the size of the grid and arrays can hold what it takes, a refusal of the value otherwise.
-/
import FourierAudit.Proofs.ArrayShapes

namespace FourierAudit

variable {R : Type} [Scalar R]

theorem size_alongAxis (roots : Volume R) (n inner : ℕ) (v : Volume R) :
    (alongAxis roots n inner v).size = v.size :=
  Array.size_ofFn

theorem size_separable (roots : ℕ → Volume R) (dims : List ℕ) (v : Volume R) :
    (separable roots dims v).size = v.size := by
  induction dims generalizing v with
  | nil => rfl
  | cons n rest ih => rw [separable, ih, size_alongAxis]

/-- Only the tables of the extents matter. -/
theorem separable_congr {roots roots' : ℕ → Volume R} {dims : List ℕ}
    (h : ∀ n ∈ dims, roots n = roots' n) (v : Volume R) :
    separable roots dims v = separable roots' dims v := by
  induction dims generalizing v with
  | nil => rfl
  | cons n rest ih =>
    rw [separable, separable, h n List.mem_cons_self]
    exact ih (fun m hm => h m (List.mem_cons_of_mem n hm)) _

namespace Reference

/-- Every table that is kept holds the roots of its extent and direction. -/
def Sound (r : Reference R) : Prop :=
  ∀ n d t, r.table? n d = some t → t = rootTable d n

theorem sound_ofDims (dims : List ℤ) : (ofDims dims : Reference R).Sound := by
  intro n d t h
  rw [table?, ofDims, List.lookup_nil] at h
  exact absurd h (by simp)

theorem table?_load_self (r : Reference R) (d : Direction) (n : ℕ) :
    ((r.load d n).table? n d).isSome := by
  rw [load]
  split
  · next h => rw [h]; rfl
  · rw [table?, List.lookup_cons_self]; rfl

theorem table?_load_of_ne (r : Reference R) {d e : Direction} {n m : ℕ} (h : (m, e) ≠ (n, d)) :
    (r.load d n).table? m e = r.table? m e := by
  rw [load]
  split
  · rfl
  · rw [table?, List.lookup_cons, show ((m, e) == (n, d)) = false by simpa using h]
    rfl

theorem Sound.load {r : Reference R} (h : r.Sound) (d : Direction) (n : ℕ) :
    (r.load d n).Sound := by
  intro m e t ht
  by_cases hmn : (m, e) = (n, d)
  · obtain ⟨rfl, rfl⟩ := Prod.ext_iff.mp hmn
    rw [Reference.load] at ht
    split at ht
    · exact h m e t ht
    · rw [table?, List.lookup_cons_self] at ht
      exact (Option.some_inj.mp ht).symm
  · exact h m e t (by rwa [table?_load_of_ne r hmn] at ht)

theorem Sound.foldl_load {r : Reference R} (h : r.Sound) (d : Direction) (dims : List ℕ) :
    (dims.foldl (Reference.load · d) r).Sound := by
  induction dims generalizing r with
  | nil => exact h
  | cons n rest ih => exact ih (h.load d n)

theorem isSome_table?_foldl_load {r : Reference R} {d : Direction} {dims : List ℕ} {n : ℕ}
    (h : n ∈ dims ∨ (r.table? n d).isSome) :
    ((dims.foldl (load · d) r).table? n d).isSome := by
  induction dims generalizing r with
  | nil => exact h.resolve_left List.not_mem_nil
  | cons m rest ih =>
    rw [List.foldl_cons]
    apply ih
    by_cases hnm : n = m
    · exact .inr (hnm ▸ table?_load_self r d n)
    · refine h.imp (fun hn => (List.mem_cons.mp hn).resolve_left hnm) ?_
      intro hs
      rwa [table?_load_of_ne r (fun hc => hnm (congrArg Prod.fst hc))]

/-- After loading, the table of every extent is there, and it is the right one. -/
theorem table?_foldl_load {r : Reference R} (hr : r.Sound) (d : Direction) {dims : List ℕ} {n : ℕ}
    (hn : n ∈ dims) : (dims.foldl (load · d) r).table? n d = some (rootTable d n) := by
  have hsome : ((dims.foldl (load · d) r).table? n d).isSome :=
    isSome_table?_foldl_load (.inl hn)
  obtain ⟨t, ht⟩ := Option.isSome_iff_exists.mp hsome
  rw [ht, hr.foldl_load d dims n d t ht]

theorem dims_foldl_load (r : Reference R) (d : Direction) (dims : List ℕ) :
    (dims.foldl (load · d) r).dims = r.dims := by
  induction dims generalizing r with
  | nil => rfl
  | cons n rest ih =>
    rw [List.foldl_cons, ih, load]
    split <;> rfl

omit [Scalar R] in
theorem layout?_natural (dims : List ℕ) (tables : List ((ℕ × Direction) × Volume R)) (size : ℕ) :
    (⟨dims.map Int.ofNat, tables⟩ : Reference R).layout? size =
      if isAddressable Precision.double.elementSize (dims.map Int.ofNat) = true ∧
          volumeSize dims = size then some dims else none := by
  have hpart : (dims.map Int.ofNat).partition (0 ≤ ·) = (dims.map Int.ofNat, []) := by
    rw [List.partition_eq_filter_filter]
    refine Prod.ext (List.filter_eq_self.mpr ?_) (List.filter_eq_nil_iff.mpr ?_)
    · intro n hn
      obtain ⟨m, -, rfl⟩ := List.mem_map.mp hn
      simp
    · intro n hn
      obtain ⟨m, -, rfl⟩ := List.mem_map.mp hn
      simp
  have hnat : (dims.map Int.ofNat).map Int.toNat = dims := by
    rw [List.map_map]
    exact List.map_id dims
  rw [layout?]
  simp only [hpart, hnat, ite_and]

/-- If every axis has a kernel, the tables of all axes are made. -/
theorem takeWhile_hasKernel {dims : List ℕ} (h : dims.all hasKernel = true) :
    dims.takeWhile hasKernel = dims :=
  List.takeWhile_eq_self_iff.mpr (List.all_eq_true.mp h)

/-- A call on natural extents, whatever tables are kept as long as they are sound. -/
theorem transform_eq {r : Reference R} (hr : r.Sound) {dims : List ℕ}
    (hdims : r.dims = dims.map Int.ofNat) (d : Direction) (v : Volume R) :
    (Representable dims ∧ v.size = volumeSize dims ∧
        (r.transform d v).1 = .ok (spectrum d dims v)) ∨
      (¬(Representable dims ∧ v.size = volumeSize dims) ∧
        ∃ cause, (r.transform d v).1 = .error (.invalid cause)) := by
  obtain ⟨rdims, tables⟩ := r
  obtain rfl : rdims = dims.map Int.ofNat := hdims
  -- the size is looked at first, then the layout, then the kernels
  by_cases hrep : Representable dims ∧ v.size = volumeSize dims
  · obtain ⟨hrep, hv⟩ := hrep
    refine .inl ⟨hrep, hv, ?_⟩
    have hpoints : ¬((v.size : ℤ) ≠ wordProduct (dims.map Int.ofNat)) := by
      rw [wordProduct_natural hrep.volumeSize_lt, hv]
      exact not_not_intro rfl
    obtain ⟨haddr, hker⟩ := (representable_iff dims).mp hrep
    rw [transform, points, if_neg hpoints, layout?_natural, if_pos ⟨haddr, hv.symm⟩]
    simp only [hker, Bool.not_true, Bool.false_eq_true, if_false, takeWhile_hasKernel hker]
    refine congrArg Except.ok (separable_congr ?_ v)
    intro n hn
    rw [table?_foldl_load hr d hn, Option.getD_some]
  · refine .inr ⟨hrep, ?_⟩
    rw [transform]
    split
    · exact ⟨_, rfl⟩
    · rw [layout?_natural]
      by_cases hlayout : isAddressable Precision.double.elementSize (dims.map Int.ofNat) = true ∧
          volumeSize dims = v.size
      · have hker : ¬dims.all hasKernel = true := fun hker =>
          hrep ⟨(representable_iff dims).mpr ⟨hlayout.1, hker⟩, hlayout.2.symm⟩
        rw [Bool.not_eq_true] at hker
        simp only [if_pos hlayout, hker, Bool.not_false, if_true]
        exact ⟨_, rfl⟩
      · simp only [if_neg hlayout]
        exact ⟨_, rfl⟩

/-- What a call leaves behind: the reference as it was, or with the tables of some extents made. -/
theorem transform_snd (r : Reference R) (d : Direction) (v : Volume R) :
    ∃ dims : List ℕ, (r.transform d v).2 = dims.foldl (load · d) r := by
  rw [transform]
  split
  · exact ⟨[], rfl⟩
  · split
    · exact ⟨[], rfl⟩
    · next dims _ =>
      refine ⟨dims.takeWhile hasKernel, ?_⟩
      dsimp only
      split <;> rfl

theorem dims_transform (r : Reference R) (d : Direction) (v : Volume R) :
    (r.transform d v).2.dims = r.dims := by
  obtain ⟨dims, h⟩ := r.transform_snd d v
  rw [h, dims_foldl_load]

theorem Sound.transform {r : Reference R} (h : r.Sound) (d : Direction) (v : Volume R) :
    (r.transform d v).2.Sound := by
  obtain ⟨dims, hdims⟩ := r.transform_snd d v
  rw [hdims]
  exact h.foldl_load d dims

end Reference

end FourierAudit
