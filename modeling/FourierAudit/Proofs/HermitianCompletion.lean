/-
Completing a stored half.

The full volume of a stored half is filled in two steps: the stored planes are copied as they are,
and the planes behind them are read at the opposite frequencies and conjugated.

* `completionTransfers` — what either step writes, and from where;
* `perm_completionTransfers` — together they write every place of the full volume exactly once;
* `runTransfers_completion` — the full volume is what they leave in an empty one;
* `hermitianCompletion_eq_ok_iff` — which volumes are completed from a half;
* `conjugate_completion_iff` — a completed volume is conjugate at all opposite frequencies if and
  only if the stored half is so on the planes that are opposite to themselves;
* `hermitianCompletion_symmetry` — all of it for one stored half.

Design notes: all of this needs of the scalars is that changing the sign twice changes nothing.
Binary64 numbers are equal here if their words are, so that the two zeros differ.
-/
import FourierAudit.Proofs.Binary64Values
import FourierAudit.Proofs.PackedOrder

namespace FourierAudit

variable {R : Type} [Scalar R]

/-! ### Conjugates -/

/-- The law of the sign. -/
class LawfulNeg (R : Type) [Scalar R] : Prop where
  neg_neg : ∀ a : R, - -a = a

instance : LawfulNeg ℝ where
  neg_neg a := neg_neg a

instance : LawfulNeg Float where
  neg_neg := neg_neg_float

@[simp] theorem Sample.conj_conj [LawfulNeg R] (a : Sample R) : a.conj.conj = a :=
  congrArg (Sample.mk a.re) (LawfulNeg.neg_neg a.im)

/-! ### The two steps of the completion -/

/-- An element of the full volume that is filled from the stored half. -/
structure Transfer where
  /-- The place in the full volume that is written. -/
  target : ℕ
  /-- The place in the stored half that is read. -/
  source : ℕ
  /-- Whether the element is conjugated on its way. -/
  conjugated : Bool

/-- What is written; nothing if the half ends before the place that is read. -/
def Transfer.value (t : Transfer) (half : Volume R) : Option (Sample R) :=
  half[t.source]?.map fun a => if t.conjugated then a.conj else a

/-- The cells of a volume, some of which have not been written, after some transfers. -/
def runTransfers (half : Volume R) (transfers : List Transfer)
    (cells : Array (Option (Sample R))) : Array (Option (Sample R)) :=
  transfers.foldl (fun cells t => cells.setIfInBounds t.target (t.value half)) cells

/-- The first step: the stored planes. -/
def copies (extents : Triple ℕ) : List Transfer :=
  let half := TransformKind.realToComplex.packed extents
  (gridPoints (List.range extents.x) (List.range extents.y) (List.range half.z)).map fun p =>
    ⟨extents.index p, half.index p, false⟩

/-- The second step: the planes behind the stored ones. -/
def mirrors (extents : Triple ℕ) : List Transfer :=
  let half := TransformKind.realToComplex.packed extents
  (gridPoints (List.range extents.x) (List.range extents.y)
      (List.range' half.z (extents.z - half.z))).map fun p =>
    ⟨extents.index p, half.index
      ⟨(extents.x - p.x) % extents.x, (extents.y - p.y) % extents.y, extents.z - p.z⟩, true⟩

/-- All that is written to complete a stored half, in this order. -/
def completionTransfers (extents : Triple ℕ) : List Transfer := copies extents ++ mirrors extents

section Run

variable {half : Volume R} {transfers : List Transfer} {cells : Array (Option (Sample R))}

theorem size_runTransfers : (runTransfers half transfers cells).size = cells.size := by
  induction transfers generalizing cells with
  | nil => rfl
  | cons t rest ih => exact ih.trans Array.size_setIfInBounds

theorem getElem?_runTransfers_of_notMem {i : ℕ} (h : i ∉ transfers.map (·.target)) :
    (runTransfers half transfers cells)[i]? = cells[i]? := by
  induction transfers generalizing cells with
  | nil => rfl
  | cons t rest ih =>
    rw [List.map_cons, List.mem_cons, not_or] at h
    exact (ih h.2).trans (Array.getElem?_setIfInBounds_ne (Ne.symm h.1))

/-- A cell that is written once keeps what was written. -/
theorem getElem?_runTransfers_of_mem (hnodup : (transfers.map (·.target)).Nodup) {t : Transfer}
    (ht : t ∈ transfers) (hlt : t.target < cells.size) :
    (runTransfers half transfers cells)[t.target]? = some (t.value half) := by
  induction transfers generalizing cells with
  | nil => exact absurd ht List.not_mem_nil
  | cons u rest ih =>
    rw [List.map_cons, List.nodup_cons] at hnodup
    rcases List.mem_cons.mp ht with rfl | hmem
    · exact (getElem?_runTransfers_of_notMem hnodup.1).trans
        (Array.getElem?_setIfInBounds_self_of_lt hlt)
    · exact ih hnodup.2 hmem (by rwa [Array.size_setIfInBounds])

end Run

theorem gridPoints_append_perm (xs ys zs zs' : List ℕ) :
    (gridPoints xs ys zs ++ gridPoints xs ys zs').Perm (gridPoints xs ys (zs ++ zs')) := by
  refine (List.flatMap_append_perm _ _ _).trans (List.Perm.flatMap_left _ ?_)
  intro x _
  refine (List.flatMap_append_perm _ _ _).trans (List.Perm.flatMap_left _ ?_)
  intro y _
  rw [List.map_append]

section Completion

variable {extents p : Triple ℕ} {half full : Volume R}

/-- Every place of the full volume is written exactly once. -/
theorem perm_completionTransfers (hz : 0 < extents.z) :
    ((completionTransfers extents).map (·.target)).Perm (List.range extents.volume) := by
  set depth := (TransformKind.realToComplex.packed extents).z with hdepth
  have hle : depth ≤ extents.z := TransformKind.realToComplex.packedDepth_le hz
  -- the planes of the two steps are all planes
  have hplanes : List.range depth ++ List.range' depth (extents.z - depth)
      = List.range extents.z := by
    have hsplit := List.range'_append_1 (s := 0) (m := depth) (n := extents.z - depth)
    rwa [Nat.zero_add, Nat.add_sub_cancel' hle, ← List.range_eq_range',
      ← List.range_eq_range'] at hsplit
  have hperm := gridPoints_append_perm (List.range extents.x) (List.range extents.y)
    (List.range depth) (List.range' depth (extents.z - depth))
  rw [hplanes] at hperm
  rw [← Triple.map_index_points]
  refine List.Perm.trans (List.Perm.of_eq ?_) (hperm.map extents.index)
  simp only [completionTransfers, copies, mirrors, List.map_append, List.map_map]
  rfl

theorem Triple.opposite_eq_of_behind
    (hp : extents.Within p) (hbehind : ¬p.z < (TransformKind.realToComplex.packed extents).z) :
    extents.opposite p
      = ⟨(extents.x - p.x) % extents.x, (extents.y - p.y) % extents.y, extents.z - p.z⟩ := by
  have hlt : extents.z / 2 < p.z := Nat.lt_of_succ_le (not_lt.mp hbehind)
  have hz := hp.2.2
  rw [opposite, Nat.mod_eq_of_lt (show extents.z - p.z < extents.z by omega)]

/-- The two steps, frequency by frequency. -/
theorem mem_completionTransfers {t : Transfer} : t ∈ completionTransfers extents ↔
    (∃ p, (TransformKind.realToComplex.packed extents).Within p ∧
      t = ⟨extents.index p, (TransformKind.realToComplex.packed extents).index p, false⟩) ∨
    ∃ p, extents.Within p ∧ ¬p.z < (TransformKind.realToComplex.packed extents).z ∧
      t = ⟨extents.index p,
        (TransformKind.realToComplex.packed extents).index (extents.opposite p), true⟩ := by
  have hcopies : ∀ p, p ∈ gridPoints (List.range extents.x) (List.range extents.y)
      (List.range (TransformKind.realToComplex.packed extents).z) ↔
      (TransformKind.realToComplex.packed extents).Within p := by
    intro p
    simp only [mem_gridPoints, List.mem_range]
    rfl
  have hmirrors : ∀ p, p ∈ gridPoints (List.range extents.x) (List.range extents.y)
      (List.range' (TransformKind.realToComplex.packed extents).z
        (extents.z - (TransformKind.realToComplex.packed extents).z)) ↔
      extents.Within p ∧ ¬p.z < (TransformKind.realToComplex.packed extents).z := by
    intro p
    simp only [mem_gridPoints, List.mem_range, List.mem_range'_1, Triple.Within]
    omega
  simp only [completionTransfers, List.mem_append, copies, mirrors, List.mem_map, hcopies, hmirrors]
  refine or_congr (exists_congr fun p => and_congr_right' eq_comm) (exists_congr fun p => ?_)
  rw [and_assoc]
  refine and_congr_right fun hp => and_congr_right fun hbehind => ?_
  rw [Triple.opposite_eq_of_behind hp hbehind, eq_comm]

/-- Every place that is read lies in the stored half. -/
theorem source_lt_of_mem {t : Transfer} (ht : t ∈ completionTransfers extents) :
    t.source < (TransformKind.realToComplex.packed extents).volume := by
  rcases mem_completionTransfers.mp ht with ⟨p, hp, rfl⟩ | ⟨p, hp, hbehind, rfl⟩
  · exact Triple.index_lt hp
  · exact Triple.index_lt (Triple.opposite_within hp hbehind)

/-- Every transfer writes what the full volume has at its place. -/
theorem getElem?_target (hz : 0 < extents.z) (hfull : hermitianCompletion extents half = .ok full)
    {t : Transfer} (ht : t ∈ completionTransfers extents) : full[t.target]? = t.value half := by
  obtain ⟨hhalf, hsize, hvalue⟩ := hermitianCompletion_iff.mp hfull
  have hsource := hhalf.symm ▸ source_lt_of_mem ht
  rcases mem_completionTransfers.mp ht with ⟨p, hp, rfl⟩ | ⟨p, hp, hbehind, rfl⟩
  · have hwithin := TransformKind.within_of_packed hz hp
    have h := hvalue p hwithin
    rw [if_pos hp.2.2] at h
    rw [getElem?_eq_some_getD (hsize.symm ▸ Triple.index_lt hwithin) Sample.zero, h,
      Transfer.value, getElem?_eq_some_getD hsource Sample.zero]
    rfl
  · have h := hvalue p hp
    rw [if_neg hbehind] at h
    rw [getElem?_eq_some_getD (hsize.symm ▸ Triple.index_lt hp) Sample.zero, h,
      Transfer.value, getElem?_eq_some_getD hsource Sample.zero]
    rfl

/-- The full volume is what the two steps leave in an empty one. -/
theorem runTransfers_completion (hz : 0 < extents.z)
    (hfull : hermitianCompletion extents half = .ok full) :
    runTransfers half (completionTransfers extents) (Array.replicate extents.volume none)
      = full.map some := by
  have hsize := (hermitianCompletion_iff.mp hfull).2.1
  have hperm := perm_completionTransfers hz
  have hnodup : ((completionTransfers extents).map (·.target)).Nodup :=
    hperm.nodup_iff.mpr List.nodup_range
  refine Array.ext (by rw [size_runTransfers, Array.size_replicate, Array.size_map, hsize]) ?_
  intro i hi hi'
  rw [size_runTransfers, Array.size_replicate] at hi
  -- each place is written by a transfer, whose element stays there
  obtain ⟨t, ht, rfl⟩ := List.mem_map.mp (hperm.mem_iff.mpr (List.mem_range.mpr hi))
  have hcell : (runTransfers half (completionTransfers extents)
      (Array.replicate extents.volume none))[t.target]? = some full[t.target]? := by
    rw [getElem?_target hz hfull ht]
    exact getElem?_runTransfers_of_mem hnodup ht (by rwa [Array.size_replicate])
  rw [Array.getElem_map, ← Array.getElem?_eq_getElem]
  exact (Array.getElem?_eq_some_iff.mp hcell).2

end Completion

/-! ### Symmetry -/

/-- Whether two opposite frequencies hold conjugate elements. -/
def ConjugateAt (extents : Triple ℕ) (v : Volume R) (p : Triple ℕ) : Prop :=
  v.getD (extents.index (extents.opposite p)) Sample.zero
    = (v.getD (extents.index p) Sample.zero).conj

/-- Whether a stored half holds conjugate elements at the opposite frequencies of one plane, the
plane being opposite to itself. -/
def IsHermitianPlane (extents : Triple ℕ) (half : Volume R) (z : ℕ) : Prop :=
  ∀ x y, x < extents.x → y < extents.y →
    half.getD ((TransformKind.realToComplex.packed extents).index
        ⟨(extents.x - x) % extents.x, (extents.y - y) % extents.y, z⟩) Sample.zero
      = (half.getD ((TransformKind.realToComplex.packed extents).index ⟨x, y, z⟩) Sample.zero).conj

theorem sub_sub_mod_mod {a n : ℕ} (h : a < n) : (n - (n - a) % n) % n = a := by
  by_cases ha : a = 0
  · rw [ha, Nat.sub_zero, Nat.mod_self, Nat.sub_zero, Nat.mod_self]
  · rw [Nat.mod_eq_of_lt (show n - a < n by omega), Nat.sub_sub_self h.le, Nat.mod_eq_of_lt h]

theorem Triple.opposite_opposite {extents p : Triple ℕ} (hp : extents.Within p) :
    extents.opposite (extents.opposite p) = p := by
  simp only [opposite, sub_sub_mod_mod hp.1, sub_sub_mod_mod hp.2.1, sub_sub_mod_mod hp.2.2]

theorem Triple.within_opposite {extents p : Triple ℕ} (hp : extents.Within p) :
    extents.Within (extents.opposite p) :=
  ⟨Nat.mod_lt _ (Nat.zero_lt_of_lt hp.1), Nat.mod_lt _ (Nat.zero_lt_of_lt hp.2.1),
    Nat.mod_lt _ (Nat.zero_lt_of_lt hp.2.2)⟩

section Symmetry

variable [LawfulNeg R] {extents p : Triple ℕ} {half full : Volume R}

/-- Of two opposite frequencies either one may be conjugated. -/
theorem conjugateAt_opposite (hp : extents.Within p) :
    ConjugateAt extents full (extents.opposite p) ↔ ConjugateAt extents full p := by
  rw [ConjugateAt, ConjugateAt, Triple.opposite_opposite hp]
  constructor
  · intro h
    rw [h, Sample.conj_conj]
  · intro h
    rw [h, Sample.conj_conj]

/-- A full volume is completed from a half if and only if this is its stored half and the volume is
conjugate behind it. -/
theorem hermitianCompletion_eq_ok_iff (hz : 0 < extents.z) (hfull : full.size = extents.volume) :
    hermitianCompletion extents half = .ok full ↔
      extractPacked .realToComplex extents full = .ok half ∧
        ∀ p, extents.Within p → ¬p.z < (TransformKind.realToComplex.packed extents).z →
          ConjugateAt extents full p := by
  rw [hermitianCompletion_iff, extractPacked_iff hz hfull]
  -- the opposite of a frequency behind the half is stored
  have hstored : ∀ p, extents.Within p →
      ¬p.z < (TransformKind.realToComplex.packed extents).z →
      extents.Within (extents.opposite p) ∧
        (extents.opposite p).z < (TransformKind.realToComplex.packed extents).z :=
    fun p hp hbehind => ⟨Triple.within_opposite hp, (Triple.opposite_within hp hbehind).2.2⟩
  constructor
  · rintro ⟨hs, -, hc⟩
    refine ⟨⟨hs, ?_⟩, ?_⟩
    · intro p hp
      rw [hc p (TransformKind.within_of_packed hz hp), if_pos hp.2.2]
    · intro p hp hbehind
      obtain ⟨hopposite, hlt⟩ := hstored p hp hbehind
      rw [ConjugateAt, hc _ hopposite, if_pos hlt, hc p hp, if_neg hbehind, Sample.conj_conj]
  · rintro ⟨⟨hs, he⟩, hsym⟩
    refine ⟨hs, hfull, ?_⟩
    intro p hp
    split
    · next hlt => exact (he p ⟨hp.1, hp.2.1, hlt⟩).symm
    · next hbehind =>
      rw [he _ (Triple.opposite_within hp hbehind), hsym p hp hbehind, Sample.conj_conj]

theorem extractPacked_of_completion (hz : 0 < extents.z)
    (hfull : hermitianCompletion extents half = .ok full) :
    extractPacked .realToComplex extents full = .ok half :=
  ((hermitianCompletion_eq_ok_iff hz (hermitianCompletion_iff.mp hfull).2.1).mp hfull).1

theorem completion_extractPacked_iff (hz : 0 < extents.z) (hfull : full.size = extents.volume) :
    (extractPacked .realToComplex extents full >>= hermitianCompletion extents) = .ok full ↔
      ∀ p, extents.Within p → ¬p.z < (TransformKind.realToComplex.packed extents).z →
        ConjugateAt extents full p := by
  rw [extractPacked_eq hz hfull]
  refine (hermitianCompletion_eq_ok_iff hz hfull).trans ?_
  rw [extractPacked_eq hz hfull]
  exact and_iff_right rfl

/-- In a plane that is opposite to itself all that is opposite is stored. -/
theorem forall_conjugateAt_iff (hz : 0 < extents.z)
    (hfull : hermitianCompletion extents half = .ok full) {z : ℕ} (hle : z ≤ extents.z / 2)
    (hself : (extents.z - z) % extents.z = z) :
    (∀ x y, x < extents.x → y < extents.y → ConjugateAt extents full ⟨x, y, z⟩) ↔
      IsHermitianPlane extents half z := by
  obtain ⟨-, hsize, -⟩ := hermitianCompletion_iff.mp hfull
  obtain ⟨-, hstored⟩ := (extractPacked_iff hz hsize).mp (extractPacked_of_completion hz hfull)
  refine forall₄_congr fun x y hx hy => ?_
  have hp : (TransformKind.realToComplex.packed extents).Within ⟨x, y, z⟩ :=
    ⟨hx, hy, Nat.lt_succ_of_le hle⟩
  have hopposite : (TransformKind.realToComplex.packed extents).Within
      ⟨(extents.x - x) % extents.x, (extents.y - y) % extents.y, z⟩ :=
    ⟨Nat.mod_lt _ (Nat.zero_lt_of_lt hx), Nat.mod_lt _ (Nat.zero_lt_of_lt hy),
      Nat.lt_succ_of_le hle⟩
  rw [hstored _ hp, hstored _ hopposite, ConjugateAt, Triple.opposite, hself]

theorem conjugate_completion_iff_planes (hz : 0 < extents.z)
    (hfull : hermitianCompletion extents half = .ok full) :
    (∀ p, extents.Within p → ConjugateAt extents full p) ↔
      ∀ z ≤ extents.z / 2, (extents.z - z) % extents.z = z → IsHermitianPlane extents half z := by
  have hsize := (hermitianCompletion_iff.mp hfull).2.1
  have hbehind := ((hermitianCompletion_eq_ok_iff hz hsize).mp hfull).2
  constructor
  · intro h z hle hself
    refine (forall_conjugateAt_iff hz hfull hle hself).mp ?_
    intro x y hx hy
    exact h _ ⟨hx, hy, hself ▸ Nat.mod_lt _ hz⟩
  · intro h p hp
    -- a frequency is behind the half, in such a plane, or opposite to one behind the half
    by_cases hlt : extents.z / 2 < p.z
    · exact hbehind p hp (not_lt.mpr hlt)
    by_cases hself : (extents.z - p.z) % extents.z = p.z
    · have hle := not_lt.mp hlt
      exact (forall_conjugateAt_iff hz hfull hle hself).mpr (h p.z hle hself) p.x p.y hp.1 hp.2.1
    · have hpos : p.z ≠ 0 := by
        intro h0
        rw [h0, Nat.sub_zero, Nat.mod_self] at hself
        exact hself rfl
      rw [Nat.mod_eq_of_lt (by omega)] at hself
      rw [← conjugateAt_opposite hp]
      refine hbehind _ (Triple.within_opposite hp) (not_lt.mpr ?_)
      show extents.z / 2 + 1 ≤ (extents.z - p.z) % extents.z
      rw [Nat.mod_eq_of_lt (by omega)]
      omega

theorem sub_mod_eq_self_iff {n z : ℕ} (hn : 0 < n) (hz : z ≤ n / 2) :
    (n - z) % n = z ↔ z = 0 ∨ Even n ∧ z = n / 2 := by
  rw [even_iff_two_dvd]
  by_cases h0 : z = 0
  · rw [h0, Nat.sub_zero, Nat.mod_self]
    exact ⟨fun _ => .inl rfl, fun _ => rfl⟩
  · rw [Nat.mod_eq_of_lt (by omega)]
    omega

/-- A completed volume is conjugate at all opposite frequencies if and only if the stored half is so
on the planes that are opposite to themselves. -/
theorem conjugate_completion_iff (hz : 0 < extents.z)
    (hfull : hermitianCompletion extents half = .ok full) :
    (∀ p, extents.Within p → ConjugateAt extents full p) ↔
      IsHermitianPlane extents half 0 ∧
        (Even extents.z → IsHermitianPlane extents half (extents.z / 2)) := by
  rw [conjugate_completion_iff_planes hz hfull]
  constructor
  · intro h
    refine ⟨h 0 (Nat.zero_le _) ?_, fun heven => h _ le_rfl ?_⟩
    · exact (sub_mod_eq_self_iff hz (Nat.zero_le _)).mpr (.inl rfl)
    · exact (sub_mod_eq_self_iff hz le_rfl).mpr (.inr ⟨heven, rfl⟩)
  · rintro ⟨hfirst, hmiddle⟩ z hle hself
    rcases (sub_mod_eq_self_iff hz hle).mp hself with rfl | ⟨heven, rfl⟩
    · exact hfirst
    · exact hmiddle heven

/-- **A stored half is completed to a symmetric volume exactly if its own planes allow it.** Every
stored half of the right size has a full volume. The two steps write each of its places once, read
only places of the half and leave the full volume; storing that again gives the half. The full
volume is conjugate at all opposite frequencies if and only if the half is so on its first plane
and, for an even last extent, on its last one. And any volume is completed from its own stored half
if and only if it is conjugate at the frequencies behind that half. -/
theorem hermitianCompletion_symmetry (hz : 0 < extents.z)
    (hhalf : half.size = extents.x * extents.y * (extents.z / 2 + 1)) :
    (∃ full, hermitianCompletion extents half = .ok full ∧
      ((completionTransfers extents).map (·.target)).Perm
        (List.range (extents.x * extents.y * extents.z)) ∧
      (∀ t ∈ completionTransfers extents, t.source < half.size) ∧
      runTransfers half (completionTransfers extents)
          (Array.replicate (extents.x * extents.y * extents.z) none) = full.map some ∧
      extractPacked .realToComplex extents full = .ok half ∧
      ((∀ p, extents.Within p → ConjugateAt extents full p) ↔
        IsHermitianPlane extents half 0 ∧
          (Even extents.z → IsHermitianPlane extents half (extents.z / 2)))) ∧
    ∀ other : Volume R, other.size = extents.x * extents.y * extents.z →
      ((extractPacked .realToComplex extents other >>= hermitianCompletion extents) = .ok other ↔
        ∀ p, extents.Within p → extents.z / 2 < p.z → ConjugateAt extents other p) := by
  obtain ⟨full, hfull⟩ : ∃ full, hermitianCompletion extents half = .ok full :=
    ⟨_, if_pos hhalf⟩
  refine ⟨⟨full, hfull, perm_completionTransfers hz, ?_, runTransfers_completion hz hfull,
    extractPacked_of_completion hz hfull, conjugate_completion_iff hz hfull⟩, ?_⟩
  · intro t ht
    exact hhalf.symm ▸ source_lt_of_mem ht
  · intro other hother
    rw [completion_extractPacked_iff hz hother]
    refine forall₂_congr fun p _ => ?_
    rw [not_lt]
    rfl

end Symmetry

/-- Two elements are completed to three. -/
theorem hermitianCompletion_symmetry_line :
    0 < (⟨1, 1, 3⟩ : Triple ℕ).z ∧ (#[⟨1, 0⟩, ⟨2, 3⟩] : Volume ℝ).size = 1 * 1 * (3 / 2 + 1) ∧
      ∃ full, hermitianCompletion ⟨1, 1, 3⟩ (#[⟨1, 0⟩, ⟨2, 3⟩] : Volume ℝ) = .ok full ∧
        extractPacked .realToComplex ⟨1, 1, 3⟩ full = .ok #[⟨1, 0⟩, ⟨2, 3⟩] ∧
        ∀ p, (⟨1, 1, 3⟩ : Triple ℕ).Within p → ConjugateAt ⟨1, 1, 3⟩ full p := by
  have hz : 0 < (⟨1, 1, 3⟩ : Triple ℕ).z := by decide
  have hsize : (#[⟨1, 0⟩, ⟨2, 3⟩] : Volume ℝ).size = 1 * 1 * (3 / 2 + 1) := rfl
  obtain ⟨⟨full, hfull, -, -, -, hstored, hsym⟩, -⟩ := hermitianCompletion_symmetry hz hsize
  refine ⟨hz, hsize, full, hfull, hstored, hsym.mpr ⟨?_, ?_⟩⟩
  · -- the only element of the first plane has no imaginary part
    intro x y hx hy
    obtain rfl : x = 0 := Nat.lt_one_iff.mp hx
    obtain rfl : y = 0 := Nat.lt_one_iff.mp hy
    show (⟨1, 0⟩ : Sample ℝ) = ⟨1, -0⟩
    rw [neg_zero]
  · intro heven
    exact absurd heven (by decide)

end FourierAudit
