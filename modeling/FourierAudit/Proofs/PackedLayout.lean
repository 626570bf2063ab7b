/-
What a transform stores of a spectrum.

A stored spectrum is a row-major volume of its own, with fewer planes along the last axis. Every
stored frequency lies in the full volume as well, and elements move between the two by their
frequency:

* `extractPacked_iff` — what is stored of a full volume;
* `hermitianCompletion_iff` — the full volume of a stored half;
* `Triple.opposite_within` — a frequency that is not stored is opposite to one that is.
-/
import FourierAudit.Proofs.RowMajor
import FourierAudit.Packing

namespace FourierAudit

variable {R : Type} [Scalar R]

theorem getElem?_eq_some_getD {α : Type} {v : Array α} {i : ℕ} (h : i < v.size) (d : α) :
    v[i]? = some (v.getD i d) := by
  rw [Array.getD_eq_getD_getElem?, Array.getElem?_eq_getElem h, Option.getD_some]

theorem getD_ofFn {α : Type} {n : ℕ} (f : Fin n → α) (d : α) {i : ℕ} (h : i < n) :
    (Array.ofFn f).getD i d = f ⟨i, h⟩ := by
  rw [Array.getD_eq_getD_getElem?, Array.getElem?_eq_getElem (by simpa using h),
    Option.getD_some, Array.getElem_ofFn]

theorem getD_map {α β : Type} (f : α → β) {v : Array α} {i : ℕ} (h : i < v.size) (a : α) (b : β) :
    (v.map f).getD i b = f (v.getD i a) := by
  rw [Array.getD_eq_getD_getElem?, Array.getD_eq_getD_getElem?, Array.getElem?_map,
    Array.getElem?_eq_getElem h, Option.map_some, Option.getD_some, Option.getD_some]

theorem getD_extract {α : Type} {v : Array α} {i n : ℕ} (h : i < n) (a : α) :
    (v.extract 0 n).getD i a = v.getD i a := by
  rw [Array.getD_eq_getD_getElem?, Array.getD_eq_getD_getElem?, Array.getElem?_extract,
    Nat.zero_add]
  rcases Nat.lt_or_ge i v.size with hi | hi
  · rw [if_pos (by omega)]
  · rw [if_neg (by omega), Array.getElem?_eq_none hi]

/-- Two volumes of a grid are equal if they agree at every point. -/
theorem ext_index {extents : Triple ℕ} {v w : Volume R} (hv : v.size = extents.volume)
    (hw : w.size = extents.volume)
    (h : ∀ p, extents.Within p →
      v.getD (extents.index p) Sample.zero = w.getD (extents.index p) Sample.zero) : v = w := by
  apply Array.ext (hv.trans hw.symm)
  intro i hi hi'
  have := h (extents.point i) (Triple.within_point (hv ▸ hi))
  rwa [Triple.index_point, Array.getD_eq_getD_getElem?, Array.getD_eq_getD_getElem?,
    Array.getElem?_eq_getElem hi, Array.getElem?_eq_getElem hi'] at this

theorem size_complexEmbedding (values : Array R) :
    (complexEmbedding values).size = values.size := by
  rw [complexEmbedding, Array.size_map]

/-! ### Stored frequencies -/

namespace TransformKind

/-- The stored extents of a grid whose last axis is not empty are no larger than its own. -/
theorem packedDepth_le (kind : TransformKind) {z : ℕ} (hz : 0 < z) : kind.packedDepth z ≤ z := by
  cases kind with
  | complexToComplex => exact le_rfl
  | realToComplex =>
    show z / 2 + 1 ≤ z
    omega

theorem packedDepth_pos (kind : TransformKind) {z : ℕ} (hz : 0 < z) : 0 < kind.packedDepth z := by
  cases kind with
  | complexToComplex => exact hz
  | realToComplex => exact Nat.succ_pos _

/-- Of a grid that is not empty something is stored. -/
theorem volume_packed_pos (kind : TransformKind) {extents : Triple ℕ}
    (hpos : 0 < extents.x ∧ 0 < extents.y ∧ 0 < extents.z) :
    0 < (kind.packed extents).volume :=
  Nat.mul_pos (Nat.mul_pos hpos.1 hpos.2.1) (kind.packedDepth_pos hpos.2.2)

theorem within_of_packed {kind : TransformKind} {extents p : Triple ℕ} (hz : 0 < extents.z)
    (h : (kind.packed extents).Within p) : extents.Within p :=
  ⟨h.1, h.2.1, lt_of_lt_of_le h.2.2 (kind.packedDepth_le hz)⟩

theorem volume_packed_le (kind : TransformKind) {extents : Triple ℕ} (hz : 0 < extents.z) :
    (kind.packed extents).volume ≤ extents.volume :=
  Nat.mul_le_mul_left _ (kind.packedDepth_le hz)

theorem roundTripSize_le (kind : TransformKind) (points : ℕ) :
    kind.roundTripSize points ≤ points := by
  cases kind with
  | complexToComplex => exact le_rfl
  | realToComplex => exact Nat.div_le_self points 2

/-- Of an element that a round trip of real samples compares, both components are samples. -/
theorem pair_lt_of_lt_roundTripSize {points j : ℕ} (hj : j < realToComplex.roundTripSize points) :
    2 * j + 1 < points := by
  replace hj : j < points / 2 := hj
  omega

theorem packedDepth_natural (kind : TransformKind) (z : ℕ) :
    kind.packedDepth (z : ℤ) = (kind.packedDepth z : ℕ) := by
  cases kind <;> rfl

theorem roundTripSize_natural (kind : TransformKind) (points : ℕ) :
    kind.roundTripSize (points : ℤ) = (kind.roundTripSize points : ℕ) := by
  cases kind <;> rfl

end TransformKind

namespace Triple

/-- The point opposite to one behind the stored half lies in the stored half. -/
theorem opposite_within {extents p : Triple ℕ} (h : extents.Within p)
    (hp : ¬p.z < (TransformKind.realToComplex.packed extents).z) :
    (TransformKind.realToComplex.packed extents).Within (extents.opposite p) := by
  obtain ⟨hx, hy, hz⟩ := h
  refine ⟨Nat.mod_lt _ (by omega), Nat.mod_lt _ (by omega), ?_⟩
  replace hp : ¬p.z < extents.z / 2 + 1 := hp
  show (extents.z - p.z) % extents.z < extents.z / 2 + 1
  rw [Nat.mod_eq_of_lt (by omega)]
  omega

end Triple

/-! ### From the full volume to the stored one -/

section Extract

variable {kind : TransformKind} {extents : Triple ℕ}

theorem packedToFull_eq (kind : TransformKind) (extents : Triple ℕ) :
    packedToFull kind extents
      = Array.ofFn fun i : Fin (kind.packed extents).volume =>
          extents.index ((kind.packed extents).point i) := by
  rw [packedToFull, packedPoints, Array.map_ofFn]
  rfl

@[simp] theorem size_packedToFull (kind : TransformKind) (extents : Triple ℕ) :
    (packedToFull kind extents).size = (kind.packed extents).volume := by
  rw [packedToFull_eq, Array.size_ofFn]

theorem packedToFull_lt (hz : 0 < extents.z) {i : ℕ} (hi : i ∈ packedToFull kind extents) :
    i < extents.volume := by
  rw [packedToFull_eq, Array.mem_ofFn] at hi
  obtain ⟨k, rfl⟩ := hi
  exact Triple.index_lt (TransformKind.within_of_packed hz (Triple.within_point k.isLt))

/-- Of a full volume every stored element is there. -/
theorem extractPacked_eq (hz : 0 < extents.z) {v : Volume R} (hv : v.size = extents.volume) :
    extractPacked kind extents v
      = .ok ((packedToFull kind extents).map fun i => v.getD i Sample.zero) := by
  have hfind : (packedToFull kind extents).find? (v.size ≤ ·) = none := by
    rw [Array.find?_eq_none]
    intro i hi
    have := packedToFull_lt hz hi
    simp only [decide_eq_true_eq]
    omega
  rw [extractPacked]
  simp only [hfind]

/-- What is stored of a full volume, frequency by frequency. -/
theorem extractPacked_iff (hz : 0 < extents.z) {v half : Volume R} (hv : v.size = extents.volume) :
    extractPacked kind extents v = .ok half ↔
      half.size = (kind.packed extents).volume ∧
        ∀ p, (kind.packed extents).Within p →
          half.getD ((kind.packed extents).index p) Sample.zero
            = v.getD (extents.index p) Sample.zero := by
  set stored : Volume R := (packedToFull kind extents).map fun i => v.getD i Sample.zero with hdef
  have hsize : stored.size = (kind.packed extents).volume := by
    rw [hdef, Array.size_map, size_packedToFull]
  -- a stored frequency is looked up at its own place in the full volume
  have hstored : ∀ p, (kind.packed extents).Within p →
      stored.getD ((kind.packed extents).index p) Sample.zero
        = v.getD (extents.index p) Sample.zero := by
    intro p hp
    rw [hdef, packedToFull_eq, Array.map_ofFn, getD_ofFn _ _ (Triple.index_lt hp),
      Function.comp_apply, Triple.point_index hp]
  rw [extractPacked_eq hz hv, Except.ok.injEq]
  constructor
  · rintro rfl
    exact ⟨hsize, hstored⟩
  · rintro ⟨hs, hp⟩
    exact ext_index hsize hs fun p h => (hstored p h).trans (hp p h).symm

/-- Elements are stored as they are, so what is done to all of them is done to the stored ones. -/
theorem extractPacked_map (hz : 0 < extents.z) {v half : Volume R} (hv : v.size = extents.volume)
    (h : extractPacked kind extents v = .ok half) (f : Sample R → Sample R) :
    extractPacked kind extents (v.map f) = .ok (half.map f) := by
  rw [extractPacked_eq hz hv, Except.ok.injEq] at h
  rw [extractPacked_eq hz (Array.size_map.trans hv), ← h, Array.map_map]
  congr 1
  apply Array.map_congr_left
  intro i hi
  exact getD_map f (hv ▸ packedToFull_lt hz hi) _ _

/-- A whole spectrum is stored as it is. -/
theorem extractPacked_complexToComplex (hz : 0 < extents.z) {v : Volume R}
    (hv : v.size = extents.volume) : extractPacked .complexToComplex extents v = .ok v :=
  (extractPacked_iff hz hv).mpr ⟨hv, fun _ _ => rfl⟩

end Extract

/-! ### From the stored half to the full volume -/

/-- The full volume of a stored half, frequency by frequency. -/
theorem hermitianCompletion_iff {extents : Triple ℕ} {half full : Volume R} :
    hermitianCompletion extents half = .ok full ↔
      half.size = (TransformKind.realToComplex.packed extents).volume ∧
        full.size = extents.volume ∧
        ∀ p, extents.Within p → full.getD (extents.index p) Sample.zero =
          if p.z < (TransformKind.realToComplex.packed extents).z then
            half.getD ((TransformKind.realToComplex.packed extents).index p) Sample.zero
          else (half.getD ((TransformKind.realToComplex.packed extents).index
            (extents.opposite p)) Sample.zero).conj := by
  rw [hermitianCompletion]
  by_cases hs : half.size = (TransformKind.realToComplex.packed extents).volume
  · simp only [hs, if_true, true_and, Except.ok.injEq]
    constructor
    · rintro rfl
      refine ⟨Array.size_ofFn, ?_⟩
      intro p hp
      rw [getD_ofFn _ _ (Triple.index_lt hp)]
      simp only [Triple.point_index hp]
    · rintro ⟨hsize, hfull⟩
      refine ext_index Array.size_ofFn hsize ?_
      intro p hp
      rw [hfull p hp, getD_ofFn _ _ (Triple.index_lt hp)]
      simp only [Triple.point_index hp]
  · simp [hs]

end FourierAudit
