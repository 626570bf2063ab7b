/-
The order of the stored frequencies.

The stored frequencies are those of a grid with fewer planes along its last axis. They are
enumerated axis by axis, and this is the order of their places in the full volume as well:

* `gridPoints` — the points with coordinates from three lists, the last one running fastest;
* `Triple.map_index_points` — the points of a grid have the places `0, 1, 2, …` in row-major order;
* `Triple.index_lt_iff` — places are in the lexicographic order of the points;
* `index_lt_index_iff` — the places of two stored frequencies compare alike in both volumes;
* `packedToFull_layout` — the stored frequencies and the places where they are stored.
-/
import FourierAudit.Proofs.PackedLayout

namespace FourierAudit

/-! ### Points in row-major order -/

/-- The points with coordinates from three lists, the last one running fastest. -/
def gridPoints (xs ys zs : List ℕ) : List (Triple ℕ) :=
  xs.flatMap fun x => ys.flatMap fun y => zs.map fun z => ⟨x, y, z⟩

theorem mem_gridPoints {xs ys zs : List ℕ} {p : Triple ℕ} :
    p ∈ gridPoints xs ys zs ↔ p.x ∈ xs ∧ p.y ∈ ys ∧ p.z ∈ zs := by
  simp only [gridPoints, List.mem_flatMap, List.mem_map]
  constructor
  · rintro ⟨x, hx, y, hy, z, hz, rfl⟩
    exact ⟨hx, hy, hz⟩
  · rintro ⟨hx, hy, hz⟩
    exact ⟨p.x, hx, p.y, hy, p.z, hz, rfl⟩

theorem flatMap_range_mul (a b : ℕ) :
    ((List.range a).flatMap fun i => (List.range b).map fun j => i * b + j)
      = List.range (a * b) := by
  induction a with
  | zero => simp
  | succ a ih =>
    rw [List.range_succ, List.flatMap_append, ih, List.flatMap_singleton, Nat.succ_mul,
      List.range_add]

theorem mul_add_lt_iff {a a' b c c' : ℕ} (hc : c < b) (hc' : c' < b) :
    a * b + c < a' * b + c' ↔ a < a' ∨ a = a' ∧ c < c' := by
  rcases lt_trichotomy a a' with h | rfl | h
  · have hle : (a + 1) * b ≤ a' * b := Nat.mul_le_mul_right b h
    rw [Nat.succ_mul] at hle
    omega
  · omega
  · have hle : (a' + 1) * b ≤ a * b := Nat.mul_le_mul_right b h
    rw [Nat.succ_mul] at hle
    omega

theorem mul_add_eq_iff {a a' b c c' : ℕ} (hc : c < b) (hc' : c' < b) :
    a * b + c = a' * b + c' ↔ a = a' ∧ c = c' := by
  constructor
  · intro h
    have hquotient := congrArg (· / b) h
    simp only [mul_add_div_of_lt hc, mul_add_div_of_lt hc'] at hquotient
    subst hquotient
    exact ⟨rfl, Nat.add_left_cancel h⟩
  · rintro ⟨rfl, rfl⟩
    rfl

namespace Triple

/-- The points of a grid, the last axis running fastest. -/
def points (extents : Triple ℕ) : List (Triple ℕ) :=
  gridPoints (List.range extents.x) (List.range extents.y) (List.range extents.z)

variable {extents p q : Triple ℕ}

theorem mem_points : p ∈ extents.points ↔ extents.Within p := by
  simp only [points, mem_gridPoints, List.mem_range, Within]

/-- The places of the points of a grid are the numbers up to its volume, in this order. -/
theorem map_index_points (extents : Triple ℕ) :
    extents.points.map extents.index = List.range extents.volume := by
  rw [volume, ← flatMap_range_mul, ← flatMap_range_mul, List.flatMap_assoc]
  simp only [points, gridPoints, List.map_flatMap, List.map_map, List.flatMap_map]
  rfl

theorem map_point_range (extents : Triple ℕ) :
    (List.range extents.volume).map extents.point = extents.points := by
  rw [← map_index_points, List.map_map]
  refine List.map_congr_left ?_ |>.trans (List.map_id _)
  intro p hp
  exact point_index (mem_points.mp hp)

theorem pairwise_points (extents : Triple ℕ) :
    extents.points.Pairwise fun p q => extents.index p < extents.index q := by
  rw [← List.pairwise_map (R := (· < ·)), map_index_points]
  exact List.pairwise_lt_range

theorem nodup_points (extents : Triple ℕ) : extents.points.Nodup := by
  apply List.Nodup.of_map extents.index
  rw [map_index_points]
  exact List.nodup_range

/-- The places of points are in lexicographic order. -/
theorem index_lt_iff (hp : extents.Within p) (hq : extents.Within q) :
    extents.index p < extents.index q ↔ p.toList < q.toList := by
  obtain ⟨-, hpy, hpz⟩ := hp
  obtain ⟨-, hqy, hqz⟩ := hq
  rw [index, index, mul_add_lt_iff hpz hqz, mul_add_lt_iff hpy hqy, mul_add_eq_iff hpy hqy]
  simp only [toList, List.cons_lt_cons_iff, List.not_lt_nil, and_false, or_false]
  tauto

theorem index_le_iff (hp : extents.Within p) (hq : extents.Within q) :
    extents.index p ≤ extents.index q ↔ p.toList ≤ q.toList := by
  rw [← not_lt, ← not_lt, index_lt_iff hq hp]

end Triple

/-! ### The stored frequencies -/

section Packed

variable {kind : TransformKind} {extents p q : Triple ℕ}

theorem toList_packedPoints (kind : TransformKind) (extents : Triple ℕ) :
    (packedPoints kind extents).toList = (kind.packed extents).points := by
  rw [packedPoints, Array.toList_ofFn, ← Triple.map_point_range, List.ofFn_eq_map,
    ← List.map_coe_finRange_eq_range, List.map_map]
  rfl

theorem toList_packedToFull (kind : TransformKind) (extents : Triple ℕ) :
    (packedToFull kind extents).toList = (kind.packed extents).points.map extents.index := by
  rw [packedToFull, Array.toList_map, toList_packedPoints]

/-- Two stored frequencies stand in the same order in the stored and in the full volume. -/
theorem index_lt_index_iff (hz : 0 < extents.z) (hp : (kind.packed extents).Within p)
    (hq : (kind.packed extents).Within q) :
    extents.index p < extents.index q ↔
      (kind.packed extents).index p < (kind.packed extents).index q := by
  have hp' := TransformKind.within_of_packed hz hp
  have hq' := TransformKind.within_of_packed hz hq
  rw [Triple.index_lt_iff hp' hq', Triple.index_lt_iff hp hq]

theorem pairwise_packedToFull (hz : 0 < extents.z) :
    (packedToFull kind extents).toList.Pairwise (· < ·) := by
  rw [toList_packedToFull, List.pairwise_map]
  refine (Triple.pairwise_points _).imp_of_mem ?_
  intro p q hp hq hlt
  exact (index_lt_index_iff hz (Triple.mem_points.mp hp) (Triple.mem_points.mp hq)).mpr hlt

/-- The stored elements of a full volume are those of the first planes along the last axis. -/
theorem mem_packedToFull_iff (hz : 0 < extents.z) {i : ℕ} (hi : i < extents.volume) :
    i ∈ packedToFull kind extents ↔ i % extents.z < kind.packedDepth extents.z := by
  rw [← Array.mem_toList_iff, toList_packedToFull, List.mem_map]
  constructor
  · rintro ⟨p, hp, rfl⟩
    have hwithin := Triple.mem_points.mp hp
    have hz' := (TransformKind.within_of_packed hz hwithin).2.2
    rw [Triple.index, Nat.mul_add_mod_of_lt hz']
    exact hwithin.2.2
  · intro h
    have hwithin := Triple.within_point hi
    refine ⟨extents.point i, Triple.mem_points.mpr ⟨hwithin.1, hwithin.2.1, h⟩, ?_⟩
    exact Triple.index_point extents i

theorem getElem?_packedToFull (hp : (kind.packed extents).Within p) :
    (packedToFull kind extents)[(kind.packed extents).index p]? = some (extents.index p) := by
  have hlt : (kind.packed extents).index p < (packedToFull kind extents).size := by
    rw [size_packedToFull]
    exact Triple.index_lt hp
  rw [Array.getElem?_eq_getElem hlt]
  simp only [packedToFull_eq, Array.getElem_ofFn, Triple.point_index hp]

/-- A whole spectrum is stored as it is. -/
theorem packedToFull_complexToComplex (extents : Triple ℕ) :
    packedToFull .complexToComplex extents = Array.range extents.volume := by
  rw [← Array.toList_inj, toList_packedToFull, Array.toList_range, ← Triple.map_index_points]
  rfl

/-- Of two opposite frequencies of a real volume at least one is stored. -/
theorem mem_packedPoints_or_opposite (hp : extents.Within p) :
    p ∈ packedPoints .realToComplex extents ∨
      extents.opposite p ∈ packedPoints .realToComplex extents := by
  simp only [← Array.mem_toList_iff, toList_packedPoints, Triple.mem_points]
  by_cases h : p.z < (TransformKind.realToComplex.packed extents).z
  · exact .inl ⟨hp.1, hp.2.1, h⟩
  · exact .inr (Triple.opposite_within hp h)

/-- **The stored frequencies are those of the first planes, in the order of the full volume.** The
places in the full volume of the stored elements are strictly increasing and are those whose
remainder by the last extent is below the stored one; at the place of a stored frequency stands the
place of the same frequency in the full volume. The stored frequencies are enumerated axis by axis,
each of them once and at its own place. A whole spectrum is stored as it is, and of a real volume
each frequency is stored or the opposite one is. -/
theorem packedToFull_layout (kind : TransformKind) {extents : Triple ℕ}
    (hpos : 0 < extents.x ∧ 0 < extents.y ∧ 0 < extents.z) :
    (packedToFull kind extents).size
        = extents.x * extents.y * kind.packedDepth extents.z ∧
      (packedToFull kind extents).toList.Pairwise (· < ·) ∧
      (∀ i ∈ packedToFull kind extents, i < extents.x * extents.y * extents.z) ∧
      (∀ i < extents.x * extents.y * extents.z,
        i ∈ packedToFull kind extents ↔ i % extents.z < kind.packedDepth extents.z) ∧
      (∀ x y z, x < extents.x → y < extents.y → z < kind.packedDepth extents.z →
        (packedToFull kind extents)[(kind.packed extents).index ⟨x, y, z⟩]?
          = some (extents.index ⟨x, y, z⟩)) ∧
      (packedPoints kind extents).toList = gridPoints (List.range extents.x)
        (List.range extents.y) (List.range (kind.packedDepth extents.z)) ∧
      (packedPoints kind extents).toList.Nodup ∧
      (∀ x y z, ⟨x, y, z⟩ ∈ packedPoints kind extents ↔
        x < extents.x ∧ y < extents.y ∧ z < kind.packedDepth extents.z) ∧
      (packedPoints kind extents).toList.map (kind.packed extents).index
        = List.range (extents.x * extents.y * kind.packedDepth extents.z) ∧
      (kind = .complexToComplex → packedToFull kind extents
        = Array.range (extents.x * extents.y * extents.z)) ∧
      (kind = .realToComplex → ∀ x y z, x < extents.x → y < extents.y → z < extents.z →
        ⟨x, y, z⟩ ∈ packedPoints kind extents ∨
          ⟨(extents.x - x) % extents.x, (extents.y - y) % extents.y, (extents.z - z) % extents.z⟩
            ∈ packedPoints kind extents) := by
  have hz := hpos.2.2
  have hpoints := toList_packedPoints kind extents
  refine ⟨size_packedToFull kind extents, pairwise_packedToFull hz,
    fun i hi => packedToFull_lt hz hi, fun i hi => mem_packedToFull_iff hz hi, ?_, hpoints, ?_, ?_,
    ?_, ?_, ?_⟩
  · intro x y z hx hy hz'
    exact getElem?_packedToFull ⟨hx, hy, hz'⟩
  · rw [hpoints]
    exact Triple.nodup_points _
  · intro x y z
    rw [← Array.mem_toList_iff, hpoints, Triple.mem_points]
    rfl
  · rw [hpoints]
    exact Triple.map_index_points _
  · rintro rfl
    exact packedToFull_complexToComplex extents
  · rintro rfl x y z hx hy hz'
    exact mem_packedPoints_or_opposite ⟨hx, hy, hz'⟩

/-- The stored half of a grid whose last extent is odd. -/
theorem packedToFull_layout_odd :
    (0 < (⟨2, 1, 5⟩ : Triple ℕ).x ∧ 0 < (⟨2, 1, 5⟩ : Triple ℕ).y ∧ 0 < (⟨2, 1, 5⟩ : Triple ℕ).z) ∧
      (packedToFull .realToComplex ⟨2, 1, 5⟩).toList.Pairwise (· < ·) ∧
      (packedToFull .realToComplex ⟨2, 1, 5⟩)[4]? = some 6 := by
  have hpos : 0 < (⟨2, 1, 5⟩ : Triple ℕ).x ∧ 0 < (⟨2, 1, 5⟩ : Triple ℕ).y ∧
      0 < (⟨2, 1, 5⟩ : Triple ℕ).z := by
    decide
  obtain ⟨-, hincreasing, -, -, hplace, -⟩ := packedToFull_layout .realToComplex hpos
  exact ⟨hpos, hincreasing, hplace 1 0 1 (by decide) (by decide) (by decide)⟩

end Packed

end FourierAudit
