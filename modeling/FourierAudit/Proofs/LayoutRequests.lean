/-
Grids that are asked for with integers.

The stored frequencies, the moves between full and stored volumes and the kernel of an axis are
asked for with any integers as extents. What is answered is what the grid with these extents has,
and it is answered exactly if arrays can hold it:

* `Triple.natural?_eq_some_iff` — the grid that has integers as its extents;
* `storedPoints_eq_ok_iff`, `storedPlaces_eq_map` — the stored frequencies, and their places, for
  any integers at all, and `storedPlaces_layout`, the order of the places;
* `storedPlaces_natural`, `completeStored_natural` — the limit for a grid without empty axes;
* `completeStored_symmetry` — a volume that could be completed has the stored half that it was
  completed from, and is as symmetric as that half allows;
* `dftMatrix_eq`, `dftMatrix_rootTable` — the dense kernel, and the table that stands for it.
-/
import FourierAudit.Proofs.FailingSteps
import FourierAudit.Proofs.HermitianCompletion
import FourierAudit.Proofs.ReferenceHistory

namespace FourierAudit

variable {R : Type} [Scalar R]

/-! ### Integers as extents -/

/-- Natural extents as integers. -/
def Triple.toInt (extents : Triple ℕ) : Triple ℤ := ⟨extents.x, extents.y, extents.z⟩

namespace Triple

variable {dims : Triple ℤ} {extents : Triple ℕ}

theorem natural?_eq_some_iff : dims.natural? = some extents ↔ dims = extents.toInt := by
  obtain ⟨x, y, z⟩ := dims
  obtain ⟨a, b, c⟩ := extents
  simp only [natural?, toInt, Option.ite_none_right_eq_some, Option.some.injEq, Triple.mk.injEq]
  omega

theorem natural?_eq_none_iff : dims.natural? = none ↔ dims.x < 0 ∨ dims.y < 0 ∨ dims.z < 0 := by
  rw [natural?, ite_eq_right_iff]
  simp only [reduceCtorEq, imp_false]
  omega

theorem natural?_toInt (extents : Triple ℕ) : extents.toInt.natural? = some extents :=
  natural?_eq_some_iff.mpr rfl

theorem packed_toInt (kind : TransformKind) (extents : Triple ℕ) :
    kind.packed extents.toInt = (kind.packed extents).toInt := by
  simp only [TransformKind.packed, toInt, kind.packedDepth_natural]

end Triple

/-! ### Stored frequencies -/

section Stored

variable {kind : TransformKind} {dims : Triple ℤ} {extents : Triple ℕ}

/-- The stored frequencies of the grid that integers stand for, axis by axis. -/
theorem points_stored (kind : TransformKind) (dims : Triple ℤ) :
    (kind.packed (dims.natural?.getD ⟨0, 0, 0⟩)).points =
      gridPoints (List.range dims.x.toNat) (List.range dims.y.toNat)
        (List.range (kind.packedDepth dims.z).toNat) := by
  rcases h : dims.natural? with _ | extents
  · rw [Triple.natural?_eq_none_iff] at h
    have hnone : gridPoints (List.range dims.x.toNat) (List.range dims.y.toNat)
        (List.range (kind.packedDepth dims.z).toNat) = [] := by
      -- nothing lies below a negative extent, and the stored extent of such an axis is not positive
      rw [List.eq_nil_iff_forall_not_mem]
      intro p hp
      obtain ⟨hx, hy, hz⟩ := mem_gridPoints.mp hp
      rw [List.mem_range] at hx hy hz
      rcases kind with _ | _ <;> simp only [TransformKind.packedDepth] at hz <;> omega
    exact hnone.symm
  · rw [Triple.natural?_eq_some_iff] at h
    rw [h, Triple.toInt, kind.packedDepth_natural]
    rfl

/-- The stored frequencies for any integers: those of each axis up to its extent, if arrays can hold
their coordinates. -/
theorem storedPoints_eq_ok_iff {points : Array (Triple ℕ)} :
    (storedPoints kind dims : Except (Failure R) _) = .ok points ↔
      isAddressable 8 (kind.packed dims).toList = true ∧
        points.toList = gridPoints (List.range dims.x.toNat) (List.range dims.y.toNat)
          (List.range (kind.packedDepth dims.z).toNat) := by
  rw [← points_stored, ← toList_packedPoints, Array.toList_inj, storedPoints,
    TransformKind.storedGrid]
  by_cases h : isAddressable 8 (kind.packed dims).toList = true
  · rw [if_pos h, ok_bind, and_iff_right h, eq_comm]
    exact ⟨Except.ok.inj, congrArg _⟩
  · rw [if_neg h, error_bind]
    exact ⟨nofun, fun hpoints => absurd hpoints.1 h⟩

/-- Their places are those of the same frequencies in the full volume. -/
theorem storedPlaces_eq_map (kind : TransformKind) (dims : Triple ℤ) :
    (storedPlaces kind dims : Except (Failure R) _) = (storedPoints kind dims).map fun points =>
      points.map (Triple.index ⟨dims.x.toNat, dims.y.toNat, dims.z.toNat⟩) := by
  have hplaces : packedToFull kind (dims.natural?.getD ⟨0, 0, 0⟩) =
      (packedPoints kind (dims.natural?.getD ⟨0, 0, 0⟩)).map
        (Triple.index ⟨dims.x.toNat, dims.y.toNat, dims.z.toNat⟩) := by
    rcases h : dims.natural? with _ | extents
    · have hnone : packedPoints kind ⟨0, 0, 0⟩ = #[] := by
        cases kind <;> rfl
      rw [Option.getD_none, packedToFull, hnone, Array.map_empty, Array.map_empty]
    · rw [Triple.natural?_eq_some_iff] at h
      rw [h]
      rfl
  rw [storedPlaces, storedPoints, TransformKind.storedGrid]
  split
  · exact congrArg Except.ok hplaces
  · rfl

theorem storedPlaces_eq_packedToFull (hz : 0 < dims.z) {places : Array ℕ}
    (h : (storedPlaces kind dims : Except (Failure R) _) = .ok places) :
    places = packedToFull kind ⟨dims.x.toNat, dims.y.toNat, dims.z.toNat⟩ := by
  rw [storedPlaces_eq_map] at h
  rcases hpoints : (storedPoints kind dims : Except (Failure R) _) with e | points <;>
    rw [hpoints] at h
  · cases h
  · obtain rfl := Except.ok.inj h
    obtain ⟨-, hlist⟩ := storedPoints_eq_ok_iff.mp hpoints
    obtain ⟨z, hdepth⟩ := Int.eq_ofNat_of_zero_le hz.le
    rw [hdepth, kind.packedDepth_natural] at hlist
    rw [← Array.toList_inj, Array.toList_map, toList_packedToFull, hlist, hdepth]
    rfl

/-- The places are increasing, and they are those in the first planes of the full volume. -/
theorem storedPlaces_layout (hz : 0 < dims.z) {places : Array ℕ}
    (h : (storedPlaces kind dims : Except (Failure R) _) = .ok places) :
    places.toList.Pairwise (· < ·) ∧ ∀ i, i ∈ places ↔
      i < dims.x.toNat * dims.y.toNat * dims.z.toNat ∧
        i % dims.z.toNat < kind.packedDepth dims.z.toNat := by
  have hz' : 0 < dims.z.toNat := by omega
  obtain rfl := storedPlaces_eq_packedToFull hz h
  refine ⟨pairwise_packedToFull hz', fun i => ⟨fun hi => ?_, fun hi => ?_⟩⟩
  · have hlt := packedToFull_lt hz' hi
    exact ⟨hlt, (mem_packedToFull_iff hz' hlt).mp hi⟩
  · exact (mem_packedToFull_iff hz' hi.1).mpr hi.2

theorem storedGrid_natural (hpos : 0 < extents.x ∧ 0 < extents.y ∧ 0 < extents.z) :
    (kind.storedGrid extents.toInt : Except (Failure R) _) =
      if 8 * (kind.packed extents).volume < 2 ^ 63 then .ok extents
      else .error (.invalid .arrayTooLong) := by
  have haddr := isAddressable_toList (by decide : 0 < 8) (kind.volume_packed_pos hpos)
  rw [TransformKind.storedGrid, Triple.packed_toInt, Triple.natural?_toInt]
  exact if_congr haddr rfl rfl

theorem storedPoints_natural (hpos : 0 < extents.x ∧ 0 < extents.y ∧ 0 < extents.z) :
    (storedPoints kind extents.toInt : Except (Failure R) _) =
      if 8 * (kind.packed extents).volume < 2 ^ 63 then .ok (packedPoints kind extents)
      else .error (.invalid .arrayTooLong) := by
  rw [storedPoints, storedGrid_natural hpos]
  split <;> rfl

theorem storedPlaces_natural (hpos : 0 < extents.x ∧ 0 < extents.y ∧ 0 < extents.z) :
    (storedPlaces kind extents.toInt : Except (Failure R) _) =
      if 8 * (kind.packed extents).volume < 2 ^ 63 then .ok (packedToFull kind extents)
      else .error (.invalid .arrayTooLong) := by
  rw [storedPlaces, storedGrid_natural hpos]
  split <;> rfl

end Stored

/-! ### Completion -/

section Completion

variable {dims : Triple ℤ} {extents : Triple ℕ} {held : Precision}

theorem grid_eq_ok_iff : (held.grid dims : Except (Failure R) _) = .ok extents ↔
    dims = extents.toInt ∧ isAddressable held.elementSize extents.toInt.toList = true := by
  rw [Precision.grid]
  constructor
  · split
    · next grid hgrid haddr =>
      intro h
      obtain rfl := Except.ok.inj h
      rw [Triple.natural?_eq_some_iff] at hgrid
      rw [hgrid] at haddr
      exact ⟨hgrid, haddr⟩
    · exact nofun
  · rintro ⟨rfl, haddr⟩
    rw [Triple.natural?_toInt, haddr]

theorem isAddressable_toInt (held : Precision) (hpos : 0 < extents.volume) :
    isAddressable held.elementSize extents.toInt.toList = true ↔
      held.elementSize.toNat * extents.volume < 2 ^ 63 := by
  have hprod := extents.list_prod_toList
  have haddr := @isAddressable_elements held extents.toList (by decide : 3 ≤ 64) (hprod.symm ▸ hpos)
  rw [hprod] at haddr
  exact haddr

/-- Where arrays can hold a volume, they can hold the coordinates of what is stored of it. -/
theorem isAddressable_packed (kind : TransformKind) (hz : 0 < extents.z)
    (h : isAddressable held.elementSize extents.toInt.toList = true) :
    isAddressable 8 (kind.packed extents).toInt.toList = true := by
  have hle : List.Forall₂ (· ≤ ·) (kind.packed extents).toList extents.toList :=
    .cons le_rfl (.cons le_rfl (.cons (kind.packedDepth_le hz) .nil))
  obtain ⟨size, hsize, hvolume⟩ : ∃ size : ℕ, 8 ≤ size ∧
      isAddressable size (extents.toList.map Int.ofNat) = true := by
    cases held with
    | single => exact ⟨8, le_rfl, h⟩
    | double => exact ⟨16, by decide, h⟩
  have hstored := isAddressable_mono hsize hle hvolume
  exact hstored

theorem grid_natural (held : Precision) (hpos : 0 < extents.volume) :
    (held.grid extents.toInt : Except (Failure R) _) =
      if held.elementSize.toNat * extents.volume < 2 ^ 63 then .ok extents
      else .error (.invalid .layout) := by
  have haddr := isAddressable_toInt held hpos
  rw [Precision.grid, Triple.natural?_toInt]
  rcases h : isAddressable held.elementSize extents.toInt.toList with _ | _ <;> rw [h] at haddr
  · rw [if_neg fun hlt => Bool.false_ne_true (haddr.mpr hlt)]
  · rw [if_pos (haddr.mp rfl)]

/-- The limit of a completion for a grid without empty axes. -/
theorem completeStored_natural (held : Precision) (hpos : 0 < extents.volume) (half : Volume R) :
    completeStored held extents.toInt half =
      if held.elementSize.toNat * extents.volume < 2 ^ 63 then hermitianCompletion extents half
      else .error (.invalid .layout) := by
  rw [completeStored, grid_natural held hpos]
  split <;> rfl

/-- A volume that was completed has the stored half that it was completed from. It is conjugate at
all opposite frequencies if and only if that half is so on its own planes. -/
theorem completeStored_symmetry [LawfulNeg R] {half full : Volume R} (hz : 0 < dims.z)
    (h : completeStored held dims half = .ok full) :
    extractStored .realToComplex dims full = .ok half ∧ ∃ extents : Triple ℕ,
      dims = extents.toInt ∧
        ((∀ p, extents.Within p → ConjugateAt extents full p) ↔
          IsHermitianPlane extents half 0 ∧
            (Even extents.z → IsHermitianPlane extents half (extents.z / 2))) := by
  rw [completeStored] at h
  obtain ⟨extents, hgrid, hfull⟩ := exists_of_bind_eq_ok h
  obtain ⟨rfl, haddr⟩ := grid_eq_ok_iff.mp hgrid
  have hz' : 0 < extents.z := Int.natCast_pos.mp hz
  refine ⟨?_, extents, rfl, conjugate_completion_iff hz' hfull⟩
  rw [extractStored, TransformKind.storedGrid, Triple.packed_toInt, Triple.natural?_toInt,
    if_pos (isAddressable_packed .realToComplex hz' haddr)]
  exact extractPacked_of_completion hz' hfull

end Completion

/-! ### The dense kernel -/

/-- The dense kernel for any integer as the length. -/
theorem dftMatrix_eq (sign : R) (size : ℤ) : dftMatrix sign size =
    if isWord size = true ∧ 16 * (size.toNat * size.toNat) < 2 ^ 63 then
      .ok (Array.ofFn fun (k : Fin size.toNat) =>
        Array.ofFn fun (j : Fin size.toNat) => dftEntry sign size.toNat k j)
    else .error (.invalid .arrayTooLong) := by
  have haddr : (isAddressable 8 [size] && hasKernel size.toNat) = true ↔
      isWord size = true ∧ 16 * (size.toNat * size.toNat) < 2 ^ 63 := by
    rw [Bool.and_eq_true, hasKernel_iff]
    refine and_congr_left fun hkernel => ?_
    -- the row numbers take less room than the kernel, so the length only has to be a word
    have hsquare := Nat.le_mul_self size.toNat
    have hbytes : isWord (([size].filter (0 < ·)).foldl (· * ·) 8) = true := by
      rcases lt_or_ge 0 size with h | h
      · simp only [List.filter_cons, List.filter_nil, decide_eq_true h, if_true, List.foldl_cons,
          List.foldl_nil, isWord, Bool.and_eq_true, decide_eq_true_eq]
        omega
      · simp only [List.filter_cons, List.filter_nil, decide_eq_false h.not_gt, Bool.false_eq_true,
          if_false]
        decide
    rw [isAddressable, hbytes]
    simp
  rw [dftMatrix]
  exact if_congr haddr rfl rfl

/-- The entries of the dense kernel of a direction are those of the table of roots. -/
theorem dftMatrix_rootTable {d : Direction} {size : ℤ} {rows : Array (Volume R)}
    (h : dftMatrix (Scalar.ofInt d.sign) size = .ok rows) {k j : ℕ} (hk : k < size.toNat)
    (hj : j < size.toNat) :
    (rows.getD k #[]).getD j Sample.zero =
      (rootTable d size.toNat).getD (k * j % size.toNat) Sample.zero := by
  rw [dftMatrix_eq] at h
  split at h
  · obtain rfl := Except.ok.inj h
    rw [getD_ofFn _ _ hk, getD_ofFn _ _ hj, getD_rootTable d (Nat.zero_lt_of_lt hk)]
  · cases h

end FourierAudit
