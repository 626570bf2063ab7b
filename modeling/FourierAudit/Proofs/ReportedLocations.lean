/-
The locations that a comparison reports.

A comparison of stored spectra names its elements by their coordinates in the stored volume. These
are the frequencies of the elements, so that a reported location can be looked up in the full
volume:

* `Triple.exists_first_point` — the least place with a property is that of the first such point;
* `coordinates_toList` — the coordinates of a place are those of its point;
* `exists_locate_point` — every element is located at the one point that has its place, as long as
  a machine word can count the elements;
* `location_names_frequency` — the location of every element, of the worst one and of the first one
  out of tolerance.
-/
import FourierAudit.Proofs.ArrayShapes
import FourierAudit.Proofs.PackedOrder
import FourierAudit.Proofs.WorstElement

namespace FourierAudit

variable {R : Type} [Scalar R]

/-! ### The order of the points -/

namespace Triple

variable {extents : Triple ℕ}

/-- The least place with a property is that of the first point with it. -/
theorem exists_first_point {P : ℕ → Prop} {i : ℕ} (h : IsLeast {j | j < extents.volume ∧ P j} i) :
    ∃ p, extents.Within p ∧ extents.index p = i ∧
      ∀ q, extents.Within q → P (extents.index q) → p.toList ≤ q.toList := by
  obtain ⟨⟨hlt, -⟩, hleast⟩ := h
  have hindex := index_point extents i
  have hwithin := within_point hlt
  refine ⟨extents.point i, hwithin, hindex, ?_⟩
  intro q hq hPq
  have hle : i ≤ extents.index q := hleast ⟨index_lt hq, hPq⟩
  rwa [← index_le_iff hwithin hq, hindex]

end Triple

/-! ### Coordinates -/

theorem coordinates_cons (n : ℕ) (inner : List ℕ) (i : ℕ) :
    coordinates ((n :: inner).map Int.ofNat) i
      = ((i / inner.prod : ℕ) : ℤ)
        :: coordinates (inner.map Int.ofNat) ((i % inner.prod : ℕ) : ℤ) := by
  rw [List.map_cons, coordinates, foldl_mul_natural, one_mul]
  rfl

/-- The coordinates of a place in a shape with three axes. -/
theorem coordinates_toList (extents : Triple ℕ) (i : ℕ) :
    coordinates (extents.toList.map Int.ofNat) i = (extents.point i).toList.map Int.ofNat := by
  rw [Triple.toList, coordinates_cons, coordinates_cons, coordinates_cons]
  simp only [List.prod_cons, List.prod_nil, one_mul, Nat.div_one, List.map_nil, coordinates,
    Triple.point, Triple.toList, List.map_cons, Nat.mod_mul_left_div_self, Nat.mod_mul_left_mod,
    Nat.div_div_eq_div_mul, Int.ofNat_eq_natCast, mul_comm extents.z]

theorem locate_of_location {result : Comparison R} {place : ℤ} {location : Location}
    (h : result.location? place = some location) : result.locate place = .ok location := by
  rw [Comparison.locate, h]

/-- The location of an element is the point that stands at its place, as long as a machine word can
count the elements. -/
theorem locate_index {result : Comparison R} {extents p : Triple ℕ}
    (hshape : result.shape = some (extents.toList.map Int.ofNat)) (hp : extents.Within p) :
    result.locate (extents.index p) =
      if extents.volume < 2 ^ 63 then .ok (.grid (p.toList.map Int.ofNat))
      else .error (.invalid .place) := by
  have hlt := Triple.index_lt hp
  have hfold : (extents.toList.map Int.ofNat).foldl (· * ·) 1 = (extents.volume : ℤ) := by
    rw [foldl_mul_natural, one_mul, Triple.list_prod_toList]
  have hpos : 0 < extents.volume := by omega
  have haddr : isAddressable 1 (extents.toList.map Int.ofNat) = true ↔ extents.volume < 2 ^ 63 := by
    rw [← one_mul extents.volume]
    exact isAddressable_toList Nat.one_pos hpos
  have hword := isWord_natural extents.volume
  by_cases hvolume : extents.volume < 2 ^ 63
  · rw [if_pos hvolume]
    refine locate_of_location ?_
    simp only [Comparison.location?, hshape, hfold]
    rw [if_pos ⟨haddr.mpr hvolume, hword.mpr hvolume, by omega, by omega⟩, coordinates_toList,
      Triple.point_index hp]
  · -- no array has that many elements, so it is not asked for coordinates
    have hnone : result.location? (extents.index p) = none := by
      simp only [Comparison.location?, hshape, hfold, haddr, hvolume, false_and, if_false]
    simp only [Comparison.locate, hshape, hnone, haddr, hvolume, false_and, if_false]

/-- Every element has a location, which is the one point that has its place. -/
theorem exists_locate_point {result : Comparison R} {extents : Triple ℕ}
    (hshape : result.shape = some (extents.toList.map Int.ofNat)) {i : ℕ}
    (hi : i < extents.volume) :
    ∃ p, (∀ q, extents.Within q ∧ extents.index q = i ↔ q = p) ∧
      result.locate i = if extents.volume < 2 ^ 63 then .ok (.grid (p.toList.map Int.ofNat))
        else .error (.invalid .place) := by
  have hwithin := Triple.within_point hi
  have hindex := Triple.index_point extents i
  refine ⟨extents.point i, fun q => ⟨?_, ?_⟩, ?_⟩
  · rintro ⟨hq, rfl⟩
    exact (Triple.point_index hq).symm
  · rintro rfl
    exact ⟨hwithin, hindex⟩
  · have hlocate := locate_index hshape hwithin
    rwa [hindex] at hlocate

/-! ### The worst element and the first one out of tolerance -/

section Places

variable [LawfulErrors R]

/-- The places that a comparison of two volumes names: that of the worst element, which it shows as
expected, and the least one that is out of tolerance. -/
theorem exists_compare_places {expected found : Volume R} (h : expected.size = found.size)
    (hpos : 0 < expected.size) (tolerance : R) (shape : Option (List ℤ)) :
    ∃ result, compare expected found tolerance shape = .ok result ∧ result.shape = shape ∧
      (∃ i < expected.size, result.worst = some i ∧ expected[i]? = some result.worstExpected) ∧
      (result.passed = false → ∃ i, result.firstMismatch = some i ∧
        IsLeast {j | j < expected.size ∧ Deviates tolerance (expected.getD j Sample.zero)
          (found.getD j Sample.zero)} i) := by
  obtain ⟨worst, hplace, hworst⟩ := exists_worstPlace? h hpos
  rw [compare, compare?, if_pos h]
  refine ⟨_, rfl, rfl, ⟨worst, hworst.lt, hplace, ?_⟩, ?_⟩
  · simp only [hplace]
    exact getElem?_worst hworst.lt _
  · -- the search passes over everything within the tolerance
    intro hfailed
    rw [Comparison.passed, beq_eq_false_iff_ne, countP_ne_zero_iff h] at hfailed
    obtain ⟨first, -, hfirst, -⟩ := exists_first_worst h hfailed
    have hleast := (findIdx?_errors_eq_some elementError h _ first).mp hfirst
    simp only [errorAt, Bool.not_eq_true', elementError_eq_false] at hleast
    exact ⟨first, hfirst, hleast⟩

/-- **A reported location names the frequency that disagrees.** What is stored of a full volume is
compared with as many elements. The location of each element is the one stored frequency that has
its place, as long as a machine word can count the elements, as it can for all that fit into memory.
The element that is shown as the worst one expected is that of the full volume at the frequency of
the worst place. If the comparison fails, the frequency of the first mismatch is the first one in
lexicographic order at which the full volume and what was found are out of tolerance. -/
theorem location_names_frequency (kind : TransformKind) {extents : Triple ℕ}
    (hpos : 0 < extents.x ∧ 0 < extents.y ∧ 0 < extents.z) {full found : Volume R}
    (hfull : full.size = extents.volume) (hfound : found.size = (kind.packed extents).volume)
    (tolerance : R) :
    let packed := kind.packed extents
    let OutAt := fun p => Deviates tolerance (full.getD (extents.index p) Sample.zero)
      (found.getD (packed.index p) Sample.zero)
    ∃ expected result, extractPacked kind extents full = .ok expected ∧
      compare expected found tolerance (some (packed.toList.map Int.ofNat)) = .ok result ∧
      (∀ i < packed.volume, ∃ p, (∀ q, packed.Within q ∧ packed.index q = i ↔ q = p) ∧
        result.locate i = if packed.volume < 2 ^ 63 then .ok (.grid (p.toList.map Int.ofNat))
          else .error (.invalid .place)) ∧
      (∃ p, packed.Within p ∧ result.worst = some (packed.index p) ∧
        full[extents.index p]? = some result.worstExpected) ∧
      (result.passed = false → ∃ p, packed.Within p ∧
        result.firstMismatch = some (packed.index p) ∧ OutAt p ∧
          ∀ q, packed.Within q → OutAt q → p.toList ≤ q.toList) := by
  intro packed OutAt
  have hz := hpos.2.2
  obtain ⟨expected, hexpected⟩ : ∃ expected, extractPacked kind extents full = .ok expected :=
    ⟨_, extractPacked_eq hz hfull⟩
  obtain ⟨hsize, helements⟩ := (extractPacked_iff hz hfull).mp hexpected
  obtain ⟨result, hresult, hshape, ⟨worst, hworst, hplace, hshown⟩, hfirst⟩ :=
    exists_compare_places (hsize.trans hfound.symm) (hsize ▸ kind.volume_packed_pos hpos) tolerance
      (some (packed.toList.map Int.ofNat))
  refine ⟨expected, result, hexpected, hresult, fun i => exists_locate_point hshape, ?_, ?_⟩
  · -- the worst element is a stored one, and that is where the full volume has the same element
    have hwithin : packed.Within (packed.point worst) := Triple.within_point (hsize ▸ hworst)
    have hindex := Triple.index_point packed worst
    have hfullplace : extents.index (packed.point worst) < full.size := by
      rw [hfull]
      exact Triple.index_lt (TransformKind.within_of_packed hz hwithin)
    have helement := helements _ hwithin
    rw [hindex] at helement
    refine ⟨packed.point worst, hwithin, by rw [hindex, hplace], ?_⟩
    rw [getElem?_eq_some_getD hfullplace Sample.zero, ← helement, ← hshown]
    exact (getElem?_eq_some_getD hworst Sample.zero).symm
  · intro hfailed
    obtain ⟨first, hmismatch, hleast⟩ := hfirst hfailed
    have hout := hleast.1.2
    rw [hsize] at hleast
    obtain ⟨p, hp, rfl, horder⟩ := Triple.exists_first_point hleast
    refine ⟨p, hp, hmismatch, ?_, ?_⟩
    · rwa [helements p hp] at hout
    · intro q hq hqout
      refine horder q hq ?_
      rwa [helements q hq]

/-- The full spectrum of two lines of three real samples. -/
def twoLineSpectrum : Volume Float := #[⟨1, 0⟩, ⟨2, 0⟩, ⟨3, 0⟩, ⟨4, 0⟩, ⟨5, 0⟩, ⟨6, 0⟩]

/-- What is found of it, with the mean of the second line wrong. -/
def twoLineFound : Volume Float := #[⟨1, 0⟩, ⟨2, 0⟩, ⟨9, 0⟩, ⟨5, 0⟩]

/-- The stored elements of the two lines. -/
def twoLineStored : Volume Float := #[⟨1, 0⟩, ⟨2, 0⟩, ⟨4, 0⟩, ⟨5, 0⟩]

/-- The third of the stored elements is located at the first frequency of the second line, which is
the fourth one of the full spectrum. -/
theorem location_names_frequency_twoLines :
    twoLineSpectrum.size = (⟨2, 1, 3⟩ : Triple ℕ).volume ∧
      twoLineFound.size = (TransformKind.realToComplex.packed ⟨2, 1, 3⟩).volume ∧
      extractPacked .realToComplex ⟨2, 1, 3⟩ twoLineSpectrum = .ok twoLineStored ∧
      ∃ result, compare twoLineStored twoLineFound 1 (some [2, 1, 2]) = .ok result ∧
        result.passed = false ∧ result.firstMismatch = some 2 ∧
        result.locate 2 = .ok (.grid [1, 0, 0]) ∧
        Deviates 1 (twoLineSpectrum.getD 3 Sample.zero) (twoLineFound.getD 2 Sample.zero) := by
  have hfull : twoLineSpectrum.size = (⟨2, 1, 3⟩ : Triple ℕ).volume := by decide
  have hfound : twoLineFound.size = (TransformKind.realToComplex.packed ⟨2, 1, 3⟩).volume := by
    decide
  have hstored : extractPacked .realToComplex ⟨2, 1, 3⟩ twoLineSpectrum = .ok twoLineStored := by
    have hplaces : packedToFull .realToComplex ⟨2, 1, 3⟩ = #[0, 1, 3, 4] := by decide +kernel
    rw [extractPacked_eq (by decide) hfull, hplaces]
    simp [twoLineSpectrum, twoLineStored]
  have hrun : (compare twoLineStored twoLineFound 1 (some [2, 1, 2])).toOption.map
      (fun result => (result.passed, result.firstMismatch)) = some (false, some 2) := by
    decide +kernel
  obtain ⟨expected, result, hexpected, hresult, hlocations, -, hmismatch⟩ :=
    location_names_frequency .realToComplex (by decide) hfull hfound 1
  obtain rfl : twoLineStored = expected := Except.ok.inj (hstored.symm.trans hexpected)
  replace hresult : compare twoLineStored twoLineFound 1 (some [2, 1, 2]) = .ok result := hresult
  rw [hresult] at hrun
  obtain ⟨hfailed, hfirst⟩ := Prod.ext_iff.mp (Option.some.inj hrun)
  obtain ⟨p, hp, hlocate⟩ := hlocations 2 (by decide)
  obtain rfl : ⟨1, 0, 0⟩ = p :=
    (hp ⟨1, 0, 0⟩).mp ⟨⟨by decide, by decide, by decide⟩, by decide⟩
  obtain ⟨q, hq, hplace, hout, -⟩ := hmismatch hfailed
  obtain rfl : q = ⟨1, 0, 0⟩ := (hp q).mp ⟨hq, Option.some.inj (hplace.symm.trans hfirst)⟩
  exact ⟨hfull, hfound, hstored, result, hresult, hfailed, hfirst, hlocate, hout⟩

end Places

end FourierAudit
