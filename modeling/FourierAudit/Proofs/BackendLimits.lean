/-
The cases that a backend takes.

A backend that supports a case finds all its extents legal, so it leaves the case as it is when it
makes the extents legal, and it can open grids for it as long as arrays can have their size:

* `checkSupported_eq_ok_iff` — what a supported case keeps to;
* `normalise_of_legal` — legal extents up to the ceiling stay;
* `exists_of_normalise` — other extents become legal ones up to the ceiling;
* `openGrids_of_supported`, `of_openGrids` — the grids.
-/
import FourierAudit.Backend
import FourierAudit.Proofs.ExtentSearch
import FourierAudit.Proofs.FailingSteps
import FourierAudit.Proofs.GridTransfers
import FourierAudit.Proofs.PackedLayout

namespace FourierAudit

variable {R : Type} [Scalar R]

/-! ### The size of a grid -/

theorem isAddressable_elementSize (p : Precision) {count : ℕ} (h : 0 < count) :
    isAddressable p.elementSize [(count : ℤ)] = true ↔ p.elementSize.toNat * count < 2 ^ 63 := by
  have hprod : [count].prod = count := List.prod_singleton
  have haddr := @isAddressable_elements p [count] (by decide : 1 ≤ 64) (hprod.symm ▸ h)
  rw [hprod] at haddr
  exact haddr

theorem outputPoints_le (c : TransformCase R) : c.outputPoints ≤ c.extents.volume :=
  c.kind.volume_packed_le c.extents_pos.2.2

theorem outputPoints_pos (c : TransformCase R) : 0 < c.outputPoints :=
  c.kind.volume_packed_pos c.extents_pos

/-! ### Legal extents -/

theorem dims_pos (c : TransformCase R) : ∀ n ∈ c.dims, 0 < n := by
  obtain ⟨hx, hy, hz⟩ := c.extents_pos
  simp only [TransformCase.dims, Triple.toList, List.forall_mem_cons, List.not_mem_nil]
  exact ⟨hx, hy, hz, by simp⟩

theorem leastLegalExtent_of_legal {legal : Legality R} {ceiling : ℤ} {n : ℕ} (hn : 0 < n)
    (hlegal : legal n = .ok true) (hceiling : n ≤ ceiling) :
    leastLegalExtent legal ceiling (.whole n) = .ok (n : ℤ) := by
  have hstart : max (n : ℤ) 1 = n := max_eq_left (by omega)
  apply leastLegalExtent_of_some
  rw [hstart, firstLegal_eq_some_iff]
  exact ⟨le_rfl, hceiling, hlegal, fun k hk hlt => by omega⟩

theorem extent_whole (requested : List Quantity) {n : ℕ} (hn : 0 < n) :
    TransformCase.extent (R := R) requested (.whole n) = .ok ⟨n, hn⟩ := by
  have hinteger : (Quantity.whole n).integer = (.ok (n : ℤ) : Except (Failure R) ℤ) := rfl
  rw [TransformCase.extent, hinteger, ok_bind, dif_pos (Int.natCast_pos.mpr hn)]
  rfl

theorem legal_of_leastLegalExtent {legal : Legality R} {ceiling m : ℤ} {minimum : Quantity}
    (h : leastLegalExtent legal ceiling minimum = .ok m) :
    0 < m ∧ m ≤ ceiling ∧ legal m = .ok true := by
  obtain ⟨start, -, h⟩ := exists_of_bind_eq_ok h
  obtain ⟨first, hfirst, h⟩ := exists_of_bind_eq_ok h
  cases first with
  | none => cases h
  | some n =>
    cases h
    obtain ⟨hle, hceiling, hlegal, -⟩ := firstLegal_eq_some_iff.mp hfirst
    exact ⟨by omega, hceiling, hlegal⟩

/-- The extents that a search finds for a grid are those of a grid; they are legal and keep to the
ceiling. -/
theorem exists_extents {legal : Legality R} {ceiling : ℤ} {requested : Triple ℕ} {results : List ℤ}
    (h : leastLegalExtents legal ceiling (requested.toList.map fun (n : ℕ) => .whole n)
      = .ok results) :
    ∃ found : Triple ℕ, (0 < found.x ∧ 0 < found.y ∧ 0 < found.z) ∧
      results = found.toList.map (fun (n : ℕ) => (n : ℤ)) ∧
      ∀ n ∈ found.toList, legal n = .ok true ∧ (n : ℤ) ≤ ceiling := by
  rw [leastLegalExtents, mapM_eq_ok_iff] at h
  simp only [Triple.toList, List.map_cons, List.map_nil, List.forall₂_cons_left_iff,
    List.forall₂_nil_left_iff] at h
  obtain ⟨x, _, hx, ⟨y, _, hy, ⟨z, _, hz, rfl, rfl⟩, rfl⟩, rfl⟩ := h
  obtain ⟨hxpos, hxlegal⟩ := legal_of_leastLegalExtent hx
  obtain ⟨hypos, hylegal⟩ := legal_of_leastLegalExtent hy
  obtain ⟨hzpos, hzlegal⟩ := legal_of_leastLegalExtent hz
  lift x to ℕ using hxpos.le
  lift y to ℕ using hypos.le
  lift z to ℕ using hzpos.le
  rw [Int.natCast_pos] at hxpos hypos hzpos
  refine ⟨⟨x, y, z⟩, ⟨hxpos, hypos, hzpos⟩, rfl, ?_⟩
  simp only [Triple.toList, List.forall_mem_cons, List.not_mem_nil]
  exact ⟨hxlegal.symm, hylegal.symm, hzlegal.symm, by simp⟩

/-- A case is made of positive extents and a positive factor. -/
theorem make_whole {extents : Triple ℕ} (hpos : 0 < extents.x ∧ 0 < extents.y ∧ 0 < extents.z)
    (kind : TransformKind) (precision : Precision) {scale : R}
    (hscale : Scalar.lt Scalar.zero scale = true) :
    TransformCase.make (extents.toList.map fun (n : ℕ) => .whole n) kind precision scale
      = .ok ⟨extents, kind, precision, scale, hpos, hscale⟩ := by
  obtain ⟨hx, hy, hz⟩ := hpos
  simp only [Triple.toList, List.map_cons, List.map_nil, TransformCase.make, extent_whole _ hx,
    extent_whole _ hy, extent_whole _ hz, dif_pos hscale]
  rfl

namespace Backend

variable {b : Backend R} {accelerator : Option Accelerator} {c : TransformCase R}

theorem allLegal_iff {dims : List ℕ} :
    b.allLegal dims = .ok true ↔ ∀ n ∈ dims, b.legal n = .ok true := by
  induction dims with
  | nil => simp [allLegal]
  | cons n rest ih =>
    rw [List.forall_mem_cons, ← ih, allLegal]
    rcases b.legal n with e | _ | _
    · simp [bind, Except.bind]
    · simp [bind, Except.bind, pure, Except.pure]
    · simp [bind, Except.bind]

/-! ### The limits, one after another -/

/-- The last of the limits, the memory of a device. -/
def checkMemory (b : Backend R) (accelerator : Option Accelerator) (c : TransformCase R) :
    Except (Failure R) Unit :=
  if b.needsDeviceMemory then
    match accelerator with
    | none => .error .deviceLibraryMissing
    | some a =>
      if a.freeBytes < requiredBytes c then
        .error (.unsupported (.memory (nameText b.name) (requiredBytes c) a.freeBytes))
      else .ok ()
  else .ok ()

theorem checkMemory_eq_ok_iff : b.checkMemory accelerator c = .ok () ↔
    (b.needsDeviceMemory = true → ∃ a ∈ accelerator, requiredBytes c ≤ a.freeBytes) := by
  unfold checkMemory
  by_cases hneeds : b.needsDeviceMemory = true
  · cases accelerator with
    | none => simp [hneeds]
    | some a => simp [hneeds]
  · simp [hneeds]

theorem checkSupported_of_precision (h : c.precision ∉ b.precisions) :
    b.checkSupported accelerator c
      = .error (.unsupported (.precision (nameText b.name) c.precision)) := by
  simp only [checkSupported, List.contains_eq_mem, h, decide_false]
  rfl

theorem checkSupported_of_volume (hprecision : c.precision ∈ b.precisions) {limit : ℤ}
    (hlimit : b.maxPoints = some limit) (h : limit < c.points) :
    b.checkSupported accelerator c
      = .error (.unsupported (.volume (nameText b.name) limit c.points)) := by
  simp only [checkSupported, List.contains_eq_mem, hprecision, decide_true, hlimit, if_pos h]
  rfl

/-- The extents are looked at once precision and volume are as they should be, and the memory once
the extents are. -/
theorem checkSupported_of_points_le (hprecision : c.precision ∈ b.precisions)
    (hvolume : ∀ limit ∈ b.maxPoints, c.points ≤ limit) :
    b.checkSupported accelerator c = (do
      if ← b.allLegal c.dims then b.checkMemory accelerator c
      else .error (.unsupported (.extents (nameText b.name) c.dims))) := by
  have hpoints (limit : ℤ) (hlimit : b.maxPoints = some limit) : ¬limit < c.points :=
    not_lt.mpr (hvolume limit hlimit)
  unfold checkSupported checkMemory
  cases hlimit : b.maxPoints with
  | none =>
    simp only [List.contains_eq_mem, hprecision, decide_true]
    rcases b.allLegal c.dims with e | _ | _
    · rfl
    · rfl
    · rfl
  | some limit =>
    simp only [List.contains_eq_mem, hprecision, decide_true, if_neg (hpoints limit hlimit)]
    rcases b.allLegal c.dims with e | _ | _
    · rfl
    · rfl
    · rfl

/-- What a supported case keeps to. -/
theorem checkSupported_eq_ok_iff : b.checkSupported accelerator c = .ok () ↔
    c.precision ∈ b.precisions ∧ (∀ limit ∈ b.maxPoints, c.points ≤ limit) ∧
      (∀ n ∈ c.dims, b.legal n = .ok true) ∧
      (b.needsDeviceMemory = true → ∃ a ∈ accelerator, requiredBytes c ≤ a.freeBytes) := by
  by_cases hprecision : c.precision ∈ b.precisions
  swap
  · simp [checkSupported_of_precision hprecision, hprecision]
  by_cases hvolume : ∀ limit ∈ b.maxPoints, c.points ≤ limit
  swap
  · have hrefused : b.checkSupported accelerator c ≠ .ok () := by
      push Not at hvolume
      obtain ⟨limit, hlimit, hpoints⟩ := hvolume
      rw [checkSupported_of_volume hprecision hlimit hpoints]
      exact nofun
    exact iff_of_false hrefused fun h => hvolume h.2.1
  rw [checkSupported_of_points_le hprecision hvolume, ← allLegal_iff, ← checkMemory_eq_ok_iff]
  rcases b.allLegal c.dims with e | _ | _
  · simp [error_bind]
  · simp [ok_bind]
  · rw [ok_bind, if_pos rfl]
    exact ⟨fun h => ⟨hprecision, hvolume, rfl, h⟩, fun h => h.2.2.2⟩

theorem legal_of_checkSupported (h : b.checkSupported accelerator c = .ok ()) :
    ∀ n ∈ c.dims, b.legal n = .ok true :=
  (checkSupported_eq_ok_iff.mp h).2.2.1

/-- The case with the extents that a search finds. -/
theorem normalise_of_extents {ceiling : ℤ} {found : Triple ℕ}
    (hpos : 0 < found.x ∧ 0 < found.y ∧ 0 < found.z)
    (h : leastLegalExtents b.legal ceiling (c.dims.map fun (n : ℕ) => .whole n)
      = .ok (found.toList.map fun (n : ℕ) => (n : ℤ))) :
    b.normalise c ceiling = .ok { c with extents := found, extents_pos := hpos } := by
  rw [normalise, h, ok_bind]
  exact make_whole hpos c.kind c.precision c.toleranceScale_pos

/-- A case whose extents are legal stays as it is. -/
theorem normalise_of_legal {ceiling : ℤ} (hlegal : ∀ n ∈ c.dims, b.legal n = .ok true)
    (hceiling : ∀ n ∈ c.dims, (n : ℤ) ≤ ceiling) : b.normalise c ceiling = .ok c := by
  -- the extents that are found are the ones that are asked for
  have hsearch : leastLegalExtents b.legal ceiling (c.dims.map fun (n : ℕ) => .whole n)
      = .ok (c.dims.map fun (n : ℕ) => (n : ℤ)) := by
    rw [leastLegalExtents, mapM_eq_ok_iff, List.forall₂_map_left_iff, List.forall₂_map_right_iff,
      List.forall₂_same]
    exact fun n hn => leastLegalExtent_of_legal (dims_pos c n hn) (hlegal n hn) (hceiling n hn)
  exact normalise_of_extents c.extents_pos hsearch

/-- Nothing but the extents of a case changes when they are made legal; they keep to the ceiling. -/
theorem exists_of_normalise {requested : TransformCase R} {ceiling : ℤ}
    (h : b.normalise requested ceiling = .ok c) :
    ∃ extents hpos, c = { requested with extents := extents, extents_pos := hpos } ∧
      ∀ n ∈ c.dims, b.legal n = .ok true ∧ (n : ℤ) ≤ ceiling := by
  obtain ⟨results, hresults, -⟩ := exists_of_bind_eq_ok h
  obtain ⟨found, hpos, rfl, hlegal⟩ := exists_extents hresults
  rw [normalise_of_extents hpos hresults] at h
  cases h
  exact ⟨found, hpos, rfl, hlegal⟩

/-! ### Grids -/

/-- Grids are made for a supported case, the input grid first. -/
theorem of_openGrids {grids : GridPair R} (h : b.openGrids accelerator c = .ok grids) :
    b.checkSupported accelerator c = .ok () ∧
      Buffer.allocate accelerator c.points c.precision.elementSize "grid1" b.location
        = .ok grids.input ∧
      Buffer.allocate accelerator c.outputPoints c.precision.elementSize "grid2" b.location
        = .ok grids.output := by
  obtain ⟨_, hsupported, h⟩ := exists_of_bind_eq_ok h
  obtain ⟨input, hinput, h⟩ := exists_of_bind_eq_ok h
  obtain ⟨output, houtput, h⟩ := exists_of_bind_eq_ok h
  cases h
  exact ⟨hsupported, hinput, houtput⟩

/-- The grids of a supported case, if arrays can have their size. -/
theorem openGrids_of_supported (hsupported : b.checkSupported accelerator c = .ok ())
    (hlocation : Buffer.IsReachable accelerator b.location) (hvolume : c.extents.volume < 2 ^ 63) :
    b.openGrids accelerator c =
      if c.precision.elementSize.toNat * c.extents.volume < 2 ^ 63 then
        .ok ⟨⟨"grid1", c.precision, b.location, Array.replicate c.extents.volume Sample.zero⟩,
          ⟨"grid2", c.precision, b.location, Array.replicate c.outputPoints Sample.zero⟩⟩
      else .error (.invalid .arrayTooLong) := by
  have hpos := volume_pos c
  simp only [openGrids, hsupported, points_eq hvolume, Buffer.allocate_natural hlocation,
    isAddressable_elementSize c.precision hpos,
    isAddressable_elementSize c.precision (outputPoints_pos c)]
  -- the output grid is no larger than the input grid
  by_cases hfits : c.precision.elementSize.toNat * c.extents.volume < 2 ^ 63
  · have houtput : c.precision.elementSize.toNat * c.outputPoints < 2 ^ 63 :=
      (Nat.mul_le_mul_left _ (outputPoints_le c)).trans_lt hfits
    simp only [if_pos hfits, if_pos houtput]
    rfl
  · simp only [if_neg hfits]
    rfl

end Backend

end FourierAudit
