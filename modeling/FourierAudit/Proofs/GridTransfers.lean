/-
Data on its way through the grids of a case.

In exact arithmetic a grid keeps what is written to it. A transform of real samples reads the first
components in the storage of the input grid, two to an element:

* `allocate_natural`, `of_allocate` — a grid as it is made;
* `upload_of_size`, `fill_of_size` — a grid with all its elements replaced;
* `getElem?_realInput` — the real samples that a transform reads.
-/
import FourierAudit.Buffer
import FourierAudit.Proofs.ArrayShapes
import FourierAudit.Proofs.ExactArithmetic
import FourierAudit.Proofs.PackedLayout
import FourierAudit.Verification

namespace FourierAudit

/-! ### Grids -/

namespace Buffer

section Allocate

variable {R : Type} [Scalar R]

/-- Whether the memory of a location is there. -/
def IsReachable (accelerator : Option Accelerator) (location : String) : Prop :=
  location = "host" ∨ location = "device" ∧ accelerator.isSome = true

/-- A grid is made of zeros, if an array can have its size. -/
theorem allocate_natural {accelerator : Option Accelerator} {location : String}
    (h : IsReachable accelerator location) (count : ℕ) (p : Precision) (name : String) :
    (allocate accelerator count p.elementSize name location : Except (Failure R) (Buffer R)) =
      if isAddressable p.elementSize [(count : ℤ)] = true then
        .ok ⟨name, p, location, Array.replicate count Sample.zero⟩
      else .error (.invalid .arrayTooLong) := by
  have hsize : Precision.ofElementSize? p.elementSize = some p := by
    cases p <;> rfl
  have hnot : ¬(count : ℤ) < 0 := by omega
  rcases h with rfl | ⟨rfl, hacc⟩
  · rcases haddr : isAddressable p.elementSize [(count : ℤ)] with _ | _ <;>
      simp [allocate, hsize, hnot, haddr] <;> rfl
  · rw [Option.isSome_iff_exists] at hacc
    obtain ⟨a, rfl⟩ := hacc
    rcases haddr : isAddressable p.elementSize [(count : ℤ)] with _ | _ <;>
      simp [allocate, hsize, hnot, haddr] <;> rfl

/-- A grid is only made with a size that an array can have. -/
theorem of_allocate {accelerator : Option Accelerator} {count size : ℤ} {name location : String}
    {grid : Buffer R} (h : allocate accelerator count size name location = .ok grid) :
    isAddressable size [count] = true ∧ Precision.ofElementSize? size = some grid.precision ∧
      grid.cells.size = count.toNat := by
  rw [allocate] at h
  cases hsize : Precision.ofElementSize? size with
  | none =>
    rw [hsize] at h
    cases h
  | some p =>
    by_cases haddr : isAddressable size [count] = true
    · simp only [hsize, if_pos haddr] at h
      repeat' split at h
      all_goals cases h
      all_goals exact ⟨haddr, rfl, Array.size_replicate⟩
    · simp only [hsize, if_neg haddr] at h
      repeat' split at h
      all_goals cases h

end Allocate

@[simp] theorem size_writeComponents {R : Type} [Scalar R] (b : Buffer R) (values : Array R) :
    (b.writeComponents values).cells.size = b.cells.size := by
  rw [writeComponents, Array.size_mapIdx]

theorem upload_of_size {b : Buffer ℝ} {values : Volume ℝ} (h : values.size = b.cells.size) :
    b.upload values = .ok { b with cells := values } := by
  have hrest : b.cells.extract values.size b.cells.size = #[] :=
    Array.extract_eq_empty_of_le (by omega)
  rw [upload, if_neg (by omega), Precision.storeVolume_exact, hrest, Array.append_empty]

theorem fill_of_size {b : Buffer ℝ} {values : Volume ℝ} (h : values.size = b.cells.size) :
    b.fill values = .ok { b with cells := values } := by
  rw [fill, if_pos h, Precision.storeVolume_exact]

end Buffer

/-! ### The real samples in a grid -/

/-- The component of a sample that stands at a place in storage: the real one at even places. -/
def Sample.component {R : Type} (a : Sample R) (i : ℕ) : R := if i % 2 = 0 then a.re else a.im

namespace Sample

variable {R : Type} (a : Sample R)

@[simp] theorem component_mod (i : ℕ) : a.component (i % 2) = a.component i := by
  rw [component, component, Nat.mod_mod]

@[simp] theorem component_add (i r : ℕ) : a.component (2 * i + r) = a.component r := by
  rw [component, component, Nat.mul_add_mod]

end Sample

section Real

variable {R : Type} [Scalar R] {v : Volume R} {points : ℕ}

omit [Scalar R] in
theorem realInput_natural (points : ℕ) (v : Volume R) :
    realInput points v = (components v).extract 0 points := by
  rw [realInput, upTo, if_pos (Int.natCast_nonneg _), Int.toNat_natCast]

omit [Scalar R] in
theorem size_realInput (h : points ≤ 2 * v.size) : (realInput points v).size = points := by
  rw [realInput_natural, Array.size_extract, components, Array.size_ofFn]
  omega

/-- Sample `i` is component `i % 2` of element `i / 2`. -/
theorem getElem?_realInput {i : ℕ} (h : i < points) (hi : i < 2 * v.size) :
    (realInput points v)[i]? = some ((v.getD (i / 2) Sample.zero).component i) := by
  have hsize : (components v).size = 2 * v.size := Array.size_ofFn
  have hhalf : i / 2 < v.size := by omega
  rw [realInput_natural, Array.getElem?_extract, if_pos (by omega), Nat.zero_add, components,
    Array.getElem?_ofFn, dif_pos hi, Array.getD_eq_getD_getElem?, Array.getElem?_eq_getElem hhalf,
    Option.getD_some]
  rfl

theorem getD_realInput {i : ℕ} (h : i < points) (hi : i < 2 * v.size) :
    (realInput points v).getD i Scalar.zero = (v.getD (i / 2) Sample.zero).component i := by
  rw [Array.getD_eq_getD_getElem?, getElem?_realInput h hi, Option.getD_some]

/-! ### What the reference transform is given -/

variable {c : TransformCase R}

theorem referenceInput_complex (hkind : c.kind = .complexToComplex) : referenceInput c v = v := by
  rw [referenceInput, hkind]

theorem referenceInput_real (hkind : c.kind = .realToComplex) :
    referenceInput c v = complexEmbedding (realInput c.points v) := by
  rw [referenceInput, hkind]

theorem size_referenceInput (hpoints : c.points = c.extents.volume)
    (hv : v.size = c.extents.volume) : (referenceInput c v).size = c.extents.volume := by
  rw [referenceInput]
  split
  · exact hv
  · rw [size_complexEmbedding, hpoints, size_realInput (by omega)]

end Real

end FourierAudit
