/-
The grids of a case, component by component.

A grid stores two real components to an element. A transform of real samples reads and writes the
first components of the input grid and may stop in the middle of an element, so what happens to the
grids is said here for each component on its own:

* `GridPair.IsFor` — grids that a backend has for a case, whatever they hold; the ones that it opens
  are such grids (`isFor_of_openGrids`);
* `getElem?_components_upload` — the components after an upload;
* `getElem?_components_writeComponents` — the components after real samples have been written;
* `getElem?_realInput_components` — the components that a transform reads.
-/
import FourierAudit.Proofs.CapabilityLimits
import FourierAudit.Proofs.TransformShapes

namespace FourierAudit

variable {R : Type}

/-! ### Grids of a case -/

section Instance

variable [Scalar R]

/-- Grids for a case, with any elements in them. -/
structure GridPair.IsFor (grids : GridPair R) (c : TransformCase R) : Prop where
  input_precision : grids.input.precision = c.precision
  input_size : grids.input.cells.size = c.extents.volume
  output_precision : grids.output.precision = c.precision
  output_size : grids.output.cells.size = c.outputPoints

/-- The grids that a backend opens for a case. -/
theorem Backend.isFor_of_openGrids {b : Backend R} {accelerator : Option Accelerator}
    {c : TransformCase R} {grids : GridPair R} (h : b.openGrids accelerator c = .ok grids) :
    grids.IsFor c := by
  have hpoints := points_eq (volume_lt_of_openGrids h)
  obtain ⟨-, hinput, houtput⟩ := of_openGrids h
  have hprecision : Precision.ofElementSize? c.precision.elementSize = some c.precision := by
    cases c.precision <;> rfl
  obtain ⟨-, hin, hinsize⟩ := Buffer.of_allocate hinput
  obtain ⟨-, hout, houtsize⟩ := Buffer.of_allocate houtput
  rw [hprecision, Option.some_inj] at hin hout
  rw [hpoints, Int.toNat_natCast] at hinsize
  rw [Int.toNat_natCast] at houtsize
  exact ⟨hin.symm, hinsize, hout.symm, houtsize⟩

end Instance

/-! ### The components of a volume -/

@[simp] theorem size_components (v : Volume R) : (components v).size = 2 * v.size :=
  Array.size_ofFn

/-- Component `i` of a volume is component `i % 2` of its element `i / 2`. -/
theorem getElem?_components (v : Volume R) (i : ℕ) :
    (components v)[i]? = v[i / 2]?.map fun a => a.component i := by
  rw [components, Array.getElem?_ofFn]
  by_cases h : i < 2 * v.size
  · have hhalf : i / 2 < v.size := by omega
    rw [dif_pos h, Array.getElem?_eq_getElem hhalf, Option.map_some]
    rfl
  · have hhalf : v.size ≤ i / 2 := by omega
    rw [dif_neg h, Array.getElem?_eq_none hhalf, Option.map_none]

/-- A volume is determined by its components. -/
theorem components_injective : Function.Injective (components : Volume R → Array R) := by
  intro v w h
  have hcomponent (i r : ℕ) (hr : r < 2) :
      v[i]?.map (fun a => a.component r) = w[i]?.map fun a => a.component r := by
    have hi := congrArg (fun u => u[2 * i + r]?) h
    have hhalf : (2 * i + r) / 2 = i := by omega
    simpa only [getElem?_components, hhalf, Sample.component_add] using hi
  apply Array.ext_getElem?
  intro i
  have hre := hcomponent i 0 (by omega)
  have him := hcomponent i 1 (by omega)
  rcases hv : v[i]? with _ | ⟨a, b⟩ <;> rcases hw : w[i]? with _ | ⟨a', b'⟩
  all_goals simp_all [Sample.component]

/-- The real samples that a transform reads are the first components. -/
theorem getElem?_realInput_components (points : ℕ) (v : Volume R) (i : ℕ) :
    (realInput points v)[i]? = if i < points then (components v)[i]? else none := by
  rw [realInput_natural, Array.getElem?_extract, Nat.zero_add]
  split_ifs with h hi hi
  · rfl
  · omega
  · rw [Array.getElem?_eq_none (by omega)]
  · rfl

variable [Scalar R]

theorem getElem?_storeVolume (p : Precision) (v : Volume R) (i : ℕ) :
    (p.storeVolume v)[i]? = v[i]?.map p.storeSample := by
  cases p with
  | single => exact Array.getElem?_map
  | double => exact (congrFun Option.map_id v[i]?).symm

theorem component_storeSample (p : Precision) (a : Sample R) (i : ℕ) :
    (p.storeSample a).component i = p.store (a.component i) := by
  rw [Sample.component, Sample.component, apply_ite p.store]
  rfl

/-! ### What is written to a grid -/

namespace Buffer

/-- An upload replaces as many components as it has, and no others. -/
theorem getElem?_components_upload {b b' : Buffer R} {values : Volume R}
    (h : b.upload values = .ok b') (i : ℕ) :
    (components b'.cells)[i]? =
      if i < 2 * values.size then (components values)[i]?.map b.precision.store
      else (components b.cells)[i]? := by
  rw [upload] at h
  split_ifs at h with hlong
  obtain rfl := Except.ok.inj h
  rw [getElem?_components, getElem?_components, getElem?_components, Array.getElem?_append,
    size_storeVolume]
  split_ifs with hhalf hi hi
  · rw [getElem?_storeVolume, Option.map_map, Option.map_map]
    congr 1
    funext a
    exact component_storeSample _ _ _
  · omega
  · omega
  · -- behind what is uploaded, the elements of the grid are where they were
    rw [Array.getElem?_extract]
    split_ifs with hin
    · congr 2
      omega
    · rw [Array.getElem?_eq_none (by omega)]

/-- Writing the first components replaces these, and no others. -/
theorem getElem?_components_writeComponents (b : Buffer R) (values : Array R) (i : ℕ) :
    (components (b.writeComponents values).cells)[i]? =
      (components b.cells)[i]?.map fun a => (values[i]?.map b.precision.store).getD a := by
  rw [getElem?_components, getElem?_components, writeComponents, Array.getElem?_mapIdx,
    Option.map_map, Option.map_map]
  congr 1
  funext a
  rw [Function.comp_apply, Function.comp_apply, Sample.component, Sample.component]
  split_ifs with hi
  · have heven : 2 * (i / 2) = i := by omega
    rw [heven]
  · have hodd : 2 * (i / 2) + 1 = i := by omega
    rw [hodd]

end Buffer

end FourierAudit
