/-
The shapes of what the transforms of an array library return.

A library gets an array of the shape that its transform asks for, and returns one of the shape that
belongs to it:

* `ArrayTransforms.Shaped` — what a library promises about its shapes;
* `fastTransforms_shaped` — the fast transforms keep the promise.

Design notes: a transform of lines writes as many elements as it reads, but half a spectrum does
not. The rows of a volume then change their size one by one, before they are put together again.
-/
import FourierAudit.FastTransforms
import FourierAudit.Proofs.RowMajor

namespace FourierAudit

variable {R : Type} [Scalar R]

/-- What an array library promises about the shapes of its results, for a grid that is not empty. -/
structure ArrayTransforms.Shaped (library : ArrayTransforms R) : Prop where
  complexForward : ∀ {extents : Triple ℕ} {v : Volume R}, 0 < extents.volume →
    v.size = extents.volume → (library.complexForward extents v).size = extents.volume
  complexInverse : ∀ {extents : Triple ℕ} {v : Volume R}, 0 < extents.volume →
    v.size = extents.volume → (library.complexInverse extents v).size = extents.volume
  realForward : ∀ {extents : Triple ℕ} {values : Array R}, 0 < extents.volume →
    values.size = extents.volume →
    (library.realForward extents values).size = (TransformKind.realToComplex.packed extents).volume
  realInverse : ∀ {extents : Triple ℕ} {half : Volume R}, 0 < extents.volume →
    half.size = (TransformKind.realToComplex.packed extents).volume →
    (library.realInverse extents half).size = extents.volume

/-! ### Lines of a volume -/

@[simp] theorem size_storeVolume (p : Precision) (v : Volume R) :
    (p.storeVolume v).size = v.size := by
  cases p with
  | single => exact Array.size_map
  | double => rfl

@[simp] theorem size_fastAxis (p : Precision) (direction : Direction) (n inner : ℕ)
    (v : Volume R) : (fastAxis p direction n inner v).size = v.size := by
  rw [fastAxis, size_storeVolume, alongLines, Array.size_ofFn]

@[simp] theorem size_fastComplex (p : Precision) (direction : Direction) (extents : Triple ℕ)
    (v : Volume R) : (fastComplex p direction extents v).size = v.size := by
  rw [fastComplex, size_fastAxis, size_fastAxis, size_fastAxis]

/-- Rows of one size, put together. -/
theorem size_foldl_append {α : Type} {rows : Array (Array α)} {n : ℕ}
    (h : ∀ row ∈ rows, row.size = n) : (rows.foldl (· ++ ·) #[]).size = rows.size * n := by
  have hlist : ∀ (items : List (Array α)) (start : Array α), (∀ row ∈ items, row.size = n) →
      (items.foldl (· ++ ·) start).size = start.size + items.length * n := by
    intro items
    induction items with
    | nil => simp
    | cons row rest ih =>
      intro start hrows
      rw [List.forall_mem_cons] at hrows
      rw [List.foldl_cons, ih _ hrows.2, Array.size_append, hrows.1, List.length_cons]
      ring
  rw [← Array.foldl_toList, hlist _ _ fun row hrow => h row (Array.mem_def.mpr hrow)]
  simp

/-! ### Half a spectrum -/

theorem oddFactors_ne_nil {d n : ℕ} (hd : 1 < d) (hn : 1 < n) : oddFactors d n ≠ [] := by
  fun_induction oddFactors d n with
  | case1 => omega
  | case2 => exact List.cons_ne_nil _ _
  | case3 => exact List.cons_ne_nil _ _
  | case4 _ _ _ _ _ ih => exact ih (by omega) hn

/-- A line of more than one element falls apart. -/
theorem realFactors_ne_nil {n : ℕ} (hn : 1 < n) : realFactors n ≠ [] := by
  rw [realFactors, takeOut]
  split_ifs with hfour
  · -- one factor four is taken out at least
    simp only [withRest]
    split <;> simp
  · simp only [withRest]
    split
    · exact List.cons_ne_nil _ _
    · rw [List.nil_append]
      exact oddFactors_ne_nil (by omega) hn

theorem size_halfSpectrum (roots : Volume R) (stride : ℕ) {x : Array R} (hx : 0 < x.size) :
    (halfSpectrum roots (realFactors x.size) stride x).size = x.size / 2 + 1 := by
  rcases hfactors : realFactors x.size with _ | ⟨r, rest⟩
  · -- only a line of one number has no factors
    have hone : ¬1 < x.size := fun h => realFactors_ne_nil h hfactors
    rw [halfSpectrum, Array.size_map]
    omega
  · rw [halfSpectrum, Array.size_ofFn]

theorem size_realLine (roots : Volume R) (stride : ℕ) {n : ℕ} (hn : 0 < n) {half : Volume R}
    (hhalf : half.size = n / 2 + 1) : (realLine roots (realFactors n) stride n half).size = n := by
  rcases hfactors : realFactors n with _ | ⟨r, rest⟩
  · have hone : ¬1 < n := fun h => realFactors_ne_nil h hfactors
    rw [realLine, Array.size_map]
    omega
  · rw [realLine, Array.size_ofFn]

/-- The size of a row of a volume with so many rows. -/
theorem size_extract_row {α : Type} {items : Array α} {rows n : ℕ} (h : items.size = rows * n)
    (l : Fin rows) : (items.extract (l * n) (l * n + n)).size = n := by
  have hle : l * n + n ≤ rows * n := by
    rw [← Nat.succ_mul]
    exact Nat.mul_le_mul_right n l.isLt
  rw [Array.size_extract, h]
  omega

/-! ### The fast transforms -/

theorem size_fastRealForward (p : Precision) {extents : Triple ℕ} {values : Array R}
    (hz : 0 < extents.z) (h : values.size = extents.volume) :
    (fastRealForward p extents values).size
      = (TransformKind.realToComplex.packed extents).volume := by
  have hrow (l : Fin (extents.x * extents.y)) := size_extract_row h l
  simp only [fastRealForward, size_fastAxis, size_storeVolume]
  rw [size_foldl_append (n := extents.z / 2 + 1), Array.size_ofFn]
  · rfl
  · intro row hmem
    obtain ⟨l, rfl⟩ := Array.mem_ofFn.mp hmem
    have := size_halfSpectrum (circleTable .forward extents.z) 1 (hz.trans_eq (hrow l).symm)
    rwa [hrow l] at this

theorem size_fastRealInverse (p : Precision) {extents : Triple ℕ} {half : Volume R}
    (hz : 0 < extents.z) (h : half.size = (TransformKind.realToComplex.packed extents).volume) :
    (fastRealInverse p extents half).size = extents.volume := by
  simp only [fastRealInverse]
  rw [size_foldl_append (n := extents.z), Array.size_ofFn]
  · rfl
  · intro row hmem
    obtain ⟨l, rfl⟩ := Array.mem_ofFn.mp hmem
    refine size_realLine _ _ hz ?_
    rw [Array.size_mapIdx]
    exact size_extract_row (by rw [size_fastAxis, size_fastAxis, h]; rfl) l

theorem fastTransforms_shaped (p : Precision) :
    (fastTransforms p : ArrayTransforms R).Shaped where
  complexForward _ h := (size_fastComplex ..).trans h
  complexInverse _ h := (size_fastComplex ..).trans h
  realForward hpos h := size_fastRealForward p (Nat.pos_of_mul_pos_left hpos) h
  realInverse hpos h := size_fastRealInverse p (Nat.pos_of_mul_pos_left hpos) h

end FourierAudit
