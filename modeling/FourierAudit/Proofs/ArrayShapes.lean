/-
The shapes that arrays can have.

An array has at most 64 axes, and a signed machine word counts its bytes; axes that are empty do
not count. A dense transform needs arrays for its volume and for the kernel of every axis:

* `isAddressable_natural`, `isAddressable_of_pos` — the test for natural extents, as arithmetic;
* `Representable` — the extents that a transform can have, and `hasKernel_iff` for one axis;
* `wordProduct_natural` — the extents of an array are counted without wrapping around.
-/
import FourierAudit.Proofs.FailingSteps
import FourierAudit.Proofs.RowMajor

namespace FourierAudit

/-- Whether arrays can hold a volume of complex samples with these extents and the kernel of every
axis, a square matrix of complex samples. A sample takes 16 bytes. -/
structure Representable (dims : List ℕ) : Prop where
  axes : dims.length ≤ 64
  volume : 16 * (dims.filter (0 < ·)).prod < 2 ^ 63
  kernels : ∀ n ∈ dims, 16 * (n * n) < 2 ^ 63

theorem foldl_mul_natural (start : ℤ) (dims : List ℕ) :
    (dims.map Int.ofNat).foldl (· * ·) start = start * (dims.prod : ℕ) := by
  induction dims generalizing start with
  | nil => simp
  | cons n rest ih =>
    rw [List.map_cons, List.foldl_cons, ih, List.prod_cons, Int.ofNat_eq_natCast]
    push_cast
    ring

theorem filter_pos_natural (dims : List ℕ) :
    (dims.map Int.ofNat).filter (0 < ·) = (dims.filter (0 < ·)).map Int.ofNat := by
  rw [List.filter_map]
  congr 1
  exact List.filter_congr fun n _ => by simp

theorem isWord_natural (n : ℕ) : isWord n = true ↔ n < 2 ^ 63 := by
  simp only [isWord, Bool.and_eq_true, decide_eq_true_eq]
  omega

theorem isAddressable_natural (size : ℕ) (dims : List ℕ) :
    isAddressable size (dims.map Int.ofNat) = true ↔
      dims.length ≤ 64 ∧ (∀ n ∈ dims, n < 2 ^ 63) ∧
        size * (dims.filter (0 < ·)).prod < 2 ^ 63 := by
  simp only [isAddressable, filter_pos_natural, foldl_mul_natural, Bool.and_eq_true,
    decide_eq_true_eq, List.length_map, List.all_map, List.all_eq_true, and_assoc]
  refine and_congr_right' (and_congr ?_ ?_)
  · refine forall₂_congr ?_
    intro n _
    rw [Function.comp_apply, Int.ofNat_eq_natCast, isWord_natural]
  · rw [← Nat.cast_mul, isWord_natural]

theorem filter_pos_of_prod_pos {dims : List ℕ} (h : 0 < dims.prod) :
    dims.filter (0 < ·) = dims := by
  rw [List.filter_eq_self]
  intro n hn
  exact decide_eq_true (Nat.pos_of_dvd_of_pos (List.dvd_prod hn) h)

/-- Without empty axes it is only the number of bytes that counts. -/
theorem isAddressable_of_pos {size : ℕ} (hsize : 0 < size) {dims : List ℕ}
    (haxes : dims.length ≤ 64) (hpos : 0 < dims.prod) :
    isAddressable size (dims.map Int.ofNat) = true ↔ size * dims.prod < 2 ^ 63 := by
  rw [isAddressable_natural, filter_pos_of_prod_pos hpos]
  refine ⟨fun h => h.2.2, fun hbytes => ⟨haxes, fun n hn => ?_, hbytes⟩⟩
  have hle : n ≤ dims.prod := Nat.le_of_dvd hpos (List.dvd_prod hn)
  exact (hle.trans (Nat.le_mul_of_pos_left _ hsize)).trans_lt hbytes

theorem isAddressable_elements (p : Precision) {dims : List ℕ} (haxes : dims.length ≤ 64)
    (hpos : 0 < dims.prod) :
    isAddressable p.elementSize (dims.map Int.ofNat) = true ↔
      p.elementSize.toNat * dims.prod < 2 ^ 63 := by
  have hsize : 0 < p.elementSize.toNat := by
    cases p <;> decide
  have h := isAddressable_of_pos hsize haxes hpos
  rwa [Int.toNat_of_nonneg (Int.pos_iff_toNat_pos.mpr hsize).le] at h

theorem prod_filter_pos_le {dims dims' : List ℕ} (h : List.Forall₂ (· ≤ ·) dims dims') :
    (dims.filter (0 < ·)).prod ≤ (dims'.filter (0 < ·)).prod := by
  induction h with
  | nil => exact le_rfl
  | @cons n n' _ _ hn _ ih =>
    simp only [List.filter_cons, decide_eq_true_eq]
    split_ifs with h h'
    · rw [List.prod_cons, List.prod_cons]
      exact Nat.mul_le_mul hn ih
    · omega
    · rw [List.prod_cons]
      exact ih.trans (Nat.le_mul_of_pos_left _ ‹0 < n'›)
    · exact ih

/-- An array can have extents that are no larger, with smaller elements. -/
theorem isAddressable_mono {size size' : ℕ} (hsize : size ≤ size') {dims dims' : List ℕ}
    (hdims : List.Forall₂ (· ≤ ·) dims dims')
    (h : isAddressable size' (dims'.map Int.ofNat) = true) :
    isAddressable size (dims.map Int.ofNat) = true := by
  rw [isAddressable_natural] at h ⊢
  obtain ⟨haxes, hwords, hbytes⟩ := h
  refine ⟨hdims.length_eq ▸ haxes, ?_, ?_⟩
  · intro n hn
    obtain ⟨n', hn', hle⟩ := exists_of_forall₂ hdims.flip hn
    exact lt_of_le_of_lt hle (hwords n' hn')
  · exact (Nat.mul_le_mul hsize (prod_filter_pos_le hdims)).trans_lt hbytes

theorem volumeSize_eq_list_prod (dims : List ℕ) : volumeSize dims = dims.prod := by
  induction dims with
  | nil => rfl
  | cons n rest ih => rw [volumeSize, List.prod_cons, ih]

theorem Triple.list_prod_toList (extents : Triple ℕ) : extents.toList.prod = extents.volume := by
  rw [← volumeSize_eq_list_prod, volumeSize_toList]

theorem isAddressable_toList {size : ℕ} (hsize : 0 < size) {extents : Triple ℕ}
    (hpos : 0 < extents.volume) :
    isAddressable size (extents.toList.map Int.ofNat) = true ↔ size * extents.volume < 2 ^ 63 := by
  rw [← extents.list_prod_toList] at hpos ⊢
  exact isAddressable_of_pos hsize (by decide : 3 ≤ 64) hpos

theorem hasKernel_iff (n : ℕ) : hasKernel n = true ↔ 16 * (n * n) < 2 ^ 63 := by
  rcases Nat.eq_zero_or_pos n with rfl | hn
  · decide
  · have hprod : [n, n].prod = n * n := by rw [List.prod_cons, List.prod_singleton]
    have hpos : 0 < [n, n].prod := hprod ▸ Nat.mul_pos hn hn
    have h := @isAddressable_of_pos 16 (by decide) [n, n] (by decide : 2 ≤ 64) hpos
    rw [hprod] at h
    exact h

/-- The code's tests for a transform, together. -/
theorem representable_iff (dims : List ℕ) :
    Representable dims ↔
      isAddressable Precision.double.elementSize (dims.map Int.ofNat) = true ∧
        dims.all hasKernel = true := by
  have h := isAddressable_natural 16 dims
  rw [show (Precision.double.elementSize : ℤ) = ((16 : ℕ) : ℤ) from rfl, h, List.all_eq_true]
  simp only [hasKernel_iff]
  constructor
  · rintro ⟨h₁, h₂, h₃⟩
    refine ⟨⟨h₁, ?_, h₂⟩, h₃⟩
    intro n hn
    have := h₃ n hn
    have := Nat.le_mul_self n
    omega
  · rintro ⟨⟨h₁, -, h₂⟩, h₃⟩
    exact ⟨h₁, h₂, h₃⟩

theorem volumeSize_le_prod_filter (dims : List ℕ) :
    volumeSize dims ≤ (dims.filter (0 < ·)).prod := by
  induction dims with
  | nil => exact le_rfl
  | cons n rest ih =>
    rw [volumeSize]
    rcases Nat.eq_zero_or_pos n with rfl | hn
    · rw [Nat.zero_mul]
      exact Nat.zero_le _
    · rw [List.filter_cons_of_pos (by simpa using hn), List.prod_cons]
      exact Nat.mul_le_mul_left n ih

/-- The product of natural extents, unless it wraps around. -/
theorem wordProduct_natural {dims : List ℕ} (h : volumeSize dims < 2 ^ 63) :
    wordProduct (dims.map Int.ofNat) = volumeSize dims := by
  have hfold : (dims.map Int.ofNat).foldl (· * ·) 1 = (volumeSize dims : ℤ) := by
    rw [foldl_mul_natural, one_mul, volumeSize_eq_list_prod]
  simp only [wordProduct, hfold]
  split
  · exact Int.bmod_eq_of_le (by omega) (by omega)
  · rfl

theorem Representable.volumeSize_lt {dims : List ℕ} (h : Representable dims) :
    volumeSize dims < 2 ^ 63 := by
  have h₁ := h.volume
  have h₂ := volumeSize_le_prod_filter dims
  omega

section Case

variable {R : Type} [Scalar R]

theorem volume_pos (c : TransformCase R) : 0 < c.extents.volume := by
  obtain ⟨hx, hy, hz⟩ := c.extents_pos
  exact Nat.mul_pos (Nat.mul_pos hx hy) hz

theorem volumeSize_dims (c : TransformCase R) : volumeSize c.dims = c.extents.volume :=
  c.extents.volumeSize_toList

/-- The grid points of a case, unless their number wraps around. -/
theorem points_eq {c : TransformCase R} (h : c.extents.volume < 2 ^ 63) :
    c.points = c.extents.volume := by
  rw [← volumeSize_dims] at h ⊢
  rw [TransformCase.points, wordProduct_natural h]

/-- The grids of a case take no more than what a transform of its extents takes. -/
theorem Representable.elementSize_mul_volume_lt {c : TransformCase R} (h : Representable c.dims) :
    c.precision.elementSize.toNat * c.extents.volume < 2 ^ 63 := by
  have hsize : c.precision.elementSize.toNat ≤ 16 := by
    cases c.precision <;> decide
  rw [← volumeSize_dims]
  exact (Nat.mul_le_mul hsize (volumeSize_le_prod_filter c.dims)).trans_lt h.volume

end Case

end FourierAudit
