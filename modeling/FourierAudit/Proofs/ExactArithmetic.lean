/-
Exact arithmetic.

The library is written over any scalars. Here it is read over the real numbers, where nothing is
rounded, a single precision grid loses nothing and there is no NaN. A sample is then a complex
number:

* `Sample.toComplex` — the number that a sample stands for; it determines the sample
  (`Sample.toComplex_injective`), and the operations on samples are those of complex numbers;
* `entry` — the number at a place of a volume, zero beyond the end; a volume is determined by its
  size and its entries (`ext_entry`);
* `Precision.storeVolume_exact` — storing changes no volume.
-/
import Mathlib
import FourierAudit.Precision

namespace FourierAudit

/-- Exact arithmetic on the real numbers. -/
noncomputable instance : Scalar ℝ where
  ofInt n := n
  pi := Real.pi
  cos := Real.cos
  sin := Real.sin
  abs x := |x|
  le a b := decide (a ≤ b)
  isNaN _ := false
  single x := x

namespace Scalar

@[simp] theorem ofInt_real (n : ℤ) : (ofInt n : ℝ) = n := rfl

@[simp] theorem zero_real : (zero : ℝ) = 0 := Int.cast_zero

@[simp] theorem one_real : (one : ℝ) = 1 := Int.cast_one

@[simp] theorem pi_real : (pi : ℝ) = Real.pi := rfl

@[simp] theorem cos_real (x : ℝ) : cos x = Real.cos x := rfl

@[simp] theorem sin_real (x : ℝ) : sin x = Real.sin x := rfl

@[simp] theorem abs_real (x : ℝ) : abs x = |x| := rfl

@[simp] theorem isNaN_real (x : ℝ) : isNaN x = false := rfl

@[simp] theorem le_real (a b : ℝ) : le a b = true ↔ a ≤ b := decide_eq_true_iff

@[simp] theorem lt_real (a b : ℝ) : lt a b = true ↔ a < b := by
  rw [lt, Bool.and_eq_true, Bool.not_eq_true', ← Bool.not_eq_true, le_real, le_real]
  exact lt_iff_le_not_ge.symm

@[simp] theorem ratio_real (a b : ℤ) : (ratio a b : ℝ) = a / b := rfl

theorem max_real (a b : ℝ) : Scalar.max a b = Max.max a b := by
  by_cases h : a ≤ b
  · simp [Scalar.max, h]
  · simp [Scalar.max, h, max_eq_left (le_of_not_ge h)]

theorem maxNumber_real (a b : ℝ) : maxNumber a b = Max.max a b := by
  by_cases h : a ≤ b
  · simp [maxNumber, h]
  · simp [maxNumber, h, max_eq_left (le_of_not_ge h)]

end Scalar

namespace Sample

/-- The complex number that a sample stands for. -/
def toComplex (a : Sample ℝ) : ℂ := ⟨a.re, a.im⟩

theorem toComplex_injective : Function.Injective toComplex := by
  rintro ⟨a, b⟩ ⟨c, d⟩ h
  obtain ⟨h₁, h₂⟩ := Complex.ext_iff.mp h
  exact congrArg₂ Sample.mk h₁ h₂

@[simp] theorem toComplex_re (a : Sample ℝ) : a.toComplex.re = a.re := rfl

@[simp] theorem toComplex_im (a : Sample ℝ) : a.toComplex.im = a.im := rfl

@[simp] theorem toComplex_zero : (zero : Sample ℝ).toComplex = 0 := by
  apply Complex.ext <;> simp [zero]

@[simp] theorem toComplex_ofReal (x : ℝ) : (ofReal x).toComplex = x := by
  apply Complex.ext <;> simp [ofReal]

@[simp] theorem toComplex_add (a b : Sample ℝ) :
    (a.add b).toComplex = a.toComplex + b.toComplex := rfl

@[simp] theorem toComplex_mul (a b : Sample ℝ) :
    (a.mul b).toComplex = a.toComplex * b.toComplex := rfl

@[simp] theorem toComplex_conj (a : Sample ℝ) :
    a.conj.toComplex = (starRingEnd ℂ) a.toComplex := rfl

@[simp] theorem toComplex_scale (x : ℝ) (a : Sample ℝ) :
    (a.scale x).toComplex = x * a.toComplex := by
  rw [scale, toComplex_mul, toComplex_ofReal]

@[simp] theorem toComplex_sum (n : ℕ) (f : ℕ → Sample ℝ) :
    (sum n f).toComplex = ∑ j ∈ Finset.range n, (f j).toComplex := by
  induction n with
  | zero => exact toComplex_zero
  | succ n ih =>
    rw [sum, Nat.fold_succ, toComplex_add, Finset.sum_range_succ]
    exact congrArg (· + _) ih

end Sample

/-- The number at a place of a volume, zero beyond its end. -/
noncomputable def entry (v : Volume ℝ) (i : ℕ) : ℂ := (v.getD i Sample.zero).toComplex

theorem entry_of_lt {v : Volume ℝ} {i : ℕ} (h : i < v.size) : entry v i = v[i].toComplex := by
  rw [entry, Array.getD_eq_getD_getElem?, Array.getElem?_eq_getElem h, Option.getD_some]

theorem entry_of_le {v : Volume ℝ} {i : ℕ} (h : v.size ≤ i) : entry v i = 0 := by
  rw [entry, Array.getD_eq_getD_getElem?, Array.getElem?_eq_none h, Option.getD_none,
    Sample.toComplex_zero]

theorem entry_ofFn {n : ℕ} (f : Fin n → Sample ℝ) {i : ℕ} (h : i < n) :
    entry (Array.ofFn f) i = (f ⟨i, h⟩).toComplex := by
  rw [entry_of_lt (by simpa using h), Array.getElem_ofFn]

theorem entry_map {v : Volume ℝ} {f : Sample ℝ → Sample ℝ} {i : ℕ} (h : i < v.size) :
    entry (v.map f) i = (f v[i]).toComplex := by
  rw [entry_of_lt (by simpa using h), Array.getElem_map]

theorem entry_map_scale (x : ℝ) (v : Volume ℝ) (i : ℕ) :
    entry (v.map (Sample.scale x)) i = x * entry v i := by
  rcases Nat.lt_or_ge i v.size with h | h
  · rw [entry_map h, Sample.toComplex_scale, entry_of_lt h]
  · rw [entry_of_le (by rwa [Array.size_map]), entry_of_le h, mul_zero]

/-- A volume is determined by its size and its entries. -/
theorem ext_entry {v w : Volume ℝ} (hs : v.size = w.size)
    (h : ∀ i < v.size, entry v i = entry w i) : v = w := by
  apply Array.ext hs
  intro i hv hw
  have := h i hv
  rw [entry_of_lt hv, entry_of_lt hw] at this
  exact Sample.toComplex_injective this

namespace Precision

@[simp] theorem store_exact (p : Precision) (x : ℝ) : p.store x = x := by
  cases p <;> rfl

@[simp] theorem storeSample_exact (p : Precision) (a : Sample ℝ) : p.storeSample a = a := by
  rw [storeSample, store_exact, store_exact]

@[simp] theorem storeVolume_exact (p : Precision) (v : Volume ℝ) : p.storeVolume v = v := by
  cases p with
  | single =>
    show v.map (storeSample single) = v
    rw [show (storeSample single : Sample ℝ → Sample ℝ) = id from funext (storeSample_exact single)]
    exact Array.map_id v
  | double => rfl

end Precision

end FourierAudit
