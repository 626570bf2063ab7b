/-
The errors that a comparison works with.

The error of a component is `|expected - found| / max |expected| 1`. In binary64 arithmetic it may
fail to be a number, and then it is out of any tolerance:

* `isNaN_componentError_iff` — it is no number if and only if one of the two is none or the expected
  one is infinite;
* `unsigned_componentError` — it has no minus sign;
* `LawfulErrors` — the laws of errors that the diagnostics of a comparison rely on, for exact
  arithmetic and for binary64 arithmetic alike.
-/
import FourierAudit.Comparison
import FourierAudit.Proofs.Binary64Values

namespace FourierAudit

/-! ### The larger of two scalars -/

section Max

variable {R : Type} [Scalar R]

theorem max_eq_or (a b : R) : Scalar.max a b = a ∨ Scalar.max a b = b := by
  simp only [Scalar.max]
  split_ifs <;> simp

/-- A NaN of either side is passed on. -/
theorem isNaN_max (a b : R) :
    Scalar.isNaN (Scalar.max a b) = true ↔ Scalar.isNaN a = true ∨ Scalar.isNaN b = true := by
  simp only [Scalar.max]
  by_cases ha : Scalar.isNaN a = true
  · simp [ha]
  · by_cases hb : Scalar.isNaN b = true
    · simp [ha, hb]
    · by_cases hab : Scalar.le a b = true <;> simp [ha, hb, hab]

end Max

/-! ### Binary64 errors -/

section Binary64

open Float.Model Float.Model.UnpackedFloat

variable {e f : Float}

theorem isNaN_unpack (a : Float) : Scalar.isNaN a = a.toModel.unpack.isNaN := rfl

theorem unpack_one : ∃ m k hm, (Scalar.one : Float).toModel.unpack = .finite .positive m k hm :=
  ⟨2 ^ 52, -52, by decide, by rfl⟩

/-- What the absolute error of a component is divided by. -/
def errorUnit (e : Float) : Float := Scalar.max (Scalar.abs e) Scalar.one

theorem unpack_componentError (e f : Float) : (componentError e f).toModel.unpack
    = stored (UnpackedFloat.div Format.binary64 (Scalar.abs (e - f)).toModel.unpack
        (errorUnit e).toModel.unpack) := rfl

theorem unpack_sub (a b : Float) : (a - b).toModel.unpack
    = stored (UnpackedFloat.sub Format.binary64 a.toModel.unpack b.toModel.unpack) := rfl

theorem unsigned_errorUnit (e : Float) : Unsigned (errorUnit e).toModel.unpack := by
  obtain ⟨m, k, hm, hone⟩ := unpack_one
  rcases max_eq_or (Scalar.abs e) Scalar.one with h | h
  · rw [errorUnit, h, unpack_abs]
    exact unsigned_abs _
  · rw [errorUnit, h, hone]
    exact .finite

/-- An error has no minus sign. -/
theorem unsigned_componentError (e f : Float) :
    Unsigned (componentError e f).toModel.unpack := by
  rw [unpack_componentError, unpack_abs]
  exact ((unsigned_abs _).div (unsigned_errorUnit e)).stored

/-- The error of a finite number is a fraction of a finite number above zero. -/
theorem unpack_errorUnit_of_isFinite (he : e.toModel.unpack.isFinite = true) :
    ∃ m k hm, (errorUnit e).toModel.unpack = .finite .positive m k hm := by
  obtain ⟨m, k, hm, hone⟩ := unpack_one
  have habs := unpack_abs e
  cases h : e.toModel.unpack with
  | notANumber => rw [h] at he; exact Bool.noConfusion he
  | infinity s => rw [h] at he; exact Bool.noConfusion he
  | zero s =>
    -- one is larger than zero
    rw [h] at habs
    have hle : Scalar.le (Scalar.abs e) Scalar.one = true := by
      rw [le_float, isNaN_unpack, isNaN_unpack, habs, hone]
      exact ⟨rfl, rfl, by simp [UnpackedFloat.abs, orderKey, Prod.Lex.toLex_le_toLex]⟩
    have hnum := LawfulOrder.isNaN_left hle
    have hnum' := LawfulOrder.isNaN_right hle
    have hunit : errorUnit e = Scalar.one := by simp [errorUnit, Scalar.max, hle, hnum, hnum']
    rw [hunit, hone]
    exact ⟨m, k, hm, rfl⟩
  | finite s m' k' hm' =>
    rw [h] at habs
    rcases max_eq_or (Scalar.abs e) Scalar.one with hmax | hmax
    · rw [errorUnit, hmax, habs]
      exact ⟨m', k', hm', rfl⟩
    · rw [errorUnit, hmax, hone]
      exact ⟨m, k, hm, rfl⟩

theorem unpack_errorUnit_of_infinity {s : Sign} (he : e.toModel.unpack = .infinity s) :
    (errorUnit e).toModel.unpack = .infinity .positive := by
  obtain ⟨m, k, hm, hone⟩ := unpack_one
  have habs : (Scalar.abs e).toModel.unpack = .infinity .positive := by
    rw [unpack_abs, he]
    rfl
  have hnum : Scalar.isNaN (Scalar.abs e) = false := by
    rw [isNaN_unpack, habs]
    rfl
  have hnum' : Scalar.isNaN (Scalar.one : Float) = false := by
    rw [isNaN_unpack, hone]
    rfl
  have hnot : Scalar.le (Scalar.abs e) Scalar.one = false := by
    rw [← Bool.not_eq_true, le_float, habs, hone]
    simp [orderKey, Prod.Lex.toLex_le_toLex]
  have hunit : errorUnit e = Scalar.abs e := by simp [errorUnit, Scalar.max, hnum, hnum', hnot]
  rw [hunit, habs]

theorem isNaN_componentError_of_isNaN (h : Scalar.isNaN e = true ∨ Scalar.isNaN f = true) :
    Scalar.isNaN (componentError e f) = true := by
  have hdiff : (Scalar.abs (e - f)).toModel.unpack.isNaN = true := by
    rw [unpack_abs, isNaN_abs, unpack_sub, isNaN_stored]
    exact isNaN_sub_of_isNaN h
  rw [isNaN_unpack, unpack_componentError, isNaN_stored]
  exact isNaN_div_of_isNaN hdiff

/-- The distance from an infinity is infinite or no number, and it is divided by an infinity. -/
theorem isNaN_componentError_of_infinity {s : Sign} (he : e.toModel.unpack = .infinity s) :
    Scalar.isNaN (componentError e f) = true := by
  rw [isNaN_unpack, unpack_componentError, isNaN_stored, unpack_errorUnit_of_infinity he,
    unpack_abs]
  have hdiff := unpack_sub e f
  rw [he] at hdiff
  rcases isNaN_or_infinity_sub s f.toModel.unpack with h | ⟨t, h⟩
  · refine isNaN_div_of_isNaN ?_
    rw [isNaN_abs, hdiff, isNaN_stored, h]
  · rw [hdiff, h, stored_infinity]
    rfl

theorem isNaN_componentError_of_isFinite (he : e.toModel.unpack.isFinite = true)
    (hf : Scalar.isNaN f = false) : Scalar.isNaN (componentError e f) = false := by
  obtain ⟨m, k, hm, hunit⟩ := unpack_errorUnit_of_isFinite he
  have hsub : (e - f).toModel.unpack.isNaN = false := by
    rw [unpack_sub, isNaN_stored]
    exact isNaN_sub_of_isFinite he hf
  rw [isNaN_unpack, unpack_componentError, isNaN_stored, hunit, unpack_abs]
  cases h : (e - f).toModel.unpack with
  | notANumber => rw [h] at hsub; exact Bool.noConfusion hsub
  | infinity s => rfl
  | zero s => rfl
  | finite s m k hm => exact isNaN_roundWithAccuracy _ _ _ _

/-- An error is no number if and only if one of the two components is none, or the expected one is
infinite. -/
theorem isNaN_componentError_iff : Scalar.isNaN (componentError e f) = true ↔
    Scalar.isNaN e = true ∨ Scalar.isNaN f = true ∨ e.isInf = true := by
  have hinf : e.isInf = e.toModel.unpack.isInf := rfl
  constructor
  · intro h
    by_contra hnot
    obtain ⟨he, hf, hi⟩ : Scalar.isNaN e = false ∧ Scalar.isNaN f = false ∧ e.isInf = false := by
      simpa using hnot
    have hfinite : e.toModel.unpack.isFinite = true := by
      rw [isNaN_unpack] at he
      rw [hinf] at hi
      cases h : e.toModel.unpack <;> rw [h] at he hi <;>
        first | rfl | exact Bool.noConfusion he | exact Bool.noConfusion hi
    rw [isNaN_componentError_of_isFinite hfinite hf] at h
    exact Bool.noConfusion h
  · rintro (h | h | h)
    · exact isNaN_componentError_of_isNaN (.inl h)
    · exact isNaN_componentError_of_isNaN (.inr h)
    · rw [hinf] at h
      cases he : e.toModel.unpack with
      | infinity s => exact isNaN_componentError_of_infinity he
      | _ => rw [he] at h; exact Bool.noConfusion h

end Binary64

/-! ### The laws -/

/-- The laws of errors. -/
class LawfulErrors (R : Type) [Scalar R] : Prop extends LawfulOrder R where
  isNaN_zero : Scalar.isNaN (Scalar.zero : R) = false
  /-- Zero is the error of a component that is found as expected. -/
  componentError_zero : componentError (Scalar.zero : R) Scalar.zero = Scalar.zero
  /-- An error that is a number is not below zero. -/
  zero_le : ∀ e f : R, Scalar.isNaN (componentError e f) = false →
    Scalar.le Scalar.zero (componentError e f) = true
  /-- Errors that are at most each other are the same. -/
  antisymm : ∀ e f e' f' : R, Scalar.le (componentError e f) (componentError e' f') = true →
    Scalar.le (componentError e' f') (componentError e f) = true →
    componentError e f = componentError e' f'

instance : LawfulErrors ℝ where
  isNaN_zero := rfl
  componentError_zero := by
    rw [componentError, sub_self, Scalar.zero_real, Scalar.abs_real, abs_zero, zero_div]
  zero_le e f _ := by
    rw [Scalar.le_real, Scalar.zero_real, componentError, Scalar.max_real]
    exact div_nonneg (abs_nonneg _) ((abs_nonneg _).trans (le_max_left _ _))
  antisymm e f e' f' h h' := by
    rw [Scalar.le_real] at h h'
    exact le_antisymm h h'

instance : LawfulErrors Float where
  isNaN_zero := rfl
  componentError_zero := by decide
  zero_le e f := zero_le_of_unsigned (unsigned_componentError e f)
  antisymm e f e' f' := eq_of_le_of_le (unsigned_componentError e f) (unsigned_componentError e' f')

end FourierAudit
