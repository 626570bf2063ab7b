/-
The order that tolerances are checked with.

The test `a ≤ b` fails if either side is not a number. On numbers it is total and transitive, and
these three laws are all that a comparison relies on:

* `LawfulOrder` — the laws, for exact arithmetic and for binary64 arithmetic alike;
* `le_max_eq_false` — the larger of two scalars is out of tolerance if and only if one of them is,
  whether they are numbers or not.

Design notes: binary64 numbers, infinities included, are ordered by a key of three integers: the
class of the number, its exponent and its significand.
-/
import FourierAudit.Proofs.ExactArithmetic

namespace FourierAudit

/-- The laws of a test for order that not every scalar takes part in. -/
class LawfulOrder (R : Type) [Scalar R] : Prop where
  /-- The left side of a test that succeeds is a number. -/
  isNaN_left : ∀ {a b : R}, Scalar.le a b = true → Scalar.isNaN a = false
  /-- The right side of a test that succeeds is a number. -/
  isNaN_right : ∀ {a b : R}, Scalar.le a b = true → Scalar.isNaN b = false
  /-- Numbers can be compared. -/
  le_total : ∀ {a b : R}, Scalar.isNaN a = false → Scalar.isNaN b = false →
    Scalar.le a b = true ∨ Scalar.le b a = true
  /-- The test is transitive. -/
  le_trans : ∀ {a b c : R}, Scalar.le a b = true → Scalar.le b c = true → Scalar.le a c = true

instance : LawfulOrder ℝ where
  isNaN_left _ := rfl
  isNaN_right _ := rfl
  le_total {a b} _ _ := by
    rw [Scalar.le_real, Scalar.le_real]
    exact le_total a b
  le_trans {a b c} h h' := by
    rw [Scalar.le_real] at h h' ⊢
    exact le_trans h h'

/-! ### Binary64 numbers -/

section Binary64

open Float.Model Float.Model.UnpackedFloat

/-- The place of a number in the order: its class, its exponent and its significand. -/
def orderKey : UnpackedFloat → ℤ ×ₗ ℤ ×ₗ ℤ
  | .infinity .positive => toLex (2, toLex (0, 0))
  | .infinity .negative => toLex (-2, toLex (0, 0))
  | .zero _ => toLex (0, toLex (0, 0))
  | .finite .positive m e _ => toLex (1, toLex (e, m))
  | .finite .negative m e _ => toLex (-1, toLex (-e, -m))
  | .notANumber => toLex (0, toLex (0, 0))

theorem isLE_then_compare (e₁ e₂ : ℤ) (m₁ m₂ : ℕ) :
    ((compare e₁ e₂).then (compare m₁ m₂)).isLE = true ↔ e₁ < e₂ ∨ e₁ = e₂ ∧ m₁ ≤ m₂ := by
  rw [Ordering.isLE_then_iff_or, compare_lt_iff_lt, compare_eq_iff_eq, Nat.isLE_compare]

theorem isGE_then_compare (e₁ e₂ : ℤ) (m₁ m₂ : ℕ) :
    ((compare e₁ e₂).then (compare m₁ m₂)).isGE = true ↔ e₂ < e₁ ∨ e₁ = e₂ ∧ m₂ ≤ m₁ := by
  rw [← Ordering.isLE_swap, Ordering.swap_then, Int.compare_swap, Nat.compare_swap,
    isLE_then_compare, eq_comm]

theorem compare_sign (s t : Sign) :
    compare s t = match s, t with
      | .negative, .positive => .lt
      | .positive, .negative => .gt
      | _, _ => .eq := by
  cases s <;> cases t <;> rfl

/-- One number is at most another one if its key is. Two infinities, and two finite numbers of one
sign, are compared by what follows the class; all other pairs by the class alone. -/
theorem le_iff_orderKey (a b : UnpackedFloat) :
    a.le b = true ↔ a.isNaN = false ∧ b.isNaN = false ∧ orderKey a ≤ orderKey b := by
  -- both signs of an infinity and of a finite number are cases of their own
  rcases a with (_ | _) | _ | _ | ⟨_ | _, m, e, hm⟩ <;>
    rcases b with (_ | _) | _ | _ | ⟨_ | _, m', e', hm'⟩ <;>
    simp [UnpackedFloat.le, UnpackedFloat.compare, UnpackedFloat.isNaN, orderKey, compare_sign,
      Prod.Lex.toLex_le_toLex, isLE_then_compare, isGE_then_compare]

theorem le_float (a b : Float) :
    Scalar.le a b = true ↔ Scalar.isNaN a = false ∧ Scalar.isNaN b = false ∧
      orderKey a.toModel.unpack ≤ orderKey b.toModel.unpack := by
  have hmodel : Scalar.le a b = true ↔ a.toModel ≤ b.toModel :=
    decide_eq_true_iff.trans decide_eq_true_iff
  exact hmodel.trans (le_iff_orderKey _ _)

instance : LawfulOrder Float where
  isNaN_left h := ((le_float _ _).mp h).1
  isNaN_right h := ((le_float _ _).mp h).2.1
  le_total {a b} ha hb := by
    rw [le_float, le_float]
    exact (le_total (orderKey a.toModel.unpack) (orderKey b.toModel.unpack)).imp
      (⟨ha, hb, ·⟩) (⟨hb, ha, ·⟩)
  le_trans {a b c} h h' := by
    rw [le_float] at h h' ⊢
    exact ⟨h.1, h'.2.1, h.2.2.trans h'.2.2⟩

theorem zero_lt_one_float : Scalar.lt Scalar.zero (Scalar.one : Float) = true := by decide

end Binary64

/-! ### The larger of two scalars -/

section Max

variable {R : Type} [Scalar R] [LawfulOrder R]

theorem le_eq_false_of_isNaN {a : R} (h : Scalar.isNaN a = true) (t : R) :
    Scalar.le a t = false := by
  by_contra hle
  have := LawfulOrder.isNaN_left (Bool.eq_true_of_not_eq_false hle)
  rw [h] at this
  exact Bool.noConfusion this

theorem le_eq_false_of_le {a b t : R} (hab : Scalar.le a b = true) (hat : Scalar.le a t = false) :
    Scalar.le b t = false := by
  by_contra hbt
  rw [LawfulOrder.le_trans hab (Bool.eq_true_of_not_eq_false hbt)] at hat
  exact Bool.noConfusion hat

/-- The larger of two scalars is out of tolerance if and only if one of them is. -/
theorem le_max_eq_false (a b t : R) :
    Scalar.le (Scalar.max a b) t = false ↔ Scalar.le a t = false ∨ Scalar.le b t = false := by
  -- a NaN is passed on, and is not within any tolerance
  rcases ha : Scalar.isNaN a with _ | _
  · rcases hb : Scalar.isNaN b with _ | _
    · -- both are numbers, and the larger one decides
      rcases hab : Scalar.le a b with _ | _
      · have hba : Scalar.le b a = true :=
          (LawfulOrder.le_total ha hb).resolve_left (by rw [hab]; exact Bool.false_ne_true)
        have hmax : Scalar.max a b = a := by simp [Scalar.max, ha, hb, hab]
        rw [hmax]
        exact ⟨.inl, fun h => h.elim id (le_eq_false_of_le hba)⟩
      · have hmax : Scalar.max a b = b := by simp [Scalar.max, ha, hb, hab]
        rw [hmax]
        exact ⟨.inr, fun h => h.elim (le_eq_false_of_le hab) id⟩
    · have hmax : Scalar.max a b = b := by simp [Scalar.max, ha, hb]
      rw [hmax, le_eq_false_of_isNaN hb, eq_self, true_iff]
      exact .inr trivial
  · have hmax : Scalar.max a b = a := by simp [Scalar.max, ha]
    rw [hmax, le_eq_false_of_isNaN ha, eq_self, true_iff]
    exact .inl trivial

end Max

end FourierAudit
