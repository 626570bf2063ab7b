/-
How a tolerance depends on its factor.

The tolerance of a check is a fixed positive number times the factor of the case. A larger factor
never gives a smaller tolerance, be it in exact or in binary64 arithmetic, where the product is
rounded and may be infinite:

* `LawfulTolerance` — the laws of positive products, for both kinds of scalars;
* `IsPositive.mul_le` — products of positive binary64 numbers;
* `tolerance_le` — the tolerances of two factors.
-/
import FourierAudit.Comparison
import FourierAudit.Proofs.Binary64Rounding

namespace FourierAudit

open Float.Model Float.Model.UnpackedFloat

/-! ### Products -/

theorem unpack_mul (a b : Float) : (a * b).toModel.unpack
    = stored (UnpackedFloat.mul Format.binary64 a.toModel.unpack b.toModel.unpack) := rfl

/-- The exponent of a product is not above the one that its significand is rounded to. -/
theorem le_targetExponent {m m' : ℕ} {e e' : ℤ} (h : IsCanonical m e) (h' : IsCanonical m' e') :
    e + e' ≤ Format.binary64.targetExponent (totalExponent (m * m') (e + e')) := by
  rw [targetExponent_binary64, totalExponent]
  have hpos : 0 < m * m' := Nat.mul_pos h.pos h'.pos
  rcases Nat.lt_or_ge (m * m') (2 ^ 52) with hlt | hge
  · -- both significands are below the smallest leading bit
    have hm : e = -1074 := h.subnormal ((Nat.le_mul_of_pos_right m h'.pos).trans_lt hlt)
    have hm' : e' = -1074 := h'.subnormal ((Nat.le_mul_of_pos_left m' h.pos).trans_lt hlt)
    omega
  · have := (Nat.le_log2 hpos.ne').mpr hge
    omega

theorem value_le {m m' : ℕ} {e e' : ℤ} (h : IsCanonical m e) (h' : IsCanonical m' e')
    (hle : e < e' ∨ e = e' ∧ m ≤ m') : (m : ℚ) * 2 ^ e ≤ m' * 2 ^ e' := by
  rcases hle with hlt | ⟨rfl, hle⟩
  · have hm : (m : ℚ) ≤ 2 ^ 53 := by exact_mod_cast h.significand.le
    have hm' : (2 : ℚ) ^ 52 ≤ m' := by
      have := h.exponent
      have := h'.subnormal
      exact_mod_cast (by omega : 2 ^ 52 ≤ m')
    calc (m : ℚ) * 2 ^ e
        ≤ 2 ^ 53 * 2 ^ e := by gcongr
      _ = 2 ^ 52 * 2 ^ (e + 1) := by
          rw [zpow_add_one₀ two_ne_zero]
          ring
      _ ≤ m' * 2 ^ e' := by
          gcongr
          · exact one_le_two
          · omega
  · gcongr

theorem isNaN_stored_round {m : ℕ} {e : ℤ} (hm : 0 < m)
    (he : e ≤ Format.binary64.targetExponent (totalExponent m e)) (s : Sign) :
    (stored (roundWithAccuracy Format.binary64 s m e .exact)).isNaN = false := by
  obtain ⟨n, -, hrounded, hround⟩ := exists_round hm rfl he s
  rw [hround]
  rcases Nat.eq_zero_or_pos n with rfl | hn
  · exact congrArg UnpackedFloat.isNaN (stored_zero s)
  · obtain ⟨m', e', hc, hcarried, -⟩ := exists_carried hrounded hn s
    rw [hcarried, stored_finite hc]
    split_ifs <;> rfl

/-- The numbers above zero that can be unpacked. -/
inductive IsPositive : UnpackedFloat → Prop
  | infinity : IsPositive (.infinity .positive)
  | finite {m : ℕ} {e : ℤ} (hc : IsCanonical m e) : IsPositive (.finite .positive m e hc.pos)

theorem orderKey_le_infinity (f : UnpackedFloat) :
    orderKey f ≤ orderKey (.infinity .positive) := by
  rcases f with (_ | _) | _ | _ | ⟨_ | _, m, e, hm⟩ <;>
    simp [orderKey, Prod.Lex.toLex_le_toLex]

section Mul

variable {f g g' : UnpackedFloat}

theorem IsPositive.infinity_mul (hg : IsPositive g) :
    UnpackedFloat.mul Format.binary64 (.infinity .positive) g = .infinity .positive := by
  cases hg <;> rfl

theorem IsPositive.mul_infinity (hf : IsPositive f) :
    UnpackedFloat.mul Format.binary64 f (.infinity .positive) = .infinity .positive := by
  cases hf <;> rfl

theorem IsPositive.isNaN_mul (hf : IsPositive f) (hg : IsPositive g) :
    (stored (UnpackedFloat.mul Format.binary64 f g)).isNaN = false := by
  cases hf with
  | infinity =>
    rw [hg.infinity_mul, stored_infinity]
    rfl
  | finite hc =>
    cases hg with
    | infinity =>
      rw [(IsPositive.finite hc).mul_infinity, stored_infinity]
      rfl
    | finite hc' =>
      exact isNaN_stored_round (Nat.mul_pos hc.pos hc'.pos) (le_targetExponent hc hc') _

/-- The product with a positive number keeps the order of positive numbers. -/
theorem IsPositive.mul_le (hf : IsPositive f) (hg : IsPositive g) (hg' : IsPositive g')
    (h : orderKey g ≤ orderKey g') :
    orderKey (stored (UnpackedFloat.mul Format.binary64 f g))
      ≤ orderKey (stored (UnpackedFloat.mul Format.binary64 f g')) := by
  cases hf with
  | infinity => rw [hg.infinity_mul, hg'.infinity_mul]
  | finite hc =>
    cases hg' with
    | infinity =>
      rw [(IsPositive.finite hc).mul_infinity, stored_infinity]
      exact orderKey_le_infinity _
    | finite hc'' =>
      cases hg with
      | infinity => simp [orderKey, Prod.Lex.toLex_le_toLex] at h
      | finite hc' =>
        simp only [orderKey, Prod.Lex.toLex_le_toLex, lt_irrefl, false_or, true_and,
          Nat.cast_le] at h
        refine orderKey_round_le (Nat.mul_pos hc.pos hc'.pos) (Nat.mul_pos hc.pos hc''.pos)
          (le_targetExponent hc hc') (le_targetExponent hc hc'') ?_
        have hvalue := value_le hc' hc'' h
        rw [Nat.cast_mul, Nat.cast_mul, zpow_add₀ two_ne_zero, zpow_add₀ two_ne_zero,
          mul_mul_mul_comm, mul_mul_mul_comm _ _ (2 ^ _)]
        gcongr

end Mul

theorem isPositive_unpack {a : Float} (h : Scalar.lt Scalar.zero a = true) :
    IsPositive a.toModel.unpack := by
  have hzero : orderKey (Scalar.zero : Float).toModel.unpack = toLex (0, toLex (0, 0)) := rfl
  rw [Scalar.lt, Bool.and_eq_true, Bool.not_eq_true', ← Bool.not_eq_true, le_float, le_float,
    hzero] at h
  obtain ⟨⟨hnum, hnum', hle⟩, hnot⟩ := h
  have hlt : toLex (0, toLex (0, 0)) < orderKey a.toModel.unpack :=
    lt_of_le_of_ne hle fun heq => hnot ⟨hnum', hnum, heq.ge⟩
  cases hunpack : a.toModel.unpack with
  | infinity s =>
    cases s with
    | positive => exact .infinity
    | negative => simp [hunpack, orderKey, Prod.Lex.toLex_lt_toLex] at hlt
  | notANumber => simp [hunpack, orderKey] at hlt
  | zero s => simp [hunpack, orderKey] at hlt
  | finite s m e hm =>
    cases s with
    | positive => exact .finite (isCanonical_of_unpack hunpack)
    | negative => simp [hunpack, orderKey, Prod.Lex.toLex_lt_toLex] at hlt

theorem lt_of_lt_of_le_scalar {R : Type} [Scalar R] [LawfulOrder R] {a b c : R}
    (h : Scalar.lt a b = true) (h' : Scalar.le b c = true) : Scalar.lt a c = true := by
  rw [Scalar.lt, Bool.and_eq_true, Bool.not_eq_true'] at h ⊢
  refine ⟨LawfulOrder.le_trans h.1 h', ?_⟩
  by_contra hca
  have := LawfulOrder.le_trans h' (Bool.eq_true_of_not_eq_false hca)
  rw [h.2] at this
  exact Bool.noConfusion this

/-- The product with a positive number keeps the order of positive numbers. -/
theorem le_mul_float {a b b' : Float} (ha : Scalar.lt Scalar.zero a = true)
    (hb : Scalar.lt Scalar.zero b = true) (h : Scalar.le b b' = true) :
    Scalar.le (a * b) (a * b') = true := by
  have hb' : Scalar.lt Scalar.zero b' = true := lt_of_lt_of_le_scalar hb h
  have hpos := isPositive_unpack ha
  have hisNaN (x : Float) : Scalar.isNaN x = x.toModel.unpack.isNaN := rfl
  rw [le_float, hisNaN, hisNaN, unpack_mul, unpack_mul]
  exact ⟨hpos.isNaN_mul (isPositive_unpack hb), hpos.isNaN_mul (isPositive_unpack hb'),
    hpos.mul_le (isPositive_unpack hb) (isPositive_unpack hb') ((le_float _ _).mp h).2.2⟩

/-! ### The laws -/

/-- The laws of a scaled tolerance. -/
class LawfulTolerance (R : Type) [Scalar R] : Prop extends LawfulOrder R where
  /-- A tolerance without factor is positive. -/
  baseTolerance_pos : ∀ (p : Precision) (check : Check),
    Scalar.lt Scalar.zero (baseTolerance p check : R) = true
  /-- The product with a positive number keeps the order of positive numbers. -/
  mul_le_mul : ∀ {a b b' : R}, Scalar.lt Scalar.zero a = true → Scalar.lt Scalar.zero b = true →
    Scalar.le b b' = true → Scalar.le (a * b) (a * b') = true

instance : LawfulTolerance ℝ where
  baseTolerance_pos p check := by
    cases p <;> cases check <;> simp [baseTolerance]
  mul_le_mul {a b b'} ha _ h := by
    rw [Scalar.lt_real, Scalar.zero_real] at ha
    rw [Scalar.le_real] at h ⊢
    exact mul_le_mul_of_nonneg_left h ha.le

instance : LawfulTolerance Float where
  baseTolerance_pos p check := by
    cases p <;> cases check <;> decide
  mul_le_mul := le_mul_float

/-- A larger factor gives no smaller tolerance. -/
theorem tolerance_le {R : Type} [Scalar R] [LawfulTolerance R] (p : Precision) (check : Check)
    {scale scale' : R} (hpos : Scalar.lt Scalar.zero scale = true)
    (hle : Scalar.le scale scale' = true) :
    Scalar.le (baseTolerance p check * scale) (baseTolerance p check * scale') = true :=
  LawfulTolerance.mul_le_mul (LawfulTolerance.baseTolerance_pos p check) hpos hle

end FourierAudit
