/-
Numbers that need no rounding.

The result of an operation is rounded to 53 digits. If the exact result has no more digits than
that, it is what comes out:

* `Holds` — an unpacked number without a minus sign is exactly a rational number;
* `IsShort` — a rational number with few enough digits and a moderate exponent;
* `holds_mul`, `holds_add` — products and sums that are short are exact;
* `holds_natCast` — so is a natural number of at most 53 digits;
* `holds_div` — and such a number over `2 ^ 53`.

Design notes: rounding finds the nearest number on a grid. That a number on the grid stays where it
is follows from this alone, so the shifts of the definition are not looked at again.
-/
import FourierAudit.Proofs.Binary64Values
import FourierAudit.Proofs.ToleranceLaws

namespace FourierAudit

open Float.Model Float.Model.UnpackedFloat

/-- An unpacked number without a minus sign that is exactly the given one. -/
inductive Holds : UnpackedFloat → ℚ → Prop
  | zero : Holds (.zero .positive) 0
  | finite {m : ℕ} {e : ℤ} (hc : IsCanonical m e) : Holds (.finite .positive m e hc.pos) (m * 2 ^ e)

/-- A number with few enough digits and a moderate exponent. -/
def IsShort (q : ℚ) : Prop :=
  ∃ n : ℕ, ∃ j : ℤ, n < 2 ^ 53 ∧ -1022 ≤ j ∧ j ≤ 971 ∧ q = n * 2 ^ j

theorem isShort_natCast {n : ℕ} (h : n < 2 ^ 53) : IsShort n :=
  ⟨n, 0, h, by decide, by decide, by rw [zpow_zero, mul_one]⟩

/-! ### Significands and exponents of a number -/

theorem shiftLeft_value (m k : ℕ) (e : ℤ) :
    ((m <<< k : ℕ) : ℚ) * 2 ^ (e - (k : ℤ)) = m * 2 ^ e := by
  rw [Nat.shiftLeft_eq, zpow_sub₀ two_ne_zero, zpow_natCast]
  push_cast
  field_simp

theorem decreaseExponent_value (m : ℕ) (e : ℤ) {t : ℤ} (h : t ≤ e) :
    ((decreaseExponent m e t).1 : ℚ) * 2 ^ t = m * 2 ^ e := by
  have ht : e - ((e - t).toNat : ℤ) = t := by omega
  have hvalue := shiftLeft_value m (e - t).toNat e
  rwa [ht] at hvalue

theorem totalExponent_congr {m m' : ℕ} {e e' : ℤ} (hm : 0 < m) (hm' : 0 < m')
    (h : (m : ℚ) * 2 ^ e = m' * 2 ^ e') : totalExponent m e = totalExponent m' e' :=
  le_antisymm (totalExponent_mono hm h.le) (totalExponent_mono hm' h.ge)

theorem targetExponent_of_isCanonical {m : ℕ} {e : ℤ} (h : IsCanonical m e) :
    Format.binary64.targetExponent (totalExponent m e) = e := by
  have hlog := (Nat.log2_lt h.pos.ne').mpr h.significand
  have hmin := h.exponent
  rw [targetExponent_binary64, totalExponent]
  rcases Nat.lt_or_ge m (2 ^ 52) with hsub | hnormal
  · have := h.subnormal hsub
    omega
  · have := (Nat.le_log2 h.pos.ne').mpr hnormal
    omega

/-- A number of at least one has its leading bit, and an exponent that fits to it. -/
theorem IsCanonical.of_one_le {m : ℕ} {e : ℤ} (h : IsCanonical m e) (hone : (1 : ℚ) ≤ m * 2 ^ e) :
    2 ^ 52 ≤ m ∧ -52 ≤ e := by
  have htotal : totalExponent 1 0 ≤ totalExponent m e :=
    totalExponent_mono one_pos (by rwa [zpow_zero, Nat.cast_one, mul_one])
  have hlog := (Nat.log2_lt h.pos.ne').mpr h.significand
  have hlog' : Nat.log2 1 = 0 := by decide
  have he : -52 ≤ e := by
    rw [totalExponent, totalExponent, hlog'] at htotal
    omega
  have hsub := h.subnormal
  exact ⟨by omega, he⟩

/-- A short number has a canonical form: the digits are moved up to the leading bit. -/
theorem IsShort.exists_canonical {q : ℚ} (h : IsShort q) (hq : 0 < q) :
    ∃ m e, IsCanonical m e ∧ e ≤ 971 ∧ q = m * 2 ^ e := by
  obtain ⟨n, j, hn, hmin, hmax, rfl⟩ := h
  have hpos : 0 < n := by
    rw [Nat.pos_iff_ne_zero]
    rintro rfl
    simp at hq
  have hlog : n.log2 < 53 := (Nat.log2_lt hpos.ne').mpr hn
  obtain ⟨k, hk⟩ : ∃ k, n.log2 + k = 52 := ⟨52 - n.log2, by omega⟩
  have hlower : 2 ^ 52 ≤ n <<< k :=
    calc 2 ^ 52 = 2 ^ n.log2 * 2 ^ k := by rw [← pow_add, hk]
      _ ≤ n * 2 ^ k := Nat.mul_le_mul_right _ (Nat.log2_self_le hpos.ne')
      _ = n <<< k := (Nat.shiftLeft_eq n k).symm
  have hupper : n <<< k < 2 ^ 53 :=
    calc n <<< k = n * 2 ^ k := Nat.shiftLeft_eq n k
      _ < 2 ^ (n.log2 + 1) * 2 ^ k :=
        Nat.mul_lt_mul_of_pos_right Nat.lt_log2_self (Nat.two_pow_pos k)
      _ = 2 ^ 53 := by rw [← pow_add, add_right_comm, hk]
  exact ⟨n <<< k, j - k, ⟨Nat.shiftLeft_pos_iff.mpr hpos, hupper, by omega,
    fun hlt => absurd hlt (not_lt.mpr hlower)⟩, by omega, (shiftLeft_value n k j).symm⟩

/-! ### Rounding -/

theorem IsNearest.eq_of_natCast {n m : ℕ} (h : IsNearest m n) : n = m := by
  have hself : IsNearest m m := .of_lt (by linarith) (by linarith)
  exact le_antisymm (h.mono hself le_rfl) (hself.mono h le_rfl)

/-- Rounding leads to the canonical form of a number that has one. -/
theorem stored_roundWithAccuracy {m m' : ℕ} {e e' : ℤ} (hm : 0 < m)
    (he : e ≤ Format.binary64.targetExponent (totalExponent m e)) (hc : IsCanonical m' e')
    (he' : e' ≤ 971) (heq : (m : ℚ) * 2 ^ e = m' * 2 ^ e') :
    stored (roundWithAccuracy Format.binary64 .positive m e .exact)
      = .finite .positive m' e' hc.pos := by
  have ht : Format.binary64.targetExponent (totalExponent m e) = e' := by
    rw [totalExponent_congr hm hc.pos heq, targetExponent_of_isCanonical hc]
  obtain ⟨n, hnearest, -, hround⟩ := exists_round hm ht (ht ▸ he) .positive
  have hpow : (0 : ℚ) < 2 ^ e' := by positivity
  rw [heq, mul_div_cancel_right₀ _ hpow.ne'] at hnearest
  obtain rfl := hnearest.eq_of_natCast
  rw [hround, carried, dif_neg hc.pos.ne', if_neg hc.significand.ne, stored_finite hc,
    if_neg (not_lt.mpr he')]

theorem holds_roundWithAccuracy {m : ℕ} {e : ℤ} (hm : 0 < m)
    (he : e ≤ Format.binary64.targetExponent (totalExponent m e)) (h : IsShort (m * 2 ^ e)) :
    Holds (stored (roundWithAccuracy Format.binary64 .positive m e .exact)) (m * 2 ^ e) := by
  obtain ⟨m', e', hc, he', heq⟩ := h.exists_canonical (by positivity)
  rw [stored_roundWithAccuracy hm he hc he' heq, heq]
  exact .finite hc

/-- Rounding a sum or a natural number first makes room for its digits. -/
theorem holds_normalize {m : ℕ} {e : ℤ} (hm : 0 < m) (s : Sign) (h : IsShort (m * 2 ^ e)) :
    Holds (stored (UnpackedFloat.normalize Format.binary64 m e s)) (m * 2 ^ e) := by
  have hcompare : compare (m : ℤ) 0 = .gt := compare_gt_iff_gt.mpr (by omega)
  rw [UnpackedFloat.normalize, hcompare]
  show Holds (stored (UnpackedFloat.round Format.binary64 .positive m e)) _
  rw [UnpackedFloat.round, decreaseExponent]
  set k := (e - Format.binary64.targetExponent (totalExponent m e)).toNat with hk
  have hvalue := shiftLeft_value m k e
  have hpos : 0 < m <<< k := Nat.shiftLeft_pos_iff.mpr hm
  have htotal := totalExponent_congr hpos hm hvalue
  rw [← hvalue] at h ⊢
  exact holds_roundWithAccuracy hpos (by rw [htotal]; omega) h

/-! ### Operations -/

section Operations

variable {a b : Float} {x y : ℚ}

theorem unpack_add (a b : Float) : (a + b).toModel.unpack
    = stored (UnpackedFloat.add Format.binary64 a.toModel.unpack b.toModel.unpack) := rfl

theorem unpack_div (a b : Float) : (a / b).toModel.unpack
    = stored (UnpackedFloat.div Format.binary64 a.toModel.unpack b.toModel.unpack) := rfl

/-- A short product is exact. -/
theorem holds_mul (ha : Holds a.toModel.unpack x) (hb : Holds b.toModel.unpack y)
    (h : IsShort (x * y)) : Holds (a * b).toModel.unpack (x * y) := by
  rw [unpack_mul]
  generalize a.toModel.unpack = f at ha
  generalize b.toModel.unpack = g at hb
  cases ha with
  | zero =>
    have hzero : UnpackedFloat.mul Format.binary64 (.zero .positive) g = .zero .positive := by
      cases hb <;> rfl
    rw [zero_mul, hzero, stored_zero]
    exact .zero
  | @finite m e hc =>
    cases hb with
    | zero =>
      rw [mul_zero]
      exact stored_zero .positive ▸ .zero
    | @finite m' e' hc' =>
      have hvalue : (m : ℚ) * 2 ^ e * (m' * 2 ^ e') = (m * m' : ℕ) * 2 ^ (e + e') := by
        rw [zpow_add₀ two_ne_zero]
        push_cast
        ring
      rw [hvalue] at h ⊢
      exact holds_roundWithAccuracy (Nat.mul_pos hc.pos hc'.pos) (le_targetExponent hc hc') h

/-- A short sum is exact. -/
theorem holds_add (ha : Holds a.toModel.unpack x) (hb : Holds b.toModel.unpack y)
    (h : IsShort (x + y)) : Holds (a + b).toModel.unpack (x + y) := by
  have hstored := stored_unpack a
  have hstored' := stored_unpack b
  rw [unpack_add]
  generalize a.toModel.unpack = f at ha hstored
  generalize b.toModel.unpack = g at hb hstored'
  -- a sum with zero is the other number, and that one is stored already
  cases ha with
  | zero =>
    rw [zero_add]
    cases hb with
    | zero => exact .zero
    | finite hc =>
      show Holds (stored (.finite _ _ _ _)) _
      rw [hstored']
      exact .finite hc
  | @finite m e hc =>
    cases hb with
    | zero =>
      rw [add_zero]
      show Holds (stored (.finite _ _ _ _)) _
      rw [hstored]
      exact .finite hc
    | @finite m' e' hc' =>
      have hvalue : (m : ℚ) * 2 ^ e + m' * 2 ^ e'
          = ((decreaseExponent m e (min e e')).1 + (decreaseExponent m' e' (min e e')).1 : ℕ)
            * 2 ^ min e e' := by
        rw [Nat.cast_add, add_mul, decreaseExponent_value m e (min_le_left e e'),
          decreaseExponent_value m' e' (min_le_right e e')]
      have hpos : 0 < (decreaseExponent m e (min e e')).1 := Nat.shiftLeft_pos_iff.mpr hc.pos
      rw [hvalue] at h ⊢
      exact holds_normalize (Nat.add_pos_left hpos _) .positive h

theorem holds_one : Holds (Float.ofBits 0x3ff0000000000000).toModel.unpack 1 := by
  have hc : IsCanonical (2 ^ 52) (-52) := ⟨by decide, by decide, by decide, by decide⟩
  have hholds := Holds.finite hc
  have hvalue : ((2 ^ 52 : ℕ) : ℚ) * 2 ^ (-52 : ℤ) = 1 := by norm_num
  rw [hvalue] at hholds
  exact hholds

theorem holds_toFloat {n : ℕ} (h : n < 2 ^ 53) :
    Holds n.toUInt64.toFloat.toModel.unpack n := by
  have hn : n.toUInt64.toNat = n := UInt64.toNat_ofNat_of_lt' (h.trans (by decide))
  show Holds (stored (UnpackedFloat.normalize Format.binary64 n.toUInt64.toNat 0 .positive)) n
  rw [hn]
  rcases Nat.eq_zero_or_pos n with rfl | hpos
  · exact .zero
  · have hvalue : (n : ℚ) * 2 ^ (0 : ℤ) = n := by rw [zpow_zero, mul_one]
    have hholds := holds_normalize (e := 0) hpos .positive (hvalue.symm ▸ isShort_natCast h)
    rwa [hvalue] at hholds

/-- A natural number of at most 53 digits is held exactly. -/
theorem holds_natCast {n : ℕ} (h : n < 2 ^ 53) :
    Holds (Scalar.ofInt (n : ℤ) : Float).toModel.unpack n := by
  have hconvert : (Scalar.ofInt (n : ℤ) : Float)
      = n.toUInt64.toFloat * Float.ofBits 0x3ff0000000000000 := by
    show Float.ofScientific n false 0 = _
    rw [Float.ofScientific, dif_pos ⟨h, by decide⟩]
    rfl
  have hproduct :=
    holds_mul (holds_toFloat h) holds_one ((mul_one (n : ℚ)).symm ▸ isShort_natCast h)
  rwa [mul_one, ← hconvert] at hproduct

/-- A normal number over `2 ^ 53`: its significand is shifted, and nothing is left over. -/
theorem divCore_two_pow {m : ℕ} {e : ℤ} (hlower : 2 ^ 52 ≤ m) (hupper : m < 2 ^ 53)
    (he : -52 ≤ e) : divCore Format.binary64 m e (2 ^ 52) 1 = (2 * m, e - 54, .exact) := by
  have hpos : m ≠ 0 := by omega
  have hlog : m.log2 = 52 := (Nat.log2_eq_iff hpos).mpr ⟨hlower, hupper⟩
  have hlog' : (2 ^ 52).log2 = 52 := Nat.log2_two_pow
  have htarget : min (e - 1) (Format.binary64.targetExponent
      (totalExponent m e - totalExponent (2 ^ 52) 1)) = e - 54 := by
    rw [targetExponent_binary64, totalExponent, totalExponent, hlog, hlog']
    omega
  have hshift : (e - 1 - (e - 54)).toNat = 53 := by omega
  have hproduct : m <<< 53 = 2 ^ 52 * (2 * m) := by
    rw [Nat.shiftLeft_eq]
    ring
  rw [divCore, htarget, hshift, hproduct]
  simp only [Nat.mul_mod_right, Nat.mul_div_cancel_left _ (Nat.two_pow_pos 52)]
  rfl

/-- A natural number of at most 53 digits over `2 ^ 53` is exact. -/
theorem holds_div {n : ℕ} (h : n < 2 ^ 53) (ha : Holds a.toModel.unpack n) :
    Holds (a / Scalar.ofInt 9007199254740992).toModel.unpack (n / 2 ^ 53) := by
  have hdivisor : (Scalar.ofInt 9007199254740992 : Float).toModel.unpack
      = .finite .positive (2 ^ 52) 1 (by decide) := rfl
  rw [unpack_div, hdivisor]
  generalize hn : (n : ℚ) = q at ha
  generalize a.toModel.unpack = f at ha
  cases ha with
  | zero =>
    rw [zero_div]
    exact stored_zero .positive ▸ .zero
  | @finite m e hc =>
    have hpos : (0 : ℚ) < m * 2 ^ e := by
      have := hc.pos
      positivity
    have hone : (1 : ℚ) ≤ m * 2 ^ e := by
      rw [← hn] at hpos ⊢
      exact_mod_cast hpos
    obtain ⟨hlower, he⟩ := hc.of_one_le hone
    have hupper := hc.significand
    have hvalue : (m : ℚ) * 2 ^ e / 2 ^ 53 = (2 * m : ℕ) * 2 ^ (e - 54) := by
      rw [zpow_sub₀ two_ne_zero]
      push_cast
      field_simp
      norm_num
    have hshort : IsShort ((m : ℚ) * 2 ^ e / 2 ^ 53) :=
      ⟨n, -53, h, by decide, by decide, by rw [← hn, div_eq_mul_inv]; norm_num⟩
    have hlog : (2 * m).log2 = 53 := (Nat.log2_eq_iff (by omega)).mpr ⟨by omega, by omega⟩
    simp only [UnpackedFloat.div, divCore_two_pow hlower hupper he]
    rw [hvalue] at hshort ⊢
    refine holds_roundWithAccuracy (by omega) ?_ hshort
    rw [targetExponent_binary64, totalExponent, hlog]
    omega

end Operations

end FourierAudit
