/-
Rounding of binary64 numbers and the order.

A product of two numbers has more digits than a number can have. It is divided by a power of two,
and what is left is rounded to the nearest natural number, half to even. The order is kept by that:
on one grid because the nearest natural number is monotone, and between two grids because the power
of two that separates them is on both:

* `IsNearest` — the nearest natural number; it is monotone (`IsNearest.mono`);
* `roundWithAccuracy_eq` — rounding as one division, followed by a carry;
* `stored_finite` — a number in the range of the format after it has been packed;
* `orderKey_round_le` — rounding keeps the order.

Design notes: the bits that a shift drops are looked at one by one in the definition. Here they are
the remainder of one division, of which only the comparison with one half matters.
-/
import FourierAudit.Proofs.ScalarOrder

namespace FourierAudit

open Float.Model Float.Model.UnpackedFloat

/-! ### The nearest natural number -/

/-- A natural number at most one half away, which is even if it is exactly one half. -/
structure IsNearest (x : ℚ) (n : ℕ) : Prop where
  lower : (n : ℚ) - 1 / 2 ≤ x
  upper : x ≤ n + 1 / 2
  even_of_lower : x = n - 1 / 2 → Even n
  even_of_upper : x = n + 1 / 2 → Even n

theorem IsNearest.mono {x y : ℚ} {n m : ℕ} (hx : IsNearest x n) (hy : IsNearest y m) (h : x ≤ y) :
    n ≤ m := by
  by_contra hlt
  have hle : (m : ℚ) + 1 ≤ n := by
    exact_mod_cast not_le.mp hlt
  have hlower := hx.lower
  have hupper := hy.upper
  have hxn : x = n - 1 / 2 := by linarith
  have hym : y = m + 1 / 2 := by linarith
  have hn : n = m + 1 := by
    have : (n : ℚ) = m + 1 := by linarith
    exact_mod_cast this
  have hodd := hx.even_of_lower hxn
  rw [hn, Nat.even_add_one] at hodd
  exact hodd (hy.even_of_upper hym)

theorem IsNearest.of_lt {x : ℚ} {n : ℕ} (hlower : (n : ℚ) - 1 / 2 < x) (hupper : x < n + 1 / 2) :
    IsNearest x n :=
  ⟨hlower.le, hupper.le, fun h => absurd h hlower.ne', fun h => absurd h hupper.ne⟩

theorem IsNearest.of_even {x : ℚ} {n : ℕ} (hn : Even n) (hlower : (n : ℚ) - 1 / 2 ≤ x)
    (hupper : x ≤ n + 1 / 2) : IsNearest x n :=
  ⟨hlower, hupper, fun _ => hn, fun _ => hn⟩

theorem shiftRight_exact (m k : ℕ) :
    ExtendedMantissa.ofMantissaAndAccuracy m .exact >>> k
      = ⟨m / 2 ^ k, decide (2 ^ k ≤ 2 * (m % 2 ^ k)), decide (2 * (m % 2 ^ k) % 2 ^ k ≠ 0)⟩ := by
  induction k with
  | zero =>
    simp [Nat.mod_one]
    rfl
  | succ k ih =>
    have hrepeat : ExtendedMantissa.ofMantissaAndAccuracy m .exact >>> (k + 1)
        = (ExtendedMantissa.ofMantissaAndAccuracy m .exact >>> k).shiftRightOne := rfl
    have hrest : m % 2 ^ k < 2 ^ k := Nat.mod_lt _ (Nat.two_pow_pos k)
    have hmod : m % 2 ^ (k + 1) = m % 2 ^ k + 2 ^ k * (m / 2 ^ k % 2) := by
      rw [pow_succ, Nat.mod_mul]
    have hdiv : m / 2 ^ (k + 1) = m / 2 ^ k / 2 := by
      rw [pow_succ, Nat.div_div_eq_div_mul]
    have hdouble : 2 ^ (k + 1) = 2 * 2 ^ k := by ring
    rw [hrepeat, ih, hdiv, hmod, hdouble, ExtendedMantissa.shiftRightOne]
    generalize m % 2 ^ k = rest at *
    generalize 2 ^ k = unit at *
    have hround : (m / unit % 2 != 0) = decide (2 * unit ≤ 2 * (rest + unit * (m / unit % 2))) := by
      rcases Nat.mod_two_eq_zero_or_one (m / unit) with hbit | hbit
      · rw [hbit]
        simp [hrest]
      · rw [hbit]
        simp
    have hsticky : (decide (unit ≤ 2 * rest) || decide (2 * rest % unit ≠ 0))
        = decide (2 * (rest + unit * (m / unit % 2)) % (2 * unit) ≠ 0) := by
      have hleft : (unit ≤ 2 * rest ∨ 2 * rest % unit ≠ 0) ↔ rest ≠ 0 := by
        rcases Nat.lt_or_ge (2 * rest) unit with hlt | hge
        · rw [Nat.mod_eq_of_lt hlt]
          omega
        · exact iff_of_true (.inl hge) (by omega)
      have hright : 2 * (rest + unit * (m / unit % 2)) % (2 * unit) = 2 * rest := by
        rw [mul_add, ← mul_assoc, Nat.add_mul_mod_self_left, Nat.mod_eq_of_lt (by omega)]
      rw [← Bool.decide_or, decide_eq_decide, hleft, hright]
      omega
    rw [hround, hsticky]

/-- Rounding half to even finds the nearest natural number. -/
theorem isNearest_roundedMantissa (m k : ℕ) :
    IsNearest (m / 2 ^ k)
      (ExtendedMantissa.ofMantissaAndAccuracy m .exact >>> k).roundedMantissa := by
  have hrest : m % 2 ^ k < 2 ^ k := Nat.mod_lt _ (Nat.two_pow_pos k)
  have hunit : (0 : ℚ) < 2 ^ k := by positivity
  have hsplit : (m : ℚ) / 2 ^ k = (m / 2 ^ k : ℕ) + (m % 2 ^ k : ℕ) / 2 ^ k := by
    rw [add_div' _ _ _ hunit.ne', div_left_inj' hunit.ne']
    exact_mod_cast (Nat.div_add_mod' m (2 ^ k)).symm
  have hcast : ((2 ^ k : ℕ) : ℚ) = 2 ^ k := Nat.cast_pow 2 k
  rw [shiftRight_exact, hsplit, ← hcast]
  rw [← hcast] at hunit
  generalize m % 2 ^ k = rest at *
  generalize m / 2 ^ k = whole at *
  generalize 2 ^ k = unit at *
  -- the fraction that is cut off, against one half
  have hpos : (0 : ℚ) ≤ rest / unit := by positivity
  have hone : (rest : ℚ) / unit < 1 := by
    rw [div_lt_one hunit]
    exact_mod_cast hrest
  rcases lt_trichotomy (2 * rest) unit with hlt | heq | hgt
  · have hhalf : (rest : ℚ) / unit < 1 / 2 := by
      rw [div_lt_div_iff₀ hunit two_pos]
      exact_mod_cast (by omega : rest * 2 < 1 * unit)
    have hdown : ExtendedMantissa.roundedMantissa
        ⟨whole, decide (unit ≤ 2 * rest), decide (2 * rest % unit ≠ 0)⟩ = whole := by
      have hround : decide (unit ≤ 2 * rest) = false := decide_eq_false (by omega)
      rw [hround]
      cases decide (2 * rest % unit ≠ 0) <;> rfl
    rw [hdown]
    exact .of_lt (by linarith) (by linarith)
  · have hhalf : (rest : ℚ) / unit = 1 / 2 := by
      rw [div_eq_div_iff hunit.ne' two_ne_zero]
      exact_mod_cast (by omega : rest * 2 = 1 * unit)
    have htie : ExtendedMantissa.roundedMantissa
        ⟨whole, decide (unit ≤ 2 * rest), decide (2 * rest % unit ≠ 0)⟩
          = whole + whole % 2 := by
      rw [heq, Nat.mod_self]
      simp [ExtendedMantissa.roundedMantissa, ExtendedMantissa.accuracy,
        Accuracy.roundToNearestEven]
    have heven : Even (whole + whole % 2) := by
      rw [Nat.even_iff]
      omega
    have hbit : whole % 2 ≤ 1 := by omega
    rw [htie, hhalf]
    refine .of_even heven ?_ ?_
    · push_cast
      have : ((whole % 2 : ℕ) : ℚ) ≤ 1 := by exact_mod_cast hbit
      linarith
    · push_cast
      have : (0 : ℚ) ≤ (whole % 2 : ℕ) := by positivity
      linarith
  · have hhalf : 1 / 2 < (rest : ℚ) / unit := by
      rw [div_lt_div_iff₀ two_pos hunit]
      exact_mod_cast (by omega : 1 * unit < rest * 2)
    have hup : ExtendedMantissa.roundedMantissa
        ⟨whole, decide (unit ≤ 2 * rest), decide (2 * rest % unit ≠ 0)⟩ = whole + 1 := by
      have hround : decide (unit ≤ 2 * rest) = true := decide_eq_true (by omega)
      have hsticky : decide (2 * rest % unit ≠ 0) = true := by
        rw [decide_eq_true_iff, Nat.mod_eq_sub_mod hgt.le, Nat.mod_eq_of_lt (by omega)]
        omega
      rw [hround, hsticky]
      rfl
    rw [hup]
    refine .of_lt ?_ ?_
    · push_cast
      linarith
    · push_cast
      linarith

theorem targetExponent_binary64 (t : ℤ) :
    Format.binary64.targetExponent t = max (t - 53) (-1074) := rfl

theorem le_value {m : ℕ} (hm : 0 < m) (e : ℤ) :
    (2 : ℚ) ^ (totalExponent m e - 1) ≤ m * 2 ^ e := by
  have h : ((2 ^ m.log2 : ℕ) : ℚ) ≤ m := by exact_mod_cast Nat.log2_self_le hm.ne'
  have hexp : totalExponent m e - 1 = (m.log2 : ℤ) + e := by
    rw [totalExponent]
    ring
  rw [hexp, zpow_add₀ two_ne_zero, zpow_natCast]
  push_cast at h
  gcongr

theorem value_lt (m : ℕ) (e : ℤ) : (m : ℚ) * 2 ^ e < 2 ^ totalExponent m e := by
  have h : (m : ℚ) < (2 ^ (m.log2 + 1) : ℕ) := by exact_mod_cast Nat.lt_log2_self
  have hexp : totalExponent m e = ((m.log2 + 1 : ℕ) : ℤ) + e := by
    rw [totalExponent]
    push_cast
    ring
  rw [hexp, zpow_add₀ two_ne_zero, zpow_natCast]
  push_cast at h
  gcongr

/-- A rounded significand of up to `2 ^ 53`, which may have been carried, as a number. -/
def carried (s : Sign) (n : ℕ) (e : ℤ) : UnpackedFloat :=
  if h : n = 0 then .zero s
  else if n = 2 ^ 53 then .finite s (2 ^ 52) (e + 1) (by decide)
  else .finite s n e (Nat.pos_of_ne_zero h)

theorem shiftToExponent_self (m : ℕ) (e : ℤ) {t : ℤ} (h : t ≤ e) :
    shiftToExponent m e .exact t = (⟨m, false, false⟩, e) := by
  have hnone : (t - e).toNat = 0 := by omega
  rw [shiftToExponent, hnone]
  show (_, e + (0 : ℕ)) = _
  rw [Nat.cast_zero, add_zero]
  rfl

theorem shiftToTargetExponent_of_lt {n : ℕ} {e : ℤ} (hn : n < 2 ^ 53) (he : -1074 ≤ e) :
    shiftToTargetExponent Format.binary64 n e .exact = (⟨n, false, false⟩, e) := by
  have hlog : n.log2 < 53 := by
    rcases Nat.eq_zero_or_pos n with rfl | hpos
    · decide
    · exact (Nat.log2_lt hpos.ne').mpr hn
  refine shiftToExponent_self n e ?_
  rw [targetExponent_binary64, totalExponent]
  omega

theorem shiftToTargetExponent_carry {e : ℤ} (he : -1074 ≤ e) :
    shiftToTargetExponent Format.binary64 (2 ^ 53) e .exact = (⟨2 ^ 52, false, false⟩, e + 1) := by
  have hlog : (2 ^ 53).log2 = 53 := Nat.log2_two_pow
  have htarget : Format.binary64.targetExponent (totalExponent (2 ^ 53) e) = e + 1 := by
    rw [targetExponent_binary64, totalExponent, hlog]
    omega
  have hone : (e + 1 - e).toNat = 1 := by omega
  rw [shiftToTargetExponent, htarget, shiftToExponent, hone, shiftRight_exact]
  simp

/-- Rounding a product is one division by a power of two, and a carry. -/
theorem roundWithAccuracy_eq (s : Sign) {m n : ℕ} {e t : ℤ}
    (ht : Format.binary64.targetExponent (totalExponent m e) = t) (het : e ≤ t)
    (hn : (ExtendedMantissa.ofMantissaAndAccuracy m .exact >>> (t - e).toNat).roundedMantissa = n)
    (hle : n ≤ 2 ^ 53) : roundWithAccuracy Format.binary64 s m e .exact = carried s n t := by
  have hmin : -1074 ≤ t := by
    rw [← ht, targetExponent_binary64]
    exact le_max_right _ _
  have hshift : e + ((t - e).toNat : ℤ) = t := by omega
  have hfirst : shiftToTargetExponent Format.binary64 m e .exact
      = (ExtendedMantissa.ofMantissaAndAccuracy m .exact >>> (t - e).toNat, t) := by
    rw [shiftToTargetExponent, ht, shiftToExponent, hshift]
  rw [roundWithAccuracy, hfirst]
  simp only [hn]
  rcases hle.lt_or_eq with hlt | rfl
  · simp only [shiftToTargetExponent_of_lt hlt hmin, carried, if_neg hlt.ne]
  · simp only [shiftToTargetExponent_carry hmin, carried]
    simp

/-! ### Packing -/

theorem unpackSign_packComponents {spec : Format} {sign : Sign} {exponent mantissa} :
    unpackSign (packComponents spec sign exponent mantissa) = sign.toBitVec := by
  ext i hi
  have hone : i = 0 := by omega
  simp [unpackSign, packComponents, BitVec.getLsbD_append, hone, ← BitVec.getLsbD_eq_getElem]

theorem ofBitVec_toBitVec (s : Sign) : Sign.ofBitVec s.toBitVec = s := by
  cases s <;> rfl

theorem finite_congr {s : Sign} {m m' : ℕ} {e e' : ℤ} {hm : 0 < m} {hm' : 0 < m'} (h : m = m')
    (he : e = e') : UnpackedFloat.finite s m e hm = .finite s m' e' hm' := by
  subst h he
  rfl

/-- The significand of a normal number, with its leading bit. -/
theorem toNat_leading (mantissa : BitVec 52) :
    (1#1 ++ mantissa).toNat = 2 ^ 52 + mantissa.toNat := by
  rw [BitVec.toNat_append, ← Nat.shiftLeft_add_eq_or_of_lt mantissa.isLt]
  rfl

/-- A number after it has been packed. -/
def stored (f : UnpackedFloat) : UnpackedFloat :=
  UnpackedFloat.unpack Format.binary64 (UnpackedFloat.pack Format.binary64 f)

theorem stored_infinity (s : Sign) : stored (.infinity s) = .infinity s := by
  cases s <;> rfl

theorem stored_zero (s : Sign) : stored (.zero s) = .zero s := by
  cases s <;> rfl

/-- The significand and the exponent of a finite number are in the range of their format. -/
structure IsCanonical (m : ℕ) (e : ℤ) : Prop where
  pos : 0 < m
  significand : m < 2 ^ 53
  exponent : -1074 ≤ e
  /-- Below the smallest leading bit there is only one exponent. -/
  subnormal : m < 2 ^ 52 → e = -1074

theorem unpack_packComponents_normal (s : Sign) {exponent : ℕ} (hpos : 0 < exponent)
    (hexponent : exponent < 2047) (mantissa : BitVec 52) :
    UnpackedFloat.unpack Format.binary64
        (packComponents Format.binary64 s (BitVec.ofNat 11 exponent) mantissa)
      = .finite s (2 ^ 52 + mantissa.toNat) (exponent - 1075) (by omega) := by
  have hmod : (BitVec.ofNat 11 exponent).toNat = exponent := by
    rw [BitVec.toNat_ofNat, Nat.mod_eq_of_lt (by omega)]
  have hnot : BitVec.ofNat 11 exponent ≠ -1#11 := by
    rw [ne_eq, ← BitVec.toNat_inj, hmod]
    show ¬exponent = 2047
    omega
  have hnot' : BitVec.ofNat 11 exponent ≠ 0#11 := by
    rw [ne_eq, ← BitVec.toNat_inj, hmod]
    show ¬exponent = 0
    omega
  simp only [UnpackedFloat.unpack, unpackMantissa_packComponents, unpackExponent_packComponents,
    unpackSign_packComponents, ofBitVec_toBitVec, if_neg hnot, if_neg hnot', hmod]
  exact finite_congr (toNat_leading mantissa) rfl

theorem unpack_packComponents_subnormal (s : Sign) {mantissa : BitVec 52} (h : mantissa ≠ 0#52) :
    UnpackedFloat.unpack Format.binary64 (packComponents Format.binary64 s 0#11 mantissa)
      = .finite s mantissa.toNat (-1074) (by simpa [BitVec.toNat_pos, BitVec.pos_iff_ne_zero]) := by
  have hnot : (0#11) ≠ -1#11 := by decide
  simp only [UnpackedFloat.unpack, unpackMantissa_packComponents, unpackExponent_packComponents,
    unpackSign_packComponents, ofBitVec_toBitVec, if_neg hnot, if_true, dif_neg h]
  exact finite_congr rfl rfl

/-- A finite number is stored as it is, unless its exponent is too large. -/
theorem stored_finite {s : Sign} {m : ℕ} {e : ℤ} (h : IsCanonical m e) :
    stored (.finite s m e h.pos) = if 971 < e then .infinity s else .finite s m e h.pos := by
  have hmin := h.exponent
  have hbiased : e + (Format.binary64.exponentBias : ℤ) + (52 : ℕ) = e + 1075 := by
    show e + 1023 + 52 = e + 1075
    ring
  rw [stored, UnpackedFloat.pack]
  simp only [hbiased]
  rcases lt_or_ge 971 e with hlarge | hsmall
  · rw [if_pos hlarge, if_pos (show 2 ^ 11 ≤ (e + 1075).toNat + 1 by omega)]
    exact stored_infinity s
  rw [if_neg (not_lt.mpr hsmall), if_neg (show ¬2 ^ 11 ≤ (e + 1075).toNat + 1 by omega)]
  rcases Nat.lt_or_ge m (2 ^ 52) with hsub | hnormal
  · have hlog : ¬m.log2 + 1 = Format.binary64.mantissaBits := by
      show ¬m.log2 + 1 = 53
      have := (Nat.log2_lt h.pos.ne').mpr hsub
      omega
    have hmod : (BitVec.ofNat 52 m).toNat = m := by
      rw [BitVec.toNat_ofNat, Nat.mod_eq_of_lt hsub]
    have hne : BitVec.ofNat 52 m ≠ 0#52 := by
      rw [ne_eq, ← BitVec.toNat_inj, hmod]
      exact h.pos.ne'
    rw [if_neg hlog]
    refine (unpack_packComponents_subnormal s hne).trans ?_
    exact finite_congr hmod (h.subnormal hsub).symm
  · have hlog : m.log2 + 1 = Format.binary64.mantissaBits := by
      show m.log2 + 1 = 53
      have := (Nat.log2_lt h.pos.ne').mpr h.significand
      have := (Nat.le_log2 h.pos.ne').mpr hnormal
      omega
    have hmod : (BitVec.ofNat 52 m).toNat = m - 2 ^ 52 := by
      have := h.significand
      rw [BitVec.toNat_ofNat, Nat.mod_eq_sub_mod hnormal, Nat.mod_eq_of_lt (by omega)]
    rw [if_pos hlog]
    refine (unpack_packComponents_normal s (by omega) (by omega) _).trans ?_
    exact finite_congr (by rw [hmod]; omega) (by omega)

/-- What is unpacked is in the range of the format. -/
theorem isCanonical_of_unpack {bits : BitVec Format.binary64.numBits} {s : Sign} {m : ℕ} {e : ℤ}
    {hm : 0 < m} (h : UnpackedFloat.unpack Format.binary64 bits = .finite s m e hm) :
    IsCanonical m e := by
  have hbias (k : ℕ) : (k : ℤ) - ((Format.binary64.exponentBias : ℤ) + (52 : ℕ)) = k - 1075 := rfl
  have hlt (mantissa : BitVec 52) : mantissa.toNat < 2 ^ 52 := mantissa.isLt
  simp only [UnpackedFloat.unpack, hbias] at h
  split_ifs at h with hmax hzero hsub hzero'
  · obtain ⟨-, rfl, rfl⟩ := UnpackedFloat.finite.inj h
    rw [hsub]
    exact ⟨hm, (hlt _).trans (by decide), by decide, fun _ => rfl⟩
  · obtain ⟨-, rfl, rfl⟩ := UnpackedFloat.finite.inj h
    have hexponent : (unpackExponent bits : BitVec 11).toNat ≠ 0 :=
      fun hzero => hsub (BitVec.eq_of_toNat_eq hzero)
    have := hlt (unpackMantissa bits)
    rw [toNat_leading] at hm ⊢
    exact ⟨hm, by omega, by omega, fun h => by omega⟩

/-! ### Rounding and the order -/

/-- The exponent of a rounded number, and the range of its significand before a carry. -/
structure IsRounded (n : ℕ) (t : ℤ) : Prop where
  le : n ≤ 2 ^ 53
  exponent : -1074 ≤ t
  subnormal : n < 2 ^ 52 → t = -1074

theorem exists_carried {n : ℕ} {t : ℤ} (h : IsRounded n t) (hn : 0 < n) (s : Sign) :
    ∃ m e, ∃ hc : IsCanonical m e, carried s n t = .finite s m e hc.pos ∧
      (n < 2 ^ 53 ∧ m = n ∧ e = t ∨ n = 2 ^ 53 ∧ m = 2 ^ 52 ∧ e = t + 1) := by
  rcases h.le.lt_or_eq with hlt | rfl
  · exact ⟨n, t, ⟨hn, hlt, h.exponent, h.subnormal⟩, by
      rw [carried, dif_neg hn.ne', if_neg hlt.ne], .inl ⟨hlt, rfl, rfl⟩⟩
  · have := h.exponent
    exact ⟨2 ^ 52, t + 1, ⟨by decide, by decide, by omega, fun h => absurd h (by decide)⟩, rfl,
      .inr ⟨rfl, rfl, rfl⟩⟩

theorem orderKey_stored_le {m m' : ℕ} {e e' : ℤ} (h : IsCanonical m e) (h' : IsCanonical m' e')
    (hle : e < e' ∨ e = e' ∧ m ≤ m') :
    orderKey (stored (.finite .positive m e h.pos))
      ≤ orderKey (stored (.finite .positive m' e' h'.pos)) := by
  rw [stored_finite h, stored_finite h']
  split_ifs with hlarge hlarge'
  · exact le_rfl
  · omega
  · simp [orderKey, Prod.Lex.toLex_le_toLex]
  · simpa [orderKey, Prod.Lex.toLex_le_toLex] using hle

theorem orderKey_stored_pos {m : ℕ} {e : ℤ} (h : IsCanonical m e) (s : Sign) :
    orderKey (stored (.zero s)) ≤ orderKey (stored (.finite .positive m e h.pos)) := by
  rw [stored_zero, stored_finite h]
  split_ifs <;> simp [orderKey, Prod.Lex.toLex_le_toLex]

/-- A carry does not change the order: it leads to the least significand of the next exponent. -/
theorem orderKey_carried_le {n n' : ℕ} {t t' : ℤ} (h : IsRounded n t) (h' : IsRounded n' t')
    (hle : t < t' ∨ t = t' ∧ n ≤ n') :
    orderKey (stored (carried .positive n t)) ≤ orderKey (stored (carried .positive n' t')) := by
  rcases Nat.eq_zero_or_pos n' with rfl | hn'
  · -- only zero is rounded to zero
    have := h.exponent
    have := h'.subnormal (by decide)
    obtain rfl : n = 0 := by omega
    exact le_rfl
  obtain ⟨m', e', hc', hcarried', hcase'⟩ := exists_carried h' hn' .positive
  rw [hcarried']
  rcases Nat.eq_zero_or_pos n with rfl | hn
  · exact orderKey_stored_pos hc' .positive
  obtain ⟨m, e, hc, hcarried, hcase⟩ := exists_carried h hn .positive
  rw [hcarried]
  refine orderKey_stored_le hc hc' ?_
  have := h.exponent
  have := h'.subnormal
  omega

/-- Rounding a number of the form `m * 2 ^ e`. -/
theorem exists_round {m : ℕ} {e t : ℤ} (hm : 0 < m)
    (ht : Format.binary64.targetExponent (totalExponent m e) = t) (het : e ≤ t) (s : Sign) :
    ∃ n, IsNearest (m * 2 ^ e / 2 ^ t) n ∧ IsRounded n t ∧
      roundWithAccuracy Format.binary64 s m e .exact = carried s n t := by
  obtain ⟨k, rfl⟩ : ∃ k : ℕ, t = e + k := ⟨(t - e).toNat, by omega⟩
  have hk : (e + (k : ℤ) - e).toNat = k := by omega
  have hpow : (0 : ℚ) < 2 ^ (e + (k : ℤ)) := by positivity
  set n := (ExtendedMantissa.ofMantissaAndAccuracy m .exact >>> k).roundedMantissa with hn
  have hnearest : IsNearest (m * 2 ^ e / 2 ^ (e + (k : ℤ))) n := by
    have hvalue : (m : ℚ) * 2 ^ e / 2 ^ (e + (k : ℤ)) = m / 2 ^ k := by
      rw [zpow_add₀ two_ne_zero, zpow_natCast]
      field_simp
    rw [hvalue]
    exact isNearest_roundedMantissa m k
  have htarget := ht
  rw [targetExponent_binary64] at htarget
  have hle : n ≤ 2 ^ 53 := by
    have hx : (m : ℚ) * 2 ^ e < 2 ^ (53 : ℤ) * 2 ^ (e + (k : ℤ)) :=
      calc (m : ℚ) * 2 ^ e
          < 2 ^ totalExponent m e := value_lt m e
        _ ≤ 2 ^ (53 + (e + (k : ℤ))) := zpow_le_zpow_right₀ one_le_two (by omega)
        _ = 2 ^ (53 : ℤ) * 2 ^ (e + (k : ℤ)) := zpow_add₀ two_ne_zero _ _
    rw [← div_lt_iff₀ hpow] at hx
    have hlt : (n : ℚ) < 2 ^ (53 : ℤ) + 1 := by linarith [hnearest.lower]
    exact Nat.lt_succ_iff.mp (by exact_mod_cast hlt)
  have hsub : n < 2 ^ 52 → e + (k : ℤ) = -1074 := by
    -- above the least exponent, the significand has its leading bit
    intro hlt
    by_contra hne
    have hx : (2 : ℚ) ^ (52 : ℤ) * 2 ^ (e + (k : ℤ)) ≤ m * 2 ^ e :=
      calc (2 : ℚ) ^ (52 : ℤ) * 2 ^ (e + (k : ℤ))
          = 2 ^ (totalExponent m e - 1) := by
            rw [← zpow_add₀ two_ne_zero]
            congr 1
            omega
        _ ≤ m * 2 ^ e := le_value hm e
    rw [← le_div_iff₀ hpow] at hx
    have hlt : (n : ℚ) + 1 ≤ 2 ^ (52 : ℤ) := by exact_mod_cast hlt
    linarith [hnearest.upper]
  have hround := roundWithAccuracy_eq s ht het (by rw [hk]) hle
  exact ⟨n, hnearest, ⟨hle, by omega, hsub⟩, hround⟩

theorem totalExponent_mono {m m' : ℕ} {e e' : ℤ} (hm : 0 < m)
    (h : (m : ℚ) * 2 ^ e ≤ m' * 2 ^ e') : totalExponent m e ≤ totalExponent m' e' := by
  have hlt := (le_value hm e).trans_lt (h.trans_lt (value_lt m' e'))
  rw [zpow_lt_zpow_iff_right₀ one_lt_two] at hlt
  omega

/-- Rounding keeps the order. -/
theorem orderKey_round_le {m m' : ℕ} {e e' : ℤ} (hm : 0 < m) (hm' : 0 < m')
    (he : e ≤ Format.binary64.targetExponent (totalExponent m e))
    (he' : e' ≤ Format.binary64.targetExponent (totalExponent m' e'))
    (h : (m : ℚ) * 2 ^ e ≤ m' * 2 ^ e') :
    orderKey (stored (roundWithAccuracy Format.binary64 .positive m e .exact))
      ≤ orderKey (stored (roundWithAccuracy Format.binary64 .positive m' e' .exact)) := by
  obtain ⟨n, hn, hrounded, hround⟩ := exists_round hm rfl he .positive
  obtain ⟨n', hn', hrounded', hround'⟩ := exists_round hm' rfl he' .positive
  rw [hround, hround']
  refine orderKey_carried_le hrounded hrounded' ?_
  have htarget : Format.binary64.targetExponent (totalExponent m e)
      ≤ Format.binary64.targetExponent (totalExponent m' e') := by
    rw [targetExponent_binary64, targetExponent_binary64]
    have := totalExponent_mono hm h
    omega
  rcases htarget.lt_or_eq with hlt | heq
  · exact .inl hlt
  · refine .inr ⟨heq, hn.mono hn' ?_⟩
    rw [heq]
    gcongr

end FourierAudit
