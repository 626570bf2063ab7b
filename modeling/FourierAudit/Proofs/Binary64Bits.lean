/-
The bits of a binary64 number.

Without the bit of the minus sign, the bits of a finite number count the numbers below it. So these
numbers are ordered as their bits are, and single precision, with 29 bits less, rounds the bits:

* `toNat_of_unpack_finite` — the bits of a number above zero, from its significand and exponent;
* `le_iff_toBits`, `lt_iff_toBits` — the order of numbers is that of their bits;
* `toNat_toBits_nearest` — what is stored in single precision, half to even.

Design notes: rounding the bits may carry into the exponent. That is the right result, since the
bits that follow the largest significand are those of the next power of two.
-/
import FourierAudit.Dyadic
import FourierAudit.Proofs.Binary64Values

namespace FourierAudit

open Float.Model Float.Model.UnpackedFloat

theorem toNat_packComponents (s : Sign) (exponent : BitVec 11) (mantissa : BitVec 52) :
    (packComponents Format.binary64 s exponent mantissa).toNat
      = s.toBitVec.toNat * 2 ^ 63 + exponent.toNat * 2 ^ 52 + mantissa.toNat := by
  show (s.toBitVec ++ exponent ++ mantissa : BitVec 64).toNat = _
  rw [BitVec.toNat_append, BitVec.toNat_append, ← Nat.shiftLeft_add_eq_or_of_lt exponent.isLt,
    ← Nat.shiftLeft_add_eq_or_of_lt mantissa.isLt, Nat.shiftLeft_eq, Nat.shiftLeft_eq]
  ring

section Bits

variable {bits : BitVec Format.binary64.numBits} {m : ℕ} {e : ℤ} {hm : 0 < m}

/-- A word as a number is put together from its three fields. -/
theorem toNat_fields (bits : BitVec Format.binary64.numBits) : bits.toNat
    = (unpackSign bits).toNat * 2 ^ 63 + (unpackExponent bits : BitVec 11).toNat * 2 ^ 52
      + (unpackMantissa bits : BitVec 52).toNat := by
  have h := congrArg BitVec.toNat (packComponents_fields bits)
  rw [toNat_packComponents, toBitVec_ofBitVec] at h
  exact h.symm

theorem toNat_unpackSign (h : Sign.ofBitVec (unpackSign bits) = .positive) :
    (unpackSign bits).toNat = 0 := by
  rw [← toBitVec_ofBitVec (unpackSign bits), h]
  rfl

/-- The bits of a positive number count the significands below it, over all exponents. -/
theorem toNat_of_unpack_finite
    (h : UnpackedFloat.unpack Format.binary64 bits = .finite .positive m e hm) :
    (bits.toNat : ℤ) = (e + 1074) * 2 ^ 52 + m := by
  have hbias (k : ℕ) : (k : ℤ) - ((Format.binary64.exponentBias : ℤ) + (52 : ℕ)) = k - 1075 := rfl
  have hfields := toNat_fields bits
  simp only [UnpackedFloat.unpack, hbias] at h
  split_ifs at h with hmax hzero hsub hzero
  · obtain ⟨hsign, rfl, rfl⟩ := UnpackedFloat.finite.inj h
    rw [toNat_unpackSign hsign, hsub] at hfields
    rw [hsub, hfields]
    simp
  · obtain ⟨hsign, rfl, rfl⟩ := UnpackedFloat.finite.inj h
    rw [toNat_unpackSign hsign] at hfields
    rw [hfields, toNat_leading]
    push_cast
    ring

theorem toNat_of_unpack_zero (h : UnpackedFloat.unpack Format.binary64 bits = .zero .positive) :
    bits.toNat = 0 := by
  have hfields := toNat_fields bits
  simp only [UnpackedFloat.unpack] at h
  split_ifs at h with hmax hzero hsub hzero
  rw [toNat_unpackSign (UnpackedFloat.zero.inj h), hsub, hzero] at hfields
  exact hfields

/-- A word below the infinities, without the bit of the minus sign. -/
theorem unpack_of_lt (bits : BitVec Format.binary64.numBits) (h : bits.toNat < 2047 * 2 ^ 52) :
    UnpackedFloat.unpack Format.binary64 bits = .zero .positive ∨
      ∃ m e hm, UnpackedFloat.unpack Format.binary64 bits = .finite .positive m e hm := by
  have hfields := toNat_fields bits
  have hsign : (unpackSign bits).toNat = 0 := by omega
  have hpositive : Sign.ofBitVec (unpackSign bits) = .positive :=
    if_pos (BitVec.eq_of_toNat_eq hsign)
  have hfinite : unpackExponent bits ≠ -1#11 := by
    rw [ne_eq, ← BitVec.toNat_inj]
    show ¬(unpackExponent bits : BitVec 11).toNat = 2047
    omega
  simp only [UnpackedFloat.unpack, hpositive, if_neg hfinite]
  split_ifs with hsub hzero
  · exact .inl rfl
  · exact .inr ⟨_, _, Nat.pos_of_ne_zero fun h0 => hzero (BitVec.eq_of_toNat_eq h0), rfl⟩
  · exact .inr ⟨_, _, by rw [toNat_leading]; omega, rfl⟩

end Bits

/-- A finite number without a minus sign, from its bits. -/
theorem unpack_of_toBits_lt {x : Float} (h : x.toBits.toNat < 2047 * 2 ^ 52) :
    (x.toModel.unpack = .zero .positive ∧ x.toBits.toNat = 0) ∨
      ∃ m e, ∃ hc : IsCanonical m e, x.toModel.unpack = .finite .positive m e hc.pos ∧
        (x.toBits.toNat : ℤ) = (e + 1074) * 2 ^ 52 + m := by
  rcases unpack_of_lt x.toModel.toBits.toBitVec h with hzero | ⟨m, e, hm, hfinite⟩
  · exact .inl ⟨hzero, toNat_of_unpack_zero hzero⟩
  · exact .inr ⟨m, e, isCanonical_of_unpack hfinite, hfinite, toNat_of_unpack_finite hfinite⟩

/-- Finite numbers without minus sign are ordered as their bits are: the exponent counts first, and
no significand reaches the bits of the next exponent. -/
theorem le_iff_toBits {a b : Float} (ha : a.toBits.toNat < 2047 * 2 ^ 52)
    (hb : b.toBits.toNat < 2047 * 2 ^ 52) :
    Scalar.le a b = true ↔ a.toBits.toNat ≤ b.toBits.toNat := by
  have hisNaN (x : Float) : Scalar.isNaN x = x.toModel.unpack.isNaN := rfl
  rw [le_float, hisNaN, hisNaN]
  rcases unpack_of_toBits_lt ha with ⟨hunpack, hbits⟩ | ⟨m, e, hc, hunpack, hbits⟩ <;>
    rcases unpack_of_toBits_lt hb with ⟨hunpack', hbits'⟩ | ⟨m', e', hc', hunpack', hbits'⟩ <;>
    rw [hunpack, hunpack'] <;> simp only [UnpackedFloat.isNaN, orderKey, true_and]
  · simp [hbits, hbits']
  · simp [hbits, Prod.Lex.toLex_le_toLex]
  · have := hc.pos
    have := hc.exponent
    simp only [Prod.Lex.toLex_le_toLex]
    omega
  · have := hc.significand
    have := hc'.significand
    have := hc.subnormal
    have := hc'.subnormal
    have := hc.exponent
    have := hc'.exponent
    simp only [Prod.Lex.toLex_le_toLex, lt_irrefl, false_or, true_and]
    omega

theorem lt_iff_toBits {a b : Float} (ha : a.toBits.toNat < 2047 * 2 ^ 52)
    (hb : b.toBits.toNat < 2047 * 2 ^ 52) :
    Scalar.lt a b = true ↔ a.toBits.toNat < b.toBits.toNat := by
  rw [Scalar.lt, Bool.and_eq_true, Bool.not_eq_true', ← Bool.not_eq_true, le_iff_toBits ha hb,
    le_iff_toBits hb ha]
  omega

/-- Finite bits stay what they are. -/
theorem toBits_ofBits {w : UInt64} (h : w.toNat < 2047 * 2 ^ 52) : (Float.ofBits w).toBits = w := by
  have hvalid : Format.binary64.Valid w.toBitVec := by
    refine ⟨fun hmax hzero => absurd (unpack_of_lt w.toBitVec h) ?_⟩
    simp only [UnpackedFloat.unpack, if_pos hmax, if_neg hzero]
    simp
  apply UInt64.toBitVec_inj.mp
  exact pack_unpack hvalid

/-- Cutting off 29 places of a word is rounding half to even. -/
theorem toNat_roundEven (n : UInt64) :
    (Binary32.roundEven n 29).toNat = roundHalfEven n.toNat (2 ^ 29) := by
  have hn := n.toNat_lt
  have hquotient : (n >>> 29).toNat = n.toNat / 2 ^ 29 := by
    rw [UInt64.toNat_shiftRight, Nat.shiftRight_eq_div_pow]
    rfl
  have hback : ((n >>> 29) <<< 29).toNat = n.toNat / 2 ^ 29 * 2 ^ 29 := by
    rw [UInt64.toNat_shiftLeft, hquotient, Nat.shiftLeft_eq]
    show n.toNat / 2 ^ 29 * 2 ^ 29 % 2 ^ 64 = _
    exact Nat.mod_eq_of_lt (by omega)
  have hrest : (n - (n >>> 29) <<< 29).toNat = n.toNat % 2 ^ 29 := by
    rw [UInt64.toNat_sub_of_le _ _ (UInt64.le_iff_toNat_le.mpr (by omega)), hback]
    omega
  have hbit : (n >>> 29 &&& 1).toNat = n.toNat / 2 ^ 29 % 2 := by
    rw [UInt64.toNat_and, hquotient]
    exact Nat.and_one_is_mod _
  have hhalf : ((1 : UInt64) <<< (29 - 1)).toNat = 2 ^ 28 := by decide
  have htest : (decide (n - (n >>> 29) <<< 29 > (1 : UInt64) <<< (29 - 1)) ||
      (n - (n >>> 29) <<< 29 == (1 : UInt64) <<< (29 - 1) && n >>> 29 &&& 1 == 1)) = true ↔
      2 ^ 29 < 2 * (n.toNat % 2 ^ 29) ∨
        2 ^ 29 = 2 * (n.toNat % 2 ^ 29) ∧ n.toNat / 2 ^ 29 % 2 = 1 := by
    rw [Bool.or_eq_true, Bool.and_eq_true, decide_eq_true_iff, beq_iff_eq, beq_iff_eq, gt_iff_lt,
      UInt64.lt_iff_toNat_lt, ← UInt64.toNat_inj, ← UInt64.toNat_inj, hrest, hbit, hhalf]
    show 2 ^ 28 < _ ∨ _ ∧ _ = 1 ↔ _
    omega
  simp only [Binary32.roundEven, roundHalfEven]
  split_ifs with h h' h'
  · rw [UInt64.toNat_add, hquotient]
    show (_ + 1) % 2 ^ 64 = _
    omega
  · exact absurd (htest.mp h) h'
  · exact absurd (htest.mpr h') h
  · exact hquotient

/-! ### Storing in single precision -/

theorem nearest_eq {x : Float} (h : x.toBits.toNat < 2047 * 2 ^ 52) :
    Binary32.nearest x = Float.ofBits (Binary32.nearestMagnitude x.toBits) := by
  have hmagnitude : Binary32.magnitudeBits x.toBits = x.toBits := by
    rw [← UInt64.toNat_inj, Binary32.magnitudeBits, UInt64.toNat_and]
    show _ &&& (2 ^ 63 - 1) = _
    rw [Nat.and_two_pow_sub_one_eq_mod]
    omega
  have hsign : Binary32.signBits x.toBits = 0 := by
    rw [← UInt64.toNat_inj, Binary32.signBits, UInt64.toNat_and]
    show _ &&& 2 ^ 63 = 0
    rw [Nat.and_two_pow, Nat.testBit_lt_two_pow (by omega)]
    rfl
  have hfinite : ¬x.toBits ≥ Binary32.infiniteBits := by
    rw [ge_iff_le, UInt64.le_iff_toNat_le]
    show ¬2047 * 2 ^ 52 ≤ _
    omega
  rw [Binary32.nearest]
  simp only [hmagnitude, hsign, if_neg hfinite, UInt64.zero_or]

/-- A number that is normal in single precision and not too large is stored by rounding its bits. -/
theorem toNat_toBits_nearest {x : Float} (hmin : 897 * 2 ^ 52 ≤ x.toBits.toNat)
    (hmax : x.toBits.toNat ≤ 1150 * 2 ^ 52) :
    (Binary32.nearest x).toBits.toNat = 2 ^ 29 * roundHalfEven x.toBits.toNat (2 ^ 29) := by
  have hround : (Binary32.roundEven x.toBits 29 <<< 29).toNat
      = 2 ^ 29 * roundHalfEven x.toBits.toNat (2 ^ 29) := by
    rw [UInt64.toNat_shiftLeft, toNat_roundEven, Nat.shiftLeft_eq]
    show _ * 2 ^ 29 % 2 ^ 64 = _
    rw [Nat.mod_eq_of_lt, mul_comm]
    simp only [roundHalfEven]
    split_ifs <;> omega
  have hle : 2 ^ 29 * roundHalfEven x.toBits.toNat (2 ^ 29) < 1151 * 2 ^ 52 := by
    simp only [roundHalfEven]
    split_ifs <;> omega
  have hexponent : x.toBits >>> 52 ≥ 897 := by
    rw [ge_iff_le, UInt64.le_iff_toNat_le, UInt64.toNat_shiftRight, Nat.shiftRight_eq_div_pow]
    show 897 ≤ _ / 2 ^ 52
    omega
  have hoverflow : ¬Binary32.roundEven x.toBits 29 <<< 29 ≥ Binary32.overflowBits := by
    rw [ge_iff_le, UInt64.le_iff_toNat_le, hround]
    show ¬1151 * 2 ^ 52 ≤ _
    omega
  rw [nearest_eq (by omega), Binary32.nearestMagnitude]
  simp only [if_pos hexponent, if_neg hoverflow]
  rw [toBits_ofBits (by omega), hround]

end FourierAudit
