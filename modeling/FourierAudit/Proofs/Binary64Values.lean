/-
Binary64 numbers and their signs.

Every operation unpacks its arguments and packs its result again. Packing what was unpacked gives
back the number, so numbers can be told apart by what is unpacked from them:

* `eq_of_unpack_eq` — two numbers that unpack to the same are the same;
* `neg_neg_float` — changing the sign twice changes nothing;
* `isNaN_stored` — packing neither makes nor loses a NaN;
* `Unsigned` — the numbers without a minus sign, of which none is below zero
  (`zero_le_of_unsigned`) and no two are at most each other (`eq_of_le_of_le`).

Design notes: the order does not tell the two zeros apart, so it is antisymmetric only among numbers
without a minus sign.
-/
import FourierAudit.Proofs.Binary64Rounding

namespace FourierAudit

open Float.Model Float.Model.UnpackedFloat

/-! ### Packing what was unpacked -/

theorem toBitVec_ofBitVec (b : BitVec 1) : (Sign.ofBitVec b).toBitVec = b := by
  rcases BitVec.eq_zero_or_eq_one b with rfl | rfl <;> rfl

/-- A word is put together from its three fields. -/
theorem packComponents_fields (bits : BitVec Format.binary64.numBits) :
    packComponents Format.binary64 (Sign.ofBitVec (unpackSign bits)) (unpackExponent bits)
      (unpackMantissa bits) = bits := by
  rw [packComponents, toBitVec_ofBitVec]
  ext i hi
  simp only [unpackSign, unpackExponent, unpackMantissa, BitVec.extractLsb]
  grind

theorem packComponents_of_fields {bits : BitVec Format.binary64.numBits} {exponent mantissa}
    (hexponent : unpackExponent bits = exponent) (hmantissa : unpackMantissa bits = mantissa) :
    packComponents Format.binary64 (Sign.ofBitVec (unpackSign bits)) exponent mantissa = bits := by
  rw [← hexponent, ← hmantissa, packComponents_fields]

/-- Packing what was unpacked changes nothing, as only one word stands for no number. -/
theorem pack_unpack {bits : BitVec Format.binary64.numBits} (h : Format.binary64.Valid bits) :
    UnpackedFloat.pack Format.binary64 (UnpackedFloat.unpack Format.binary64 bits) = bits := by
  have hbias (e : ℤ) : e + (Format.binary64.exponentBias : ℤ) + (52 : ℕ) = e + 1075 := by
    show e + 1023 + 52 = e + 1075
    ring
  have hunbias (k : ℕ) : (k : ℤ) - ((Format.binary64.exponentBias : ℤ) + (52 : ℕ)) = k - 1075 := rfl
  have hexponent : (unpackExponent bits : BitVec 11).toNat < 2048 := (unpackExponent bits).isLt
  have hmantissa : (unpackMantissa bits : BitVec 52).toNat < 2 ^ 52 := (unpackMantissa bits).isLt
  have hlog {m : ℕ} (hm : 0 < m) : m.log2 + 1 = Format.binary64.mantissaBits ↔
      2 ^ 52 ≤ m ∧ m < 2 ^ 53 := by
    rw [← Nat.le_log2 hm.ne', ← Nat.log2_lt hm.ne']
    show m.log2 + 1 = 53 ↔ _
    omega
  simp only [UnpackedFloat.unpack, hunbias]
  split_ifs with hmax hzero hsub hzero
  · exact packComponents_of_fields hmax hzero
  · exact (h.eq_packedNaN hmax hzero).symm
  · exact packComponents_of_fields hsub hzero
  · -- below the least exponent the significand has no leading bit
    have hpos : 0 < (unpackMantissa bits : BitVec 52).toNat := by
      rw [Nat.pos_iff_ne_zero]
      exact fun h0 => hzero (BitVec.eq_of_toNat_eq h0)
    simp only [UnpackedFloat.pack, hbias]
    rw [hsub, if_neg (by decide), if_neg (by rw [hlog hpos]; omega)]
    exact packComponents_of_fields hsub (by simp)
  · have hmax' : (unpackExponent bits : BitVec 11).toNat ≠ 2047 :=
      fun h0 => hmax (BitVec.eq_of_toNat_eq h0)
    have hpos : 0 < (1#1 ++ (unpackMantissa bits : BitVec 52)).toNat := by
      rw [toNat_leading]
      omega
    have hback (k : ℕ) : ((k : ℤ) - 1075 + 1075).toNat = k := by omega
    simp only [UnpackedFloat.pack, hbias, hback]
    rw [if_neg (by show ¬2048 ≤ _; omega), if_pos ((hlog hpos).mpr (by rw [toNat_leading]; omega))]
    refine packComponents_of_fields (by simp) ?_
    rw [← BitVec.toNat_inj, BitVec.toNat_ofNat, toNat_leading]
    show _ = _ % 2 ^ 52
    omega

/-- Numbers that unpack to the same are the same. -/
theorem eq_of_unpack_eq {a b : Float} (h : a.toModel.unpack = b.toModel.unpack) : a = b := by
  obtain ⟨⟨bits, ha⟩⟩ := a
  obtain ⟨⟨bits', hb⟩⟩ := b
  have hbits : bits.toBitVec = bits'.toBitVec := by
    rw [← pack_unpack ha, ← pack_unpack hb]
    exact congrArg _ h
  obtain rfl := UInt64.toBitVec_inj.mp hbits
  rfl

/-- A number is stored as what it unpacks to. -/
theorem stored_unpack (a : Float) : stored a.toModel.unpack = a.toModel.unpack := by
  rw [stored, Float.Model.unpack, pack_unpack a.toModel.valid]

/-! ### Changing the sign -/

/-- Two numbers that differ at most in their signs. -/
inductive SameMagnitude : UnpackedFloat → UnpackedFloat → Prop
  | notANumber : SameMagnitude .notANumber .notANumber
  | infinity (s t : Sign) : SameMagnitude (.infinity s) (.infinity t)
  | zero (s t : Sign) : SameMagnitude (.zero s) (.zero t)
  | finite (s t : Sign) {m : ℕ} {e : ℤ} (hm : 0 < m) :
      SameMagnitude (.finite s m e hm) (.finite t m e hm)

theorem sameMagnitude_neg (f : UnpackedFloat) : SameMagnitude f f.neg := by
  cases f <;> constructor

theorem sameMagnitude_abs (f : UnpackedFloat) : SameMagnitude f f.abs := by
  cases f <;> constructor

/-- Whatever has the magnitude of a number can be stored. -/
theorem SameMagnitude.stored_eq {a : Float} {f g : UnpackedFloat} (h : SameMagnitude f g)
    (ha : a.toModel.unpack = f) : stored g = g := by
  cases h with
  | notANumber => rfl
  | infinity s t => exact stored_infinity t
  | zero s t => exact stored_zero t
  | finite s t hm =>
    have hc := isCanonical_of_unpack ha
    have hself := stored_unpack a
    rw [ha, stored_finite hc] at hself
    rw [stored_finite hc]
    split_ifs at hself ⊢
    rfl

theorem unpack_neg (a : Float) : (-a).toModel.unpack = a.toModel.unpack.neg :=
  (sameMagnitude_neg _).stored_eq rfl

theorem unpack_abs (a : Float) : (Scalar.abs a).toModel.unpack = a.toModel.unpack.abs :=
  (sameMagnitude_abs _).stored_eq rfl

theorem neg_neg_unpacked (f : UnpackedFloat) : f.neg.neg = f := by
  rcases f with (_ | _) | _ | (_ | _) | ⟨_ | _, m, e, hm⟩ <;> rfl

/-- Changing the sign twice changes nothing, of zeros and of what is not a number either. -/
theorem neg_neg_float (a : Float) : - -a = a := by
  apply eq_of_unpack_eq
  rw [unpack_neg, unpack_neg, neg_neg_unpacked]

/-! ### What is not a number -/

theorem isNaN_unpack_packComponents (s : Sign) {exponent : BitVec 11} (h : exponent ≠ -1#11)
    (mantissa) :
    (UnpackedFloat.unpack Format.binary64
      (packComponents Format.binary64 s exponent mantissa)).isNaN = false := by
  simp only [UnpackedFloat.unpack, unpackExponent_packComponents, if_neg h]
  split_ifs <;> rfl

/-- Packing neither makes nor loses a NaN. -/
theorem isNaN_stored (f : UnpackedFloat) : (stored f).isNaN = f.isNaN := by
  cases f with
  | notANumber => rfl
  | infinity s => rw [stored_infinity]
  | zero s => rw [stored_zero]
  | finite s m e hm =>
    rw [stored, UnpackedFloat.pack]
    split
    · have hinf := congrArg UnpackedFloat.isNaN (stored_infinity s)
      exact hinf
    · next hsmall =>
      split
      · refine isNaN_unpack_packComponents s ?_ _
        rw [ne_eq, ← BitVec.toNat_inj, BitVec.toNat_ofNat]
        replace hsmall : ¬2048 ≤ _ := hsmall
        show ¬_ % 2048 = 2047
        omega
      · exact isNaN_unpack_packComponents s (by decide) _

theorem isNaN_roundWithAccuracy (s : Sign) (m : ℕ) (e : ℤ) (accuracy : Accuracy) :
    (roundWithAccuracy Format.binary64 s m e accuracy).isNaN = false := by
  simp only [roundWithAccuracy]
  split <;> rfl

theorem isNaN_abs (f : UnpackedFloat) : f.abs.isNaN = f.isNaN := by
  cases f <;> rfl

theorem isNaN_sub_of_isNaN {f g : UnpackedFloat} (h : f.isNaN = true ∨ g.isNaN = true) :
    (UnpackedFloat.sub Format.binary64 f g).isNaN = true := by
  cases f with
  | notANumber => rfl
  | _ =>
    cases g with
    | notANumber => rfl
    | _ => exact h.elim nofun nofun

theorem isNaN_div_of_isNaN {f g : UnpackedFloat} (h : f.isNaN = true) :
    (UnpackedFloat.div Format.binary64 f g).isNaN = true := by
  cases f with
  | notANumber => rfl
  | _ => exact Bool.noConfusion h

theorem isNaN_or_infinity_sub (s : Sign) (g : UnpackedFloat) :
    (UnpackedFloat.sub Format.binary64 (.infinity s) g).isNaN = true ∨
      ∃ t, UnpackedFloat.sub Format.binary64 (.infinity s) g = .infinity t := by
  cases g with
  | notANumber => exact .inl rfl
  | infinity t =>
    simp only [UnpackedFloat.sub]
    split
    · exact .inr ⟨s, rfl⟩
    · exact .inl rfl
  | _ => exact .inr ⟨s, rfl⟩

/-- The difference of a finite number and a number is a number. -/
theorem isNaN_sub_of_isFinite {f g : UnpackedFloat} (hf : f.isFinite = true)
    (hg : g.isNaN = false) : (UnpackedFloat.sub Format.binary64 f g).isNaN = false := by
  cases f with
  | notANumber => exact Bool.noConfusion hf
  | infinity s => exact Bool.noConfusion hf
  | zero s =>
    cases g with
    | notANumber => exact Bool.noConfusion hg
    | infinity t => rfl
    | zero t => cases s <;> cases t <;> rfl
    | finite t m e hm => rfl
  | finite s m e hm =>
    cases g with
    | notANumber => exact Bool.noConfusion hg
    | infinity t => rfl
    | zero t => rfl
    | finite t m' e' hm' =>
      simp only [UnpackedFloat.sub, UnpackedFloat.normalize]
      split
      · exact isNaN_roundWithAccuracy _ _ _ _
      · rfl
      · exact isNaN_roundWithAccuracy _ _ _ _

/-! ### Numbers without a minus sign -/

/-- The numbers without a minus sign, and what is not a number. -/
inductive Unsigned : UnpackedFloat → Prop
  | notANumber : Unsigned .notANumber
  | infinity : Unsigned (.infinity .positive)
  | zero : Unsigned (.zero .positive)
  | finite {m : ℕ} {e : ℤ} {hm : 0 < m} : Unsigned (.finite .positive m e hm)

theorem unsigned_abs (f : UnpackedFloat) : Unsigned f.abs := by
  cases f <;> constructor

theorem unsigned_unpack_packComponents (exponent mantissa) :
    Unsigned (UnpackedFloat.unpack Format.binary64
      (packComponents Format.binary64 .positive exponent mantissa)) := by
  simp only [UnpackedFloat.unpack, unpackSign_packComponents, ofBitVec_toBitVec]
  split_ifs <;> constructor

theorem unsigned_roundWithAccuracy (m : ℕ) (e : ℤ) (accuracy : Accuracy) :
    Unsigned (roundWithAccuracy Format.binary64 .positive m e accuracy) := by
  simp only [roundWithAccuracy]
  split <;> constructor

namespace Unsigned

variable {f g : UnpackedFloat}

theorem stored (h : Unsigned f) : Unsigned (stored f) := by
  cases h with
  | notANumber => exact .notANumber
  | infinity => exact unsigned_unpack_packComponents _ _
  | zero => exact unsigned_unpack_packComponents _ _
  | finite =>
    rw [FourierAudit.stored, UnpackedFloat.pack]
    split
    · exact unsigned_unpack_packComponents _ _
    · split <;> exact unsigned_unpack_packComponents _ _

theorem div (hf : Unsigned f) (hg : Unsigned g) :
    Unsigned (UnpackedFloat.div Format.binary64 f g) := by
  cases hf with
  | notANumber => exact .notANumber
  | infinity => cases hg <;> constructor
  | zero => cases hg <;> constructor
  | finite =>
    cases hg with
    | finite => exact unsigned_roundWithAccuracy _ _ _
    | _ => constructor

/-- Unsigned numbers have a place of their own in the order. -/
theorem eq_of_orderKey (hf : Unsigned f) (hg : Unsigned g) (hfnum : f.isNaN = false)
    (hgnum : g.isNaN = false) (h : orderKey f = orderKey g) : f = g := by
  cases hf <;> cases hg <;> simp_all [orderKey, UnpackedFloat.isNaN]

theorem zero_le (hf : Unsigned f) : toLex (0, toLex (0, 0)) ≤ orderKey f := by
  cases hf <;> simp [orderKey, Prod.Lex.toLex_le_toLex]

end Unsigned

/-- Unsigned numbers that are at most each other are the same. -/
theorem eq_of_le_of_le {a b : Float} (ha : Unsigned a.toModel.unpack)
    (hb : Unsigned b.toModel.unpack) (hab : Scalar.le a b = true) (hba : Scalar.le b a = true) :
    a = b := by
  rw [le_float] at hab hba
  obtain ⟨hanum, hbnum, hle⟩ := hab
  exact eq_of_unpack_eq (ha.eq_of_orderKey hb hanum hbnum (le_antisymm hle hba.2.2))

/-- No unsigned number is below zero. -/
theorem zero_le_of_unsigned {a : Float} (ha : Unsigned a.toModel.unpack)
    (hnum : Scalar.isNaN a = false) : Scalar.le Scalar.zero a = true := by
  have hzero : orderKey (Scalar.zero : Float).toModel.unpack = toLex (0, toLex (0, 0)) := rfl
  rw [le_float, hzero]
  exact ⟨rfl, hnum, ha.zero_le⟩

end FourierAudit
