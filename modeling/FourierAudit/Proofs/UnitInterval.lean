/-
The range of the components of a stimulus.

A component is drawn as 53 bits over `2 ^ 53`. That is exact, and below one. Single precision has
no room for 53 bits: a draw that is no further from one than `2 ^ -25` is stored as one. This is so
if the first of its two words has ones in its 25 upper bits, whatever the second word is:

* `Twister.holds_uniform` — a draw is its 53 bits over `2 ^ 53`;
* `toNat_toBits_of_holds` — the bits of a multiple of `2 ^ -53` below one;
* `Twister.toBits_store_uniform` — which draws are stored as one;
* `Stimulus.components_unit_interval` — the range of the components of all stimuli;
* `Stimulus.not_lt_one_of_seed` — a seed whose first component is stored as one.
-/
import FourierAudit.Proofs.Binary64Bits
import FourierAudit.Proofs.ExactNumbers
import FourierAudit.Proofs.StimulusStream

namespace FourierAudit

open Float.Model Float.Model.UnpackedFloat

/-! ### Multiples of `2 ^ -53` -/

/-- The bits of a multiple of `2 ^ -53` below one. From one half on they count the multiples. -/
theorem toNat_toBits_of_holds {x : Float} {n : ℕ} (hn : n < 2 ^ 53)
    (hx : Holds x.toModel.unpack (n / 2 ^ 53)) :
    (n = 0 ∧ x.toBits.toNat = 0) ∨ 970 * 2 ^ 52 ≤ x.toBits.toNat ∧
      (2 ^ 52 ≤ n ∧ x.toBits.toNat = 1021 * 2 ^ 52 + n ∨
        n < 2 ^ 52 ∧ x.toBits.toNat < 1022 * 2 ^ 52) := by
  have hvalue : (n : ℚ) / 2 ^ 53 = n * 2 ^ (-53 : ℤ) := by
    rw [div_eq_mul_inv]
    norm_num
  rw [hvalue] at hx
  generalize hq : (n : ℚ) * 2 ^ (-53 : ℤ) = q at hx
  generalize hf : x.toModel.unpack = f at hx
  cases hx with
  | zero =>
    have hzero : (n : ℚ) = 0 := by
      rwa [mul_eq_zero_iff_right (by positivity)] at hq
    exact .inl ⟨by exact_mod_cast hzero, toNat_of_unpack_zero hf⟩
  | @finite m e hc =>
    have hbits : (x.toBits.toNat : ℤ) = (e + 1074) * 2 ^ 52 + m := toNat_of_unpack_finite hf
    have hpos : 0 < n := by
      rw [Nat.pos_iff_ne_zero]
      rintro rfl
      have hm := hc.pos
      have : (0 : ℚ) < m * 2 ^ e := by positivity
      rw [Nat.cast_zero, zero_mul] at hq
      linarith
    have hupper := hc.significand
    have hsub := hc.subnormal
    have hlog := (Nat.log2_lt hc.pos.ne').mpr hupper
    have htotal : totalExponent m e = totalExponent n (-53) :=
      totalExponent_congr hc.pos hpos hq.symm
    rw [totalExponent, totalExponent] at htotal
    have hlower : 2 ^ 52 ≤ m := by omega
    have hlogm : m.log2 = 52 := (Nat.log2_eq_iff hc.pos.ne').mpr ⟨hlower, hupper⟩
    refine .inr ⟨by omega, ?_⟩
    rcases Nat.lt_or_ge n (2 ^ 52) with hlt | hge
    · have hlogn := (Nat.log2_lt hpos.ne').mpr hlt
      exact .inr ⟨hlt, by omega⟩
    · have hlogn : n.log2 = 52 := (Nat.log2_eq_iff hpos.ne').mpr ⟨hge, hn⟩
      obtain rfl : e = -53 := by omega
      have hm : n = m := by
        exact_mod_cast mul_right_cancel₀ (by positivity : (2 : ℚ) ^ (-53 : ℤ) ≠ 0) hq
      exact .inl ⟨hge, by omega⟩

/-- Numbers with the bits of one at most are from zero up to one. -/
theorem range_of_toBits {x : Float} (h : x.toBits.toNat ≤ 1023 * 2 ^ 52) :
    Scalar.le Scalar.zero x = true ∧ Scalar.le x Scalar.one = true ∧
      (Scalar.lt x Scalar.one = true ↔ x.toBits.toNat < 1023 * 2 ^ 52) := by
  have hzero : (Scalar.zero : Float).toBits.toNat = 0 := by decide
  have hone : (Scalar.one : Float).toBits.toNat = 1023 * 2 ^ 52 := by decide
  rw [le_iff_toBits (by omega) (by omega), le_iff_toBits (by omega) (by omega),
    lt_iff_toBits (by omega) (by omega), hzero, hone]
  exact ⟨Nat.zero_le _, h, Iff.rfl⟩

/-! ### Draws -/

namespace Twister

variable (high low : UInt32)

/-- The 53 bits of a draw: the upper 27 of one word and the upper 26 of another. -/
def drawnBits : ℕ := high.toNat / 2 ^ 5 * 2 ^ 26 + low.toNat / 2 ^ 6

theorem drawnBits_lt : drawnBits high low < 2 ^ 53 := by
  have := high.toNat_lt
  have := low.toNat_lt
  rw [drawnBits]
  omega

/-- A draw is exact. -/
theorem holds_uniform :
    Holds (uniform high low : Float).toModel.unpack (drawnBits high low / 2 ^ 53) := by
  have hhigh : (high >>> 5).toNat = high.toNat / 2 ^ 5 := by
    rw [UInt32.toNat_shiftRight, Nat.shiftRight_eq_div_pow]
    rfl
  have hlow : (low >>> 6).toNat = low.toNat / 2 ^ 6 := by
    rw [UInt32.toNat_shiftRight, Nat.shiftRight_eq_div_pow]
    rfl
  have := high.toNat_lt
  have := low.toNat_lt
  have hproduct := holds_mul (holds_natCast (n := high.toNat / 2 ^ 5) (by omega))
    (holds_natCast (n := 2 ^ 26) (by decide))
    (by rw [← Nat.cast_mul]; exact isShort_natCast (by omega))
  have hsum := holds_add hproduct (holds_natCast (n := low.toNat / 2 ^ 6) (by omega))
    (by rw [← Nat.cast_mul, ← Nat.cast_add]; exact isShort_natCast (by omega))
  rw [← Nat.cast_mul, ← Nat.cast_add] at hsum
  rw [uniform, hhigh, hlow]
  exact holds_div (drawnBits_lt high low) hsum

/-- The bits of a draw are below those of one. -/
theorem toBits_uniform : (uniform high low : Float).toBits.toNat < 1023 * 2 ^ 52 := by
  have hlt := drawnBits_lt high low
  have := toNat_toBits_of_holds hlt (holds_uniform high low)
  omega

/-- A draw is stored as one in single precision if its upper 25 bits are ones: half the distance
between one and the number before it is a tie, and goes to one. -/
theorem toBits_store_uniform (p : Precision) :
    (p.store (uniform high low : Float)).toBits.toNat ≤ 1023 * 2 ^ 52 ∧
      ((p.store (uniform high low : Float)).toBits.toNat < 1023 * 2 ^ 52 ↔
        p = .double ∨ high.toNat < 2 ^ 32 - 2 ^ 7) := by
  have hbits := toBits_uniform high low
  cases p with
  | double => exact ⟨hbits.le, iff_of_true hbits (.inl rfl)⟩
  | single =>
    show (Binary32.nearest (uniform high low)).toBits.toNat ≤ _ ∧
      ((Binary32.nearest (uniform high low)).toBits.toNat < _ ↔ _)
    rw [or_iff_right (by decide)]
    have hlow := low.toNat_lt
    rcases toNat_toBits_of_holds (drawnBits_lt high low) (holds_uniform high low) with
      ⟨hn, hzero⟩ | ⟨hmin, hcases⟩
    · have hstored : (Binary32.nearest (uniform high low)).toBits.toNat = 0 := by
        have hbits0 : (uniform high low : Float).toBits = 0 := UInt64.toNat_inj.mp hzero
        rw [nearest_eq (by omega), hbits0]
        decide
      rw [drawnBits] at hn
      omega
    · rw [toNat_toBits_nearest (by omega) (by omega)]
      rw [drawnBits] at hcases
      simp only [roundHalfEven]
      split_ifs <;> omega

end Twister

/-! ### Stimuli -/

namespace Stimulus

/-- A stimulus consists of the first samples of the stream. -/
theorem of_generate {R : Type} [Scalar R] {seed count : ℤ} {p : Precision} {v : Volume R}
    (h : generate seed count p = .ok v) : v = samples (UInt32.ofNat seed.toNat) count.toNat p := by
  rw [generate, prepare] at h
  split_ifs at h
  · cases h
  · cases h
  · cases h
  · exact (Except.ok.inj h).symm

/-- **Components are from zero up to one, and only single precision reaches one.** A draw is exactly
its 53 bits over `2 ^ 53`, so it is at least zero and below one, and so are the components of every
stimulus in double precision. In single precision they are at most one, and a component is one if
and only if the upper 25 bits of the first word of its draw are ones. -/
theorem components_unit_interval (p : Precision) :
    (∀ high low : UInt32,
      Holds (Twister.uniform high low : Float).toModel.unpack
          (Twister.drawnBits high low / 2 ^ 53) ∧
        Scalar.le Scalar.zero (Twister.uniform high low : Float) = true ∧
        Scalar.lt (Twister.uniform high low : Float) Scalar.one = true ∧
        Scalar.le Scalar.zero (p.store (Twister.uniform high low : Float)) = true ∧
        Scalar.le (p.store (Twister.uniform high low : Float)) Scalar.one = true ∧
        (Scalar.lt (p.store (Twister.uniform high low : Float)) Scalar.one = true ↔
          p = .double ∨ high.toNat < 2 ^ 32 - 2 ^ 7)) ∧
      ∀ (seed count : ℤ) (v : Volume Float), generate seed count p = .ok v →
        ∀ i < 2 * v.size, ∃ x, (components v)[i]? = some x ∧
          Scalar.le Scalar.zero x = true ∧ Scalar.le x Scalar.one = true ∧
          (Scalar.lt x Scalar.one = true ↔ p = .double ∨
            (Twister.temper (Twister.sequence (UInt32.ofNat seed.toNat)
              (Twister.degree + 2 * i))).toNat < 2 ^ 32 - 2 ^ 7) := by
  constructor
  · intro high low
    obtain ⟨hle, hlt⟩ := Twister.toBits_store_uniform high low p
    obtain ⟨hzero, hone, hiff⟩ := range_of_toBits hle
    have hdraw := Twister.toBits_uniform high low
    obtain ⟨hzero', -, hiff'⟩ := range_of_toBits hdraw.le
    exact ⟨Twister.holds_uniform high low, hzero', hiff'.mpr hdraw, hzero, hone, hiff.trans hlt⟩
  · intro seed count v h i hi
    obtain rfl := of_generate h
    rw [size_samples] at hi
    refine ⟨p.store (stream (UInt32.ofNat seed.toNat) i), getElem?_components_samples _ hi p, ?_⟩
    obtain ⟨hle, hlt⟩ := Twister.toBits_store_uniform _ _ p
    obtain ⟨hzero, hone, hiff⟩ := range_of_toBits hle
    exact ⟨hzero, hone, hiff.trans hlt⟩

/-- The first sample of a stimulus in single precision. -/
theorem components_unit_interval_sample : ∃ v : Volume Float, generate 0 1 .single = .ok v ∧
    0 < 2 * v.size ∧ ∃ x, (components v)[0]? = some x ∧ Scalar.le Scalar.zero x = true ∧
      Scalar.le x Scalar.one = true := by
  have hgenerate : generate 0 1 .single = .ok (samples 0 1 .single : Volume Float) :=
    generate_natural (by decide) 1 .single
  have hplace : 0 < 2 * (samples 0 1 .single : Volume Float).size := by
    rw [size_samples]
    decide
  obtain ⟨x, hx, hzero, hone, -⟩ := (components_unit_interval .single).2 0 1 _ hgenerate 0 hplace
  exact ⟨_, hgenerate, hplace, x, hx, hzero, hone⟩

/-- The first word of this seed is `0xffffffef`, so its first component is stored as one. -/
theorem not_lt_one_of_seed : ∃ v : Volume Float, generate 14784396 1 .single = .ok v ∧
    ∃ x, (components v)[0]? = some x ∧ Scalar.lt x Scalar.one = false := by
  have hword : ¬(Twister.temper (Twister.sequence 14784396 (Twister.degree + 0))).toNat
      < 2 ^ 32 - 2 ^ 7 := by
    rw [Twister.sequence_degree_add, Twister.sequence_eq_fold _ (by decide),
      Twister.sequence_eq_fold _ (by decide), Twister.sequence_eq_fold _ (by decide)]
    decide +kernel
  have hseed : (0 : ℤ) ≤ 14784396 ∧ (14784396 : ℤ) < 2 ^ 32 := by decide
  refine ⟨_, generate_natural hseed 1 .single, _,
    getElem?_components_samples _ (by decide) .single, ?_⟩
  obtain ⟨hle, hlt⟩ := Twister.toBits_store_uniform
    (Twister.temper (Twister.sequence 14784396 (Twister.degree + 0)))
    (Twister.temper (Twister.sequence 14784396 (Twister.degree + 1))) .single
  rw [← Bool.not_eq_true]
  intro h
  have hbits := (range_of_toBits hle).2.2.mp h
  exact (hlt.mp hbits).elim (nomatch ·) hword

end Stimulus

end FourierAudit
