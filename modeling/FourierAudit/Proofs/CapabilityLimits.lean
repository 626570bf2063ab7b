/-
The capability limits of a backend and the true size of a case.

A backend counts the points of a case in a machine word, so its limits see the true size of a case
as long as the points fit into a word. Nothing larger gets grids, since an array cannot have their
size:

* `Backend.Accommodates` — the true size of a case keeps to the limits;
* `capacity_respected` — supported cases keep to the limits, larger ones are refused;
* `checkSupported_of_wrapped_count` — a case whose count wraps around is taken as supported.

Design notes: the number of elements of a spectrum is exact, the number of points is not. What a
device needs is computed from both, so for a real transform the two can cancel.
-/
import FourierAudit.Proofs.BackendLimits
import FourierAudit.Proofs.ScalarOrder

namespace FourierAudit

variable {R : Type} [Scalar R]

/-! ### The test of an extent comes to an end -/

theorem divideOut_ok {radix : ℤ} (h : radix ≠ 0) (n : ℤ) :
    ∃ rest, (divideOut radix n : Except (Failure R) ℤ) = .ok rest := by
  fun_induction divideOut (R := R) radix n with
  | case2 => contradiction
  | case4 _ _ _ _ _ ih => exact ih
  | case1 | case3 | case5 => exact ⟨_, rfl⟩

theorem foldlM_divideOut_ok {radices : List ℤ} (h : 0 ∉ radices) (n : ℤ) :
    ∃ rest, radices.foldlM (fun rest radix => divideOut radix rest) n
      = (.ok rest : Except (Failure R) ℤ) := by
  induction radices generalizing n with
  | nil => exact ⟨n, rfl⟩
  | cons radix rest ih =>
    rw [List.mem_cons, not_or] at h
    obtain ⟨m, hm⟩ := divideOut_ok (R := R) (Ne.symm h.1) n
    rw [List.foldlM_cons, hm]
    exact ih h.2 m

/-- Without zero among the radices every integer is legal or not. -/
theorem isSmooth_ok {radices : Option (List ℤ)} (h : ∀ r ∈ radices, 0 ∉ r) (n : ℤ) :
    ∃ answer, (isSmooth radices n : Except (Failure R) Bool) = .ok answer := by
  unfold isSmooth
  split_ifs
  · exact ⟨false, rfl⟩
  cases radices with
  | none => exact ⟨true, rfl⟩
  | some radices =>
    have hsorted : 0 ∉ sortedRadices radices := by
      simpa [sortedRadices, List.mem_mergeSort] using h radices rfl
    obtain ⟨rest, hrest⟩ := foldlM_divideOut_ok (R := R) hsorted n
    exact ⟨rest == 1, by simp only [hrest]; rfl⟩

/-- A power of a radix is divided down to one. -/
theorem divideOut_pow {radix : ℤ} (h : 1 < radix) (k : ℕ) :
    divideOut radix (radix ^ k) = (.ok 1 : Except (Failure R) ℤ) := by
  induction k with
  | zero => rw [pow_zero, divideOut, if_pos le_rfl]
  | succ k ih =>
    have hlarge : ¬radix ^ (k + 1) ≤ 1 := not_le.mpr (one_lt_pow₀ h (Nat.succ_ne_zero k))
    have hdvd : radix ^ (k + 1) % radix = 0 := Int.emod_eq_zero_of_dvd (dvd_pow_self _ (by omega))
    have hrest : radix ^ (k + 1) / radix = radix ^ k := by
      rw [pow_succ, Int.mul_ediv_cancel _ (by omega)]
    rw [divideOut, if_neg hlarge, if_neg (by omega), if_neg (not_not.mpr hdvd), if_pos h, hrest, ih]

/-! ### The true size of a case -/

theorem volume_le_outputPoints (c : TransformCase R) : c.extents.volume ≤ 2 * c.outputPoints := by
  have hdepth : c.extents.z ≤ 2 * c.kind.packedDepth c.extents.z := by
    cases c.kind with
    | complexToComplex => exact Nat.le_mul_of_pos_left _ (by omega)
    | realToComplex =>
      show c.extents.z ≤ 2 * (c.extents.z / 2 + 1)
      omega
  calc c.extents.x * c.extents.y * c.extents.z
      ≤ c.extents.x * c.extents.y * (2 * c.kind.packedDepth c.extents.z) :=
        Nat.mul_le_mul_left _ hdepth
    _ = 2 * c.outputPoints := Nat.mul_left_comm ..

namespace Backend

/-- The bytes that the grids of a case and the work area of its transform take, with the points
counted exactly. -/
def exactBytes (c : TransformCase R) : ℤ :=
  c.precision.elementSize * (c.extents.volume + 2 * c.outputPoints)

/-- The true size of a case keeps to the limits of a backend. -/
structure Accommodates (b : Backend R) (accelerator : Option Accelerator) (c : TransformCase R) :
    Prop where
  volume : ∀ limit ∈ b.maxPoints, (c.extents.volume : ℤ) ≤ limit
  memory : b.needsDeviceMemory = true → ∃ a ∈ accelerator, exactBytes c ≤ a.freeBytes

/-- A case is refused as unsupported, before there are grids for it. -/
def Refuses (b : Backend R) (accelerator : Option Accelerator) (c : TransformCase R) : Prop :=
  ∃ cause, b.checkSupported accelerator c = .error (.unsupported cause) ∧
    b.openGrids accelerator c = .error (.unsupported cause)

theorem requiredBytes_eq {c : TransformCase R} (h : c.extents.volume < 2 ^ 63) :
    requiredBytes c = exactBytes c := by
  rw [requiredBytes, exactBytes, points_eq h]

variable {b : Backend R} {accelerator : Option Accelerator} {c : TransformCase R}

/-- A backend with a test of its own or without zero among its radices can test every extent. -/
theorem legal_total (h : b.extentTest.isSome = true ∨ ∀ r ∈ b.radices, 0 ∉ r) :
    b.legal.Total := by
  intro n
  unfold legal
  cases htest : b.extentTest with
  | some test => exact ⟨test n, rfl⟩
  | none =>
    rw [htest] at h
    exact isSmooth_ok (h.resolve_left (by simp)) n

theorem allLegal_ok (h : ∀ r ∈ b.radices, 0 ∉ r) (dims : List ℕ) :
    ∃ answer, b.allLegal dims = .ok answer := by
  induction dims with
  | nil => exact ⟨true, rfl⟩
  | cons n rest ih =>
    obtain ⟨answer, hanswer⟩ := legal_total (.inr h) n
    obtain ⟨others, hothers⟩ := ih
    rw [allLegal, hanswer, hothers]
    cases answer <;> exact ⟨_, rfl⟩

/-! ### What a supported case keeps to -/

theorem refuses_iff : b.Refuses accelerator c ↔
    ∃ cause, b.checkSupported accelerator c = .error (.unsupported cause) := by
  refine ⟨fun ⟨cause, h, _⟩ => ⟨cause, h⟩, fun ⟨cause, h⟩ => ⟨cause, h, ?_⟩⟩
  rw [openGrids, h]
  rfl

/-- The points are counted before anything is looked at but the precision. -/
theorem refuses_of_points {limit : ℤ} (hlimit : b.maxPoints = some limit)
    (h : limit < c.points) : b.Refuses accelerator c := by
  rw [refuses_iff]
  by_cases hprecision : c.precision ∈ b.precisions
  · exact ⟨_, checkSupported_of_volume hprecision hlimit h⟩
  · exact ⟨_, checkSupported_of_precision hprecision⟩

/-- A supported case keeps to the limits, if a machine word can count its points. -/
theorem accommodates_of_checkSupported (hvolume : c.extents.volume < 2 ^ 63)
    (h : b.checkSupported accelerator c = .ok ()) : b.Accommodates accelerator c := by
  obtain ⟨-, hlimits, -, hmemory⟩ := checkSupported_eq_ok_iff.mp h
  rw [points_eq hvolume] at hlimits
  rw [requiredBytes_eq hvolume] at hmemory
  exact ⟨hlimits, hmemory⟩

theorem supported_of_openGrids {grids : GridPair R} (h : b.openGrids accelerator c = .ok grids) :
    b.checkSupported accelerator c = .ok () :=
  (of_openGrids h).1

/-- A case that gets grids has as many points as a machine word can count. -/
theorem volume_lt_of_openGrids {grids : GridPair R} (h : b.openGrids accelerator c = .ok grids) :
    c.extents.volume < 2 ^ 63 := by
  have hsize : 8 ≤ c.precision.elementSize.toNat := by
    cases c.precision <;> decide
  obtain ⟨haddr, -⟩ := Buffer.of_allocate (of_openGrids h).2.2
  rw [isAddressable_elementSize _ (outputPoints_pos c)] at haddr
  have := volume_le_outputPoints c
  have := Nat.mul_le_mul_right c.outputPoints hsize
  omega

/-! ### True limits -/

/-- With the library for device memory there and every radix other than zero, a backend either
supports a case or refuses it. -/
theorem refuses_or_supported (hradices : ∀ r ∈ b.radices, 0 ∉ r)
    (hlibrary : accelerator.isSome = true) :
    b.checkSupported accelerator c = .ok () ∨ b.Refuses accelerator c := by
  obtain ⟨answer, hanswer⟩ := allLegal_ok hradices c.dims
  obtain ⟨a, rfl⟩ := Option.isSome_iff_exists.mp hlibrary
  rw [refuses_iff]
  by_cases hprecision : c.precision ∈ b.precisions
  swap
  · exact .inr ⟨_, checkSupported_of_precision hprecision⟩
  by_cases hvolume : ∀ limit ∈ b.maxPoints, c.points ≤ limit
  swap
  · push Not at hvolume
    obtain ⟨limit, hlimit, hpoints⟩ := hvolume
    exact .inr ⟨_, checkSupported_of_volume hprecision hlimit hpoints⟩
  rw [checkSupported_of_points_le hprecision hvolume, hanswer, ok_bind]
  cases answer with
  | false => exact .inr ⟨_, rfl⟩
  | true =>
    rw [if_pos rfl]
    unfold checkMemory
    simp only
    split_ifs
    · exact .inr ⟨_, rfl⟩
    · exact .inl rfl
    · exact .inl rfl

/-- The limits of a backend hold for the true size of a case whose points fit into a machine
word: what is supported keeps to them, what exceeds them is refused before there are grids. Grids
are never opened for anything larger. -/
theorem capacity_respected (b : Backend R) (accelerator : Option Accelerator)
    (c : TransformCase R) :
    (∀ grids, b.openGrids accelerator c = .ok grids →
      c.extents.volume < 2 ^ 63 ∧ b.Accommodates accelerator c) ∧
    (c.extents.volume < 2 ^ 63 →
      (b.checkSupported accelerator c = .ok () → b.Accommodates accelerator c) ∧
      (∀ limit ∈ b.maxPoints, limit < (c.extents.volume : ℤ) → b.Refuses accelerator c) ∧
      (b.needsDeviceMemory = true → (∀ r ∈ b.radices, 0 ∉ r) →
        ∀ a ∈ accelerator, a.freeBytes < exactBytes c → b.Refuses accelerator c)) := by
  refine ⟨fun grids h => ?_, fun hvolume => ⟨accommodates_of_checkSupported hvolume,
    fun limit hlimit h => ?_, fun hneeds hradices a ha h => ?_⟩⟩
  · have hvolume := volume_lt_of_openGrids h
    exact ⟨hvolume, accommodates_of_checkSupported hvolume (supported_of_openGrids h)⟩
  · rw [← points_eq hvolume] at h
    exact refuses_of_points hlimit h
  · have hlibrary : accelerator.isSome = true := Option.isSome_iff_exists.mpr ⟨a, ha⟩
    refine (refuses_or_supported hradices hlibrary).resolve_left fun hsupported => ?_
    -- a supported case would fit into the free memory
    obtain ⟨a', ha', hfits⟩ := (accommodates_of_checkSupported hvolume hsupported).memory hneeds
    obtain rfl : a' = a := Option.mem_unique ha' ha
    omega

/-! ### A count that wraps around -/

/-- The device backend for at most a hundred points. -/
def crampedBackend : Backend Float := { (deviceBackend : Backend Float) with maxPoints := some 100 }

/-- A device with a kilobyte of free memory. -/
def smallDevice : Accelerator := ⟨.ok 1, 1024⟩

/-- A real case in single precision with two lines of the given extent. -/
def twoLines (z : ℕ) (hz : 0 < z) : TransformCase Float :=
  ⟨⟨2, 1, z⟩, .realToComplex, .single, Scalar.one, ⟨Nat.two_pos, Nat.one_pos, hz⟩,
    zero_lt_one_float⟩

/-- Two lines of 64 points exceed the number of points, two lines of 32 the free memory. -/
theorem capacity_respected_twoLines :
    crampedBackend.Refuses (some smallDevice) (twoLines 64 (by decide)) ∧
      crampedBackend.Refuses (some smallDevice) (twoLines 32 (by decide)) := by
  have hmany := capacity_respected crampedBackend (some smallDevice) (twoLines 64 (by decide))
  have hlarge := capacity_respected crampedBackend (some smallDevice) (twoLines 32 (by decide))
  refine ⟨(hmany.2 (by decide)).2.1 100 rfl (by decide), ?_⟩
  refine (hlarge.2 (by decide)).2.2 rfl ?_ smallDevice rfl (by decide)
  rintro r ⟨⟩
  decide

theorem legal_pow_two (k : ℕ) : crampedBackend.legal (2 ^ k) = .ok true := by
  have hsorted : sortedRadices [2, 3, 5, 7] = [2, 3, 5, 7] :=
    List.mergeSort_of_pairwise (by decide)
  have hone : ∀ radix : ℤ, divideOut radix 1 = (.ok 1 : Except (Failure Float) ℤ) := by
    intro radix
    rw [divideOut, if_pos le_rfl]
  have htwo : divideOut 2 (2 ^ k) = (.ok 1 : Except (Failure Float) ℤ) :=
    divideOut_pow (by decide) k
  have hpos : ¬(2 : ℤ) ^ k < 1 := not_lt.mpr (one_le_pow₀ (by decide))
  show isSmooth (some [2, 3, 5, 7]) (2 ^ k) = _
  simp only [isSmooth, if_neg hpos, hsorted, List.foldlM_cons, List.foldlM_nil, htwo, bind,
    Except.bind, hone]
  rfl

/-- Of two lines of `2 ^ 62` points a signed word counts `-2 ^ 63` points, which also cancels the
elements of the spectrum. -/
theorem checkSupported_of_wrapped_count :
    crampedBackend.checkSupported (some smallDevice) (twoLines (2 ^ 62) (by decide)) = .ok () ∧
      (100 : ℤ) < (twoLines (2 ^ 62) (by decide)).extents.volume ∧
      smallDevice.freeBytes < exactBytes (twoLines (2 ^ 62) (by decide)) := by
  refine ⟨?_, by decide, by decide⟩
  have hall : crampedBackend.allLegal (twoLines (2 ^ 62) (by decide)).dims = .ok true := by
    rw [allLegal_iff]
    show ∀ n ∈ [2 ^ 1, 2 ^ 0, 2 ^ 62], _
    simp only [List.forall_mem_cons, List.not_mem_nil, Nat.cast_pow, Nat.cast_ofNat]
    exact ⟨legal_pow_two 1, legal_pow_two 0, legal_pow_two 62, by simp⟩
  have hvolume : ¬(100 : ℤ) < (twoLines (2 ^ 62) (by decide)).points := by decide
  have hmemory : ¬smallDevice.freeBytes < requiredBytes (twoLines (2 ^ 62) (by decide)) := by
    decide
  have hlimit : crampedBackend.maxPoints = some 100 := rfl
  have hneeds : crampedBackend.needsDeviceMemory = true := rfl
  have hprecision : crampedBackend.precisions.contains
      (twoLines (2 ^ 62) (by decide)).precision = true := rfl
  simp only [checkSupported, hprecision, hlimit, if_neg hvolume, hall, hneeds, if_neg hmemory]
  rfl

end Backend

end FourierAudit
