/-
The errors of a comparison.

A comparison goes over the errors of all elements several times. What a pass finds is said in terms
of the error at a place:

* `errorAt` — the error of the element at a place of two volumes;
* `countP_errors`, `findIdx?_errors_eq_some` — what is counted and what is found first;
* `compare_of_size` — a comparison fails if and only if one of the components of some element is out
  of tolerance.
-/
import FourierAudit.Proofs.PackedLayout
import FourierAudit.Proofs.ScalarOrder
import FourierAudit.Verification

namespace FourierAudit

/-! ### The errors of all elements -/

section Errors

variable {R : Type} [Scalar R] {expected found : Volume R} {error : Sample R → Sample R → R}

/-- The error of the element at a place of two volumes. -/
def errorAt (error : Sample R → Sample R → R) (expected found : Volume R) (i : ℕ) : R :=
  error (expected.getD i Sample.zero) (found.getD i Sample.zero)

omit [Scalar R] in
theorem size_errors (h : expected.size = found.size) :
    (Array.zipWith error expected found).size = expected.size := by
  rw [Array.size_zipWith, ← h, Nat.min_self]

theorem getElem_errors {i : ℕ} (hi : i < (Array.zipWith error expected found).size) :
    (Array.zipWith error expected found)[i] = errorAt error expected found i := by
  have hsize := hi
  rw [Array.size_zipWith, Nat.lt_min] at hsize
  rw [Array.getElem_zipWith, errorAt, Array.getD_eq_getD_getElem?, Array.getD_eq_getD_getElem?,
    Array.getElem?_eq_getElem hsize.1, Array.getElem?_eq_getElem hsize.2, Option.getD_some,
    Option.getD_some]

theorem toList_errors (h : expected.size = found.size) :
    (Array.zipWith error expected found).toList
      = (List.range expected.size).map (errorAt error expected found) := by
  apply List.ext_getElem
  · rw [Array.length_toList, size_errors h, List.length_map, List.length_range]
  · intro i hi hi'
    rw [Array.getElem_toList, getElem_errors, List.getElem_map, List.getElem_range]

variable (error) in
/-- The errors that are counted. -/
theorem countP_errors (h : expected.size = found.size) (p : R → Bool) :
    (Array.zipWith error expected found).countP p
      = Nat.count (fun i => p (errorAt error expected found i) = true) expected.size := by
  rw [← Array.countP_toList, toList_errors h, List.countP_map, Nat.count]
  simp only [Bool.decide_eq_true, Function.comp_def]

variable (error) in
/-- The first error that is found. -/
theorem findIdx?_errors_eq_some (h : expected.size = found.size) (p : R → Bool) (i : ℕ) :
    (Array.zipWith error expected found).findIdx? p = some i ↔
      IsLeast {j | j < expected.size ∧ p (errorAt error expected found j) = true} i := by
  rw [Array.findIdx?_eq_some_iff_getElem]
  constructor
  · rintro ⟨hi, hp, hbefore⟩
    refine ⟨⟨size_errors h ▸ hi, by rwa [getElem_errors] at hp⟩, ?_⟩
    rintro j ⟨hj, hpj⟩
    by_contra hlt
    have hnot := hbefore j (not_le.mp hlt)
    rw [getElem_errors] at hnot
    exact hnot hpj
  · rintro ⟨⟨hi, hp⟩, hleast⟩
    refine ⟨(size_errors h).symm ▸ hi, by rwa [getElem_errors], ?_⟩
    intro j hj
    rw [getElem_errors]
    intro hpj
    exact absurd (hleast ⟨hj.trans hi, hpj⟩) (not_le.mpr hj)

variable (error) in
theorem findIdx?_errors_eq_none (h : expected.size = found.size) (p : R → Bool) :
    (Array.zipWith error expected found).findIdx? p = none ↔
      ∀ i < expected.size, ¬p (errorAt error expected found i) = true := by
  rw [Array.findIdx?_eq_none_iff]
  simp only [← Array.mem_toList_iff, toList_errors h]
  simp

end Errors

/-! ### The verdict -/

section Verdict

variable {R : Type} [Scalar R] {expected found : Volume R}

/-- Whether one of the components of an element is out of tolerance. -/
def Deviates (tolerance : R) (expected found : Sample R) : Prop :=
  Scalar.le (componentError expected.re found.re) tolerance = false ∨
    Scalar.le (componentError expected.im found.im) tolerance = false

theorem elementError_eq_false [LawfulOrder R] (tolerance : R) (expected found : Sample R) :
    Scalar.le (elementError expected found) tolerance = false ↔ Deviates tolerance expected found :=
  le_max_eq_false _ _ _

/-- A comparison fails if and only if an error is out of tolerance. -/
theorem countP_ne_zero_iff (h : expected.size = found.size) (tolerance : R) :
    (Array.zipWith elementError expected found).countP (fun e => !Scalar.le e tolerance) ≠ 0 ↔
      ∃ j < expected.size,
        Scalar.le (errorAt elementError expected found j) tolerance = false := by
  rw [ne_eq, countP_errors elementError h, Nat.count_iff_forall_not]
  simp

/-- Volumes of one size are compared, and the comparison fails if and only if some element is out
of tolerance. -/
theorem compare_of_size [LawfulOrder R] (h : expected.size = found.size) (tolerance : R)
    (shape : Option (List ℤ)) :
    ∃ result, compare expected found tolerance shape = .ok result ∧
      (result.passed = false ↔ ∃ i < expected.size,
        Deviates tolerance (expected.getD i Sample.zero) (found.getD i Sample.zero)) := by
  rw [compare, compare?, if_pos h]
  refine ⟨_, rfl, ?_⟩
  rw [Comparison.passed, beq_eq_false_iff_ne, countP_ne_zero_iff h]
  simp only [errorAt, elementError_eq_false]

end Verdict

end FourierAudit
