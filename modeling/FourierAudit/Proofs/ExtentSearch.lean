/-
The search for a legal extent.

Extents are tried one after the other from a minimum up, until one is legal or the ceiling is
passed. With a test that always answers this finds the least legal extent there is:

* `Legality.extents` — the legal extents between a minimum and a ceiling;
* `firstLegal_eq_some_iff`, `firstLegal_eq_none_iff` — what a search has passed over when it ends;
* `leastLegalExtent_eq_ok_iff`, `leastLegalExtent_eq_error_iff` — the least legal extent, or none;
* `leastLegalExtent_isLeast` — the same together, and how the result depends on the minimum and on
  the ceiling.
-/
import Mathlib
import FourierAudit.LegalExtent

namespace FourierAudit

variable {R : Type} [Scalar R]

namespace Legality

/-- Whether a test of extents answers for every integer. -/
def Total (legal : Legality R) : Prop := ∀ n, ∃ answer, legal n = .ok answer

/-- The legal extents from a minimum, which counts as one if it is less, up to a ceiling. -/
def extents (legal : Legality R) (minimum ceiling : ℤ) : Set ℤ :=
  {n | max minimum 1 ≤ n ∧ n ≤ ceiling ∧ legal n = .ok true}

end Legality

/-! ### The search from its start -/

section Search

variable {legal : Legality R} {ceiling n m : ℤ}

/-- A search ends at the first legal extent: everything from its start up to there is not legal. -/
theorem firstLegal_eq_some_iff :
    firstLegal legal ceiling n = .ok (some m) ↔
      n ≤ m ∧ m ≤ ceiling ∧ legal m = .ok true ∧ ∀ k, n ≤ k → k < m → legal k = .ok false := by
  fun_induction firstLegal legal ceiling n with
  | case1 n hle e he =>
    -- the test of the start fails, so the start is neither legal nor passed over
    simp only [reduceCtorEq, false_iff]
    rintro ⟨hnm, -, hm, hbefore⟩
    by_cases hn : n = m
    · simp [← hn, he] at hm
    · have hnot := hbefore n le_rfl (by omega)
      simp [he] at hnot
  | case2 n hle hn =>
    simp only [Except.ok.injEq, Option.some.injEq]
    constructor
    · rintro rfl
      exact ⟨le_rfl, hle, hn, fun k hk hlt => by omega⟩
    · rintro ⟨hnm, -, -, hbefore⟩
      by_contra hne
      have hnot := hbefore n le_rfl (by omega)
      simp [hn] at hnot
  | case3 n hle hn ih =>
    -- one more extent has been passed over
    rw [ih]
    constructor
    · rintro ⟨hnm, hm, hlegal, hbefore⟩
      refine ⟨by omega, hm, hlegal, ?_⟩
      intro k hk hlt
      by_cases hkn : k = n
      · rw [hkn, hn]
      · exact hbefore k (by omega) hlt
    · rintro ⟨hnm, hm, hlegal, hbefore⟩
      have hne : n ≠ m := by
        rintro rfl
        simp [hn] at hlegal
      exact ⟨by omega, hm, hlegal, fun k hk hlt => hbefore k (by omega) hlt⟩
  | case4 n hgt =>
    simp only [Except.ok.injEq, reduceCtorEq, false_iff]
    rintro ⟨hnm, hm, -⟩
    omega

/-- A search finds nothing if everything from its start up to the ceiling is not legal. -/
theorem firstLegal_eq_none_iff :
    firstLegal legal ceiling n = .ok none ↔ ∀ k, n ≤ k → k ≤ ceiling → legal k = .ok false := by
  fun_induction firstLegal legal ceiling n with
  | case1 n hle e he =>
    simp only [reduceCtorEq, false_iff]
    intro h
    have hn := h n le_rfl hle
    simp [he] at hn
  | case2 n hle hn =>
    simp only [Except.ok.injEq, reduceCtorEq, false_iff]
    intro h
    have hnot := h n le_rfl hle
    simp [hn] at hnot
  | case3 n hle hn ih =>
    rw [ih]
    constructor
    · intro h k hk hceiling
      by_cases hkn : k = n
      · rw [hkn, hn]
      · exact h k (by omega) hceiling
    · intro h k hk hceiling
      exact h k (by omega) hceiling
  | case4 n hgt =>
    simp only [true_iff]
    intro k hk hceiling
    omega

/-- With a test that always answers a search comes to an end. -/
theorem exists_firstLegal (htotal : legal.Total) (ceiling n : ℤ) :
    ∃ found, firstLegal legal ceiling n = .ok found := by
  fun_induction firstLegal legal ceiling n with
  | case1 n hle e he =>
    obtain ⟨answer, hanswer⟩ := htotal n
    simp [he] at hanswer
  | case2 n => exact ⟨some n, rfl⟩
  | case3 n hle hn ih => exact ih
  | case4 => exact ⟨none, rfl⟩

end Search

/-! ### The least legal extent -/

section Least

variable {legal : Legality R} {minimum ceiling n : ℤ}

theorem leastLegalExtent_of_some (h : firstLegal legal ceiling (max minimum 1) = .ok (some n)) :
    leastLegalExtent legal ceiling (.whole minimum) = .ok n := by
  simp only [leastLegalExtent, Quantity.integer, Quantity.integer?, bind, Except.bind, h]
  rfl

theorem leastLegalExtent_of_none (h : firstLegal legal ceiling (max minimum 1) = .ok none) :
    leastLegalExtent legal ceiling (.whole minimum)
      = .error (.misconfigured (.noLegalExtent (.whole minimum) ceiling)) := by
  simp only [leastLegalExtent, Quantity.integer, Quantity.integer?, bind, Except.bind, h]
  rfl

variable (htotal : legal.Total)

include htotal in
theorem firstLegal_eq_some_iff_isLeast :
    firstLegal legal ceiling (max minimum 1) = .ok (some n) ↔
      IsLeast (legal.extents minimum ceiling) n := by
  rw [firstLegal_eq_some_iff]
  constructor
  · rintro ⟨hmin, hceiling, hlegal, hbefore⟩
    refine ⟨⟨hmin, hceiling, hlegal⟩, ?_⟩
    rintro k ⟨hk, -, hklegal⟩
    by_contra hlt
    have hnot := hbefore k hk (not_le.mp hlt)
    simp [hklegal] at hnot
  · rintro ⟨⟨hmin, hceiling, hlegal⟩, hleast⟩
    refine ⟨hmin, hceiling, hlegal, ?_⟩
    intro k hk hlt
    obtain ⟨answer, hanswer⟩ := htotal k
    by_cases h : answer = true
    · -- a legal extent before the least one would be in range as well
      have hle := hleast ⟨hk, by omega, h ▸ hanswer⟩
      omega
    · rw [hanswer, Bool.eq_false_of_not_eq_true h]

include htotal in
theorem firstLegal_eq_none_iff_empty :
    firstLegal legal ceiling (max minimum 1) = .ok none ↔
      legal.extents minimum ceiling = ∅ := by
  rw [firstLegal_eq_none_iff, Set.eq_empty_iff_forall_notMem]
  constructor
  · rintro h k ⟨hk, hceiling, hlegal⟩
    have hnot := h k hk hceiling
    simp [hlegal] at hnot
  · intro h k hk hceiling
    obtain ⟨answer, hanswer⟩ := htotal k
    have hnot : answer ≠ true := fun htrue => h k ⟨hk, hceiling, htrue ▸ hanswer⟩
    rw [hanswer, Bool.eq_false_of_not_eq_true hnot]

include htotal in
theorem leastLegalExtent_eq_ok_iff :
    leastLegalExtent legal ceiling (.whole minimum) = .ok n ↔
      IsLeast (legal.extents minimum ceiling) n := by
  rw [← firstLegal_eq_some_iff_isLeast htotal]
  obtain ⟨found, hfound⟩ := exists_firstLegal htotal ceiling (max minimum 1)
  cases found with
  | none => simp [hfound, leastLegalExtent_of_none hfound]
  | some m => simp [hfound, leastLegalExtent_of_some hfound]

include htotal in
theorem leastLegalExtent_eq_error_iff {e : Failure R} :
    leastLegalExtent legal ceiling (.whole minimum) = .error e ↔
      legal.extents minimum ceiling = ∅ ∧
        e = .misconfigured (.noLegalExtent (.whole minimum) ceiling) := by
  rw [← firstLegal_eq_none_iff_empty htotal]
  obtain ⟨found, hfound⟩ := exists_firstLegal htotal ceiling (max minimum 1)
  cases found with
  | none => simp [hfound, leastLegalExtent_of_none hfound, eq_comm]
  | some m => simp [hfound, leastLegalExtent_of_some hfound]

end Least

/-! ### Other minima and ceilings -/

namespace Legality

variable {legal : Legality R} {minimum minimum' ceiling ceiling' n : ℤ}

/-- If there are legal extents in range, there is a least one. -/
theorem exists_isLeast (h : (legal.extents minimum ceiling).Nonempty) :
    ∃ n, IsLeast (legal.extents minimum ceiling) n := by
  have hbounded : ∃ b, ∀ k, k ∈ legal.extents minimum ceiling → b ≤ k :=
    ⟨max minimum 1, fun k hk => hk.1⟩
  obtain ⟨n, hn, hleast⟩ := Int.exists_least_of_bdd hbounded h
  exact ⟨n, hn, hleast⟩

/-- A legal extent is the least one from itself on. -/
theorem isLeast_self (h : n ∈ legal.extents minimum ceiling) :
    IsLeast (legal.extents n ceiling) n := by
  obtain ⟨hmin, hceiling, hlegal⟩ := h
  refine ⟨⟨by omega, hceiling, hlegal⟩, ?_⟩
  rintro k ⟨hk, -⟩
  omega

/-- A least legal extent stays the least one under a higher ceiling. -/
theorem isLeast_of_ceiling_le (h : IsLeast (legal.extents minimum ceiling) n)
    (hle : ceiling ≤ ceiling') : IsLeast (legal.extents minimum ceiling') n := by
  obtain ⟨⟨hmin, hceiling, hlegal⟩, hleast⟩ := h
  refine ⟨⟨hmin, by omega, hlegal⟩, ?_⟩
  rintro k ⟨hk, -, hklegal⟩
  by_contra hlt
  have hkn := hleast ⟨hk, by omega, hklegal⟩
  omega

/-- What is legal from a minimum on is in range from a lower one as well. -/
theorem exists_isLeast_of_le (h : n ∈ legal.extents minimum' ceiling) (hle : minimum ≤ minimum') :
    ∃ k ≤ n, IsLeast (legal.extents minimum ceiling) k := by
  obtain ⟨hmin, hceiling, hlegal⟩ := h
  have hmem : n ∈ legal.extents minimum ceiling := ⟨by omega, hceiling, hlegal⟩
  obtain ⟨k, hk⟩ := exists_isLeast ⟨n, hmem⟩
  exact ⟨k, hk.2 hmem, hk⟩

end Legality

/-- **The search returns the least legal extent.** With a test that answers for every integer, the
search from any minimum under any ceiling succeeds with the least legal extent in range, and fails,
with the minimum and the ceiling in its message, if and only if there is none. From a lower minimum
it succeeds as well, with a result that is not larger; from its own result it ends there; and a
higher ceiling does not change what it finds. -/
theorem leastLegalExtent_isLeast {legal : Legality R} (htotal : legal.Total)
    (minimum ceiling : ℤ) :
    (∀ n, leastLegalExtent legal ceiling (.whole minimum) = .ok n ↔
        IsLeast {k | max minimum 1 ≤ k ∧ k ≤ ceiling ∧ legal k = .ok true} n) ∧
      (∀ e, leastLegalExtent legal ceiling (.whole minimum) = .error e ↔
        (¬∃ k, max minimum 1 ≤ k ∧ k ≤ ceiling ∧ legal k = .ok true) ∧
          e = .misconfigured (.noLegalExtent (.whole minimum) ceiling)) ∧
      (∀ minimum' n', minimum ≤ minimum' →
        leastLegalExtent legal ceiling (.whole minimum') = .ok n' →
          ∃ n ≤ n', leastLegalExtent legal ceiling (.whole minimum) = .ok n) ∧
      (∀ n, leastLegalExtent legal ceiling (.whole minimum) = .ok n →
        leastLegalExtent legal ceiling (.whole n) = .ok n) ∧
      (∀ n ceiling', ceiling ≤ ceiling' →
        leastLegalExtent legal ceiling (.whole minimum) = .ok n →
          leastLegalExtent legal ceiling' (.whole minimum) = .ok n) := by
  simp only [leastLegalExtent_eq_ok_iff htotal, leastLegalExtent_eq_error_iff htotal]
  refine ⟨fun n => Iff.rfl, fun e => ?_, ?_, ?_, ?_⟩
  · rw [Set.eq_empty_iff_forall_notMem, not_exists]
    rfl
  · intro minimum' n' hle h
    exact Legality.exists_isLeast_of_le h.1 hle
  · intro n h
    exact Legality.isLeast_self h.1
  · intro n ceiling' hle h
    exact Legality.isLeast_of_ceiling_le h hle

/-- The test for multiples of seven. -/
def sevens : Legality Float := fun n => .ok (n % 7 == 0)

/-- A search below one starts at one, and above the last multiple in range nothing is found. -/
theorem leastLegalExtent_sevens :
    sevens.Total ∧ leastLegalExtent sevens 20 (.whole (-3)) = .ok 7 ∧
      leastLegalExtent sevens 20 (.whole 15)
        = .error (.misconfigured (.noLegalExtent (.whole 15) 20)) := by
  have htotal : sevens.Total := fun n => ⟨_, rfl⟩
  have hlegal (k : ℤ) : sevens k = .ok true ↔ k % 7 = 0 := by
    simp [sevens]
  refine ⟨htotal, ((leastLegalExtent_isLeast htotal (-3) 20).1 7).mpr ?_,
    ((leastLegalExtent_isLeast htotal 15 20).2.1 _).mpr ⟨?_, rfl⟩⟩
  · refine ⟨⟨by omega, by omega, (hlegal 7).mpr (by omega)⟩, ?_⟩
    rintro k ⟨hk, -, hseven⟩
    rw [hlegal] at hseven
    omega
  · rintro ⟨k, hk, hceiling, hseven⟩
    rw [hlegal] at hseven
    omega

end FourierAudit
