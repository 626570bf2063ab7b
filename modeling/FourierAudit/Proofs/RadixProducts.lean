/-
Extents that are products of radices.

An engine takes the extents that its radices divide down to one. The radices are divided out in
increasing order, each as often as it divides, so that at any time the least radix that divides is
taken out. An extent can be a product of the radices and still not come down to one in this way:

* `IsProductOf` — the products of radices, each used any number of times;
* `DividesDown` — the numbers that come down to one if the least radix that divides is taken out
  again and again;
* `exists_isSmooth` — the test of an extent answers, and this is what it finds;
* `forall_dividesDown_iff` — when this is the same as being a product of the radices;
* `smoothLegality_products` — these together, and `smoothLegality_four_six`, where they differ.

Design notes: taking out a radix is the right thing to do if the rest of a product is a product
again. This is so if every radix has a prime factor that no larger radix has, such as when all
radices are prime; it is not so for four and six, since six times six has the factor four.
-/
import Mathlib
import FourierAudit.LegalExtent
import FourierAudit.Proofs.ExtentSearch

namespace FourierAudit

variable {R : Type} [Scalar R]

/-! ### Products of radices -/

/-- Whether a number is a product of radices, each of them used any number of times. -/
def IsProductOf (radices : List ℤ) (n : ℤ) : Prop :=
  ∃ factors : List ℤ, (∀ f ∈ factors, f ∈ radices) ∧ factors.prod = n

/-- The numbers that come down to one if the least radix that divides is taken out again and
again. -/
inductive DividesDown (radices : List ℤ) : ℤ → Prop where
  | one : DividesDown radices 1
  | step {radix rest : ℤ} (mem : radix ∈ radices)
      (least : ∀ r ∈ radices, r ∣ radix * rest → radix ≤ r) (down : DividesDown radices rest) :
      DividesDown radices (radix * rest)

/-- Taking the least radix that divides out of a product of radices leaves such a product. -/
def LeavesProducts (radices : List ℤ) : Prop :=
  ∀ radix ∈ radices, ∀ rest, IsProductOf radices (radix * rest) →
    (∀ r ∈ radices, r ∣ radix * rest → radix ≤ r) → IsProductOf radices rest

/-- Every radix has a prime factor that divides no larger one. -/
def HasOwnPrimes (radices : List ℤ) : Prop :=
  ∀ radix ∈ radices, ∃ p, Prime p ∧ p ∣ radix ∧ ∀ r ∈ radices, radix < r → ¬p ∣ r

section Products

variable {radices : List ℤ} {radix rest n : ℤ}

theorem isProductOf_one (radices : List ℤ) : IsProductOf radices 1 :=
  ⟨[], by simp, rfl⟩

theorem IsProductOf.mul (hmem : radix ∈ radices) (h : IsProductOf radices rest) :
    IsProductOf radices (radix * rest) := by
  obtain ⟨factors, hfactors, rfl⟩ := h
  refine ⟨radix :: factors, ?_, List.prod_cons⟩
  intro f hf
  rcases List.mem_cons.mp hf with rfl | hf
  · exact hmem
  · exact hfactors f hf

theorem DividesDown.isProductOf (h : DividesDown radices n) : IsProductOf radices n := by
  induction h with
  | one => exact isProductOf_one radices
  | step mem _ _ ih => exact ih.mul mem

variable (hradices : ∀ r ∈ radices, 2 ≤ r)

include hradices

theorem IsProductOf.one_le (h : IsProductOf radices n) : 1 ≤ n := by
  obtain ⟨factors, hfactors, rfl⟩ := h
  induction factors with
  | nil => simp
  | cons f fs ih =>
    have hf := hradices f (hfactors f List.mem_cons_self)
    have hfs := ih fun g hg => hfactors g (List.mem_cons_of_mem f hg)
    rw [List.prod_cons]
    nlinarith

/-- The least radix that divides can be taken out. -/
theorem dividesDown_mul_iff (hmem : radix ∈ radices)
    (hleast : ∀ r ∈ radices, r ∣ radix * rest → radix ≤ r) :
    DividesDown radices (radix * rest) ↔ DividesDown radices rest := by
  constructor
  · intro h
    have htwo := hradices radix hmem
    generalize hn : radix * rest = n at h
    cases h with
    | one =>
      have := Int.eq_one_or_neg_one_of_mul_eq_one hn
      omega
    | @step radix' rest' mem least down =>
      -- there is only one least radix that divides
      have hle : radix ≤ radix' := hleast radix' mem (hn ▸ dvd_mul_right _ _)
      have hge : radix' ≤ radix := least radix hmem (hn ▸ dvd_mul_right _ _)
      obtain rfl : radix = radix' := le_antisymm hle hge
      rwa [mul_left_cancel₀ (by omega) hn]
  · intro h
    exact .step hmem hleast h

theorem dividesDown_pow_mul_iff (hmem : radix ∈ radices) (k : ℕ)
    (hleast : ∀ r ∈ radices, r ∣ radix ^ k * rest → radix ≤ r) :
    DividesDown radices (radix ^ k * rest) ↔ DividesDown radices rest := by
  induction k with
  | zero => rw [pow_zero, one_mul]
  | succ k ih =>
    have hpow : radix ^ (k + 1) * rest = radix * (radix ^ k * rest) := by ring
    rw [hpow] at hleast ⊢
    rw [dividesDown_mul_iff hradices hmem hleast]
    exact ih fun r hr hdvd => hleast r hr (hdvd.mul_left radix)

/-- A product of radices other than one is divided by a radix, so by a least one. -/
theorem IsProductOf.exists_least (h : IsProductOf radices n) (hn : n ≠ 1) :
    ∃ radix ∈ radices, ∃ rest, n = radix * rest ∧ ∀ r ∈ radices, r ∣ n → radix ≤ r := by
  obtain ⟨factors, hfactors, rfl⟩ := h
  have hdivided : ∃ r, r ∈ radices ∧ r ∣ factors.prod := by
    cases factors with
    | nil => exact absurd rfl hn
    | cons f fs => exact ⟨f, hfactors f List.mem_cons_self, by simp⟩
  have hbounded : ∃ b, ∀ r, r ∈ radices ∧ r ∣ factors.prod → b ≤ r :=
    ⟨2, fun r hr => hradices r hr.1⟩
  obtain ⟨radix, ⟨hmem, rest, hrest⟩, hleast⟩ := Int.exists_least_of_bdd hbounded hdivided
  exact ⟨radix, hmem, rest, hrest, fun r hr hdvd => hleast r ⟨hr, hdvd⟩⟩

/-- All products of radices divide down to one if and only if taking out the least radix that
divides leaves a product every time. -/
theorem forall_dividesDown_iff :
    (∀ n, IsProductOf radices n → DividesDown radices n) ↔ LeavesProducts radices := by
  constructor
  · intro h radix hmem rest hproduct hleast
    have hdown := h _ hproduct
    rw [dividesDown_mul_iff hradices hmem hleast] at hdown
    exact hdown.isProductOf
  · intro h n hproduct
    -- strong induction: the rest after taking out a radix is smaller
    induction hsize : n.toNat using Nat.strong_induction_on generalizing n with
    | _ size ih =>
      by_cases hone : n = 1
      · rw [hone]
        exact .one
      · obtain ⟨radix, hmem, rest, rfl, hleast⟩ := hproduct.exists_least hradices hone
        have hrest := h radix hmem rest hproduct hleast
        have hpos := hrest.one_le hradices
        have htwo := hradices radix hmem
        have hlt : rest.toNat < size := by
          rw [← hsize]
          have : rest < radix * rest := by nlinarith
          omega
        exact .step hmem hleast (ih _ hlt rest hrest rfl)

omit hradices in
/-- With primes of their own the radices leave products. -/
theorem HasOwnPrimes.leavesProducts (hne : 0 ∉ radices) (h : HasOwnPrimes radices) :
    LeavesProducts radices := by
  rintro radix hmem rest ⟨factors, hfactors, hprod⟩ hleast
  obtain ⟨p, hp, hpradix, hpown⟩ := h radix hmem
  -- the factors divide the product, so none is less than `radix`, and `p` divides one of them
  have hdvd : p ∣ factors.prod := hprod ▸ hpradix.mul_right rest
  obtain ⟨f, hf, hpf⟩ := hp.dvd_prod_iff.mp hdvd
  have hle : radix ≤ f := hleast f (hfactors f hf) (hprod ▸ List.dvd_prod hf)
  obtain rfl : radix = f := by
    by_contra hne
    exact hpown f (hfactors f hf) (by omega) hpf
  refine ⟨factors.erase radix, fun g hg => hfactors g (List.mem_of_mem_erase hg), ?_⟩
  apply mul_left_cancel₀ (ne_of_mem_of_not_mem hmem hne)
  rw [List.prod_erase hf, hprod]

end Products

/-! ### Dividing out -/

section DividingOut

variable {radices divisors : List ℤ} {radix n : ℤ}

/-- A radix is divided out until it does not divide what is left. -/
theorem exists_divideOut (hradix : 2 ≤ radix) (hn : 1 ≤ n) :
    ∃ (k : ℕ) (rest : ℤ), (divideOut radix n : Except (Failure R) ℤ) = .ok rest ∧
      n = radix ^ k * rest ∧ 1 ≤ rest ∧ ¬radix ∣ rest := by
  fun_induction divideOut (R := R) radix n with
  | case1 n hone =>
    refine ⟨0, n, rfl, by simp, hn, ?_⟩
    intro hdvd
    have := Int.le_of_dvd (by omega) hdvd
    omega
  | case2 => omega
  | case3 n _ _ hrem =>
    exact ⟨0, n, rfl, by simp, hn, fun hdvd => hrem (Int.emod_eq_zero_of_dvd hdvd)⟩
  | case4 n hlarge hzero hrem hone ih =>
    have hmul : radix * (n / radix) = n :=
      Int.mul_ediv_cancel' (Int.dvd_of_emod_eq_zero (not_not.mp hrem))
    have hquotient : 1 ≤ n / radix := by
      by_contra hlt
      nlinarith
    obtain ⟨k, rest, hrest, hpow, hpos, hnot⟩ := ih hquotient
    refine ⟨k + 1, rest, hrest, ?_, hpos, hnot⟩
    rw [pow_succ', mul_assoc, ← hpow, hmul]
  | case5 => omega

/-- Dividing out the radices that are still to come, in increasing order, if the others do not
divide. -/
theorem exists_foldlM_divideOut (hradices : ∀ r ∈ radices, 2 ≤ r)
    (hsorted : divisors.Pairwise (· ≤ ·)) (hmem : ∀ r ∈ divisors, r ∈ radices)
    (hdone : ∀ r ∈ radices, r ∣ n → r ∈ divisors) (hn : 1 ≤ n) :
    ∃ rest, divisors.foldlM (fun rest radix => divideOut radix rest) n
        = (.ok rest : Except (Failure R) ℤ) ∧
      (rest = 1 ↔ DividesDown radices n) := by
  induction divisors generalizing n with
  | nil =>
    refine ⟨n, rfl, ?_⟩
    constructor
    · rintro rfl
      exact .one
    · -- nothing divides any more
      rintro (_ | ⟨hradix, -, -⟩)
      · rfl
      · exact absurd (hdone _ hradix (dvd_mul_right _ _)) List.not_mem_nil
  | cons radix divisors ih =>
    rw [List.pairwise_cons] at hsorted
    have hradix := hmem radix List.mem_cons_self
    obtain ⟨k, rest, hrest, rfl, hpos, hnot⟩ := exists_divideOut (R := R) (hradices _ hradix) hn
    have hleast : ∀ r ∈ radices, r ∣ radix ^ k * rest → radix ≤ r := by
      intro r hr hdvd
      rcases List.mem_cons.mp (hdone r hr hdvd) with rfl | hlater
      · exact le_rfl
      · exact hsorted.1 r hlater
    have hrestdone : ∀ r ∈ radices, r ∣ rest → r ∈ divisors := by
      intro r hr hdvd
      rcases List.mem_cons.mp (hdone r hr (hdvd.mul_left _)) with rfl | hlater
      · exact absurd hdvd hnot
      · exact hlater
    obtain ⟨last, hlast, hone⟩ := ih hsorted.2
      (fun r hr => hmem r (List.mem_cons_of_mem radix hr)) hrestdone hpos
    refine ⟨last, ?_, hone.trans (dividesDown_pow_mul_iff hradices hradix k hleast).symm⟩
    rw [List.foldlM_cons, hrest]
    exact hlast

theorem mem_sortedRadices {r : ℤ} : r ∈ sortedRadices radices ↔ r ∈ radices := by
  rw [sortedRadices, List.mem_mergeSort]

/-- The test of an extent answers, and finds the extents that divide down to one. The order of the
radices and repetitions among them do not matter. -/
theorem exists_isSmooth (hradices : ∀ r ∈ radices, 2 ≤ r)
    (hmem : ∀ r, r ∈ divisors ↔ r ∈ radices) (n : ℤ) :
    ∃ answer, (isSmooth (some divisors) n : Except (Failure R) Bool) = .ok answer ∧
      (answer = true ↔ DividesDown radices n) := by
  by_cases hn : 1 ≤ n
  · have hsame : ∀ r, r ∈ sortedRadices divisors ↔ r ∈ radices := fun r =>
      mem_sortedRadices.trans (hmem r)
    have hsorted : (sortedRadices divisors).Pairwise (· ≤ ·) := by
      simpa [sortedRadices] using List.pairwise_mergeSort' (· ≤ ·) divisors
    obtain ⟨rest, hrest, hone⟩ := exists_foldlM_divideOut (R := R) hradices hsorted
      (fun r hr => (hsame r).mp hr) (fun r hr _ => (hsame r).mpr hr) hn
    refine ⟨rest == 1, ?_, by rw [beq_iff_eq, hone]⟩
    simp only [isSmooth, if_neg (not_lt.mpr hn), hrest]
    rfl
  · refine ⟨false, by rw [isSmooth, if_pos (not_le.mp hn)], ?_⟩
    constructor
    · exact nofun
    · intro h
      exact absurd (h.isProductOf.one_le hradices) hn

theorem isSmooth_total (hradices : ∀ r ∈ radices, 2 ≤ r) (hmem : ∀ r, r ∈ divisors ↔ r ∈ radices) :
    (isSmooth (some divisors) : Legality R).Total := by
  intro n
  obtain ⟨answer, hanswer, -⟩ := exists_isSmooth (R := R) hradices hmem n
  exact ⟨answer, hanswer⟩

theorem isSmooth_iff_dividesDown (hradices : ∀ r ∈ radices, 2 ≤ r)
    (hmem : ∀ r, r ∈ divisors ↔ r ∈ radices) (n : ℤ) :
    (isSmooth (some divisors) n : Except (Failure R) Bool) = .ok true ↔ DividesDown radices n := by
  obtain ⟨answer, hanswer, hdown⟩ := exists_isSmooth (R := R) hradices hmem n
  rw [hanswer, Except.ok.injEq, hdown]

/-- The test depends on the set of the radices only. -/
theorem isSmooth_congr (hradices : ∀ r ∈ radices, 2 ≤ r)
    (hmem : ∀ r, r ∈ divisors ↔ r ∈ radices) :
    (isSmooth (some divisors) : Legality R) = isSmooth (some radices) := by
  funext n
  obtain ⟨answer, hanswer, hdown⟩ := exists_isSmooth (R := R) hradices hmem n
  obtain ⟨answer', hanswer', hdown'⟩ := exists_isSmooth (R := R) hradices (fun _ => Iff.rfl) n
  rw [hanswer, hanswer', Bool.eq_iff_iff.mpr (hdown.trans hdown'.symm)]

end DividingOut

/-! ### The test for given radices -/

/-- Radices are accepted if each of them is at least two; the test then uses them in order. -/
theorem smoothLegality_eq_ok_iff {radices : List ℤ} {legal : Legality R} :
    smoothLegality (some radices) = .ok legal ↔
      (∀ r ∈ radices, 2 ≤ r) ∧ legal = isSmooth (some (sortedRadices radices)) := by
  have hany : (sortedRadices radices).any (· < 2) = true ↔ ¬∀ r ∈ radices, 2 ≤ r := by
    simp [sortedRadices, List.mem_mergeSort]
  simp only [smoothLegality]
  by_cases h : ∀ r ∈ radices, 2 ≤ r
  · rw [if_neg (by rw [hany]; exact not_not.mpr h), Except.ok.injEq]
    exact ⟨fun heq => ⟨h, heq.symm⟩, fun heq => heq.2.symm⟩
  · rw [if_pos (hany.mpr h)]
    constructor
    · exact nofun
    · rintro ⟨hradices, -⟩
      exact absurd hradices h

/-- **The test for given radices.** The test that accepted radices make answers for every integer.
It finds the numbers that come down to one if the least radix that divides is taken out again and
again. These are positive products of the radices, and all of these if and only if taking out the
least radix that divides leaves a product every time; this is so if every radix has a prime factor
that divides no larger one. -/
theorem smoothLegality_products {radices : List ℤ} {legal : Legality R}
    (h : smoothLegality (some radices) = .ok legal) :
    legal.Total ∧
      (∀ n, legal n = .ok true ↔ DividesDown radices n) ∧
      (∀ n, legal n = .ok true → 1 ≤ n ∧ IsProductOf radices n) ∧
      ((∀ n, legal n = .ok true ↔ 1 ≤ n ∧ IsProductOf radices n) ↔ LeavesProducts radices) ∧
      (HasOwnPrimes radices → ∀ n, legal n = .ok true ↔ 1 ≤ n ∧ IsProductOf radices n) := by
  obtain ⟨hradices, rfl⟩ := smoothLegality_eq_ok_iff.mp h
  have hmem : ∀ r, r ∈ sortedRadices radices ↔ r ∈ radices := by
    intro r
    rw [sortedRadices, List.mem_mergeSort]
  have htest (n : ℤ) : (isSmooth (some (sortedRadices radices)) n : Except (Failure R) Bool)
      = .ok true ↔ DividesDown radices n := by
    obtain ⟨answer, hanswer, hdown⟩ := exists_isSmooth (R := R) hradices hmem n
    rw [hanswer, Except.ok.injEq, hdown]
  have hproduct (n : ℤ) (hn : DividesDown radices n) : 1 ≤ n ∧ IsProductOf radices n :=
    ⟨hn.isProductOf.one_le hradices, hn.isProductOf⟩
  have hexact : (∀ n, DividesDown radices n ↔ 1 ≤ n ∧ IsProductOf radices n) ↔
      LeavesProducts radices := by
    rw [← forall_dividesDown_iff hradices]
    constructor
    · intro hall n hn
      exact (hall n).mpr ⟨hn.one_le hradices, hn⟩
    · intro hall n
      exact ⟨hproduct n, fun hn => hall n hn.2⟩
  simp only [← htest] at hproduct hexact
  refine ⟨fun n => ?_, htest, hproduct, hexact, fun hown => hexact.mpr ?_⟩
  · obtain ⟨answer, hanswer, -⟩ := exists_isSmooth (R := R) hradices hmem n
    exact ⟨answer, hanswer⟩
  · refine hown.leavesProducts ?_
    intro hzero
    have := hradices 0 hzero
    omega

/-- Six and ten share a factor, but each has a prime of its own. -/
theorem smoothLegality_products_six_ten :
    ∃ legal : Legality Float, smoothLegality (some [10, 6]) = .ok legal ∧
      HasOwnPrimes [10, 6] ∧ legal 3600 = .ok true := by
  have hradices : ∀ r ∈ ([10, 6] : List ℤ), 2 ≤ r := by decide
  have hlegal := (smoothLegality_eq_ok_iff (R := Float)).mpr ⟨hradices, rfl⟩
  have hown : HasOwnPrimes [10, 6] := by
    intro radix hradix
    rcases List.mem_pair.mp hradix with rfl | rfl
    · exact ⟨5, by norm_num, by decide, by decide⟩
    · exact ⟨3, by norm_num, by decide, by decide⟩
  have hproduct : IsProductOf [10, 6] 3600 := ⟨[6, 10, 6, 10], by decide, by decide⟩
  obtain ⟨-, -, -, -, hall⟩ := smoothLegality_products hlegal
  exact ⟨_, hlegal, hown, (hall hown 3600).mpr ⟨by decide, hproduct⟩⟩

/-- Six times six is refused by the radices four and six: four is taken out first, and nine is
left. -/
theorem smoothLegality_four_six :
    ∃ legal : Legality Float, smoothLegality (some [4, 6]) = .ok legal ∧
      legal 36 = .ok false ∧ IsProductOf [4, 6] 36 := by
  have hradices : ∀ r ∈ ([4, 6] : List ℤ), 2 ≤ r := by decide
  have hsorted : sortedRadices [4, 6] = [4, 6] := List.mergeSort_of_pairwise (by decide)
  have hfour : divideOut 4 36 = (.ok 9 : Except (Failure Float) ℤ) := by
    simp [divideOut]
  have hsix : divideOut 6 9 = (.ok 9 : Except (Failure Float) ℤ) := by
    simp [divideOut]
  refine ⟨_, smoothLegality_eq_ok_iff.mpr ⟨hradices, rfl⟩, ?_, ⟨[6, 6], by decide, by decide⟩⟩
  simp only [isSmooth, hsorted, List.foldlM_cons, List.foldlM_nil, hfour, hsix, bind, Except.bind]
  rfl

end FourierAudit
