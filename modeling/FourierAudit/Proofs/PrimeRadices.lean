/-
Prime radices.

If all radices are prime, taking the radices out of an extent one after the other is taking out its
prime factors. Whether anything is left is then a question of prime factors alone:

* `isProductOf_iff_of_primes` — the products of primes are the numbers with no other prime factor;
* `isSmooth_primes` — the test of an extent with prime radices, in whatever order they are given
  and however often.
-/
import FourierAudit.Proofs.RadixProducts

namespace FourierAudit

variable {R : Type} [Scalar R]

section Primes

variable {primes : List ℕ}

/-- A number with no prime factors but those of a list. -/
def OnlyPrimeFactors (primes : List ℕ) (n : ℤ) : Prop :=
  ∀ p : ℕ, p.Prime → (p : ℤ) ∣ n → p ∈ primes

theorem onlyPrimeFactors_mul_iff {a b : ℤ} :
    OnlyPrimeFactors primes (a * b) ↔ OnlyPrimeFactors primes a ∧ OnlyPrimeFactors primes b := by
  constructor
  · intro h
    exact ⟨fun p hp hdvd => h p hp (hdvd.mul_right b), fun p hp hdvd => h p hp (hdvd.mul_left a)⟩
  · rintro ⟨ha, hb⟩ p hp hdvd
    rcases (Nat.prime_iff_prime_int.mp hp).dvd_or_dvd hdvd with hdvd | hdvd
    · exact ha p hp hdvd
    · exact hb p hp hdvd

variable (hprimes : ∀ p ∈ primes, p.Prime)

include hprimes

theorem two_le_of_primes : ∀ r ∈ primes.map fun (p : ℕ) => (p : ℤ), 2 ≤ r := by
  simp only [List.forall_mem_map]
  intro p hp
  exact_mod_cast (hprimes p hp).two_le

/-- A prime radix is a prime factor of its own, and of no other prime. -/
theorem hasOwnPrimes_of_primes : HasOwnPrimes (primes.map fun (p : ℕ) => (p : ℤ)) := by
  simp only [HasOwnPrimes, List.forall_mem_map]
  intro p hp
  refine ⟨p, Nat.prime_iff_prime_int.mp (hprimes p hp), dvd_rfl, ?_⟩
  intro q hq hlt hdvd
  have heq := (Nat.prime_dvd_prime_iff_eq (hprimes p hp) (hprimes q hq)).mp
    (Int.natCast_dvd_natCast.mp hdvd)
  omega

/-- The products of primes are the positive numbers with no other prime factor. -/
theorem isProductOf_iff_of_primes {n : ℤ} :
    IsProductOf (primes.map fun (p : ℕ) => (p : ℤ)) n ↔ 1 ≤ n ∧ OnlyPrimeFactors primes n := by
  constructor
  · intro h
    refine ⟨h.one_le (two_le_of_primes hprimes), ?_⟩
    obtain ⟨factors, hfactors, rfl⟩ := h
    intro p hp hdvd
    -- a prime that divides a product divides one of the factors, which is a prime itself
    obtain ⟨f, hf, hpf⟩ := (Nat.prime_iff_prime_int.mp hp).dvd_prod_iff.mp hdvd
    obtain ⟨q, hq, rfl⟩ := List.mem_map.mp (hfactors f hf)
    have heq := (Nat.prime_dvd_prime_iff_eq hp (hprimes q hq)).mp (Int.natCast_dvd_natCast.mp hpf)
    exact heq ▸ hq
  · rintro ⟨hpos, honly⟩
    lift n to ℕ using by omega
    refine ⟨n.primeFactorsList.map fun (p : ℕ) => (p : ℤ), ?_, ?_⟩
    · simp only [List.forall_mem_map]
      intro p hp
      have hdvd : (p : ℤ) ∣ n := Int.natCast_dvd_natCast.mpr (Nat.dvd_of_mem_primeFactorsList hp)
      exact List.mem_map_of_mem (honly p (Nat.prime_of_mem_primeFactorsList hp) hdvd)
    · rw [← Nat.cast_list_prod, Nat.prod_primeFactorsList (by omega)]

/-- With prime radices the numbers that divide down are the products of the radices. -/
theorem dividesDown_iff_of_primes {n : ℤ} :
    DividesDown (primes.map fun (p : ℕ) => (p : ℤ)) n ↔ 1 ≤ n ∧ OnlyPrimeFactors primes n := by
  have htwo := two_le_of_primes hprimes
  have hproducts := (forall_dividesDown_iff htwo).mpr
    ((hasOwnPrimes_of_primes hprimes).leavesProducts fun hzero => absurd (htwo 0 hzero) (by decide))
  rw [← isProductOf_iff_of_primes hprimes]
  exact ⟨DividesDown.isProductOf, hproducts n⟩

end Primes

/-- **Prime radices.** With prime radices the test of an extent answers for every integer. It finds
the positive numbers all of whose prime factors are among the radices. So only the set of the
radices matters, not their order or how often they are given, and a product of positive numbers is
legal if and only if both of its factors are. -/
theorem isSmooth_primes {primes : List ℕ} (hprimes : ∀ p ∈ primes, p.Prime) :
    let smooth (radices : List ℕ) : Legality R :=
      isSmooth (some (radices.map fun (p : ℕ) => (p : ℤ)))
    (smooth primes).Total ∧
      (∀ n, smooth primes n = .ok true ↔
        1 ≤ n ∧ ∀ p : ℕ, p.Prime → (p : ℤ) ∣ n → p ∈ primes) ∧
      (∀ radices, (∀ p, p ∈ radices ↔ p ∈ primes) → smooth radices = smooth primes) ∧
      ∀ a b, 0 < a → 0 < b → (smooth primes (a * b) = .ok true ↔
        smooth primes a = .ok true ∧ smooth primes b = .ok true) := by
  intro smooth
  have htwo := two_le_of_primes hprimes
  have htest (n : ℤ) : smooth primes n = .ok true ↔ 1 ≤ n ∧ OnlyPrimeFactors primes n := by
    rw [← dividesDown_iff_of_primes hprimes]
    exact isSmooth_iff_dividesDown htwo (fun _ => Iff.rfl) n
  refine ⟨isSmooth_total htwo fun _ => Iff.rfl, htest, ?_, ?_⟩
  · intro radices hmem
    refine isSmooth_congr htwo ?_
    intro r
    simp only [List.mem_map, hmem]
  · intro a b ha hb
    have hab : 0 < a * b := Int.mul_pos ha hb
    rw [htest, htest, htest, onlyPrimeFactors_mul_iff]
    constructor
    · rintro ⟨-, honlya, honlyb⟩
      exact ⟨⟨by omega, honlya⟩, by omega, honlyb⟩
    · rintro ⟨⟨-, honlya⟩, -, honlyb⟩
      exact ⟨by omega, honlya, honlyb⟩

/-- The radices of the device backend in another order, one of them twice: `980` has no prime
factors but two, five and seven, and `22` has eleven. -/
theorem isSmooth_primes_two_seven :
    (∀ p ∈ [7, 2, 5, 3, 2], p.Prime) ∧
      (isSmooth (some [7, 2, 5, 3, 2]) 980 : Except (Failure Float) Bool) = .ok true ∧
      (isSmooth (some [7, 2, 5, 3, 2]) 22 : Except (Failure Float) Bool) = .ok false := by
  have hprimes : ∀ p ∈ [7, 2, 5, 3, 2], p.Prime := by
    norm_num
  obtain ⟨htotal, htest, -, -⟩ := isSmooth_primes (R := Float) hprimes
  refine ⟨hprimes, (htest 980).mpr ⟨by decide, ?_⟩, ?_⟩
  · intro p hp hdvd
    have hfactor : p ∈ Nat.primeFactorsList 980 :=
      (Nat.mem_primeFactorsList (by decide)).mpr ⟨hp, Int.natCast_dvd_natCast.mp hdvd⟩
    simp only [Nat.primeFactorsList_ofNat] at hfactor
    exact (show [2, 2, 5, 7, 7] ⊆ [7, 2, 5, 3, 2] by decide) hfactor
  · obtain ⟨answer, hanswer⟩ := htotal 22
    cases answer with
    | false => exact hanswer
    | true =>
      have heleven := ((htest 22).mp hanswer).2 11 (by norm_num) (by norm_num)
      exact absurd heleven (by decide)

end FourierAudit
