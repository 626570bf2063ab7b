/-
The diagnostics of a comparison.

A comparison finds the largest error, the first element that fails and the worst element in separate
passes over all errors, of which some may not be numbers. They tell one story:

* `IsLargest` — the largest error, NaN left aside, as `largest` finds it;
* `IsWorst` — the first error that is not a number or else the first of the largest, as
  `worstPlace?` finds it;
* `compare_diagnostics` — how the two go together with the verdict.

Design notes: the largest error is that of the worst element only because errors that are at most
each other are the same, and because the zero that the search for the largest starts from is an
error itself.
-/
import FourierAudit.Proofs.ComparisonCriterion

namespace FourierAudit

variable {R : Type} [Scalar R]

/-! ### The largest error -/

/-- The largest of some errors and a number, NaN left aside. -/
structure IsLargest (floor : R) (errors : List R) (most : R) : Prop where
  isNaN : Scalar.isNaN most = false
  mem : most = floor ∨ most ∈ errors
  floor_le : Scalar.le floor most = true
  le : ∀ e ∈ errors, Scalar.isNaN e = false → Scalar.le e most = true

section LawfulOrder

variable [LawfulOrder R] {floor e most : R} {errors : List R}

theorem isLargest_maxNumber (h : Scalar.isNaN floor = false) (e : R) :
    IsLargest floor [e] (Scalar.maxNumber floor e) := by
  by_cases he : Scalar.isNaN e = true
  · have hmax : Scalar.maxNumber floor e = floor := by simp [Scalar.maxNumber, h, he]
    rw [hmax]
    refine ⟨h, .inl rfl, le_self h, ?_⟩
    intro e' hmem hnum
    rw [List.mem_singleton.mp hmem, he] at hnum
    exact Bool.noConfusion hnum
  · rw [Bool.not_eq_true] at he
    by_cases hle : Scalar.le floor e = true
    · have hmax : Scalar.maxNumber floor e = e := by simp [Scalar.maxNumber, h, he, hle]
      rw [hmax]
      refine ⟨he, .inr (List.mem_singleton_self e), hle, ?_⟩
      intro e' hmem _
      rw [List.mem_singleton.mp hmem]
      exact le_self he
    · have hmax : Scalar.maxNumber floor e = floor := by simp [Scalar.maxNumber, h, he, hle]
      rw [hmax]
      refine ⟨h, .inl rfl, le_self h, ?_⟩
      intro e' hmem _
      rw [List.mem_singleton.mp hmem]
      exact (LawfulOrder.le_total h he).resolve_left hle

theorem IsLargest.cons {next : R} (hnext : IsLargest floor [e] next)
    (hmost : IsLargest next errors most) : IsLargest floor (e :: errors) most where
  isNaN := hmost.isNaN
  mem := by
    rcases hmost.mem with rfl | hmem
    · rcases hnext.mem with h | h
      · exact .inl h
      · rw [List.mem_singleton.mp h]
        exact .inr List.mem_cons_self
    · exact .inr (List.mem_cons_of_mem e hmem)
  floor_le := LawfulOrder.le_trans hnext.floor_le hmost.floor_le
  le e' hmem hnum := by
    rcases List.mem_cons.mp hmem with rfl | hmem
    · exact LawfulOrder.le_trans (hnext.le _ (List.mem_singleton_self _) hnum) hmost.floor_le
    · exact hmost.le e' hmem hnum

theorem isLargest_foldl (h : Scalar.isNaN floor = false) (errors : List R) :
    IsLargest floor errors (errors.foldl Scalar.maxNumber floor) := by
  induction errors generalizing floor with
  | nil => exact ⟨h, .inl rfl, le_self h, fun e hmem => absurd hmem List.not_mem_nil⟩
  | cons e rest ih =>
    have hnext := isLargest_maxNumber h e
    exact hnext.cons (ih hnext.isNaN)

end LawfulOrder

/-! ### The worst error -/

/-- The worst of the first `n` errors: the first that is not a number if there is one, the first of
the largest otherwise. -/
def IsWorst (error : ℕ → R) (n i : ℕ) : Prop :=
  IsLeast {j | j < n ∧ Scalar.isNaN (error j) = true} i ∨
    (∀ j < n, Scalar.isNaN (error j) = false) ∧
      IsLeast {j | j < n ∧ ∀ k < n, Scalar.le (error k) (error j) = true} i

section Worst

variable {error : ℕ → R} {n i j : ℕ}

theorem IsWorst.lt (h : IsWorst error n i) : i < n := by
  rcases h with h | ⟨-, h⟩
  · exact h.1.1
  · exact h.1.1

/-- With errors that are no numbers the first of them is the only worst one. -/
theorem isWorst_iff_of_isNaN (h : IsLeast {j | j < n ∧ Scalar.isNaN (error j) = true} j) :
    IsWorst error n i ↔ j = i := by
  constructor
  · rintro (hi | ⟨hnum, -⟩)
    · exact h.unique hi
    · have hj := hnum j h.1.1
      rw [h.1.2] at hj
      exact Bool.noConfusion hj
  · rintro rfl
    exact .inl h

/-- Among numbers the first of the largest is the only worst one. -/
theorem isWorst_iff_of_numbers (h : ∀ j < n, Scalar.isNaN (error j) = false) :
    IsWorst error n i ↔
      IsLeast {j | j < n ∧ ∀ k < n, Scalar.le (error k) (error j) = true} i := by
  constructor
  · rintro (hi | ⟨-, hi⟩)
    · have hnan := hi.1.2
      rw [h i hi.1.1] at hnan
      exact Bool.noConfusion hnan
    · exact hi
  · intro hi
    exact .inr ⟨h, hi⟩

/-- An element that is out of tolerance makes the worst one so. -/
theorem IsWorst.le_eq_false [LawfulOrder R] {tolerance : R} (h : IsWorst error n i) (hj : j < n)
    (hout : Scalar.le (error j) tolerance = false) :
    Scalar.le (error i) tolerance = false := by
  rcases h with h | ⟨-, h⟩
  · exact le_eq_false_of_isNaN h.1.2 tolerance
  · exact le_eq_false_of_le (h.1.2 j hj) hout

variable [LawfulErrors R] {most : R}

/-- The errors of components. -/
def IsError (a : R) : Prop := ∃ expected found, a = componentError expected found

theorem isError_zero : IsError (Scalar.zero : R) :=
  ⟨_, _, LawfulErrors.componentError_zero.symm⟩

omit [LawfulErrors R] in
/-- The error of an element is the error of one of its components. -/
theorem isError_elementError (expected found : Sample R) :
    IsError (elementError expected found) := by
  rcases max_eq_or (componentError expected.re found.re) (componentError expected.im found.im)
    with h | h
  · exact ⟨_, _, h⟩
  · exact ⟨_, _, h⟩

theorem IsError.zero_le {a : R} (h : IsError a) (hnum : Scalar.isNaN a = false) :
    Scalar.le Scalar.zero a = true := by
  obtain ⟨e, f, rfl⟩ := h
  exact LawfulErrors.zero_le e f hnum

theorem IsError.eq_of_le {a b : R} (ha : IsError a) (hb : IsError b)
    (hab : Scalar.le a b = true) (hba : Scalar.le b a = true) : a = b := by
  obtain ⟨e, f, rfl⟩ := ha
  obtain ⟨e', f', rfl⟩ := hb
  exact LawfulErrors.antisymm e f e' f' hab hba

section Largest

variable (herror : ∀ j < n, IsError (error j)) (hnum : ∀ j < n, Scalar.isNaN (error j) = false)
  (hmost : IsLargest Scalar.zero ((List.range n).map error) most)

include herror hmost in
theorem isError_largest : IsError most := by
  rcases hmost.mem with rfl | h
  · exact isError_zero
  · obtain ⟨j, hj, rfl⟩ := List.mem_map.mp h
    exact herror j (List.mem_range.mp hj)

omit [LawfulErrors R] in
include hnum hmost in
theorem le_largest (hi : i < n) : Scalar.le (error i) most = true :=
  hmost.le _ (List.mem_map_of_mem (List.mem_range.mpr hi)) (hnum i hi)

include herror hnum hmost in
/-- The largest error is at most another one if all errors are. -/
theorem largest_le_iff (hi : i < n) :
    Scalar.le most (error i) = true ↔ ∀ k < n, Scalar.le (error k) (error i) = true := by
  constructor
  · intro h k hk
    exact LawfulOrder.le_trans (le_largest hnum hmost hk) h
  · intro h
    rcases hmost.mem with rfl | hmem
    · exact (herror i hi).zero_le (hnum i hi)
    · obtain ⟨j, hj, rfl⟩ := List.mem_map.mp hmem
      exact h j (List.mem_range.mp hj)

include herror hnum hmost in
theorem largest_eq (hi : i < n) (h : ∀ k < n, Scalar.le (error k) (error i) = true) :
    most = error i :=
  (isError_largest herror hmost).eq_of_le (herror i hi)
    ((largest_le_iff herror hnum hmost hi).mpr h) (le_largest hnum hmost hi)

end Largest

end Worst

/-! ### The diagnostics of a comparison -/

section Comparison

variable [LawfulErrors R] {expected found : Volume R}

theorem isLargest_largest (error : Sample R → Sample R → R) (h : expected.size = found.size) :
    IsLargest Scalar.zero ((List.range expected.size).map (errorAt error expected found))
      (largest (Array.zipWith error expected found)) := by
  rw [largest, ← Array.foldl_toList, toList_errors h]
  exact isLargest_foldl LawfulErrors.isNaN_zero _

omit [LawfulErrors R] in
theorem isError_errorAt (expected found : Volume R) (i : ℕ) :
    IsError (errorAt elementError expected found i) :=
  isError_elementError _ _

theorem worstPlace?_eq_some_iff (h : expected.size = found.size) {i : ℕ} :
    worstPlace? (Array.zipWith elementError expected found) = some i ↔
      IsWorst (errorAt elementError expected found) expected.size i := by
  have hmost := isLargest_largest elementError h
  simp only [worstPlace?]
  cases hnan : (Array.zipWith elementError expected found).findIdx? Scalar.isNaN with
  | some j =>
    have hleast := (findIdx?_errors_eq_some elementError h _ j).mp hnan
    rw [isWorst_iff_of_isNaN hleast]
    exact Option.some_inj
  | none =>
    have hnum : ∀ j < expected.size,
        Scalar.isNaN (errorAt elementError expected found j) = false := by
      intro j hj
      exact Bool.eq_false_of_not_eq_true ((findIdx?_errors_eq_none elementError h _).mp hnan j hj)
    have hset : {j | j < expected.size ∧ Scalar.le
          (largest (Array.zipWith elementError expected found))
          (errorAt elementError expected found j) = true}
        = {j | j < expected.size ∧ ∀ k < expected.size, Scalar.le
          (errorAt elementError expected found k)
          (errorAt elementError expected found j) = true} := by
      ext j
      exact and_congr_right fun hj =>
        largest_le_iff (fun k _ => isError_errorAt expected found k) hnum hmost hj
    show Array.findIdx? _ _ = some i ↔ _
    rw [findIdx?_errors_eq_some elementError h, hset, isWorst_iff_of_numbers hnum]

/-- Only empty volumes have no worst element. -/
theorem worstPlace?_eq_none_iff (h : expected.size = found.size) :
    worstPlace? (Array.zipWith elementError expected found) = none ↔ expected.size = 0 := by
  constructor
  · intro hnone
    have hmost := isLargest_largest elementError h
    simp only [worstPlace?] at hnone
    split at hnone
    · exact absurd hnone nofun
    · next hnan =>
      by_contra hempty
      have hnum := (findIdx?_errors_eq_none elementError h _).mp hnan
      have hbelow := (findIdx?_errors_eq_none elementError h _).mp hnone
      -- the largest error is found at some place, or it is zero and any place will do
      rcases hmost.mem with hzero | hmem
      · have hpos : 0 < expected.size := Nat.pos_of_ne_zero hempty
        rw [hzero] at hbelow
        exact hbelow 0 hpos ((isError_errorAt expected found 0).zero_le
          (Bool.eq_false_of_not_eq_true (hnum 0 hpos)))
      · obtain ⟨j, hj, hjmost⟩ := List.mem_map.mp hmem
        refine hbelow j (List.mem_range.mp hj) ?_
        rw [hjmost]
        exact le_self hmost.isNaN
  · intro hempty
    rw [Option.eq_none_iff_forall_ne_some]
    intro i hi
    have hlt := ((worstPlace?_eq_some_iff h).mp hi).lt
    omega

theorem exists_worstPlace? (h : expected.size = found.size) (hpos : 0 < expected.size) :
    ∃ i, worstPlace? (Array.zipWith elementError expected found) = some i ∧
      IsWorst (errorAt elementError expected found) expected.size i := by
  obtain ⟨i, hi⟩ := Option.ne_none_iff_exists'.mp
    (mt (worstPlace?_eq_none_iff h).mp (Nat.pos_iff_ne_zero.mp hpos))
  exact ⟨i, hi, (worstPlace?_eq_some_iff h).mp hi⟩

/-- If all errors are numbers, the largest is that of the worst element. -/
theorem largest_eq_of_isWorst (h : expected.size = found.size) {i : ℕ}
    (hi : IsWorst (errorAt elementError expected found) expected.size i)
    (hnum : ∀ j < expected.size, Scalar.isNaN (errorAt elementError expected found j) = false) :
    largest (Array.zipWith elementError expected found)
      = errorAt elementError expected found i := by
  rw [isWorst_iff_of_numbers hnum] at hi
  exact largest_eq (fun j _ => isError_errorAt expected found j) hnum
    (isLargest_largest elementError h) hi.1.1 hi.1.2

/-- If an element is out of tolerance, the worst one is, and the first one is not behind it. -/
theorem exists_first_worst (h : expected.size = found.size) {tolerance : R}
    (hfailed : ∃ j < expected.size,
      Scalar.le (errorAt elementError expected found j) tolerance = false) :
    ∃ first worst,
      (Array.zipWith elementError expected found).findIdx? (fun e => !Scalar.le e tolerance)
        = some first ∧
      worstPlace? (Array.zipWith elementError expected found) = some worst ∧ first ≤ worst ∧
      Scalar.le (errorAt elementError expected found worst) tolerance = false ∧
      IsWorst (errorAt elementError expected found) expected.size worst := by
  obtain ⟨j, hj, hout⟩ := hfailed
  obtain ⟨worst, hplace, hworst⟩ := exists_worstPlace? h (Nat.zero_lt_of_lt hj)
  have hworstout := hworst.le_eq_false hj hout
  obtain ⟨first, hfirst⟩ : ∃ first, (Array.zipWith elementError expected found).findIdx?
      (fun e => !Scalar.le e tolerance) = some first := by
    rw [← Option.ne_none_iff_exists', ne_eq, findIdx?_errors_eq_none elementError h]
    intro hnone
    exact hnone j hj (by rw [hout, Bool.not_false])
  have hleast := (findIdx?_errors_eq_some elementError h _ first).mp hfirst
  have hle : first ≤ worst := hleast.2 ⟨hworst.lt, by rw [hworstout, Bool.not_false]⟩
  exact ⟨first, worst, hfirst, hplace, hle, hworstout, hworst⟩

/-- The elements that a comparison shows are those at the worst place. -/
theorem getElem?_worst {α : Type} {v : Array α} {i : ℕ} (hi : i < v.size) (a : α) :
    v[i]? = some (((some i).bind (v[·]?)).getD a) := by
  rw [Option.bind_some, Array.getElem?_eq_getElem hi, Option.getD_some]

/-- **The diagnostics of a comparison tell one story.** The worst element of two volumes of one size
is the first without a number as its error if there is one, and otherwise the first whose error is
the largest; only empty volumes have none. If the comparison fails, the worst element is out of
tolerance and not before the first that is, and if all errors are numbers, the largest of them is
that of the worst element. If the comparison of volumes that are not empty is passed, all errors are
numbers and the largest is that of the worst element and within the tolerance. -/
theorem compare_diagnostics (h : expected.size = found.size) (tolerance : R)
    (shape : Option (List ℤ)) :
    let error := errorAt elementError expected found
    ∃ result, compare expected found tolerance shape = .ok result ∧
      (result.worst = none ↔ expected.size = 0) ∧
      (∀ i, result.worst = some i ↔ IsWorst error expected.size i) ∧
      (∀ i, result.worst = some i →
        expected[i]? = some result.worstExpected ∧ found[i]? = some result.worstFound) ∧
      IsLargest Scalar.zero ((List.range expected.size).map error) result.maxRelativeError ∧
      (result.passed = false → ∃ first worst,
        result.firstMismatch = some first ∧ result.worst = some worst ∧ first ≤ worst ∧
          Deviates tolerance (expected.getD worst Sample.zero) (found.getD worst Sample.zero) ∧
          ((∀ i < expected.size, Scalar.isNaN (error i) = false) →
            result.maxRelativeError = error worst ∧
              Scalar.le result.maxRelativeError tolerance = false)) ∧
      (result.passed = true → 0 < expected.size →
        (∀ i < expected.size, Scalar.isNaN (error i) = false) ∧ ∃ worst,
          result.worst = some worst ∧ result.maxRelativeError = error worst ∧
            Scalar.le result.maxRelativeError tolerance = true) := by
  intro error
  have hfailed := countP_ne_zero_iff h tolerance
  rw [compare, compare?, if_pos h]
  refine ⟨_, rfl, worstPlace?_eq_none_iff h, fun i => worstPlace?_eq_some_iff h, ?_,
    isLargest_largest elementError h, ?_, ?_⟩
  · intro i hi
    have hlt := ((worstPlace?_eq_some_iff h).mp hi).lt
    simp only at hi ⊢
    rw [hi]
    exact ⟨getElem?_worst hlt _, getElem?_worst (h ▸ hlt) _⟩
  · intro hnot
    rw [Comparison.passed, beq_eq_false_iff_ne, hfailed] at hnot
    obtain ⟨first, worst, hfirst, hplace, hle, hout, hworst⟩ := exists_first_worst h hnot
    refine ⟨first, worst, hfirst, hplace, hle, (elementError_eq_false _ _ _).mp hout, ?_⟩
    intro hnum
    have hlargest := largest_eq_of_isWorst h hworst hnum
    exact ⟨hlargest, by rw [hlargest]; exact hout⟩
  · intro hok hpos
    have hwithin : ∀ i < expected.size, Scalar.le (error i) tolerance = true := by
      intro i hi
      by_contra hout
      rw [Comparison.passed, beq_iff_eq] at hok
      exact hfailed.mpr ⟨i, hi, Bool.eq_false_of_not_eq_true hout⟩ hok
    have hnum : ∀ i < expected.size, Scalar.isNaN (error i) = false :=
      fun i hi => LawfulOrder.isNaN_left (hwithin i hi)
    obtain ⟨worst, hplace, hworst⟩ := exists_worstPlace? h hpos
    have hlargest := largest_eq_of_isWorst h hworst hnum
    exact ⟨hnum, worst, hplace, hlargest, by rw [hlargest]; exact hwithin worst hworst.lt⟩

/-- Two samples that were expected. -/
def pairExpected : Volume Float := #[⟨1, 0⟩, ⟨2, 0⟩]

/-- A sample that is wrong and one that is not a number. -/
def pairFound : Volume Float := #[⟨4, 0⟩, ⟨0 / 0, 0⟩]

/-- What is not a number is worse than what is wrong. -/
theorem compare_diagnostics_pair :
    pairExpected.size = pairFound.size ∧
      ∃ result, compare pairExpected pairFound 1 none = .ok result ∧
        result.passed = false ∧ result.worst = some 1 ∧
          ∃ first ≤ 1, result.firstMismatch = some first := by
  have hsize : pairExpected.size = pairFound.size := by decide
  have hfirst : Scalar.isNaN (errorAt elementError pairExpected pairFound 0) = false := by
    decide +kernel
  have hsecond : Scalar.isNaN (errorAt elementError pairExpected pairFound 1) = true := by
    decide +kernel
  have hworst : IsWorst (errorAt elementError pairExpected pairFound) pairExpected.size 1 := by
    refine .inl ⟨⟨by decide, hsecond⟩, ?_⟩
    rintro j ⟨-, hj⟩
    rcases Nat.eq_zero_or_pos j with rfl | hpos
    · rw [hfirst] at hj
      exact Bool.noConfusion hj
    · exact hpos
  obtain ⟨result, hresult, -, hplace, -, -, hfailed, hpassed⟩ :=
    compare_diagnostics hsize (1 : Float) none
  have hat := (hplace 1).mpr hworst
  have hnot : result.passed = false := by
    by_contra hok
    have hnum := (hpassed (Bool.eq_true_of_not_eq_false hok) (by decide)).1 1 (by decide)
    rw [hsecond] at hnum
    exact Bool.noConfusion hnum
  obtain ⟨first, worst, hmismatch, hworst', hle, -⟩ := hfailed hnot
  obtain rfl := Option.some.inj (hat.symm.trans hworst')
  exact ⟨hsize, result, hresult, hnot, hat, first, hle, hmismatch⟩

end Comparison

end FourierAudit
