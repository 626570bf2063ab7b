/-
The verdict of a comparison, element by element.

A comparison takes the larger error of the two components of an element and looks at it once. This
comes to the same as the criterion of a component, whatever numbers, infinities and NaN there are:

* `ElementFails` — the criterion: the error of one of the components is not a number or not at most
  the tolerance;
* `forall_elementFails_iff` — the elements that fail whatever the tolerance;
* `compare_criterion` — the number of elements that fail, the first of them, and the verdict.
-/
import FourierAudit.Proofs.ComponentErrors
import FourierAudit.Proofs.ElementErrors

namespace FourierAudit

/-! ### The criterion -/

/-- Whether a component is out of tolerance: its error, with every operation passing a NaN on, is
not a number or not at most the tolerance. -/
def ComponentFails (tolerance expected found : Float) : Prop :=
  let error := (expected - found).abs / Scalar.max expected.abs 1
  error.isNaN = true ∨ ¬error ≤ tolerance

/-- Whether an element is out of tolerance: one of its components is. -/
def ElementFails (tolerance : Float) (expected found : Sample Float) : Prop :=
  ComponentFails tolerance expected.re found.re ∨ ComponentFails tolerance expected.im found.im

instance (tolerance expected found : Float) : Decidable (ComponentFails tolerance expected found) :=
  inferInstanceAs (Decidable (_ ∨ ¬_))

instance (tolerance : Float) (expected found : Sample Float) :
    Decidable (ElementFails tolerance expected found) :=
  inferInstanceAs (Decidable (_ ∨ _))

/-- Whether the element at a place of two volumes is out of tolerance. -/
def FailsAt (tolerance : Float) (expected found : Volume Float) (i : ℕ) : Prop :=
  ElementFails tolerance (expected.getD i Sample.zero) (found.getD i Sample.zero)

instance (tolerance : Float) (expected found : Volume Float) :
    DecidablePred (FailsAt tolerance expected found) := fun i =>
  inferInstanceAs (Decidable (ElementFails tolerance (expected.getD i Sample.zero) _))

theorem componentFails_iff {tolerance e f : Float} :
    ComponentFails tolerance e f ↔ Scalar.le (componentError e f) tolerance = false := by
  have hle : Scalar.le (componentError e f) tolerance = decide (componentError e f ≤ tolerance) :=
    rfl
  constructor
  · rintro (h | h)
    · exact le_eq_false_of_isNaN h tolerance
    · rw [hle]
      exact decide_eq_false h
  · intro h
    rw [hle, decide_eq_false_iff_not] at h
    exact .inr h

theorem elementFails_iff {tolerance : Float} {expected found : Sample Float} :
    ElementFails tolerance expected found ↔
      Scalar.le (elementError expected found) tolerance = false := by
  rw [elementError_eq_false, Deviates, ElementFails, componentFails_iff, componentFails_iff]

section LawfulOrder

variable {R : Type} [Scalar R]

theorem isNaN_elementError_iff {expected found : Sample R} :
    Scalar.isNaN (elementError expected found) = true ↔
      Scalar.isNaN (componentError expected.re found.re) = true ∨
        Scalar.isNaN (componentError expected.im found.im) = true :=
  isNaN_max _ _

theorem le_self [LawfulOrder R] {a : R} (h : Scalar.isNaN a = false) : Scalar.le a a = true :=
  (LawfulOrder.le_total h h).elim id id

/-- What no tolerance is large enough for is not a number. -/
theorem forall_le_eq_false_iff [LawfulOrder R] {a : R} :
    (∀ t, Scalar.le a t = false) ↔ Scalar.isNaN a = true := by
  constructor
  · intro h
    by_contra hnum
    have hself := le_self (Bool.eq_false_of_not_eq_true hnum)
    rw [h a] at hself
    exact Bool.noConfusion hself
  · exact le_eq_false_of_isNaN

end LawfulOrder

/-- Whether an element has no error to speak of: one of its components is not a number, on either
side, or the expected one is infinite. -/
def IsUndefined (expected found : Sample Float) : Prop :=
  (expected.re.isNaN = true ∨ expected.im.isNaN = true) ∨
    (found.re.isNaN = true ∨ found.im.isNaN = true) ∨
      (expected.re.isInf = true ∨ expected.im.isInf = true)

/-- The elements that fail whatever the tolerance. -/
theorem forall_elementFails_iff {expected found : Sample Float} :
    (∀ tolerance, ElementFails tolerance expected found) ↔ IsUndefined expected found := by
  have hnan (a : Float) : Scalar.isNaN a = a.isNaN := rfl
  simp only [elementFails_iff]
  rw [forall_le_eq_false_iff, isNaN_elementError_iff, isNaN_componentError_iff,
    isNaN_componentError_iff, IsUndefined]
  simp only [hnan]
  tauto

/-- **The verdict of a comparison is the criterion of a component.** Volumes of different sizes are
refused. Of two volumes of one size every element is looked at: a comparison counts those that fail
and names the first of them, and it is passed if and only if there is none. An element with a NaN on
either side or with an infinity on the expected one fails whatever the tolerance, and no other one
does. -/
theorem compare_criterion (expected found : Volume Float) (tolerance : Float)
    (shape : Option (List ℤ)) :
    (expected.size ≠ found.size → compare expected found tolerance shape
        = .error (.invalid (.lengths expected.size found.size))) ∧
      (expected.size = found.size → ∃ result,
        compare expected found tolerance shape = .ok result ∧
          result.size = expected.size ∧
          result.mismatches
            = ((Finset.range expected.size).filter (FailsAt tolerance expected found)).card ∧
          (∀ i, result.firstMismatch = some i ↔
            IsLeast {j | j < expected.size ∧ FailsAt tolerance expected found j} i) ∧
          (result.firstMismatch = none ↔
            ∀ i < expected.size, ¬FailsAt tolerance expected found i) ∧
          (result.passed = true ↔ ∀ i < expected.size, ¬FailsAt tolerance expected found i)) ∧
      ∀ i < expected.size, (∀ tolerance', FailsAt tolerance' expected found i) ↔
        IsUndefined (expected.getD i Sample.zero) (found.getD i Sample.zero) := by
  have hfails (i : ℕ) : (!Scalar.le (errorAt elementError expected found i) tolerance) = true ↔
      FailsAt tolerance expected found i := by
    rw [Bool.not_eq_true']
    exact elementFails_iff.symm
  refine ⟨?_, ?_, fun i _ => forall_elementFails_iff⟩
  · intro h
    rw [compare, compare?, if_neg h]
  · intro h
    have hcount := countP_errors elementError h fun e => !Scalar.le e tolerance
    have hsome := findIdx?_errors_eq_some elementError h fun e => !Scalar.le e tolerance
    have hnone := findIdx?_errors_eq_none elementError h fun e => !Scalar.le e tolerance
    simp only [hfails] at hcount hsome hnone
    rw [compare, compare?, if_pos h]
    refine ⟨_, rfl, rfl, hcount.trans (Nat.count_eq_card_filter_range _ _), hsome, hnone, ?_⟩
    rw [Comparison.passed, beq_iff_eq, hcount]
    exact Nat.count_iff_forall_not

end FourierAudit
