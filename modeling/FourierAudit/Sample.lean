/-
Complex samples.

A `Sample` is a complex number in rectangular form, the element of every volume that
a transform reads or writes. The product is the schoolbook one, without any shortcut
for real or imaginary factors, so that a NaN or an infinity of one component reaches
both components of a product.

* `Sample.sum` — the sum of a finite family, taken in the order of its index;
* `Volume` — a flat sequence of samples in row-major order.
-/
import FourierAudit.Scalar

namespace FourierAudit

/-- A complex number in rectangular form. -/
structure Sample (R : Type) where
  re : R
  im : R

/-- A flat sequence of samples; a three-dimensional one is stored in row-major order. -/
abbrev Volume (R : Type) := Array (Sample R)

namespace Sample

variable {R : Type} [Scalar R]

@[inline] def zero : Sample R := ⟨Scalar.zero, Scalar.zero⟩

@[inline] def ofReal (x : R) : Sample R := ⟨x, Scalar.zero⟩

@[inline] def add (a b : Sample R) : Sample R := ⟨a.re + b.re, a.im + b.im⟩

@[inline] def sub (a b : Sample R) : Sample R := ⟨a.re - b.re, a.im - b.im⟩

/-- The product with a real number, component by component. -/
@[inline] def smul (a : Sample R) (x : R) : Sample R := ⟨x * a.re, x * a.im⟩

@[inline] def mul (a b : Sample R) : Sample R :=
  ⟨a.re * b.re - a.im * b.im, a.re * b.im + a.im * b.re⟩

@[inline] def conj (a : Sample R) : Sample R := ⟨a.re, -a.im⟩

/-- The product with a real number, taken as a product of samples. -/
@[inline] def scale (x : R) (a : Sample R) : Sample R := (ofReal x).mul a

/-- The sum `f 0 + f 1 + ⋯ + f (n - 1)`, from the left and from zero. -/
@[specialize] def sum (n : Nat) (f : Nat → Sample R) : Sample R :=
  n.fold (fun j _ total => total.add (f j)) zero

end Sample

end FourierAudit
