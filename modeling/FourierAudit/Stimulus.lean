/-
The stimulus of a case.

A stimulus is a reproducible volume of samples whose components are drawn independently and
uniformly from zero up to one, the real component of each sample first.

* `Stimulus.draw` — the components as one stream of numbers;
* `Stimulus.prepare` — the volume of so many samples for a seed, as a grid of the given
  precision holds it;
* `Stimulus.generate` — the same volume at once.

Design notes: a prepared stimulus is drawn when it is first looked at. A case that turns out to
be too large for a backend is given up before that.
-/
import FourierAudit.Failure
import FourierAudit.Twister

namespace FourierAudit.Stimulus

variable {R : Type} [Scalar R]

/-- The component at place `i` of the stream, from states that are long enough. -/
@[inline] def draw (states : Array UInt32) (i : Nat) : R :=
  Twister.uniform (Twister.word states (2 * i)) (Twister.word states (2 * i + 1))

/-- The first `count` samples of the stream of a seed. -/
@[specialize] def samples (seed : UInt32) (count : Nat) (precision : Precision) : Volume R :=
  let states := Twister.states seed (4 * count)
  Array.ofFn fun (i : Fin count) =>
    precision.storeSample ⟨draw states (2 * i.val), draw states (2 * i.val + 1)⟩

/-- The stimulus of a seed, which has to be a word of 32 bits. In double precision it has to fit
into memory. -/
@[specialize] def prepare (seed count : Int) (precision : Precision) :
    Except (Failure R) (Thunk (Volume R)) :=
  if seed < 0 ∨ 0x100000000 ≤ seed then .error (.invalid .seed)
  else if count < 0 then .error (.invalid .negativeLength)
  else if !isAddressable Precision.double.elementSize [count] then .error (.invalid .arrayTooLong)
  else .ok (.mk fun _ => samples (UInt32.ofNat seed.toNat) count.toNat precision)

/-- The stimulus of a seed, drawn at once. -/
@[specialize] def generate (seed count : Int) (precision : Precision) :
    Except (Failure R) (Volume R) :=
  (prepare seed count precision).map Thunk.get

end FourierAudit.Stimulus
