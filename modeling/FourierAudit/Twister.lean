/-
The Mersenne twister with 19937 bits of state.

The generator is a linear recurrence of words: word `k + 624` is made from the words `k`,
`k + 1` and `k + 397`. The first 624 words come from the seed, and every later word is
scrambled before it is handed out.

* `Twister.states` — the words of the recurrence, from the seed on;
* `Twister.word` — the word that is handed out at a position;
* `Twister.uniform` — two words as a multiple of `2 ^ -53` from zero up to below one.

Design notes: the recurrence is run on the sequence itself, which only ever grows at its end.
So the first words do not depend on how many are asked for.
-/
import FourierAudit.Sample

namespace FourierAudit.Twister

/-- The number of words that the recurrence looks back. -/
def degree : Nat := 624

/-- The distance to the word that is mixed in. -/
def middle : Nat := 397

/-- The seeded word that follows a word, at position `i` of the sequence. -/
def seededAfter (last : UInt32) (i : Nat) : UInt32 :=
  (1812433253 : UInt32) * (last ^^^ (last >>> 30)) + UInt32.ofNat i

/-- The words that the seed alone determines. -/
def seeded (seed : UInt32) : Array UInt32 :=
  (degree - 1).fold (fun i _ states => states.push (seededAfter (states.getD i 0) (i + 1)))
    #[seed]

/-- The upper bit of one word and the lower bits of the next one, shifted right as a linear
map over bits. -/
def twist (upper lower : UInt32) : UInt32 :=
  let joined := (upper &&& 0x80000000) ||| (lower &&& 0x7fffffff)
  (joined >>> 1) ^^^ (if joined &&& 1 == 1 then 0x9908b0df else 0)

/-- The word that follows a sequence of at least 624 words. -/
def following (states : Array UInt32) : UInt32 :=
  let k := states.size - degree
  states.getD (k + middle) 0 ^^^ twist (states.getD k 0) (states.getD (k + 1) 0)

/-- The seeded words and `count` words after them. -/
def states (seed : UInt32) (count : Nat) : Array UInt32 :=
  count.fold (fun _ _ states => states.push (following states)) (seeded seed)

/-- The scrambling of a word before it is handed out. -/
def temper (word : UInt32) : UInt32 :=
  let word := word ^^^ (word >>> 11)
  let word := word ^^^ ((word <<< 7) &&& 0x9d2c5680)
  let word := word ^^^ ((word <<< 15) &&& 0xefc60000)
  word ^^^ (word >>> 18)

/-- The word that is handed out at position `k`, from a sequence that is long enough. -/
def word (states : Array UInt32) (k : Nat) : UInt32 := temper (states.getD (degree + k) 0)

/-- The upper 27 bits of one word and the upper 26 bits of another, over `2 ^ 53`. -/
@[inline] def uniform {R : Type} [Scalar R] (high low : UInt32) : R :=
  (Scalar.ofInt (high >>> 5).toNat * Scalar.ofInt 67108864 + Scalar.ofInt (low >>> 6).toNat) /
    Scalar.ofInt 9007199254740992

end FourierAudit.Twister
