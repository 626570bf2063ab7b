/-
Rounding a binary64 number to the nearest binary32 number.

Single precision grids hold binary32 numbers, but all arithmetic of the library is
carried out in binary64, which contains every binary32 number. So storing into a
single precision grid is one function from binary64 to binary64:

* `Binary32.nearest` — the binary32 number nearest to the argument, a tie going to
  the one with an even significand; an overflow gives an infinity of the same sign.

Design notes: the function works on the bits. Two neighbouring binary64 magnitudes
have neighbouring bit patterns, across binades too, so for a result that is normal in
binary32 rounding the pattern at bit 29 rounds the number. Below the normal range
the spacing is constant and the significand is rounded at the place it asks for.
-/
namespace FourierAudit.Binary32

/-- The bits of a binary64 number without the sign. -/
def magnitudeBits (bits : UInt64) : UInt64 := bits &&& 0x7fffffffffffffff

def signBits (bits : UInt64) : UInt64 := bits &&& 0x8000000000000000

/-- `n / 2 ^ places`, rounded to the nearest integer, a tie going to the even one. -/
def roundEven (n : UInt64) (places : UInt64) : UInt64 :=
  let quotient := n >>> places
  let rest := n - (quotient <<< places)
  let half := (1 : UInt64) <<< (places - 1)
  if rest > half || (rest == half && quotient &&& 1 == 1) then quotient + 1 else quotient

/-- The binary64 bits of `2 ^ 128`, the least magnitude that binary32 cannot hold. -/
def overflowBits : UInt64 := 0x47f0000000000000

def infiniteBits : UInt64 := 0x7ff0000000000000

/-- The binary64 number `2 ^ -149`, the spacing of the subnormal binary32 numbers. -/
def spacing : Float := Float.ofBits 0x36a0000000000000

/-- The magnitude bits of the binary32 number nearest to a finite magnitude. -/
def nearestMagnitude (magnitude : UInt64) : UInt64 :=
  let exponent := magnitude >>> 52
  if exponent ≥ 897 then
    let rounded := roundEven magnitude 29 <<< 29
    if rounded ≥ overflowBits then infiniteBits else rounded
  else if exponent ≥ 872 then
    let significand := (magnitude &&& 0x000fffffffffffff) ||| 0x0010000000000000
    ((roundEven significand (926 - exponent)).toFloat * spacing).toBits
  else 0

/-- The binary32 number nearest to `x`; infinities and NaN stay as they are. -/
def nearest (x : Float) : Float :=
  let bits := x.toBits
  let magnitude := magnitudeBits bits
  if magnitude ≥ infiniteBits then x
  else Float.ofBits (signBits bits ||| nearestMagnitude magnitude)

end FourierAudit.Binary32
