/-
Integer literals.

An integer literal is a run of decimal digits of any script, a single underscore being
allowed between two of them, with an optional sign in front and blanks around it. At most
4300 digits are read.

* `IntegerLiteral.parse?` — the integer that a text denotes.
-/
namespace FourierAudit.IntegerLiteral

/-- The digit zero of every script beyond ASCII that has decimal digits, in the Unicode
character database, version 14.0. The other nine digits follow it. -/
def zeroDigits : Array Nat := #[
  0x660, 0x6f0, 0x7c0, 0x966, 0x9e6, 0xa66, 0xae6, 0xb66, 0xbe6, 0xc66, 0xce6, 0xd66, 0xde6,
  0xe50, 0xed0, 0xf20, 0x1040, 0x1090, 0x17e0, 0x1810, 0x1946, 0x19d0, 0x1a80, 0x1a90, 0x1b50,
  0x1bb0, 0x1c40, 0x1c50, 0xa620, 0xa8d0, 0xa900, 0xa9d0, 0xa9f0, 0xaa50, 0xabf0, 0xff10,
  0x104a0, 0x10d30, 0x11066, 0x110f0, 0x11136, 0x111d0, 0x112f0, 0x11450, 0x114d0, 0x11650,
  0x116c0, 0x11730, 0x118e0, 0x11950, 0x11c50, 0x11d50, 0x11da0, 0x16a60, 0x16ac0, 0x16b50,
  0x1d7ce, 0x1d7d8, 0x1d7e2, 0x1d7ec, 0x1d7f6, 0x1e140, 0x1e2f0, 0x1e950, 0x1fbf0]

/-- The value of a decimal digit of any script. -/
def digit? (c : Char) : Option Nat :=
  if c.isDigit then some (c.toNat - 48)
  else (zeroDigits.find? fun z => z ≤ c.toNat && c.toNat < z + 10).map (c.toNat - ·)

/-- Whether a character may stand around a literal. The separators that ASCII keeps for
files, groups, records and units may not. -/
def isBlank (c : Char) : Bool :=
  c.toNat == 0x20 || (0x09 ≤ c.toNat && c.toNat ≤ 0x0d) || c.toNat == 0x85 || c.toNat == 0xa0 ||
    c.toNat == 0x1680 || (0x2000 ≤ c.toNat && c.toNat ≤ 0x200a) || c.toNat == 0x2028 ||
    c.toNat == 0x2029 || c.toNat == 0x202f || c.toNat == 0x205f || c.toNat == 0x3000

/-- The most digits that a literal may have. -/
def maxDigits : Nat := 4300

/-- The digits of a literal without sign and blanks; none unless each underscore stands
between two digits. -/
def digits? : List Char → Option (List Nat)
  | [] => none
  | [c] => (digit? c).map ([·])
  | c :: '_' :: rest => do
    let first ← digit? c
    let others ← digits? rest
    return first :: others
  | c :: rest => do
    let first ← digit? c
    let others ← digits? rest
    return first :: others

/-- The natural number that a digit sequence denotes. -/
def ofDigits (digits : List Nat) : Nat := digits.foldl (fun n d => 10 * n + d) 0

/-- The integer that a text denotes. -/
def parse? (text : String) : Option Int := do
  let core := ((text.toList.dropWhile isBlank).reverse.dropWhile isBlank).reverse
  let (negative, magnitude) := match core with
    | '-' :: rest => (true, rest)
    | '+' :: rest => (false, rest)
    | rest => (false, rest)
  let digits ← digits? magnitude
  if maxDigits < digits.length then none
  else if negative then return -(ofDigits digits : Int)
  else return (ofDigits digits : Int)

end FourierAudit.IntegerLiteral
