/-
Numbers as a request states them, and the texts of tuples.

An extent may be requested as an integer or as a binary64 number. It is used truncated
toward zero, but a message shows it the way it was given.

* `Quantity.integer?` — the integer that is used;
* `Quantity.text` — the number as it was given;
* `tupleText` — texts in parentheses, a single one followed by a comma.
-/
import FourierAudit.ShortestDecimal

namespace FourierAudit

/-- A number as a request states it. -/
inductive Quantity where
  /-- An integer of any size. -/
  | whole (n : Int)
  /-- A binary64 number. -/
  | fractional (x : Float)

namespace Quantity

/-- The integer next to the number on the side of zero; none if the number is not finite. -/
def integer? : Quantity → Option Int
  | whole n => some n
  | fractional x => truncate? x

def text : Quantity → String
  | whole n => toString n
  | fractional x => ShortestDecimal.ofFloat x

end Quantity

/-- Texts in parentheses, separated by commas; a single one is followed by a comma. -/
def tupleText : List String → String
  | [] => "()"
  | [item] => "(" ++ item ++ ",)"
  | items => "(" ++ ", ".intercalate items ++ ")"

def integerTuple (items : List Int) : String := tupleText (items.map toString)

end FourierAudit
