/-
The timing summary as a table.

* `TimingTable.duration` — a time in the unit that suits it, in a column of fixed width;
* `TimingTable.lines` — the lines of the table: a title between rules, a head, a line for
  every record, and a closing rule.
-/
import FourierAudit.Packing
import FourierAudit.Timer

namespace FourierAudit.TimingTable

/-- A text filled up with blanks on the left. -/
def alignRight (width : Nat) (text : String) : String :=
  "".pushn ' ' (width - text.length) ++ text

/-- A text filled up with blanks on the right. -/
def alignLeft (width : Nat) (text : String) : String := text.pushn ' ' (width - text.length)

def rule (c : Char) (width : Nat) : String := "".pushn c width

/-- The width of the rules of the table. -/
def lineWidth : Nat := 78

/-- A time in seconds, in the unit that suits it. -/
def duration (seconds : Float) : String :=
  let column (places : Nat) (x : Float) : String :=
    alignRight 8 (RoundedDecimal.fixed places x)
  if seconds < 1e-6 then column 2 (seconds * 1e9) ++ " ns"
  else if seconds < 1e-3 then column 2 (seconds * 1e6) ++ " us"
  else if seconds < 1 then column 2 (seconds * 1e3) ++ " ms"
  else column 4 seconds ++ " s "

/-- A name cut to a column: if it is too long, all but the last characters of what fits and
three dots. -/
def fitName (width : Nat) (name : String) : String :=
  if name.length ≤ width then name
  else String.ofList (upTo (width - 3) name.toList.toArray).toList ++ "..."

def rowLine (width : Nat) (r : TimingRow Float) : String :=
  let name := fitName width ("".pushn ' ' (2 * r.depth) ++ r.name)
  let average := match r.average with
    | some seconds => duration seconds
    | none => alignRight 12 "-"
  let share := match r.share with
    | some percent => alignRight 9 (RoundedDecimal.fixed 1 percent) ++ "%"
    | none => alignRight 10 "-"
  alignLeft width name ++ " " ++ duration r.total ++ " " ++ alignRight 8 (toString r.calls) ++
    " " ++ average ++ " " ++ share

def defaultTitle : String := "Timing Summary"

/-- The width of the name column unless another one is given. -/
def defaultNameWidth : Int := 30

def tableLines (title : String) (width : Nat) (rows : List (TimingRow Float)) : List String :=
  ["", rule '=' lineWidth, title, rule '=' lineWidth,
    alignLeft width "Name" ++ " " ++ alignRight 12 "Total" ++ " " ++ alignRight 8 "Calls" ++
      " " ++ alignRight 12 "Average" ++ " " ++ alignRight 10 "% Parent",
    rule '-' width ++ " " ++ rule '-' 12 ++ " " ++ rule '-' 8 ++ " " ++ rule '-' 12 ++ " " ++
      rule '-' 10] ++
    rows.map (rowLine width) ++ [rule '=' lineWidth]

/-- The lines of the summary of a timer. -/
def lines (t : Timer Float) (title : String) (nameWidth : Int) :
    Except (Failure Float) (List String) := do
  if t.records.isEmpty then return ["No timing data collected."]
  let rows ← t.rows
  unless 0 ≤ nameWidth && isWord nameWidth do throw (.invalid .columnWidth)
  return tableLines title nameWidth.toNat rows

end FourierAudit.TimingTable
