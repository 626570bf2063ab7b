/-
Nested timing of named sections of a run.

A section that is opened inside another one is recorded as its child. Records are kept by
path, the names of the open sections with slashes between them, so that repeated use of the
same path adds up.

* `Timer.enter` — a section opened; it is recorded before the clock is read;
* `Timer.leave?` — the innermost open section closed, its time and its call added up;
* `Timer.calls` — how often a section was closed, by its path or by its last name;
* `Timer.rows` — all records, each with its depth and its share of the time of its parent.

Design notes: the state has no clock; whoever opens or closes a section hands the reading in.
A backend may have no name, and so may the section that is opened for it. Its record has no
path, but the paths of the sections inside start with the text that stands for a missing
name.
-/
import FourierAudit.Failure

namespace FourierAudit

variable {R : Type}

/-- The path of a section; none for a section without name that was opened with no other one
open. -/
abbrev SectionPath := Option String

def SectionPath.text (path : SectionPath) : String := path.getD "None"

structure TimerRecord (R : Type) where
  path : SectionPath
  /-- The time of all closed sections. -/
  total : R
  /-- The number of closed sections. -/
  calls : Nat
  /-- The paths of the sections that were opened inside, in order of first use. -/
  children : List SectionPath

structure Timer (R : Type) where
  /-- All records, in order of first use. -/
  records : List (TimerRecord R)
  /-- The paths that were opened with no other section open, in order of first use. -/
  roots : List SectionPath
  /-- The open sections with the reading at their start, the innermost one first. -/
  stack : List (SectionPath × R)

structure TimingRow (R : Type) where
  /-- The depth below the root. -/
  depth : Nat
  /-- The last name of the path. -/
  name : String
  total : R
  calls : Nat
  /-- The average time, if there was more than one. -/
  average : Option R
  /-- The percentage of the time of the parent, if that is not zero. -/
  share : Option R

namespace Timer

def empty : Timer R := ⟨[], [], []⟩

def record? (t : Timer R) (path : SectionPath) : Option (TimerRecord R) :=
  t.records.find? (·.path == path)

/-- The timer with the record of a path changed. -/
def modify (t : Timer R) (path : SectionPath) (change : TimerRecord R → TimerRecord R) :
    Timer R :=
  { t with records := t.records.map fun r => if r.path == path then change r else r }

/-- The path of a section that is opened now. -/
def pathOf (t : Timer R) (name : Option String) : SectionPath :=
  match t.stack with
  | [] => name
  | (parent, _) :: _ => some (parent.text ++ "/" ++ SectionPath.text name)

/-- The timer with a record for the path of a section that is opened now. -/
def register [Scalar R] (t : Timer R) (path : SectionPath) : Timer R :=
  match t.record? path with
  | some _ => t
  | none =>
    let fresh : TimerRecord R := { path, total := Scalar.zero, calls := 0, children := [] }
    let t : Timer R := { t with records := t.records ++ [fresh] }
    match t.stack with
    | [] => { t with roots := t.roots ++ [path] }
    | (parent, _) :: _ => t.modify parent fun r => { r with children := r.children ++ [path] }

/-- A section opened at a reading of the clock. -/
def enter [Scalar R] (t : Timer R) (name : Option String) (now : R) : Timer R :=
  let path := t.pathOf name
  let t := t.register path
  { t with stack := (path, now) :: t.stack }

/-- The innermost open section closed at a reading of the clock; none if none is open. -/
def leave? [Scalar R] (t : Timer R) (now : R) : Option (Timer R) :=
  match t.stack with
  | [] => none
  | (path, start) :: rest =>
    some <| { t with stack := rest }.modify path fun r =>
      { r with total := r.total + (now - start), calls := r.calls + 1 }

/-- The record of a path, or else the first record whose path ends in a slash and the name.
The search fails at a record without path. -/
def lookup [Scalar R] (t : Timer R) (name : String) :
    Except (Failure R) (Option (TimerRecord R)) :=
  match t.record? (some name) with
  | some r => .ok (some r)
  | none => search t.records
where
  /-- The first record whose path ends in a slash and the name. -/
  search : List (TimerRecord R) → Except (Failure R) (Option (TimerRecord R))
    | [] => .ok none
    | r :: rest =>
      match r.path with
      | none => .error .namelessSection
      | some path => if path.endsWith ("/" ++ name) then .ok (some r) else search rest

/-- How often a section was closed; zero for an unknown one. -/
def calls [Scalar R] (t : Timer R) (name : String) : Except (Failure R) Nat := do
  match ← t.lookup name with
  | some r => return r.calls
  | none => return 0

/-- What follows the last slash of a path. -/
def lastName (path : String) : String := (path.splitOn "/").getLastD ""

/-- The line for a record at a depth below a parent. -/
def row [Scalar R] (depth : Nat) (parent : Option R) (path : String) (r : TimerRecord R) :
    TimingRow R where
  depth
  name := lastName path
  total := r.total
  calls := r.calls
  average := if 1 < r.calls then some (r.total / Scalar.ofInt r.calls) else none
  share := match parent with
    | none => none
    | some time =>
      if Scalar.le time Scalar.zero && Scalar.le Scalar.zero time then none
      else some (Scalar.ofInt 100 * r.total / time)

/-- The lines for a path and what lies below it, down to a given number of levels. -/
def rowsBelow [Scalar R] (t : Timer R) :
    Nat → Nat → Option R → SectionPath → Except (Failure R) (List (TimingRow R))
  | 0, _, _, _ => .ok []
  | levels + 1, depth, parent, path =>
    match path, t.record? path with
    | none, _ => .error .namelessSection
    | _, none => .ok []
    | some name, some r => do
      let below ← r.children.mapM (t.rowsBelow levels (depth + 1) (some r.total))
      return row depth parent name r :: below.flatten

/-- The lines for all records, every record before its children. The paths of children are
longer than that of their parent, so there are no more levels than records. -/
def rows [Scalar R] (t : Timer R) : Except (Failure R) (List (TimingRow R)) := do
  let lines ← t.roots.mapM (t.rowsBelow t.records.length 0 none)
  return lines.flatten

end Timer

end FourierAudit
