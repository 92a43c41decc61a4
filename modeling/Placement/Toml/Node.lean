/-
  Placement/Toml/Node.lean
  ========================
  **TOML values, and how lines of a document add up to one table.**

  A document is a table that grows line by line.  Tables come into being in three ways:
  by a header of their own, because a longer header passes through them, or by a dotted
  key; what may still be added to a table depends on its origin.  Every rule against
  defining something twice is a case of `addAlong` or `insertNew` that has no result.
-/
import Placement.Decimal.Numeral

namespace Placement

namespace Toml

/-- A floating number as it was written. -/
inductive Number
  | finite (numeral : Decimal)
  | infinite (negative : Bool)
  | nan (negative : Bool)

/-- The 32-bit number nearest to the 64-bit number that is meant. -/
def Number.toBinary32 : Number → Binary32
  | .finite d => d.toBinary32ViaDouble
  | .infinite negative => .ofParts negative Binary32.infinityPattern
  | .nan negative => .ofParts negative Binary32.nan.pattern

/-- How a table came into being. -/
inductive Origin
  /-- By a header. -/
  | header
  /-- On the way to the table of a longer header. -/
  | passage
  /-- By a dotted key. -/
  | dotted
  deriving DecidableEq

inductive Node
  | text (s : String)
  | integer (n : Int)
  | float (x : Number)
  | boolean (b : Bool)
  | dateTime
  | array (items : List Node)
  /-- A table in braces, which is complete. -/
  | inlineTable (entries : List (String × Node))
  | table (origin : Origin) (entries : List (String × Node))
  /-- Tables under one repeated header; the last one is still growing. -/
  | tables (elements : List (List (String × Node)))

/-- The entries of a table in the order in which they were added. -/
abbrev Entries := List (String × Node)

namespace Entries

def get? (key : String) (entries : Entries) : Option Node := List.lookup key entries

/-- Set the value of a key, which keeps its place if it has one. -/
def set (key : String) (node : Node) : Entries → Entries
  | [] => [(key, node)]
  | (k, n) :: rest => if k = key then (k, node) :: rest else (k, n) :: set key node rest

/-- Change the table at the end of a path.  Tables missing on the way are made with the
    origin `missing`, which also says what the path comes from: a dotted key does not
    enter a table that has a header.  The change is told the origin of the table. -/
def addAlong (missing : Origin) (change : Origin → Entries → Option Entries) :
    (path : List String) → Origin → Entries → Option Entries
  | [], origin, entries => change origin entries
  | key :: path, _, entries =>
    match entries.get? key with
    | none => do
      let inner ← addAlong missing change path missing []
      return entries.set key (.table missing inner)
    | some (.table origin inner) =>
      if missing = .dotted ∧ origin = .header then none
      else do
        let inner ← addAlong missing change path origin inner
        return entries.set key (.table origin inner)
    | some (.tables elements) => do
      let inner ← elements.getLast?
      let inner ← addAlong missing change path .header inner
      return entries.set key (.tables (elements.dropLast ++ [inner]))
    | some _ => none

/-- Add a key that is not there yet. -/
def insertNew (key : String) (node : Node) (entries : Entries) : Option Entries :=
  match entries.get? key with
  | none => some (entries ++ [(key, node)])
  | some _ => none

/-- Add the value of a dotted key, its last part apart from the others.  A table on the way
    must itself come from a dotted key. -/
def addValue (path : List String) (key : String) (node : Node) (origin : Origin)
    (entries : Entries) : Option Entries :=
  addAlong .dotted
    (fun reached entries =>
      if path ≠ [] ∧ reached ≠ .dotted then none else insertNew key node entries)
    path origin entries

/-- Open the table of a header.  It may have been passed through before, but not opened. -/
def openTable (path : List String) (key : String) (entries : Entries) : Option Entries :=
  addAlong .passage
    (fun _ entries =>
      match entries.get? key with
      | none => some (entries.set key (.table .header []))
      | some (.table .passage inner) => some (entries.set key (.table .header inner))
      | some _ => none)
    path .header entries

/-- Open one more table under a repeated header. -/
def openElement (path : List String) (key : String) (entries : Entries) : Option Entries :=
  addAlong .passage
    (fun _ entries =>
      match entries.get? key with
      | none => some (entries.set key (.tables [[]]))
      | some (.tables elements) => some (entries.set key (.tables (elements ++ [[]])))
      | some _ => none)
    path .header entries

end Entries

end Toml

end Placement
