/-
  Placement/Inspect/Report.lean
  =============================
  **What the inspector writes about a file of spawns.**

  Records are read one at a time, and each is told of before the next one is read: what it
  is, whether it has the bytes it was read from, and whether the ray and the point that were
  asked about get to its bound.  All the while they are counted, and a summary in the log
  follows if the file could be read to its end.  What cannot be read ends the report, and so
  does a record that could not be written again.
-/
import Placement.Inspect.Arguments
import Placement.Query.Settings
import Placement.Spawn.Reading
import Placement.Spawn.Writing

namespace Placement

namespace Inspect

/-! ### Lines -/

inductive OutputLine
  | report (text : String)
  /-- A line of the log, with the part of the program it comes from. -/
  | log (target : String) (line : LogLine)

def OutputLine.text : OutputLine → String
  | .report text => text
  | .log target line => line.level.name ++ " " ++ target ++ ": " ++ line.message

/-- A log line of the inspector itself. -/
def OutputLine.note (level : Level) (message : String) : OutputLine :=
  .log "spawn_dump" ⟨level, message⟩

/-- A log line about a record that could not be read. -/
def OutputLine.ofReading (line : LogLine) : OutputLine := .log "vmap_instance::vmap::spawn" line

/-! ### Descriptions -/

def padLeft (width : Nat) (s : String) : String :=
  String.ofList (List.replicate (width - s.length) ' ') ++ s

def padRight (width : Nat) (s : String) : String :=
  s ++ String.ofList (List.replicate (width - s.length) ' ')

/-- The components of a vector with a set number of places. -/
def components (places : Nat) (separator : String) (v : Vec3 Binary32) : String :=
  v.x.fixedText places ++ separator ++ v.y.fixedText places ++ separator ++ v.z.fixedText places

/-- A box by its corners, or a dash for none. -/
def boundText : Option (Box Binary32) → String
  | some b => "[" ++ components 1 " " b.low ++ "]..[" ++ components 1 " " b.high ++ "]"
  | none => "-"

def description (s : Spawn Binary32) : String :=
  padLeft 8 s.id.toNat.repr
    ++ " adt=" ++ padRight 5 s.tile.toNat.repr
    ++ " flags=0x" ++ String.ofList (Nat.toDigits 16 s.flags.toNat)
    ++ " pos=(" ++ components 2 ", " s.position
    ++ ") rot=(" ++ components 1 ", " s.rotation
    ++ ") scale=" ++ s.scale.fixedText 3
    ++ " bound=" ++ boundText s.bound
    ++ " " ++ s.shownName

/-! ### What is told of a record -/

/-- The description, unless only the summary is wanted. -/
def descriptionLines (args : Arguments) (s : Spawn Binary32) : List OutputLine :=
  if args.quiet then [] else [.report (description s)]

/-- Where the ray reaches the bound, if it does within the greatest distance. -/
def rayLines (args : Arguments) (settings : QuerySettings Binary32) (s : Spawn Binary32) :
    List OutputLine :=
  match args.ray, s.bound with
  | some ray, some bound =>
    let t := ray.entryTime bound
    if t ≤ settings.maxRayDistance then
      [.report ("  ray reaches spawn " ++ s.id.toNat.repr ++ " at " ++ t.fixedText 3)]
    else []
  | _, _ => []

/-- Whether the point is in the bound of a spawn that tells areas. -/
def pointLines (args : Arguments) (s : Spawn Binary32) : List OutputLine :=
  match args.point, s.bound with
  | some point, some bound =>
    if !s.has .doodad && bound.contains point then
      [.report ("  point inside spawn " ++ s.id.toNat.repr)]
    else []
  | _, _ => []

/-! ### Counting -/

/-- What has been counted so far. -/
structure Counts where
  total : Nat
  doodads : Nat
  unbounded : Nat
  /-- Records that do not have the bytes they were read from. -/
  mismatched : Nat

namespace Counts

def zero : Counts := ⟨0, 0, 0, 0⟩

/-- Count a record by what it is. -/
def add (counts : Counts) (s : Spawn Binary32) : Counts :=
  { counts with
    total := counts.total + 1
    doodads := if s.has .doodad then counts.doodads + 1 else counts.doodads
    unbounded := if s.has .bounded then counts.unbounded else counts.unbounded + 1 }

end Counts

def summary (args : Arguments) (counts : Counts) : List OutputLine :=
  .note .info ("Read " ++ counts.total.repr ++ " spawns from " ++ args.file
      ++ " (" ++ counts.doodads.repr ++ " doodads, "
      ++ counts.unbounded.repr ++ " without bound)")
    :: if args.verify then
        [.note .info ("Re-encode check: " ++ counts.mismatched.repr ++ " of "
          ++ counts.total.repr ++ " records differ")]
      else []

/-! ### One record after the other -/

/-- Write a record again, if that is wanted, and warn of other bytes than it was read from. -/
def verify (args : Arguments) (record : Spawn Binary32 × List UInt8) (counts : Counts) :
    Traced OutputLine (Except RecordError Counts) :=
  if !args.verify then .quiet (.ok counts)
  else
    match record.1.isStoredAs record.2 with
    | .error e => .quiet (.error e)
    | .ok true => .quiet (.ok counts)
    | .ok false => do
      Traced.emit (OutputLine.note .warn
        ("Spawn " ++ record.1.id.toNat.repr ++ " re-encodes to different bytes"))
      return .ok { counts with mismatched := counts.mismatched + 1 }

/-- Tell of one record, and count it. -/
def tell (args : Arguments) (settings : QuerySettings Binary32)
    (record : Spawn Binary32 × List UInt8) (counts : Counts) :
    Traced OutputLine (Except RecordError Counts) := do
  Traced.emitAll (descriptionLines args record.1)
  match ← verify args record (counts.add record.1) with
  | .error e => return .error e
  | .ok counts =>
    Traced.emitAll (rayLines args settings record.1)
    Traced.emitAll (pointLines args record.1)
    return .ok counts

/-- Tell of the records of a source until the first end or error, or of `limit` of them. -/
def tellAll {σ : Type} [ByteSource σ] (args : Arguments) (settings : QuerySettings Binary32) :
    (limit : Nat) → σ → Counts → Traced OutputLine (Except RecordError Counts)
  | 0, _, counts => .quiet (.ok counts)
  | limit + 1, s, counts => do
    let (result, s) ← (Spawn.receiveTaped s).mapEvents OutputLine.ofReading
    match result with
    | .error e => return .error e
    | .ok none => return .ok counts
    | .ok (some record) =>
      match ← tell args settings record counts with
      | .error e => return .error e
      | .ok counts => tellAll args settings limit s counts

end Inspect

end Placement
