/-
  Placement/Spawn/Reading.lean
  ============================
  **Reading spawns from a source.**

  A record is read field by field and then its name, and nothing behind it is touched,
  so records may be read one at a time in any mixture of ways.  A source that is at its
  end before a record begins has no more records; a source that ends later than that
  has a truncated one.

  `Spawn.receive` reads one record.  `Spawn.receiveLogged` also logs an error, and
  `Spawn.receiveTaped` also gives the bytes of the record.  A `SpawnCursor` goes through
  the records of a source; it stops at the first end or error and stays there.
-/
import Placement.Spawn.Layout
import Placement.Bytes.Source
import Placement.Traced
import Placement.Log

namespace Placement

namespace Spawn

variable {σ : Type} [ByteSource σ]

/-! ### One record -/

/-- The error for a source that failed inside a field: that the data ended early is
    a truncation, anything else is passed on. -/
def fieldError (expected read : Nat) (e : IoError) : RecordError :=
  if e.kind = .unexpectedEof then .truncated expected read else .transfer e

/-- Read fields of the given widths, `read` of `expected` having been read already; the
    bytes of all of them. -/
def receiveFields (expected : Nat) :
    (widths : List Nat) → (read : Nat) → σ → Except RecordError (List UInt8) × σ
  | [], _, s => (.ok [], s)
  | width :: widths, read, s =>
    match ByteSource.fill width s with
    | (.complete field, s) =>
      match receiveFields expected widths (read + 1) s with
      | (.ok rest, s) => (.ok (field ++ rest), s)
      | (.error e, s) => (.error e, s)
    | (.ended _, s) => (.error (.truncated expected read), s)
    | (.failed e, s) => (.error (fieldError expected read e), s)

def receiveName (length : Nat) (s : σ) : Except RecordError (List UInt8) × σ :=
  if maxNameLength < length then (.error (.nameTooLong length), s)
  else
    match ByteSource.fill length s with
    | (.complete name, s) => (.ok name, s)
    | (.ended got, s) => (.error (.nameTruncated length got.length), s)
    | (.failed e, s) => (.error (.transfer e), s)

def receiveAfterFlags (flags : UInt32) (s : σ) : Except RecordError (Spawn Binary32) × σ :=
  let bounded := SpawnFlag.bounded.isSet flags
  match receiveFields (fieldCount bounded) (fieldWidths bounded).tail 1 s with
  | (.error e, s) => (.error e, s)
  | (.ok block, s) =>
    match receiveName (readNameLength bounded block) s with
    | (.error e, s) => (.error e, s)
    | (.ok name, s) => (.ok (ofFields flags block name), s)

/-- Read one record; none if the source is at its end.  What is missing of the flags says
    nothing about a bound, so a truncation there counts fields without one. -/
def receive (s : σ) : Except RecordError (Option (Spawn Binary32)) × σ :=
  match ByteSource.fill 4 s with
  | (.complete lead, s) =>
    match receiveAfterFlags (readWord32 lead) s with
    | (.ok spawn, s) => (.ok (some spawn), s)
    | (.error e, s) => (.error e, s)
  | (.ended [], s) => (.ok none, s)
  | (.ended _, s) => (.error (.truncated (fieldCount false) 0), s)
  | (.failed e, s) => (.error (fieldError (fieldCount false) 0 e), s)

/-! ### With a log, and with the bytes -/

/-- The log line for a record that could not be read. -/
def errorLine (e : RecordError) : LogLine := ⟨.error, "Error reading ModelSpawn: " ++ e.message⟩

/-- Read one record, and log an error. -/
def receiveLogged (s : σ) : Traced LogLine (Except RecordError (Option (Spawn Binary32)) × σ) :=
  let outcome := receive s
  match outcome.1 with
  | .ok _ => .quiet outcome
  | .error e => ⟨outcome, [errorLine e]⟩

/-- Read one record together with the bytes it was read from, and log an error. -/
def receiveTaped (s : σ) :
    Traced LogLine (Except RecordError (Option (Spawn Binary32 × List UInt8)) × σ) := do
  let (result, taped) ← receiveLogged (Taped.start s)
  return (result.map fun spawn? => spawn?.map fun spawn => (spawn, taped.bytes), taped.source)

end Spawn

/-! ### All records -/

/-- A source of records that is done after its first end or error. -/
structure SpawnCursor (σ : Type) where
  source : σ
  done : Bool

namespace SpawnCursor

variable {σ : Type}

/-- Begin to go through the records of a source. -/
def start (s : σ) : SpawnCursor σ := ⟨s, false⟩

variable [ByteSource σ]

/-- The next record or the error in its place; nothing if the cursor is done. -/
def next (c : SpawnCursor σ) :
    Traced LogLine (Option (Except RecordError (Spawn Binary32)) × SpawnCursor σ) :=
  if c.done then .quiet (none, c)
  else do
    let (result, source) ← Spawn.receiveLogged c.source
    match result with
    | .ok (some spawn) => return (some (.ok spawn), ⟨source, false⟩)
    | .ok none => return (none, ⟨source, true⟩)
    | .error e => return (some (.error e), ⟨source, true⟩)

/-- What a cursor found on its way. -/
structure Found (σ : Type) where
  spawns : List (Spawn Binary32)
  /-- The error that stopped the cursor, if it did not get to the end of the data. -/
  stoppedBy : Option RecordError
  source : σ

/-- Take records until the cursor is done, or `limit` of them. -/
def collect : (limit : Nat) → SpawnCursor σ → Traced LogLine (Found σ)
  | 0, c => .quiet ⟨[], none, c.source⟩
  | limit + 1, c => do
    let (item, c) ← c.next
    match item with
    | some (.ok spawn) =>
      let rest ← collect limit c
      return { rest with spawns := spawn :: rest.spawns }
    | some (.error e) => return ⟨[], some e, c.source⟩
    | none => return ⟨[], none, c.source⟩

/-- All records in some bytes.  Each record takes at least one byte, which bounds their
    number. -/
def ofBytes (bytes : List UInt8) : Traced LogLine (Found (List UInt8)) :=
  collect (bytes.length + 1) (start bytes)

end SpawnCursor

end Placement
