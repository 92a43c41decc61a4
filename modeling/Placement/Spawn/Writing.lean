/-
  Placement/Spawn/Writing.lean
  ============================
  **Writing spawns to a sink.**

  A record is written field by field and then its name.  A name that is too long is
  refused before anything is written.  A sink that is full inside a field makes a short
  write, counted in fields; inside the name it is an error of the sink.
-/
import Placement.Spawn.Layout
import Placement.Bytes.Sink

namespace Placement

namespace Spawn

variable {σ : Type} [ByteSink σ]

/-- Write fields, `written` of `expected` having been written already. -/
def sendFields (expected : Nat) :
    (fields : List (List UInt8)) → (written : Nat) → σ → Except RecordError Unit × σ
  | [], _, s => (.ok (), s)
  | field :: fields, written, s =>
    match ByteSink.putAll field s with
    | (.ok (), s) => sendFields expected fields (written + 1) s
    | (.error e, s) =>
      (.error (if e.kind = .writeZero then .shortWrite expected written else .transfer e), s)

def send (spawn : Spawn Binary32) (s : σ) : Except RecordError Unit × σ :=
  if maxNameLength < spawn.name.length then (.error (.nameTooLong spawn.name.length), s)
  else
    match sendFields (fieldCount spawn.bound.isSome) spawn.fields 0 s with
    | (.error e, s) => (.error e, s)
    | (.ok (), s) =>
      match ByteSink.putAll spawn.name s with
      | (.ok (), s) => (.ok (), s)
      | (.error e, s) => (.error (.transfer e), s)

/-- Write records back to back until one fails; how many were written. -/
def sendAll : List (Spawn Binary32) → σ → Except RecordError Nat × σ
  | [], s => (.ok 0, s)
  | spawn :: spawns, s =>
    match send spawn s with
    | (.error e, s) => (.error e, s)
    | (.ok (), s) =>
      match sendAll spawns s with
      | (.error e, s) => (.error e, s)
      | (.ok n, s) => (.ok (n + 1), s)

/-! ### In memory -/

/-- The stored form of a spawn; there is none if its name is too long. -/
def encode (spawn : Spawn Binary32) : Except RecordError (List UInt8) :=
  match send spawn ([] : List UInt8) with
  | (.ok (), encoding) => .ok encoding
  | (.error e, _) => .error e

/-- Whether some bytes are the stored form of a spawn. -/
def isStoredAs (spawn : Spawn Binary32) (bytes : List UInt8) : Except RecordError Bool :=
  spawn.encode.map fun encoding => encoding == bytes

end Spawn

end Placement
