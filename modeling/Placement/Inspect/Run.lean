/-
  Placement/Inspect/Run.lean
  ==========================
  **A run of the inspector.**

  A run depends on its arguments and on what opening a path gives.  The arguments are
  read first, then the settings, then the spawns; the first of them that fails ends the
  run.
-/
import Placement.Inspect.Report
import Placement.Query.SettingsFile

namespace Placement

namespace Inspect

/-- What a path leads to: a source of bytes, unless it cannot be opened. -/
abbrev Files := String → Except IoError ByteStream

/-- What a run leaves behind. -/
structure Outcome where
  exitCode : Nat
  output : List OutputLine
  complaint : String

/-- A run that failed, with a dump of its error. -/
def Outcome.failure (output : List OutputLine) (dump : String) : Outcome :=
  ⟨1, output, "Error: " ++ dump⟩

/-- All of a file as text. -/
def readText (files : Files) (path : String) : Except IoError String := do
  let stream ← files path
  match (ByteSource.fill (stream.rest.length + 1) stream).1 with
  | .failed e => throw e
  | .complete bytes | .ended bytes =>
    match Utf8.decode? bytes with
    | some text => return text
    | none => throw .notText

/-- The settings of a run. -/
def readSettings (files : Files) : Option String → Except SettingsError (QuerySettings Binary32)
  | none => .ok .standard
  | some path => (readText files path).mapError .unreadable >>= QuerySettings.ofToml

/-- Report on a file of spawns.  Each record takes at least one byte, which bounds their
    number. -/
def report (args : Arguments) (settings : QuerySettings Binary32) (stream : ByteStream) : Outcome :=
  let telling := tellAll args settings (stream.rest.length + 1) stream .zero
  match telling.value with
  | .error e => .failure telling.events e.dump
  | .ok counts => ⟨0, telling.events ++ summary args counts, ""⟩

/-- Run the inspector. -/
def run (arguments : List String) (files : Files) : Outcome :=
  match Arguments.read arguments with
  | .error .helpWanted => ⟨0, [.report help], ""⟩
  | .error e => ⟨2, [], Terminal.plain e.message⟩
  | .ok args =>
    match readSettings files args.config with
    | .error e => .failure [] e.dump
    | .ok settings =>
      match files args.file with
      | .error e => .failure [] e.dump
      | .ok stream => report args settings stream

end Inspect

end Placement
