/-
  Placement/Query/SettingsFile.lean
  =================================
  **Settings of queries as a TOML document.**

  Each setting is a key of the document.  One that is missing keeps its standard value,
  and keys that name no setting are passed over.  A whole number is taken for a distance,
  but a number with a point is not taken for a count.
-/
import Placement.Query.Settings
import Placement.Bytes.Fault
import Placement.Toml.Document

namespace Placement

/-- Why settings could not be had from a document. -/
inductive SettingsError
  | unreadable (e : IoError)
  /-- The document is no TOML, or a setting has a value of the wrong kind. -/
  | malformed
  | flawed (flaw : SettingsFlaw)
  deriving DecidableEq

namespace SettingsError

/-- The error as a message.  What is wrong with a malformed document is not told. -/
def message : SettingsError → String
  | .unreadable e => "IO error: " ++ e.message
  | .malformed => "TOML parse error"
  | .flawed flaw => "Invalid config: " ++ flaw.message

def dump : SettingsError → String
  | .unreadable e => "IoError(" ++ e.dump ++ ")"
  | .malformed => "TomlError"
  | .flawed flaw => "Invalid(\"" ++ flaw.message ++ "\")"

end SettingsError

namespace QuerySettings

/-- The setting with a key, read from its value, or else its standard value. -/
def setting {β : Type} (document : Toml.Entries) (key : String) (standard : β)
    (ofNode? : Toml.Node → Option β) : Option β :=
  match document.get? key with
  | none => some standard
  | some node => ofNode? node

def flag? : Toml.Node → Option Bool
  | .boolean b => some b
  | _ => none

def distance? : Toml.Node → Option Binary32
  | .float x => some x.toBinary32
  | .integer n => some (.ofInt n)
  | _ => none

def count? : Toml.Node → Option Nat
  | .integer n => n.toNat?
  | _ => none

/-- The settings in a document, whether or not they can be used. -/
def ofDocument? (document : Toml.Entries) : Option (QuerySettings Binary32) := do
  let stopAtFirstHit ← setting document "stop_at_first_hit" standard.stopAtFirstHit flag?
  let ignoreDoodads ← setting document "ignore_m2_models" standard.ignoreDoodads flag?
  let maxRayDistance ← setting document "max_ray_distance" standard.maxRayDistance distance?
  let parallelThreshold ← setting document "parallel_threshold" standard.parallelThreshold count?
  return { stopAtFirstHit, ignoreDoodads, maxRayDistance, parallelThreshold }

/-- Usable settings from the text of a document. -/
def ofToml (text : String) : Except SettingsError (QuerySettings Binary32) :=
  match Toml.parse? text >>= ofDocument? with
  | none => .error .malformed
  | some settings => settings.check.mapError .flawed

end QuerySettings

end Placement
