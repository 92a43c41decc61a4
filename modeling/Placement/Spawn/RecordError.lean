/-
  Placement/Spawn/RecordError.lean
  ================================
  **Why a spawn record could not be read or written.**
-/
import Placement.Bytes.Fault

namespace Placement

/-- Why a spawn record could not be read or written.  Counts of fields are counts of the
    fields before the name. -/
inductive RecordError
  /-- The data ended inside one of the fields. -/
  | truncated (expected read : Nat)
  /-- The name is longer than any name can be. -/
  | nameTooLong (length : Nat)
  /-- The data ended inside the name. -/
  | nameTruncated (expected read : Nat)
  /-- The sink was full inside one of the fields. -/
  | shortWrite (expected written : Nat)
  /-- The source or the sink failed. -/
  | transfer (e : IoError)
  deriving DecidableEq

namespace RecordError

def message : RecordError → String
  | .truncated expected read =>
    "Spawn record truncated: read " ++ read.repr ++ " of " ++ expected.repr ++ " fixed fields"
  | .nameTooLong length => "Spawn name length " ++ length.repr ++ " exceeds 500 bytes"
  | .nameTruncated expected read =>
    "Spawn name truncated: expected " ++ expected.repr ++ " bytes, got " ++ read.repr
  | .shortWrite expected written =>
    "Spawn record short write: wrote " ++ written.repr ++ " of " ++ expected.repr ++ " fixed fields"
  | .transfer e => "IO error: " ++ e.message

def dump : RecordError → String
  | .truncated expected read =>
    "Truncated \x7b expected: " ++ expected.repr ++ ", read: " ++ read.repr ++ " \x7d"
  | .nameTooLong length => "NameTooLong(" ++ length.repr ++ ")"
  | .nameTruncated expected read =>
    "NameTruncated \x7b expected: " ++ expected.repr ++ ", read: " ++ read.repr ++ " \x7d"
  | .shortWrite expected written =>
    "ShortWrite \x7b expected: " ++ expected.repr ++ ", written: " ++ written.repr ++ " \x7d"
  | .transfer e => "IoError(" ++ e.dump ++ ")"

end RecordError

end Placement
