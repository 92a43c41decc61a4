/-
  Placement/Bytes/Fault.lean
  ==========================
  **Errors of input and output.**

  An error has a kind, which readers and writers decide on, and a message, which they
  pass on.  Errors of the operating system carry its number as well.
-/

namespace Placement

/-- The kinds of error of input and output. -/
inductive IoErrorKind
  | notFound
  | permissionDenied
  | notADirectory
  | isADirectory
  | invalidFilename
  | invalidData
  /-- The call was broken off before it did anything, and may be tried again. -/
  | interrupted
  /-- The data ended before it should have. -/
  | unexpectedEof
  /-- Nothing was accepted of what was to be written. -/
  | writeZero
  | other
  deriving DecidableEq

def IoErrorKind.name : IoErrorKind → String
  | .notFound => "NotFound"
  | .permissionDenied => "PermissionDenied"
  | .notADirectory => "NotADirectory"
  | .isADirectory => "IsADirectory"
  | .invalidFilename => "InvalidFilename"
  | .invalidData => "InvalidData"
  | .interrupted => "Interrupted"
  | .unexpectedEof => "UnexpectedEof"
  | .writeZero => "WriteZero"
  | .other => "Other"

/-- An error of input or output. -/
structure IoError where
  kind : IoErrorKind
  text : String
  /-- The number of the error, if it is one of the operating system. -/
  osCode : Option Nat
  deriving DecidableEq

namespace IoError

def noSuchFile : IoError := ⟨.notFound, "No such file or directory", some 2⟩
def noPermission : IoError := ⟨.permissionDenied, "Permission denied", some 13⟩
def notDirectory : IoError := ⟨.notADirectory, "Not a directory", some 20⟩
def isDirectory : IoError := ⟨.isADirectory, "Is a directory", some 21⟩
def nameTooLong : IoError := ⟨.invalidFilename, "File name too long", some 36⟩

/-- Text was asked for, and the bytes are none. -/
def notText : IoError := ⟨.invalidData, "stream did not contain valid UTF-8", none⟩

def sinkFull : IoError := ⟨.writeZero, "failed to write whole buffer", none⟩

/-- A source or sink breaks off every call it was expected to. -/
def keepsInterrupting : IoError := ⟨.interrupted, "operation interrupted", none⟩

def message (e : IoError) : String :=
  match e.osCode with
  | some code => e.text ++ " (os error " ++ code.repr ++ ")"
  | none => e.text

def dump (e : IoError) : String :=
  match e.osCode with
  | some code =>
    "Os \x7b code: " ++ code.repr ++ ", kind: " ++ e.kind.name ++ ", message: \"" ++ e.text ++ "\" \x7d"
  | none => "Error \x7b kind: " ++ e.kind.name ++ ", message: \"" ++ e.text ++ "\" \x7d"

end IoError

/-- An error that a source or sink meets when it stands at an offset. -/
structure Fault where
  offset : Nat
  error : IoError
  deriving DecidableEq

namespace Fault

/-- The error that strikes at `offset`, with the faults left for later: of several there,
    the first. -/
def strike? (offset : Nat) : List Fault → Option (IoError × List Fault)
  | [] => none
  | f :: fs =>
    if f.offset = offset then some (f.error, fs)
    else (strike? offset fs).map fun (e, rest) => (e, f :: rest)

/-- How many of `count` bytes pass from `offset` on before the next fault. -/
def clear (offset : Nat) (faults : List Fault) (count : Nat) : Nat :=
  faults.foldl (fun n f => if offset < f.offset then min n (f.offset - offset) else n) count

end Fault

end Placement
