/-
  Placement/Main.lean
  ===================
  **The spawn inspector as a program.**

  Files are read here, and nowhere else; what is done with them is `Inspect.run`.
-/
import Placement.Inspect.Run

namespace Placement.Inspect

/-- The error of a file that could not be read. -/
def ioErrorOf : IO.Error → IoError
  | .noFileOrDirectory .. => .noSuchFile
  | .permissionDenied .. => .noPermission
  | .inappropriateType _ code _ => if code = 20 then .notDirectory else .isDirectory
  | .invalidArgument _ 36 _ => .nameTooLong
  | e => ⟨.other, toString e, none⟩

/-- What a path leads to.  What opens but cannot be read, such as a directory, is a source
    that fails at its start. -/
def openFile (path : String) : IO (Except IoError ByteStream) := do
  match ← (IO.FS.Handle.mk path .read).toBaseIO with
  | .error e => return .error (ioErrorOf e)
  | .ok handle =>
    match ← handle.readBinToEnd.toBaseIO with
    | .error e => return .ok ⟨[], 0, none, [⟨0, ioErrorOf e⟩]⟩
    | .ok bytes => return .ok ⟨bytes.data.toList, 0, none, []⟩

end Placement.Inspect

open Placement in
/-- Run the inspector on the files that its arguments name. -/
def main (arguments : List String) : IO UInt32 := do
  let paths := match Inspect.Arguments.read arguments with
    | .ok args => args.file :: args.config.toList
    | .error _ => []
  let opened ← paths.mapM fun path => do return (path, ← Inspect.openFile path)
  let files : Inspect.Files := fun path => (opened.lookup path).getD (.error .noSuchFile)
  let outcome := Inspect.run arguments files
  for line in outcome.output do
    IO.println line.text
  unless outcome.complaint.isEmpty do
    IO.eprintln outcome.complaint
  return UInt32.ofNat outcome.exitCode
