/-
  Placement/Inspect/Arguments.lean
  ================================
  **The arguments of the spawn inspector.**

  The inspector takes one file and some options.  An option that takes a value has it
  behind an equals sign or as the next argument.  A value in an argument of its own is
  looked at only when the next argument is understood, so a later argument that is
  unknown is reported before an earlier value that cannot be read; a value behind an
  equals sign is looked at right away.
-/
import Placement.Geometry.Ray
import Placement.Decimal.Numeral
import Placement.Text.Blank
import Placement.Text.Terminal

namespace Placement

namespace Inspect

/-- What the inspector is asked to do. -/
structure Arguments where
  file : String
  config : Option String
  verify : Bool
  ray : Option (Ray Binary32)
  point : Option (Vec3 Binary32)
  quiet : Bool
  deriving DecidableEq

/-! ### Options -/

inductive ValueOption
  | config
  | ray
  | point
  deriving DecidableEq

inductive Switch
  | verify
  | quiet
  | help
  deriving DecidableEq

inductive Opt
  | value (o : ValueOption)
  | switch (s : Switch)

def ValueOption.shown : ValueOption → String
  | .config => "--config <CONFIG>"
  | .ray => "--ray <RAY>"
  | .point => "--point <POINT>"

def Switch.shown : Switch → String
  | .verify => "--verify"
  | .quiet => "--quiet"
  | .help => "--help"

def fileShown : String := "<FILE>"

def Opt.ofName? (name : String) : Option Opt :=
  match name with
  | "config" => some (.value .config)
  | "ray" => some (.value .ray)
  | "point" => some (.value .point)
  | "verify" => some (.switch .verify)
  | "quiet" => some (.switch .quiet)
  | "help" => some (.switch .help)
  | _ => none

def Switch.ofLetter? : Char → Option Switch
  | 'q' => some .quiet
  | 'h' => some .help
  | _ => none

/-! ### What can go wrong -/

inductive NumbersError
  | badNumber (text : String) (e : NumeralError)
  | wrongCount (expected got : Nat)
  deriving DecidableEq

def NumbersError.message : NumbersError → String
  | .badNumber text e => "'" ++ text ++ "': " ++ e.message
  | .wrongCount expected got =>
    "expected " ++ expected.repr ++ " comma-separated numbers, got " ++ got.repr

inductive UsageError
  | unknownArgument (argument : String)
  | needlessValue (value option : String)
  | missingValue (option : String)
  | repeated (option : String)
  | badValue (value option : String) (e : NumbersError)
  | missingFile
  /-- No error, but a call for help. -/
  | helpWanted
  deriving DecidableEq

/-- The error in words, with what was typed and what can be typed set off. -/
def UsageError.text : UsageError → String
  | .unknownArgument a => "unexpected argument '" ++ invalid a ++ "' found"
  | .needlessValue v o =>
    "unexpected value '" ++ invalid v ++ "' for '" ++ literal o ++ "' found; no more were expected"
  | .missingValue o => "a value is required for '" ++ literal o ++ "' but none was supplied"
  | .repeated o => "the argument '" ++ invalid o ++ "' cannot be used multiple times"
  | .badValue v o e => "invalid value '" ++ invalid v ++ "' for '" ++ literal o ++ "': " ++ e.message
  | .missingFile => "the following required arguments were not provided:\n  " ++ literal fileShown
  | .helpWanted => ""
where
  invalid (s : String) : String := Terminal.Style.invalid.apply s
  literal (s : String) : String := Terminal.Style.literal.apply s

/-- The whole complaint.  The text of an unreadable number is quoted in it as it is, so what
    follows it is part of what a terminal makes of that text. -/
def UsageError.message (e : UsageError) : String :=
  Terminal.Style.alarm.apply "error:" ++ " " ++ e.text
    ++ "\n\nFor more information, try '" ++ Terminal.Style.literal.apply "--help" ++ "'."

/-! ### Numbers -/

def splitCommas : List Char → List (List Char)
  | [] => [[]]
  | c :: cs =>
    if c = ',' then [] :: splitCommas cs
    else
      match splitCommas cs with
      | part :: parts => (c :: part) :: parts
      | [] => [[c]]

/-- Numbers between commas, each with white space around it or not. -/
def numbers (count : Nat) (text : String) : Except NumbersError (List Binary32) := do
  let values ← (splitCommas text.toList).mapM fun part =>
    (Binary32.ofText? (Blank.trim part)).mapError (.badNumber (String.ofList part))
  if values.length = count then return values
  else throw (.wrongCount count values.length)

def point (text : String) : Except NumbersError (Vec3 Binary32) := do
  match ← numbers 3 text with
  | [x, y, z] => return ⟨x, y, z⟩
  | values => throw (.wrongCount 3 values.length)

/-- A ray, by the coordinates of its origin and of its direction. -/
def ray (text : String) : Except NumbersError (Ray Binary32) := do
  match ← numbers 6 text with
  | [ox, oy, oz, dx, dy, dz] => return ⟨⟨ox, oy, oz⟩, ⟨dx, dy, dz⟩⟩
  | values => throw (.wrongCount 6 values.length)

/-! ### Reading the arguments -/

/-- A value that has not been looked at yet. -/
inductive Pending
  /-- The value of an option, once it is there. -/
  | option (o : ValueOption) (value : Option String)
  | file (value : String)

structure Draft where
  file : Option String
  config : Option String
  ray : Option (Ray Binary32)
  point : Option (Vec3 Binary32)
  switches : List Switch
  pending : Option Pending
  /-- Whether a file was named, looked at or not. -/
  fileNamed : Bool
  /-- After two dashes on their own, no argument is an option any more. -/
  onlyFiles : Bool

namespace Draft

def empty : Draft :=
  { file := none, config := none, ray := none, point := none, switches := [], pending := none,
    fileNamed := false, onlyFiles := false }

/-- Look at the value of an option, which must not have one already. -/
def setOption (d : Draft) (o : ValueOption) (text : String) : Except UsageError Draft :=
  let bad := UsageError.badValue text o.shown
  match o with
  | .config =>
    if d.config.isSome then .error (.repeated o.shown)
    else if text = "" then .error (.missingValue o.shown)
    else .ok { d with config := some text }
  | .ray =>
    if d.ray.isSome then .error (.repeated o.shown)
    else ((Inspect.ray text).mapError bad).map fun r => { d with ray := some r }
  | .point =>
    if d.point.isSome then .error (.repeated o.shown)
    else ((Inspect.point text).mapError bad).map fun p => { d with point := some p }

/-- Look at the value that is pending, if there is one. -/
def settle (d : Draft) : Except UsageError Draft :=
  let rest := { d with pending := none }
  match d.pending with
  | none => .ok d
  | some (.option o none) => .error (.missingValue o.shown)
  | some (.option o (some text)) => rest.setOption o text
  | some (.file "") => .error (.missingValue fileShown)
  | some (.file text) => .ok { rest with file := some text }

/-- Turn a switch on, which must not be on already. -/
def setSwitch (d : Draft) (s : Switch) : Except UsageError Draft := do
  let d ← d.settle
  if s = .help then throw .helpWanted
  else if s ∈ d.switches then throw (.repeated s.shown)
  else return { d with switches := s :: d.switches }

/-- Turn on the switches of an argument with one dash. -/
def setLetters : List Char → Draft → Except UsageError Draft
  | [], d => .ok d
  | c :: cs, d =>
    match Switch.ofLetter? c with
    | none => .error (.unknownArgument (String.ofList ['-', c]))
    | some s => (d.setSwitch s) >>= setLetters cs

/-- Take an option with its long name, and its value if there is an equals sign. -/
def setNamed (d : Draft) (body : List Char) : Except UsageError Draft :=
  let name := String.ofList (body.takeWhile (· ≠ '='))
  let attached := match body.dropWhile (· ≠ '=') with
    | [] => none
    | _ :: value => some (String.ofList value)
  match Opt.ofName? name, attached with
  | none, _ => .error (.unknownArgument ("--" ++ name))
  | some (.switch s), some value => .error (.needlessValue value s.shown)
  | some (.switch s), none => d.setSwitch s
  | some (.value o), some value => do (← d.settle).setOption o value
  | some (.value o), none => do return { ← d.settle with pending := some (.option o none) }

/-- Take an argument that is no option: the value that an option waits for, or the file. -/
def setPlain (d : Draft) (text : String) : Except UsageError Draft :=
  match d.onlyFiles, d.pending with
  | false, some (.option o none) => .ok { d with pending := some (.option o (some text)) }
  | _, _ =>
    if d.fileNamed then .error (.unknownArgument text)
    else do return { ← d.settle with pending := some (.file text), fileNamed := true }

def take (d : Draft) (argument : String) : Except UsageError Draft :=
  if d.onlyFiles then d.setPlain argument
  else
    match argument.toList with
    | ['-', '-'] => .ok { d with onlyFiles := true }
    | '-' :: '-' :: body => d.setNamed body
    | '-' :: c :: cs => d.setLetters (c :: cs)
    | _ => d.setPlain argument

def finish (d : Draft) : Except UsageError Arguments := do
  let d ← d.settle
  match d.file with
  | none => throw .missingFile
  | some file =>
    return {
      file
      config := d.config
      verify := d.switches.contains .verify
      ray := d.ray
      point := d.point
      quiet := d.switches.contains .quiet }

end Draft

def Arguments.read (arguments : List String) : Except UsageError Arguments := do
  (← arguments.foldlM Draft.take Draft.empty).finish

/-- What the inspector tells about itself. -/
def help : String :=
  "List model spawn records and test rays/points against their bounds\n\n"
    ++ "Usage: spawn_dump [OPTIONS] <FILE>\n\n"
    ++ "Arguments:\n"
    ++ "  <FILE>  Spawn file to read\n\n"
    ++ "Options:\n"
    ++ "      --config <CONFIG>  Query config (TOML); defaults are used when omitted\n"
    ++ "      --verify           Re-encode every record and compare with the bytes on disk\n"
    ++ "      --ray <RAY>        List spawns whose bound a ray reaches: \"ox,oy,oz,dx,dy,dz\"\n"
    ++ "      --point <POINT>    List area-carrying spawns whose bound contains a point: \"x,y,z\"\n"
    ++ "  -q, --quiet            Only print the summary\n"
    ++ "  -h, --help             Print help\n"

end Inspect

end Placement
