/-
  Placement/Spawn/Basic.lean
  ==========================
  **Spawns: one model placed in the world.**

  A spawn names a model and says where it stands, how it is turned and how large it is.
  Some spawns carry the box they fill in the world, their *bound*.  Whether a bound is
  there is also said by one of the flag bits, and readers of the stored form go by that
  bit alone.  `addFlags` and `attachBound` are the ways to change either, and they keep
  the bit and the bound in step: the bit is never taken from a caller, only set together
  with a bound.
-/
import Placement.Geometry.Box
import Placement.Text.Utf8

namespace Placement

/-- What the flag bits of a spawn can say.  Other bits are kept as they are. -/
inductive SpawnFlag
  /-- The model is a doodad: it collides, but says nothing about areas and liquids. -/
  | doodad
  /-- The model is the one that stands for a whole map. -/
  | worldSpawn
  | bounded
  deriving DecidableEq

namespace SpawnFlag

def bit : SpawnFlag → UInt32
  | doodad => 1
  | worldSpawn => 2
  | bounded => 4

/-- Whether the bit is set among some bits. -/
def isSet (flag : SpawnFlag) (flags : UInt32) : Bool := flags &&& flag.bit != 0

end SpawnFlag

/-- One placed model. -/
structure Spawn (α : Type) where
  flags : UInt32
  /-- The tile of the map that the spawn belongs to. -/
  tile : UInt16
  /-- Unique among the spawns of one file only. -/
  id : UInt32
  position : Vec3 α
  /-- Angles in degrees. -/
  rotation : Vec3 α
  scale : α
  bound : Option (Box α)
  /-- The name of the model, as stored. -/
  name : List UInt8
  deriving DecidableEq

namespace Spawn

variable {α : Type}

/-- The longest name a spawn can be stored with. -/
def maxNameLength : Nat := 500

/-- A spawn without flags and without a bound. -/
def unbounded (id : UInt32) (tile : UInt16) (name : List UInt8) (position rotation : Vec3 α)
    (scale : α) : Spawn α :=
  { flags := 0, tile, id, position, rotation, scale, bound := none, name }

/-- Set more flag bits; the bit of the bound is left as it is. -/
def addFlags (flags : UInt32) (s : Spawn α) : Spawn α :=
  { s with flags := s.flags ||| (flags &&& ~~~SpawnFlag.bounded.bit) }

/-- Set or replace the bound, and its bit. -/
def attachBound (bound : Box α) (s : Spawn α) : Spawn α :=
  { s with bound := some bound, flags := s.flags ||| SpawnFlag.bounded.bit }

def has (s : Spawn α) (flag : SpawnFlag) : Bool := flag.isSet s.flags

/-- The name as text; bytes that are no text are shown by replacement characters. -/
def shownName (s : Spawn α) : String := Utf8.decodeLossy s.name

/-- Whether two records stand for one placement. -/
def sameId (a b : Spawn α) : Bool := a.id == b.id

/-- Equality of all fields, numbers compared by value: one that is no number differs
    from itself, and both zeros are equal. -/
def sameValue [Scalar α] (a b : Spawn α) : Bool :=
  a.flags == b.flags && a.tile == b.tile && a.id == b.id
    && a.position.sameValue b.position && a.rotation.sameValue b.rotation
    && Scalar.sameValue a.scale b.scale
    && (match a.bound, b.bound with
        | some a, some b => a.sameValue b
        | none, none => true
        | _, _ => false)
    && a.name == b.name

end Spawn

end Placement
