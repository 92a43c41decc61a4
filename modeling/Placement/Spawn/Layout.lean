/-
  Placement/Spawn/Layout.lean
  ===========================
  **How a spawn is laid out in bytes.**

  Records stand back to back, without any mark between them:

      flags      4 bytes    the bit of the bound decides about the layout
      tile       2
      id         4
      position   3 × 4
      rotation   3 × 4
      scale      4
      bound      6 × 4      low corner, high corner; only if its bit is set
      length     4          of the name
      name       length

  All words are little-endian.  Everything before the name is called a *field*; a
  record has 11 fields of 42 bytes, or 17 of 66 with a bound.

  The table is written down once, as the `parts` of a record and their measures.  What is
  stored, how it is cut into fields and where a reader finds each part follow from it.
-/
import Placement.Spawn.Basic
import Placement.Spawn.RecordError
import Placement.Bytes.LittleEndian

namespace Placement

namespace Spawn

/-! ### Parts -/

/-- The parts of a record before its name. -/
inductive Part
  | flags
  | tile
  | id
  | position
  | rotation
  | scale
  | low
  | high
  | nameLength
  deriving DecidableEq

/-- How many fields a part has. -/
def Part.count : Part → Nat
  | .position | .rotation | .low | .high => 3
  | _ => 1

/-- How wide each field of a part is, in bytes. -/
def Part.width : Part → Nat
  | .tile => 2
  | _ => 4

def Part.widths (part : Part) : List Nat := List.replicate part.count part.width

/-- The parts that a record has, in their order. -/
def parts (bounded : Bool) : List Part :=
  [.flags, .tile, .id, .position, .rotation, .scale] ++ (if bounded then [.low, .high] else [])
    ++ [.nameLength]

/-- Where a part begins in a row of parts: as far as those before it reach. -/
def Part.offsetIn (part : Part) : List Part → Nat
  | [] => 0
  | p :: ps => if p = part then 0 else p.count * p.width + part.offsetIn ps

/-- Where a part of a record begins behind the flags. -/
def Part.offset (bounded : Bool) (part : Part) : Nat := part.offsetIn (parts bounded).tail

/-! ### Fields -/

/-- The widths of all fields, in bytes. -/
def fieldWidths (bounded : Bool) : List Nat := (parts bounded).flatMap Part.widths

def fieldCount (bounded : Bool) : Nat := (fieldWidths bounded).length

def word32 (w : UInt32) : List UInt8 := LittleEndian.encode 4 w.toNat

/-- The bytes of the three components of a vector, one field each. -/
def vectorFields (v : Vec3 Binary32) : List (List UInt8) :=
  [word32 v.x.bits, word32 v.y.bits, word32 v.z.bits]

/-- The fields of a part.  The corners of a bound have none if there is no bound. -/
def partFields (s : Spawn Binary32) : Part → List (List UInt8)
  | .flags => [word32 s.flags]
  | .tile => [LittleEndian.encode 2 s.tile.toNat]
  | .id => [word32 s.id]
  | .position => vectorFields s.position
  | .rotation => vectorFields s.rotation
  | .scale => [word32 s.scale.bits]
  | .low => s.bound.elim [] fun b => vectorFields b.low
  | .high => s.bound.elim [] fun b => vectorFields b.high
  | .nameLength => [LittleEndian.encode 4 s.name.length]

def fields (s : Spawn Binary32) : List (List UInt8) :=
  (parts s.bound.isSome).flatMap s.partFields

/-! ### Reading fields back

The functions here read at the front of some bytes, and `ofFields` is given the bytes of
all fields but the flags. -/

def readWord32 (bs : List UInt8) : UInt32 := UInt32.ofNat (LittleEndian.decode (bs.take 4))

def readWord16 (bs : List UInt8) : UInt16 := UInt16.ofNat (LittleEndian.decode (bs.take 2))

def readNumber (bs : List UInt8) : Binary32 := ⟨readWord32 bs⟩

def readVector (bs : List UInt8) : Vec3 Binary32 :=
  ⟨readNumber bs, readNumber (bs.drop 4), readNumber (bs.drop 8)⟩

/-- The bytes from where a part begins. -/
def fromPart (bounded : Bool) (block : List UInt8) (part : Part) : List UInt8 :=
  block.drop (part.offset bounded)

/-- The stored length of the name, which is the last field. -/
def readNameLength (bounded : Bool) (block : List UInt8) : Nat :=
  (readWord32 (fromPart bounded block .nameLength)).toNat

/-- The spawn with the given flags, further fields and name. -/
def ofFields (flags : UInt32) (block name : List UInt8) : Spawn Binary32 :=
  let bounded := SpawnFlag.bounded.isSet flags
  let part := fromPart bounded block
  { flags
    tile := readWord16 (part .tile)
    id := readWord32 (part .id)
    position := readVector (part .position)
    rotation := readVector (part .rotation)
    scale := readNumber (part .scale)
    bound := if bounded then some ⟨readVector (part .low), readVector (part .high)⟩ else none
    name }

end Spawn

end Placement
