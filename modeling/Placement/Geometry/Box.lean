/-
  Placement/Geometry/Box.lean
  ===========================
  **Boxes along the axes.**

  A box is a pair of corners.  Nothing keeps the low corner below the high one: boxes
  come out of files as they are.  `ofPoints?` is the smallest box around some points,
  and `image` the box around a turned, scaled and moved box, by way of its centre
  and half extents.
-/
import Placement.Geometry.Vec3

namespace Placement

structure Box (α : Type) where
  low : Vec3 α
  high : Vec3 α
  deriving DecidableEq

namespace Box

variable {α : Type} [Scalar α]

/-- The smallest box around all points, if there is one. -/
def ofPoints? : List (Vec3 α) → Option (Box α)
  | [] => none
  | p :: ps => some (ps.foldl (fun b q => ⟨b.low.min q, b.high.max q⟩) ⟨p, p⟩)

def center (b : Box α) : Vec3 α := (b.low + b.high) * (Scalar.half : α)

def halfSize (b : Box α) : Vec3 α := (b.high - b.low) * (Scalar.half : α)

/-- Whether a point lies in the box or on its faces. -/
def contains (b : Box α) (p : Vec3 α) : Bool :=
  Vec3.all₂ (fun lo c => decide (lo ≤ c)) b.low p && Vec3.all₂ (fun c hi => decide (c ≤ hi)) p b.high

/-- The box around this one after `v ↦ rotation * (v * scale) + shift`.  The centre
    is mapped, and each half extent becomes the sum of what the old ones reach along that
    axis, whatever their signs. -/
def image (b : Box α) (rotation : Mat3 α) (scale : α) (shift : Vec3 α) : Box α :=
  let center := rotation * (b.center * scale) + shift
  let reach := rotation.abs * (b.halfSize * scale)
  ⟨center - reach, center + reach⟩

def sameValue (a b : Box α) : Bool := a.low.sameValue b.low && a.high.sameValue b.high

end Box

end Placement
