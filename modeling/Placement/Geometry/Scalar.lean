/-
  Placement/Geometry/Scalar.lean
  ==============================
  **What geometry asks of its numbers.**

  Boxes, rays, transforms and queries are written once, over any type of scalars: the
  five operations, an order, a few constants and two infinities.  Programs run them on
  32-bit numbers; statements about exact arithmetic read them over an ordered field
  with the two infinities added as sentinels.

  No law is asked for.  In particular `a ≤ a` may fail: a scalar that is not comparable
  with itself is not a number (`isNaN`).
-/
import Placement.Binary32.Angle

namespace Placement

/-- Scalars of geometry. -/
class Scalar (α : Type) extends Add α, Sub α, Mul α, Div α, Neg α, LE α, LT α where
  zero : α
  one : α
  half : α
  posInf : α
  negInf : α
  abs : α → α
  decidableLE : ∀ a b : α, Decidable (a ≤ b)
  decidableLT : ∀ a b : α, Decidable (a < b)

namespace Scalar

variable {α : Type} [Scalar α]

instance (a b : α) : Decidable (a ≤ b) := decidableLE a b

instance (a b : α) : Decidable (a < b) := decidableLT a b

/-- Equality of values: each is at most the other. -/
def sameValue (a b : α) : Bool := decide (a ≤ b) && decide (b ≤ a)

def isNaN (a : α) : Bool := !decide (a ≤ a)

def isInfinite (a : α) : Bool := decide (posInf ≤ a) || decide (a ≤ negInf)

def isFinite (a : α) : Bool := decide (negInf < a) && decide (a < posInf)

/-- The lesser of two scalars; what is not a number gives way to the other. -/
def min (a b : α) : α := if isNaN b then a else if a < b then a else b

/-- The greater of two scalars; what is not a number gives way to the other. -/
def max (a b : α) : α := if isNaN b then a else if b < a then a else b

end Scalar

/-- Scalars that measure angles in degrees. -/
class Angular (α : Type) extends Scalar α where
  /-- The cosine and sine of an angle. -/
  turn : α → Turn α

instance : Scalar Binary32 where
  zero := Binary32.zero
  one := Binary32.one
  half := Binary32.half
  posInf := Binary32.posInf
  negInf := Binary32.negInf
  abs := Binary32.abs
  decidableLE := inferInstance
  decidableLT := inferInstance

instance : Angular Binary32 where
  turn := Binary32.turnOfDegrees

end Placement
