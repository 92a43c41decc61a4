/-
  Placement/Geometry/Ray.lean
  ===========================
  **Rays, and when they enter a box.**

  A ray is an origin and a direction of any length; its points are numbered by
  multiples of the direction.  A box is the common part of three slabs, one an axis,
  and the ray is inside each of them for one stretch of those numbers.  `Span.clip`
  shortens a stretch to a slab; `entryTime` is where the stretch left over by all three
  begins.
-/
import Placement.Geometry.Box

namespace Placement

structure Ray (α : Type) where
  origin : Vec3 α
  direction : Vec3 α
  deriving DecidableEq

/-- A stretch of a ray, by the parameters where it starts and ends. -/
structure Span (α : Type) where
  enter : α
  exit : α
  deriving DecidableEq

namespace Span

variable {α : Type} [Scalar α]

/-- The whole line of a ray, behind its origin too. -/
def whole : Span α := ⟨Scalar.negInf, Scalar.posInf⟩

/-- The part of a stretch between the planes `low` and `high` of one axis, along which the
    ray starts at `origin` and moves by `direction`.  A ray along the planes is between
    them everywhere or nowhere. -/
def clip (s : Span α) (origin direction low high : α) : Option (Span α) :=
  if Scalar.sameValue direction Scalar.zero then
    if origin < low ∨ high < origin then none else some s
  else
    let pace := Scalar.one / direction
    let toLow := (low - origin) * pace
    let toHigh := (high - origin) * pace
    let (near, far) := if toLow < toHigh then (toLow, toHigh) else (toHigh, toLow)
    some ⟨Scalar.max s.enter near, Scalar.min s.exit far⟩

/-- The first parameter of a stretch that is not behind the origin; infinite if there is none. -/
def start (s : Span α) : α :=
  let enter := Scalar.max s.enter Scalar.zero
  if s.exit < enter then Scalar.posInf else enter

end Span

namespace Ray

variable {α : Type} [Scalar α]

def pointAt (r : Ray α) (t : α) : Vec3 α := r.origin + r.direction * t

/-- The stretch of the ray inside a box, unless it runs beside one of the slabs. -/
def span? (r : Ray α) (b : Box α) : Option (Span α) := do
  let s ← Span.whole.clip r.origin.x r.direction.x b.low.x b.high.x
  let s ← s.clip r.origin.y r.direction.y b.low.y b.high.y
  s.clip r.origin.z r.direction.z b.low.z b.high.z

/-- The parameter of the first point of the ray in the box: zero if it starts inside,
    infinite if it misses. -/
def entryTime (r : Ray α) (b : Box α) : α :=
  match r.span? b with
  | none => Scalar.posInf
  | some s => s.start

def sameValue (a b : Ray α) : Bool :=
  a.origin.sameValue b.origin && a.direction.sameValue b.direction

end Ray

end Placement
