/-
  Placement/Geometry/Rotation.lean
  ================================
  **Rotations from three angles.**

  A rotation is built from the cosines and sines of its angles, so that it is a
  rotation whenever each pair has length one, whatever the angles are.

  A spawn stores its angles in the order of its own axes: `y` turns about the upright
  axis, `x` about the second and `z` about the first.
-/
import Placement.Geometry.Vec3

namespace Placement

namespace Mat3

variable {α : Type} [Scalar α]

/-- The turn about the first axis. -/
def aboutX (t : Turn α) : Mat3 α :=
  ⟨⟨Scalar.one, Scalar.zero, Scalar.zero⟩,
   ⟨Scalar.zero, t.cos, t.sin⟩,
   ⟨Scalar.zero, -t.sin, t.cos⟩⟩

/-- The turn about the second axis. -/
def aboutY (t : Turn α) : Mat3 α :=
  ⟨⟨t.cos, Scalar.zero, -t.sin⟩,
   ⟨Scalar.zero, Scalar.one, Scalar.zero⟩,
   ⟨t.sin, Scalar.zero, t.cos⟩⟩

/-- The turn about the third, upright axis. -/
def aboutZ (t : Turn α) : Mat3 α :=
  ⟨⟨t.cos, t.sin, Scalar.zero⟩,
   ⟨-t.sin, t.cos, Scalar.zero⟩,
   ⟨Scalar.zero, Scalar.zero, Scalar.one⟩⟩

/-- First roll about the first axis, then pitch about the second, then turn upright. -/
def ofTurns (upright pitch roll : Turn α) : Mat3 α := aboutZ upright * aboutY pitch * aboutX roll

/-- The rotation of a spawn with the given angles in degrees. -/
def ofDegrees {α : Type} [Angular α] (angles : Vec3 α) : Mat3 α :=
  ofTurns (Angular.turn angles.y) (Angular.turn angles.x) (Angular.turn angles.z)

end Mat3

end Placement
