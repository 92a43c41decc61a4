/-
  Placement/Transform.lean
  ========================
  **From world space to the space of a placed model and back.**

  A model is turned, scaled and moved to its place.  Queries go the other way, so the
  transform keeps the inverse rotation and the inverse scale.  The way back uses the
  transpose of the inverse rotation, which for a rotation is the rotation itself.

  Only a scale that is finite and positive gives a transform, since each query divides
  by it.
-/
import Placement.Geometry.Rotation
import Placement.Geometry.Ray
import Placement.Spawn.Basic
import Placement.Decimal.Text

namespace Placement

/-- A spawn cannot be placed: its scale is not both finite and positive. -/
structure UnusableScale (α : Type) where
  id : UInt32
  scale : α
  deriving DecidableEq

def UnusableScale.message (e : UnusableScale Binary32) : String :=
  "Spawn " ++ e.id.toNat.repr ++ " has unusable scale " ++ e.scale.text .message

structure Transform (α : Type) where
  position : Vec3 α
  scale : α
  invRotation : Mat3 α
  invScale : α
  deriving DecidableEq

namespace Transform

variable {α : Type}

def ofSpawn [Angular α] (s : Spawn α) : Except (UnusableScale α) (Transform α) :=
  if Scalar.isFinite s.scale ∧ Scalar.zero < s.scale then
    .ok {
      position := s.position
      scale := s.scale
      invRotation := (Mat3.ofDegrees s.rotation).transpose
      invScale := Scalar.one / s.scale }
  else .error ⟨s.id, s.scale⟩

theorem ofSpawn_eq_ok_iff [Angular α] {s : Spawn α} {t : Transform α} :
    ofSpawn s = .ok t ↔ (Scalar.isFinite s.scale = true ∧ Scalar.zero < s.scale) ∧
      t = ⟨s.position, s.scale, (Mat3.ofDegrees s.rotation).transpose, Scalar.one / s.scale⟩ := by
  rw [ofSpawn]
  split
  · rename_i husable
    rw [Except.ok.injEq]
    exact ⟨fun h => ⟨husable, h.symm⟩, fun h => h.2.symm⟩
  · rename_i hunusable
    constructor
    · intro h
      cases h
    · intro h
      exact absurd h.1 hunusable

variable [Scalar α]

/-- The place in the model of a point of the world. -/
def toModel (t : Transform α) (p : Vec3 α) : Vec3 α :=
  t.invRotation * (p - t.position) * t.invScale

/-- The place in the world of a point of the model. -/
def toWorld (t : Transform α) (q : Vec3 α) : Vec3 α :=
  t.invRotation.transpose * q * t.scale + t.position

/-- A direction of the world as seen in the model; its length stays the same. -/
def directionInModel (t : Transform α) (d : Vec3 α) : Vec3 α := t.invRotation * d

/-- A ray of the world as seen in the model.  Its parameters there are those in the
    world times the inverse scale. -/
def rayInModel (t : Transform α) (r : Ray α) : Ray α :=
  ⟨t.toModel r.origin, t.directionInModel r.direction⟩

/-- The box in the world around a box of the model. -/
def boundInWorld (t : Transform α) (modelBound : Box α) : Box α :=
  modelBound.image t.invRotation.transpose t.scale t.position

end Transform

/-- Attach the bound that follows from the bound of the model and the place of the spawn. -/
def Spawn.attachModelBound {α : Type} [Angular α] (modelBound : Box α) (s : Spawn α) :
    Except (UnusableScale α) (Spawn α) :=
  (Transform.ofSpawn s).map fun t => s.attachBound (t.boundInWorld modelBound)

end Placement
