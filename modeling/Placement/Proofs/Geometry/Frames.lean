/-
  Placement/Proofs/Geometry/Frames.lean
  =====================================
  **Between the world and a model, exactly.**

  The transpose undoes a rotation, and an inverse scale the scale.  So a transform leads
  from the world to the model and back to where it began (`Transform.Faithful`), and the ray
  that a model sees passes through the images of the points of the ray in the world, at
  parameters that are shorter by the scale.
-/
import Placement.Proofs.Geometry.Rotations

namespace Placement

variable {K : Type} [Field K]

/-! ### Transforms -/

namespace Transform

theorem pointToModel_point (t : Transform K) (r : Ray K) (u : K) :
    t.pointToModel (r.point u) = (t.rayToModel r).point (u * t.invScale) := by
  simp only [pointToModel, rayToModel, Ray.point, Mat3.apply, Vec3.mk.injEq]
  refine ⟨?_, ?_, ?_⟩ <;> ring

variable [LinearOrder K]

/-- A transform that leads back: its scale is positive and undone by the inverse scale, and
    its rotation by the inverse rotation. -/
structure Faithful (t : Transform K) : Prop where
  scale_pos : 0 < t.scale
  scale_mul : t.scale * t.invScale = 1
  rotation : t.invRotation.transpose.Undone

theorem Faithful.mul_mul_scale {t : Transform K} (h : t.Faithful) (u : K) :
    u * t.invScale * t.scale = u := by
  rw [mul_assoc, mul_comm t.invScale, h.scale_mul, mul_one]

theorem Faithful.invScale_pos [IsStrictOrderedRing K] {t : Transform K} (h : t.Faithful) :
    0 < t.invScale := by
  have hproduct : 0 < t.scale * t.invScale := by
    rw [h.scale_mul]
    exact one_pos
  exact (pos_iff_pos_of_mul_pos hproduct).mp h.scale_pos

theorem Faithful.pointToWorld_pointToModel {t : Transform K} (h : t.Faithful) (p : Vec3 K) :
    t.pointToWorld (t.pointToModel p) = p := by
  obtain ⟨x, y, z⟩ := p
  have hback := h.rotation ⟨x - t.position.x, y - t.position.y, z - t.position.z⟩
  simp only [Mat3.apply, Mat3.transpose, Vec3.mk.injEq] at hback
  obtain ⟨hx, hy, hz⟩ := hback
  have hscale := h.scale_mul
  simp only [pointToWorld, pointToModel, Mat3.apply, Mat3.transpose, Vec3.mk.injEq]
  refine ⟨?_, ?_, ?_⟩
  · linear_combination t.scale * t.invScale * hx + (x - t.position.x) * hscale
  · linear_combination t.scale * t.invScale * hy + (y - t.position.y) * hscale
  · linear_combination t.scale * t.invScale * hz + (z - t.position.z) * hscale

end Transform

/-! ### Angles -/

/-- Angles with a cosine and a sine in a field. -/
class Turning (K : Type) [Field K] where
  turn : K → Turn K
  unit : ∀ angle : K, (turn angle).cos ^ 2 + (turn angle).sin ^ 2 = 1

variable [Turning K]

/-- The rotation of a spawn with the given angles. -/
def Mat3.turned (angles : Vec3 K) : Mat3 K :=
  turns (Turning.turn angles.y) (Turning.turn angles.x) (Turning.turn angles.z)

theorem Mat3.isRotation_turned (angles : Vec3 K) : (Mat3.turned angles).IsRotation :=
  isRotation_turns (Turning.unit angles.y) (Turning.unit angles.x) (Turning.unit angles.z)

/-- The transform of a spawn. -/
def Spawn.transform (s : Spawn K) : Transform K :=
  ⟨s.position, s.scale, (Mat3.turned s.rotation).transpose, 1 / s.scale⟩

variable [LinearOrder K]

theorem Spawn.faithful_transform [IsStrictOrderedRing K] {s : Spawn K} (hscale : 0 < s.scale) :
    s.transform.Faithful :=
  ⟨hscale, mul_one_div_cancel hscale.ne', (Mat3.isRotation_turned s.rotation).undone⟩

/-- An infinite angle is none; its turn has no meaning. -/
instance : Angular (Exact K) where
  turn
    | .number angle => (Turning.turn angle).exact
    | _ => ⟨Scalar.one, Scalar.zero⟩

theorem Mat3.ofDegrees_exact (angles : Vec3 K) :
    Mat3.ofDegrees angles.exact = (Mat3.turned angles).exact := rfl

/-- Every positive scale gives a transform. -/
theorem Transform.ofSpawn_exact {s : Spawn K} (hscale : 0 < s.scale) :
    Transform.ofSpawn s.exact = .ok s.transform.exact := by
  have husable : Scalar.isFinite s.exact.scale = true ∧ Scalar.zero < s.exact.scale :=
    ⟨Exact.isFinite_number s.scale, Exact.number_lt_number.mpr hscale⟩
  have hdegrees : Mat3.ofDegrees s.exact.rotation = (Mat3.turned s.rotation).exact :=
    Mat3.ofDegrees_exact s.rotation
  rw [Transform.ofSpawn, if_pos husable, hdegrees]
  rfl

end Placement
