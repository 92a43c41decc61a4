/-
  Placement/Proofs/Geometry/Similarity.lean
  =========================================
  **Placing a model turns it, scales it and moves it, and nothing else.**

  The way into a model turns and scales, the way back uses the transpose and the scale.
  That they are inverse to each other needs the transpose to undo the rotation from both
  sides, and that a model keeps its shape needs inner products to survive the rotation;
  both come down to what a rotation is (`Mat3.IsRotation`).

  With exact numbers the two spaces are similar (`exact_similarity`): there and back is
  where one started, either way round, and every length along a ray is shorter in the model
  by the scale.
-/
import Mathlib.Tactic.NormNum
import Placement.Proofs.Geometry.Frames

namespace Placement

section Measures

variable {α : Type} [Scalar α]

def Vec3.dot (v w : Vec3 α) : α := v.x * w.x + v.y * w.y + v.z * w.z

def Vec3.cross (v w : Vec3 α) : Vec3 α :=
  ⟨v.y * w.z - v.z * w.y, v.z * w.x - v.x * w.z, v.x * w.y - v.y * w.x⟩

def Mat3.identity : Mat3 α :=
  ⟨⟨Scalar.one, Scalar.zero, Scalar.zero⟩, ⟨Scalar.zero, Scalar.one, Scalar.zero⟩,
    ⟨Scalar.zero, Scalar.zero, Scalar.one⟩⟩

def Mat3.det (m : Mat3 α) : α := m.zAxis.dot (m.xAxis.cross m.yAxis)

end Measures

variable {K : Type} [Field K]

def Vec3.minus (v w : Vec3 K) : Vec3 K := ⟨v.x - w.x, v.y - w.y, v.z - w.z⟩

/-! ### There and back -/

namespace Transform

theorem pointToModel_pointToWorld {t : Transform K} (hrotation : t.invRotation.Undone)
    (hscale : t.scale * t.invScale = 1) (q : Vec3 K) :
    t.pointToModel (t.pointToWorld q) = q := by
  obtain ⟨x, y, z⟩ := q
  have hback := hrotation ⟨x, y, z⟩
  simp only [Mat3.apply, Mat3.transpose, Vec3.mk.injEq] at hback
  obtain ⟨hx, hy, hz⟩ := hback
  simp only [pointToWorld, pointToModel, Mat3.apply, Mat3.transpose, Vec3.mk.injEq]
  refine ⟨?_, ?_, ?_⟩
  · linear_combination t.scale * t.invScale * hx + x * hscale
  · linear_combination t.scale * t.invScale * hy + y * hscale
  · linear_combination t.scale * t.invScale * hz + z * hscale

/-- The square of a distance in the model is that in the world times the square of the
    inverse scale. -/
theorem dotProduct_pointToModel {t : Transform K} (hrotation : t.invRotation.transpose.Undone)
    (p q : Vec3 K) :
    let apart := (t.pointToModel p).minus (t.pointToModel q)
    apart.dotProduct apart = t.invScale * t.invScale * (p.minus q).dotProduct (p.minus q) := by
  intro apart
  have hturned : (t.invRotation.apply (p.minus q)).dotProduct (t.invRotation.apply (p.minus q)) =
      (p.minus q).dotProduct (p.minus q) := Mat3.dotProduct_apply hrotation _ _
  rw [← hturned]
  simp only [apart, Vec3.dotProduct, Vec3.minus, pointToModel, Mat3.apply]
  ring

/-! ### Similar spaces -/

variable [LinearOrder K]

/-- **World and model are similar, exactly.**  Whatever three unit turns a rotation is made of,
    wherever the model stands and whatever its positive scale is, the transform that its
    spawn gives is built on a rotation, leads there and back either way round, keeps the
    inner product of directions, and takes the point of a ray at each parameter to the point
    of the ray seen in the model at this parameter times the inverse scale; so the square of
    a distance is multiplied by that of the inverse scale. -/
theorem exact_similarity {upright pitch roll : Turn K}
    (hupright : upright.cos ^ 2 + upright.sin ^ 2 = 1) (hpitch : pitch.cos ^ 2 + pitch.sin ^ 2 = 1)
    (hroll : roll.cos ^ 2 + roll.sin ^ 2 = 1) (position : Vec3 K) {scale : K} (hscale : 0 < scale) :
    let rotation : Mat3 (Exact K) := Mat3.ofTurns upright.exact pitch.exact roll.exact
    let t : Transform (Exact K) :=
      ⟨position.exact, .number scale, rotation.transpose, Scalar.one / .number scale⟩
    (∀ [Turning K] (s : Spawn K), s.position = position → s.scale = scale →
      Turning.turn s.rotation.y = upright → Turning.turn s.rotation.x = pitch →
      Turning.turn s.rotation.z = roll → ofSpawn s.exact = .ok t) ∧
    (rotation * rotation.transpose = Mat3.identity ∧
      rotation.transpose * rotation = Mat3.identity ∧ rotation.det = Scalar.one) ∧
    (∀ p : Vec3 K, t.toWorld (t.toModel p.exact) = p.exact) ∧
    (∀ q : Vec3 K, t.toModel (t.toWorld q.exact) = q.exact) ∧
    (∀ v w : Vec3 K,
      (t.directionInModel v.exact).dot (t.directionInModel w.exact) = v.exact.dot w.exact) ∧
    ∀ ray : Ray K,
      (∀ u : K, (t.rayInModel ray.exact).pointAt (.number u * t.invScale) =
        t.toModel (ray.exact.pointAt (.number u))) ∧
      ∀ u v : K,
        let p := ray.exact.pointAt (.number u)
        let q := ray.exact.pointAt (.number v)
        (t.toModel p - t.toModel q).dot (t.toModel p - t.toModel q) =
          t.invScale * t.invScale * (p - q).dot (p - q) := by
  intro rotation t
  have hrotation := Mat3.isRotation_turns hupright hpitch hroll
  let placed : Transform K := ⟨position, scale, (Mat3.turns upright pitch roll).transpose, 1 / scale⟩
  have hexact : t = placed.exact := rfl
  have hinverse : placed.scale * placed.invScale = 1 := mul_one_div_cancel hscale.ne'
  have hfaithful : placed.Faithful := ⟨hscale, hinverse, hrotation.undone⟩
  refine ⟨?_, ⟨?_, ?_, ?_⟩, ?_, ?_, ?_, ?_⟩
  · intro _ s hposition hsize hy hx hz
    subst hposition hsize hy hx hz
    exact ofSpawn_exact hscale
  · exact congrArg Mat3.exact hrotation.undone.times_transpose
  · exact congrArg Mat3.exact (Mat3.Undone.times_transpose hrotation.undoes)
  · exact congrArg Exact.number hrotation.determinant
  · intro p
    rw [hexact, toModel_exact, toWorld_exact, hfaithful.pointToWorld_pointToModel]
  · intro q
    rw [hexact, toWorld_exact, toModel_exact, pointToModel_pointToWorld hrotation.undoes hinverse]
  · intro v w
    exact congrArg Exact.number (Mat3.dotProduct_apply hfaithful.rotation v w)
  · intro ray
    refine ⟨?_, ?_⟩
    · intro u
      exact congrArg Vec3.exact (placed.pointToModel_point ray u).symm
    · intro u v
      exact congrArg Exact.number
        (placed.dotProduct_pointToModel hfaithful.rotation (ray.point u) (ray.point v))

/-- A model of twice the size, turned, pitched and rolled by three angles of right triangles. -/
theorem exact_similarity_tilted :
    let upright : Turn ℚ := ⟨3 / 5, 4 / 5⟩
    let pitch : Turn ℚ := ⟨5 / 13, -12 / 13⟩
    let roll : Turn ℚ := ⟨-8 / 17, 15 / 17⟩
    let rotation : Mat3 (Exact ℚ) := Mat3.ofTurns upright.exact pitch.exact roll.exact
    let t : Transform (Exact ℚ) :=
      ⟨Vec3.exact ⟨1, 2, 3⟩, .number 2, rotation.transpose, Scalar.one / .number 2⟩
    upright.cos ^ 2 + upright.sin ^ 2 = 1 ∧ pitch.cos ^ 2 + pitch.sin ^ 2 = 1 ∧
    roll.cos ^ 2 + roll.sin ^ 2 = 1 ∧ (0 : ℚ) < 2 ∧ rotation.det = Scalar.one ∧
    t.toWorld (t.toModel (Vec3.exact ⟨7, -4, 5⟩)) = Vec3.exact ⟨7, -4, 5⟩ ∧
    t.toModel (t.toWorld (Vec3.exact ⟨7, -4, 5⟩)) = Vec3.exact ⟨7, -4, 5⟩ := by
  intro upright pitch roll rotation t
  have hupright : upright.cos ^ 2 + upright.sin ^ 2 = 1 := by norm_num [upright]
  have hpitch : pitch.cos ^ 2 + pitch.sin ^ 2 = 1 := by norm_num [pitch]
  have hroll : roll.cos ^ 2 + roll.sin ^ 2 = 1 := by norm_num [roll]
  have hscale : (0 : ℚ) < 2 := by norm_num
  obtain ⟨-, ⟨-, -, hdet⟩, hworld, hmodel, -⟩ :=
    exact_similarity hupright hpitch hroll ⟨1, 2, 3⟩ hscale
  exact ⟨hupright, hpitch, hroll, hscale, hdet, hworld _, hmodel _⟩

end Transform

end Placement
