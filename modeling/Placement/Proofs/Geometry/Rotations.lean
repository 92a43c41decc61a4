/-
  Placement/Proofs/Geometry/Rotations.lean
  ========================================
  **Rotations over a field.**

  A rotation is built from cosines and sines, and all that is asked of these is that their
  squares add up to one.  The transpose of a rotation undoes it from both sides, and its
  determinant is one.  All of this holds for the turn about each axis and is handed on by
  products.  A product of three turns is then a rotation whatever the angles are
  (`isRotation_turns`), with no identity of nine entries to check.
-/
import Mathlib.Tactic.LinearCombination
import Placement.Proofs.Geometry.Exact

namespace Placement

variable {K : Type} [Field K]

/-! ### Inner products and determinants of a field -/

def Vec3.dotProduct (v w : Vec3 K) : K := v.x * w.x + v.y * w.y + v.z * w.z

namespace Mat3

def determinant (m : Mat3 K) : K :=
  m.zAxis.dotProduct
    ⟨m.xAxis.y * m.yAxis.z - m.xAxis.z * m.yAxis.y, m.xAxis.z * m.yAxis.x - m.xAxis.x * m.yAxis.z,
      m.xAxis.x * m.yAxis.y - m.xAxis.y * m.yAxis.x⟩

theorem determinant_times (a b : Mat3 K) :
    (a.times b).determinant = a.determinant * b.determinant := by
  simp only [determinant, Vec3.dotProduct, times, apply]
  ring

/-- A matrix goes to the other side of an inner product as its transpose. -/
theorem dotProduct_apply_left (m : Mat3 K) (v w : Vec3 K) :
    (m.apply v).dotProduct w = v.dotProduct (m.transpose.apply w) := by
  simp only [Vec3.dotProduct, apply, transpose]
  ring

/-! ### What a transpose undoes -/

/-- The transpose undoes the matrix, on one side. -/
def Undone (m : Mat3 K) : Prop := ∀ v : Vec3 K, m.apply (m.transpose.apply v) = v

theorem Undone.times {a b : Mat3 K} (ha : a.Undone) (hb : b.Undone) : (a.times b).Undone := by
  intro v
  rw [apply_transpose_times, apply_times, hb, ha]

/-- The columns of a product with the transpose are what the two make of the axes. -/
theorem Undone.times_transpose {m : Mat3 K} (h : m.Undone) :
    m.times m.transpose = ⟨⟨1, 0, 0⟩, ⟨0, 1, 0⟩, ⟨0, 0, 1⟩⟩ := by
  have hx := h ⟨1, 0, 0⟩
  have hy := h ⟨0, 1, 0⟩
  have hz := h ⟨0, 0, 1⟩
  simp only [apply, transpose, mul_one, mul_zero, add_zero, zero_add] at hx hy hz
  simp only [Mat3.times, apply, transpose, mk.injEq]
  exact ⟨hx, hy, hz⟩

/-! ### Turns -/

def turnX (t : Turn K) : Mat3 K := ⟨⟨1, 0, 0⟩, ⟨0, t.cos, t.sin⟩, ⟨0, -t.sin, t.cos⟩⟩

def turnY (t : Turn K) : Mat3 K := ⟨⟨t.cos, 0, -t.sin⟩, ⟨0, 1, 0⟩, ⟨t.sin, 0, t.cos⟩⟩

def turnZ (t : Turn K) : Mat3 K := ⟨⟨t.cos, t.sin, 0⟩, ⟨-t.sin, t.cos, 0⟩, ⟨0, 0, 1⟩⟩

section

variable {t : Turn K} (h : t.cos ^ 2 + t.sin ^ 2 = 1)

include h

theorem undone_turnX : (turnX t).Undone := by
  rintro ⟨x, y, z⟩
  simp only [turnX, transpose, apply, Vec3.mk.injEq]
  refine ⟨by ring, ?_, ?_⟩
  · linear_combination y * h
  · linear_combination z * h

theorem undone_turnY : (turnY t).Undone := by
  rintro ⟨x, y, z⟩
  simp only [turnY, transpose, apply, Vec3.mk.injEq]
  refine ⟨?_, by ring, ?_⟩
  · linear_combination x * h
  · linear_combination z * h

theorem undone_turnZ : (turnZ t).Undone := by
  rintro ⟨x, y, z⟩
  simp only [turnZ, transpose, apply, Vec3.mk.injEq]
  refine ⟨?_, ?_, by ring⟩
  · linear_combination x * h
  · linear_combination y * h

end

/-! ### Rotations -/

/-- The transpose undoes the matrix from both sides, and the matrix keeps orientation. -/
structure IsRotation (m : Mat3 K) : Prop where
  undone : m.Undone
  undoes : m.transpose.Undone
  determinant : m.determinant = 1

theorem IsRotation.times {a b : Mat3 K} (ha : a.IsRotation) (hb : b.IsRotation) :
    (a.times b).IsRotation where
  undone := ha.undone.times hb.undone
  undoes := by
    intro v
    have hback : (a.times b).transpose.transpose = a.times b := rfl
    rw [hback, apply_times, apply_transpose_times]
    exact (congrArg b.transpose.apply (ha.undoes (b.apply v))).trans (hb.undoes v)
  determinant := by
    rw [determinant_times, ha.determinant, hb.determinant, mul_one]

theorem dotProduct_apply {m : Mat3 K} (h : m.transpose.Undone) (v w : Vec3 K) :
    (m.apply v).dotProduct (m.apply w) = v.dotProduct w := by
  rw [dotProduct_apply_left]
  exact congrArg v.dotProduct (h w)

/-- A turn is a rotation as its transpose is the turn by the opposite angle, which is undone
    like any other. -/
theorem isRotation_of_undone {about : Turn K → Mat3 K} {t : Turn K}
    (h : t.cos ^ 2 + t.sin ^ 2 = 1)
    (hundone : ∀ {t : Turn K}, t.cos ^ 2 + t.sin ^ 2 = 1 → (about t).Undone)
    (hback : (about t).transpose = about ⟨t.cos, -t.sin⟩)
    (hdet : (about t).determinant = t.cos ^ 2 + t.sin ^ 2) : (about t).IsRotation := by
  refine ⟨hundone h, ?_, hdet.trans h⟩
  rw [hback]
  apply hundone
  rw [neg_sq]
  exact h

section

variable {t : Turn K} (h : t.cos ^ 2 + t.sin ^ 2 = 1)

include h

theorem isRotation_turnX : (turnX t).IsRotation := by
  apply isRotation_of_undone h undone_turnX
  · simp only [turnX, transpose, neg_neg]
  · simp only [determinant, Vec3.dotProduct, turnX]
    ring

theorem isRotation_turnY : (turnY t).IsRotation := by
  apply isRotation_of_undone h undone_turnY
  · simp only [turnY, transpose, neg_neg]
  · simp only [determinant, Vec3.dotProduct, turnY]
    ring

theorem isRotation_turnZ : (turnZ t).IsRotation := by
  apply isRotation_of_undone h undone_turnZ
  · simp only [turnZ, transpose, neg_neg]
  · simp only [determinant, Vec3.dotProduct, turnZ]
    ring

end

/-- First roll, then pitch, then turn upright. -/
def turns (upright pitch roll : Turn K) : Mat3 K :=
  ((turnZ upright).times (turnY pitch)).times (turnX roll)

theorem isRotation_turns {upright pitch roll : Turn K}
    (hupright : upright.cos ^ 2 + upright.sin ^ 2 = 1) (hpitch : pitch.cos ^ 2 + pitch.sin ^ 2 = 1)
    (hroll : roll.cos ^ 2 + roll.sin ^ 2 = 1) : (turns upright pitch roll).IsRotation := by
  have htilted := (isRotation_turnZ hupright).times (isRotation_turnY hpitch)
  exact htilted.times (isRotation_turnX hroll)

end Mat3

end Placement
