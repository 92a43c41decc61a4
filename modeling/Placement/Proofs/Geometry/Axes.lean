/-
  Placement/Proofs/Geometry/Axes.lean
  ===================================
  **Vectors and boxes, one axis at a time.**

  Boxes are compared, clipped against and put together one axis after the other, and
  nothing that happens along an axis depends on which one it is.  `Vec3.along` picks the
  component of a vector along an axis, so that such facts are stated once, for every axis.
-/
import Placement.Geometry.Ray

namespace Placement

inductive Axis
  | x
  | y
  | z
  deriving DecidableEq

namespace Vec3

variable {α : Type}

/-- The component along an axis. -/
def along (v : Vec3 α) : Axis → α
  | .x => v.x
  | .y => v.y
  | .z => v.z

theorem ext_along {v w : Vec3 α} (h : ∀ axis, v.along axis = w.along axis) : v = w := by
  cases v
  cases w
  exact congr (congr (congrArg Vec3.mk (h .x)) (h .y)) (h .z)

variable [Scalar α]

@[simp] theorem along_min (v w : Vec3 α) (axis : Axis) :
    (v.min w).along axis = Scalar.min (v.along axis) (w.along axis) := by
  cases axis <;> rfl

@[simp] theorem along_max (v w : Vec3 α) (axis : Axis) :
    (v.max w).along axis = Scalar.max (v.along axis) (w.along axis) := by
  cases axis <;> rfl

@[simp] theorem along_add (v w : Vec3 α) (axis : Axis) :
    (v + w).along axis = v.along axis + w.along axis := by
  cases axis <;> rfl

@[simp] theorem along_sub (v w : Vec3 α) (axis : Axis) :
    (v - w).along axis = v.along axis - w.along axis := by
  cases axis <;> rfl

@[simp] theorem along_mul (v : Vec3 α) (s : α) (axis : Axis) :
    (v * s).along axis = v.along axis * s := by
  cases axis <;> rfl

theorem sameValue_iff_along {v w : Vec3 α} :
    v.sameValue w = true ↔ ∀ axis, Scalar.sameValue (v.along axis) (w.along axis) = true := by
  simp only [sameValue, all₂, Bool.and_eq_true]
  constructor
  · rintro ⟨⟨hx, hy⟩, hz⟩ (_ | _ | _)
    · exact hx
    · exact hy
    · exact hz
  · intro h
    exact ⟨⟨h .x, h .y⟩, h .z⟩

end Vec3

namespace Mat3

variable {α : Type}

/-- What the components of a vector are multiplied with for one component of its image. -/
def row (m : Mat3 α) : Axis → Vec3 α
  | .x => ⟨m.xAxis.x, m.yAxis.x, m.zAxis.x⟩
  | .y => ⟨m.xAxis.y, m.yAxis.y, m.zAxis.y⟩
  | .z => ⟨m.xAxis.z, m.yAxis.z, m.zAxis.z⟩

theorem row_transpose (m : Mat3 α) (i j : Axis) :
    (m.transpose.row i).along j = (m.row j).along i := by
  cases i <;> cases j <;> rfl

variable [Scalar α]

theorem along_mul (m : Mat3 α) (v : Vec3 α) (axis : Axis) :
    (m * v).along axis = (m.row axis).along .x * v.along .x + (m.row axis).along .y * v.along .y +
      (m.row axis).along .z * v.along .z := by
  cases axis <;> rfl

theorem row_mul (a b : Mat3 α) (i j : Axis) :
    ((a * b).row i).along j = (a * b.transpose.row j).along i := by
  cases i <;> cases j <;> rfl

end Mat3

namespace Box

variable {α : Type} [Scalar α]

theorem contains_iff {b : Box α} {p : Vec3 α} :
    b.contains p = true ↔
      ∀ axis, b.low.along axis ≤ p.along axis ∧ p.along axis ≤ b.high.along axis := by
  simp only [contains, Vec3.all₂, Bool.and_eq_true, decide_eq_true_eq]
  constructor
  · rintro ⟨⟨⟨hx, hy⟩, hz⟩, ⟨hx', hy'⟩, hz'⟩ (_ | _ | _)
    · exact ⟨hx, hx'⟩
    · exact ⟨hy, hy'⟩
    · exact ⟨hz, hz'⟩
  · intro h
    exact ⟨⟨⟨(h .x).1, (h .y).1⟩, (h .z).1⟩, ⟨(h .x).2, (h .y).2⟩, (h .z).2⟩

/-- Along an axis, a box that grows point by point goes from the least to the greatest. -/
theorem foldl_along (ps : List (Vec3 α)) (b : Box α) (axis : Axis) :
    (ps.foldl (fun b q => ⟨b.low.min q, b.high.max q⟩) b).low.along axis =
        (ps.map (Vec3.along · axis)).foldl Scalar.min (b.low.along axis) ∧
      (ps.foldl (fun b q => ⟨b.low.min q, b.high.max q⟩) b).high.along axis =
        (ps.map (Vec3.along · axis)).foldl Scalar.max (b.high.along axis) := by
  induction ps generalizing b with
  | nil => exact ⟨rfl, rfl⟩
  | cons p ps ih => simp [ih]

end Box

end Placement
