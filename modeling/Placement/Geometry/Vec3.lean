/-
  Placement/Geometry/Vec3.lean
  ============================
  **Vectors and matrices of three dimensions.**

  The order of additions is part of each definition: on rounded scalars a different
  order is a different result.  A matrix is given by its columns, and a product with a
  vector adds the scaled columns from left to right.
-/
import Placement.Geometry.Scalar

namespace Placement

/-- A point or a direction. -/
structure Vec3 (α : Type) where
  x : α
  y : α
  z : α
  deriving DecidableEq

namespace Vec3

variable {α : Type}

/-- Apply a function to each component. -/
def map (f : α → α) (v : Vec3 α) : Vec3 α := ⟨f v.x, f v.y, f v.z⟩

/-- Combine two vectors component by component. -/
def zipWith (f : α → α → α) (v w : Vec3 α) : Vec3 α := ⟨f v.x w.x, f v.y w.y, f v.z w.z⟩

/-- Whether a relation holds in every component. -/
def all₂ (r : α → α → Bool) (v w : Vec3 α) : Bool := r v.x w.x && r v.y w.y && r v.z w.z

variable [Scalar α]

instance : Add (Vec3 α) := ⟨zipWith (· + ·)⟩
instance : Sub (Vec3 α) := ⟨zipWith (· - ·)⟩

instance : HMul (Vec3 α) α (Vec3 α) := ⟨fun v s => v.map (· * s)⟩

def zero : Vec3 α := ⟨Scalar.zero, Scalar.zero, Scalar.zero⟩

def down : Vec3 α := ⟨Scalar.zero, Scalar.zero, -Scalar.one⟩

def abs (v : Vec3 α) : Vec3 α := v.map Scalar.abs

def min (v w : Vec3 α) : Vec3 α := zipWith Scalar.min v w

def max (v w : Vec3 α) : Vec3 α := zipWith Scalar.max v w

def sameValue (v w : Vec3 α) : Bool := all₂ Scalar.sameValue v w

end Vec3

/-- A matrix, by its columns. -/
structure Mat3 (α : Type) where
  xAxis : Vec3 α
  yAxis : Vec3 α
  zAxis : Vec3 α
  deriving DecidableEq

namespace Mat3

variable {α : Type}

def transpose (m : Mat3 α) : Mat3 α :=
  ⟨⟨m.xAxis.x, m.yAxis.x, m.zAxis.x⟩,
   ⟨m.xAxis.y, m.yAxis.y, m.zAxis.y⟩,
   ⟨m.xAxis.z, m.yAxis.z, m.zAxis.z⟩⟩

variable [Scalar α]

/-- A matrix times a column vector. -/
instance : HMul (Mat3 α) (Vec3 α) (Vec3 α) :=
  ⟨fun m v => m.xAxis * v.x + m.yAxis * v.y + m.zAxis * v.z⟩

/-- The product of two matrices, column by column. -/
instance : Mul (Mat3 α) := ⟨fun a b => ⟨a * b.xAxis, a * b.yAxis, a * b.zAxis⟩⟩

def abs (m : Mat3 α) : Mat3 α := ⟨m.xAxis.abs, m.yAxis.abs, m.zAxis.abs⟩

end Mat3

end Placement
