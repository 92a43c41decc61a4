/-
  Placement/Proofs/Geometry/Exact.lean
  ====================================
  **Geometry over exact numbers.**

  `Exact K` adds two infinities to a linearly ordered field, and so the definitions of
  geometry can be read over it: with exact sums and products, and with the infinities that
  the slab test starts from.  They are sentinels, compared with and handed on and nothing
  else; an operation of arithmetic that gets one has no meaningful answer.

  Whatever is computed from numbers is computed in the field.  `Vec3.exact` and its like put
  data of the field into geometry, and `apply`, `pointToModel` and the others compute in the
  field what geometry computes from such data; they agree by definition, so that statements
  about geometry become identities of the field.
-/
import Mathlib.Algebra.Order.Field.Basic
import Mathlib.Order.WithBot
import Mathlib.Tactic.Ring
import Placement.Transform

namespace Placement

/-- The numbers of a field and two sentinels. -/
inductive Exact (K : Type)
  | negInf
  | number (x : K)
  | posInf

namespace Exact

variable {K : Type}

/-! ### Order -/

def toExtended : Exact K → WithBot (WithTop K)
  | negInf => ⊥
  | number x => ((x : WithTop K) : WithBot (WithTop K))
  | posInf => ((⊤ : WithTop K) : WithBot (WithTop K))

theorem toExtended_injective : Function.Injective (toExtended : Exact K → WithBot (WithTop K)) := by
  have hapart : (⊥ : WithBot (WithTop K)) ≠ ((⊤ : WithTop K) : WithBot (WithTop K)) :=
    WithBot.bot_ne_coe
  intro a b h
  cases a <;> cases b <;> simp_all [toExtended]

instance [LinearOrder K] : LinearOrder (Exact K) :=
  LinearOrder.lift' toExtended toExtended_injective

section

variable [LinearOrder K] {x y : K} {a : Exact K}

@[simp] theorem number_le_number : number x ≤ number y ↔ x ≤ y :=
  WithBot.coe_le_coe.trans WithTop.coe_le_coe

@[simp] theorem number_lt_number : number x < number y ↔ x < y :=
  WithBot.coe_lt_coe.trans WithTop.coe_lt_coe

theorem negInf_le (a : Exact K) : negInf ≤ a := bot_le (a := a.toExtended)

theorem le_posInf (a : Exact K) : a ≤ posInf := le_top (a := a.toExtended)

theorem negInf_lt_number (x : K) : negInf < number x := WithBot.bot_lt_coe _

theorem number_lt_posInf (x : K) : number x < posInf :=
  WithBot.coe_lt_coe.mpr (WithTop.coe_lt_top x)

theorem exists_number_of_between (hlow : number x ≤ a) (hhigh : a ≤ number y) :
    ∃ z, a = number z ∧ x ≤ z ∧ z ≤ y := by
  cases a with
  | negInf => exact absurd (negInf_lt_number x) (not_lt_of_ge hlow)
  | number z => exact ⟨z, rfl, number_le_number.mp hlow, number_le_number.mp hhigh⟩
  | posInf => exact absurd (number_lt_posInf y) (not_lt_of_ge hhigh)

end

/-! ### Arithmetic -/

def lift₁ (f : K → K) : Exact K → Exact K
  | number x => number (f x)
  | _ => posInf

def lift₂ (f : K → K → K) : Exact K → Exact K → Exact K
  | number x, number y => number (f x y)
  | _, _ => posInf

section

variable [Field K] [LinearOrder K]

instance : Scalar (Exact K) where
  add := lift₂ (· + ·)
  sub := lift₂ (· - ·)
  mul := lift₂ (· * ·)
  div := lift₂ (· / ·)
  neg := lift₁ (- ·)
  zero := number 0
  one := number 1
  half := number (1 / 2)
  posInf := posInf
  negInf := negInf
  abs := lift₁ (|·|)
  decidableLE := inferInstance
  decidableLT := inferInstance

variable {a b : Exact K}

theorem sameValue_iff : Scalar.sameValue a b = true ↔ a = b := by
  rw [Scalar.sameValue, Bool.and_eq_true, decide_eq_true_eq, decide_eq_true_eq]
  exact le_antisymm_iff.symm

theorem isNaN_eq_false (a : Exact K) : Scalar.isNaN a = false := by
  rw [Scalar.isNaN, decide_eq_true (le_refl a)]
  rfl

theorem max_eq (a b : Exact K) : Scalar.max a b = Max.max a b := by
  rw [Scalar.max, isNaN_eq_false, if_neg Bool.false_ne_true, max_comm, max_def_lt]

theorem min_eq (a b : Exact K) : Scalar.min a b = Min.min a b := by
  rw [Scalar.min, isNaN_eq_false, if_neg Bool.false_ne_true, min_def_lt]

theorem isInfinite_number (x : K) : Scalar.isInfinite (number x) = false := by
  have hhigh : ¬ (Scalar.posInf : Exact K) ≤ number x := not_le_of_gt (number_lt_posInf x)
  have hlow : ¬ number x ≤ (Scalar.negInf : Exact K) := not_le_of_gt (negInf_lt_number x)
  rw [Scalar.isInfinite, decide_eq_false hhigh, decide_eq_false hlow]
  rfl

theorem isFinite_number (x : K) : Scalar.isFinite (number x) = true := by
  have hlow : (Scalar.negInf : Exact K) < number x := negInf_lt_number x
  have hhigh : number x < (Scalar.posInf : Exact K) := number_lt_posInf x
  rw [Scalar.isFinite, decide_eq_true hlow, decide_eq_true hhigh]
  rfl

end

end Exact

/-! ### Data of the field -/

section Data

variable {K : Type}

def Vec3.exact (v : Vec3 K) : Vec3 (Exact K) := ⟨.number v.x, .number v.y, .number v.z⟩

def Mat3.exact (m : Mat3 K) : Mat3 (Exact K) := ⟨m.xAxis.exact, m.yAxis.exact, m.zAxis.exact⟩

def Box.exact (b : Box K) : Box (Exact K) := ⟨b.low.exact, b.high.exact⟩

def Ray.exact (r : Ray K) : Ray (Exact K) := ⟨r.origin.exact, r.direction.exact⟩

def Turn.exact (t : Turn K) : Turn (Exact K) := ⟨.number t.cos, .number t.sin⟩

def Spawn.exact (s : Spawn K) : Spawn (Exact K) :=
  { s with
    position := s.position.exact
    rotation := s.rotation.exact
    scale := .number s.scale
    bound := s.bound.map Box.exact }

def Transform.exact (t : Transform K) : Transform (Exact K) :=
  ⟨t.position.exact, .number t.scale, t.invRotation.exact, .number t.invScale⟩

end Data

/-! ### Computing in the field -/

section Field

variable {K : Type} [Field K]

namespace Mat3

/-- A matrix times a column vector. -/
def apply (m : Mat3 K) (v : Vec3 K) : Vec3 K :=
  ⟨m.xAxis.x * v.x + m.yAxis.x * v.y + m.zAxis.x * v.z,
   m.xAxis.y * v.x + m.yAxis.y * v.y + m.zAxis.y * v.z,
   m.xAxis.z * v.x + m.yAxis.z * v.y + m.zAxis.z * v.z⟩

/-- The product of two matrices. -/
def times (a b : Mat3 K) : Mat3 K := ⟨a.apply b.xAxis, a.apply b.yAxis, a.apply b.zAxis⟩

theorem apply_times (a b : Mat3 K) (v : Vec3 K) : (a.times b).apply v = a.apply (b.apply v) := by
  simp only [times, apply, Vec3.mk.injEq]
  refine ⟨?_, ?_, ?_⟩ <;> ring

theorem apply_transpose_times (a b : Mat3 K) (v : Vec3 K) :
    (a.times b).transpose.apply v = b.transpose.apply (a.transpose.apply v) := by
  simp only [times, transpose, apply, Vec3.mk.injEq]
  refine ⟨?_, ?_, ?_⟩ <;> ring

end Mat3

def Ray.point (r : Ray K) (u : K) : Vec3 K :=
  ⟨r.origin.x + r.direction.x * u, r.origin.y + r.direction.y * u, r.origin.z + r.direction.z * u⟩

namespace Transform

def pointToModel (t : Transform K) (p : Vec3 K) : Vec3 K :=
  let q := t.invRotation.apply ⟨p.x - t.position.x, p.y - t.position.y, p.z - t.position.z⟩
  ⟨q.x * t.invScale, q.y * t.invScale, q.z * t.invScale⟩

def pointToWorld (t : Transform K) (q : Vec3 K) : Vec3 K :=
  let p := t.invRotation.transpose.apply q
  ⟨p.x * t.scale + t.position.x, p.y * t.scale + t.position.y, p.z * t.scale + t.position.z⟩

def rayToModel (t : Transform K) (r : Ray K) : Ray K :=
  ⟨t.pointToModel r.origin, t.invRotation.apply r.direction⟩

end Transform

/-- Where a box has its middle. -/
def Box.middle (b : Box K) : Vec3 K :=
  ⟨(b.low.x + b.high.x) * (1 / 2), (b.low.y + b.high.y) * (1 / 2), (b.low.z + b.high.z) * (1 / 2)⟩

/-- How far a box reaches from its middle. -/
def Box.halfExtent (b : Box K) : Vec3 K :=
  ⟨(b.high.x - b.low.x) * (1 / 2), (b.high.y - b.low.y) * (1 / 2), (b.high.z - b.low.z) * (1 / 2)⟩

variable [LinearOrder K]

/-- The box in the world around a box of the model, by its middle and half extents. -/
def Transform.boxToWorld (t : Transform K) (b : Box K) : Box K :=
  let turn := t.invRotation.transpose
  let reaches : Mat3 K := ⟨turn.xAxis.map (|·|), turn.yAxis.map (|·|), turn.zAxis.map (|·|)⟩
  let center := turn.apply (b.middle.map (· * t.scale))
  let reach := reaches.apply (b.halfExtent.map (· * t.scale))
  ⟨⟨center.x + t.position.x - reach.x, center.y + t.position.y - reach.y,
      center.z + t.position.z - reach.z⟩,
    ⟨center.x + t.position.x + reach.x, center.y + t.position.y + reach.y,
      center.z + t.position.z + reach.z⟩⟩

@[simp] theorem Ray.pointAt_exact (r : Ray K) (u : K) :
    r.exact.pointAt (.number u) = (r.point u).exact := rfl

namespace Transform

@[simp] theorem toModel_exact (t : Transform K) (p : Vec3 K) :
    t.exact.toModel p.exact = (t.pointToModel p).exact := rfl

@[simp] theorem toWorld_exact (t : Transform K) (q : Vec3 K) :
    t.exact.toWorld q.exact = (t.pointToWorld q).exact := rfl

@[simp] theorem rayInModel_exact (t : Transform K) (r : Ray K) :
    t.exact.rayInModel r.exact = (t.rayToModel r).exact := rfl

@[simp] theorem boundInWorld_exact (t : Transform K) (b : Box K) :
    t.exact.boundInWorld b.exact = (t.boxToWorld b).exact := rfl

end Transform

namespace Box

/-- The point lies in the box or on its faces. -/
def Encloses (b : Box K) (p : Vec3 K) : Prop :=
  (b.low.x ≤ p.x ∧ p.x ≤ b.high.x) ∧ (b.low.y ≤ p.y ∧ p.y ≤ b.high.y) ∧
    (b.low.z ≤ p.z ∧ p.z ≤ b.high.z)

theorem contains_exact {b : Box K} {p : Vec3 K} :
    b.exact.contains p.exact = true ↔ b.Encloses p := by
  simp only [contains, Vec3.all₂, exact, Vec3.exact, Bool.and_eq_true, decide_eq_true_eq,
    Exact.number_le_number, Encloses]
  tauto

end Box

end Field

end Placement
