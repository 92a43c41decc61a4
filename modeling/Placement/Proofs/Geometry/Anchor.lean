/-
  Placement/Proofs/Geometry/Anchor.lean
  =====================================
  **The place of a model is its origin, as long as its scale has an inverse.**

  A transform takes the place of its model to the origin and the origin back to the place.
  In 32-bit arithmetic this is exact: the difference is zero, a rotation is made of finite
  numbers (`within_ofDegrees`), and so zeros are all that comes up, on the way there and on
  the way back.

  One factor is not kept finite by what a spawn is checked for.  A scale of at most
  `2 ^ (-128)` is positive and accepted, but its inverse is infinite, and zero times infinity
  is no number; such a transform has no image for the place of its own model
  (`place_is_origin`, `place_without_image`).
-/
import Placement.Proofs.Binary32.Turns
import Placement.Proofs.Geometry.Axes
import Placement.Transform

namespace Placement

open Binary32

/-! ### Matrices of finite numbers -/

namespace Mat3

variable {a b m : Mat3 Binary32} {v : Vec3 Binary32} {d d' e : Nat}

theorem within_mul_vec (hm : ∀ i j, ((m.row i).along j).Within d)
    (hv : ∀ j, (v.along j).Within d') (hlow : 24 ≤ e) (hhigh : e + 4 < 277)
    (h : d + d' < e + 149) (i : Axis) : ((m * v).along i).Within (e + 4) := by
  have hterm : ∀ j, ((m.row i).along j * v.along j).Within e := by
    intro j
    exact (hm i j).mul (hv j) hlow (by omega) h
  have hsum := (hterm .x).add (hterm .y) (by omega) (by omega)
  rw [along_mul]
  exact hsum.add ((hterm .z).mono (Nat.le_add_right e 2)) (by omega) hhigh

theorem within_mul (ha : ∀ i j, ((a.row i).along j).Within d)
    (hb : ∀ i j, ((b.row i).along j).Within d') (hlow : 24 ≤ e) (hhigh : e + 4 < 277)
    (h : d + d' < e + 149) (i j : Axis) : (((a * b).row i).along j).Within (e + 4) := by
  rw [row_mul]
  apply within_mul_vec ha _ hlow hhigh h
  intro k
  rw [row_transpose]
  exact hb k j

theorem isZero_mul_vec (hm : ∀ i j, ((m.row i).along j).isFinite = true)
    (hv : ∀ j, (v.along j).isZero = true) (i : Axis) : ((m * v).along i).isZero = true := by
  have hterm : ∀ j, ((m.row i).along j * v.along j).isZero = true := by
    intro j
    exact isZero_mul (hm i j) (isFinite_of_isZero (hv j)) (.inr (hv j))
  rw [along_mul]
  exact isZero_add (isZero_add (hterm .x) (hterm .y)) (hterm .z)

theorem isNaN_mul_vec (m : Mat3 Binary32) (hv : (v.along .z).isNaN = true) (i : Axis) :
    ((m * v).along i).isNaN = true := by
  rw [along_mul]
  -- the last summand is no number, and no sum with it is one
  exact isNaN_add_of_isNaN (.inr (isNaN_mul_of_isNaN (.inr hv)))

/-! ### Rotations -/

section

variable {t : Turn Binary32} (ht : SmallTurn t)

include ht

/-- About any axis, a matrix is made of zeros, ones and the two parts of the turn. -/
theorem within_turn {m : Mat3 Binary32} (hm : m = aboutX t ∨ m = aboutY t ∨ m = aboutZ t)
    (i j : Axis) : ((m.row i).along j).Within 150 := by
  have hzero : (Scalar.zero : Binary32).Within 150 := within_of_isZero rfl 150
  have hone : (Scalar.one : Binary32).Within 150 := within_one
  rcases hm with rfl | rfl | rfl <;> cases i <;> cases j <;>
    simp only [aboutX, aboutY, aboutZ, row, Vec3.along, hzero, hone, ht.1, ht.2, ht.2.neg]

end

theorem within_ofDegrees {angles : Vec3 Binary32}
    (h : ∀ axis, (angles.along axis).isFinite = true) (i j : Axis) :
    (((ofDegrees angles).row i).along j).Within 162 := by
  have hupright := within_turn (smallTurn_turnOfDegrees (h .y)) (.inr (.inr rfl))
  have hpitch := within_turn (smallTurn_turnOfDegrees (h .x)) (.inr (.inl rfl))
  have hroll := within_turn (smallTurn_turnOfDegrees (h .z)) (.inl rfl)
  have htilted := within_mul (e := 152) hupright hpitch (by decide) (by decide) (by decide)
  exact within_mul (e := 158) htilted hroll (by decide) (by decide) (by decide) i j

end Mat3

/-! ### The inverse of a scale -/

namespace Binary32

variable {a : Binary32}

theorem zero_lt_inverse (hfinite : a.isFinite = true) (hpos : zero < a) : zero < one / a := by
  have hzero := isZero_inverse hfinite (isZero_of_zero_lt hpos)
  have hsign := negative_eq_of_zero_lt (zero_lt_iff.mp hpos).2
  have hpattern : (one / a).pattern ≠ 0 := of_decide_eq_false hzero
  rw [inverse_of_isFinite hfinite (isZero_of_zero_lt hpos), hsign] at hpattern ⊢
  have hle := Format.nearest_le_infinity (f := .single) (Format.single.one * Format.single.one)
    a.units
  refine zero_lt_iff.mpr ⟨isNaN_round _ _ _, ?_⟩
  rw [round, pattern_ofParts (lt_signBit_of_le hle)] at hpattern
  rw [round, key_ofParts hle, if_neg Bool.false_ne_true]
  omega

theorem eq_posInf_of_isInfinite (hinf : a.isInfinite = true) (hpos : zero < a) : a = posInf := by
  rw [← ofParts_parts a, negative_eq_of_zero_lt (zero_lt_iff.mp hpos).2,
    pattern_of_isInfinite hinf]
  rfl

theorem greatestWithoutInverse_lt_iff (hpos : zero < a) :
    greatestWithoutInverse < a ↔ greatestWithoutInverse.pattern < a.pattern := by
  have hkey : a.key = a.pattern := by
    rw [key, negative_eq_of_zero_lt (zero_lt_iff.mp hpos).2, if_neg Bool.false_ne_true]
  have hbound : greatestWithoutInverse.key = greatestWithoutInverse.pattern := by decide
  constructor
  · intro h
    have hlt := h.2.2
    rw [hkey, hbound] at hlt
    exact Int.ofNat_lt.mp hlt
  · intro h
    refine ⟨by decide, (zero_lt_iff.mp hpos).1, ?_⟩
    rw [hkey, hbound]
    exact Int.ofNat_lt.mpr h

theorem isFinite_inverse_iff (hfinite : a.isFinite = true) (hpos : zero < a) :
    (one / a).isFinite = true ↔ greatestWithoutInverse < a := by
  have hnum := (zero_lt_iff.mp (zero_lt_inverse hfinite hpos)).1
  have hinf := isInfinite_inverse_iff hfinite (isZero_of_zero_lt hpos)
  rw [isFinite_iff, greatestWithoutInverse_lt_iff hpos, ← Nat.not_le, ← hinf, Bool.not_eq_true]
  exact and_iff_right hnum

end Binary32

/-! ### There and back -/

namespace Transform

variable {t : Transform Binary32} {q : Vec3 Binary32}

section

variable (hposition : ∀ axis, (t.position.along axis).isFinite = true)
  (hrotation : ∀ i j, ((t.invRotation.row i).along j).isFinite = true)

include hposition hrotation

theorem isZero_turned (axis : Axis) :
    ((t.invRotation * (t.position - t.position)).along axis).isZero = true := by
  apply Mat3.isZero_mul_vec hrotation
  intro axis
  rw [Vec3.along_sub]
  exact isZero_sub_self (hposition axis)

theorem isZero_toModel (hinverse : t.invScale.isFinite = true) (axis : Axis) :
    ((t.toModel t.position).along axis).isZero = true := by
  have hturned := isZero_turned hposition hrotation axis
  rw [toModel, Vec3.along_mul]
  exact isZero_mul (isFinite_of_isZero hturned) hinverse (.inl hturned)

theorem isNaN_toModel (hinverse : t.invScale = posInf) (axis : Axis) :
    ((t.toModel t.position).along axis).isNaN = true := by
  have hturned := isZero_turned hposition hrotation axis
  have hnum := (isFinite_iff.mp (isFinite_of_isZero hturned)).1
  rw [toModel, Vec3.along_mul, hinverse]
  exact (isNaN_mul_iff hnum rfl).mpr (.inl ⟨hturned, rfl⟩)

theorem sameValue_toWorld (hscale : t.scale.isFinite = true)
    (hq : ∀ axis, (q.along axis).isZero = true) : (t.toWorld q).sameValue t.position = true := by
  rw [Vec3.sameValue_iff_along]
  intro axis
  have hturned : ((t.invRotation.transpose * q).along axis).isZero = true := by
    apply Mat3.isZero_mul_vec _ hq
    intro i j
    rw [Mat3.row_transpose]
    exact hrotation j i
  rw [toWorld, Vec3.along_add, Vec3.along_mul]
  exact sameValue_add_of_isZero (isZero_mul (isFinite_of_isZero hturned) hscale (.inl hturned))
    (hposition axis)

end

theorem isNaN_toWorld (hq : (q.along .z).isNaN = true) (axis : Axis) :
    ((t.toWorld q).along axis).isNaN = true := by
  rw [toWorld, Vec3.along_add, Vec3.along_mul]
  exact isNaN_add_of_isNaN (.inl (isNaN_mul_of_isNaN (.inl (Mat3.isNaN_mul_vec _ hq axis))))

/-- **A model stands at its own origin exactly if its scale has an inverse.**  Take any spawn whose
    scale is accepted and whose position and angles are finite.  Its inverse scale is positive.
    Above `2 ^ (-128)` it is finite, the place of the model is zero in the model, and from there
    the way back leads to the place again.  Up to `2 ^ (-128)` it is infinite, and no component
    is a number, neither of the place as seen in the model nor of what leads back from there. -/
theorem place_is_origin {s : Spawn Binary32} (ht : ofSpawn s = .ok t)
    (hposition : ∀ axis, (s.position.along axis).isFinite = true)
    (hangles : ∀ axis, (s.rotation.along axis).isFinite = true) :
    zero < t.invScale ∧
    (greatestWithoutInverse < s.scale →
      t.invScale.isFinite = true ∧
      (∀ axis, ((t.toModel s.position).along axis).isZero = true) ∧
      (t.toWorld (t.toModel s.position)).sameValue s.position = true) ∧
    (s.scale ≤ greatestWithoutInverse →
      t.invScale = posInf ∧
      (∀ axis, ((t.toModel s.position).along axis).isNaN = true) ∧
      ∀ axis, ((t.toWorld (t.toModel s.position)).along axis).isNaN = true) := by
  obtain ⟨⟨hbetween, hpos⟩, hfields⟩ := ofSpawn_eq_ok_iff.mp ht
  have hfinite : s.scale.isFinite = true := isFinite_of_between hbetween
  have hplace : t.position = s.position := by rw [hfields]
  have hscale : t.scale = s.scale := by rw [hfields]
  have hinverse : t.invScale = one / s.scale := by
    rw [hfields]
    rfl
  have hrotation : ∀ i j, ((t.invRotation.row i).along j).isFinite = true := by
    intro i j
    rw [hfields, Mat3.row_transpose]
    exact (Mat3.within_ofDegrees hangles j i).finite
  rw [← hplace] at hposition ⊢
  -- the inverse of the scale is the only factor that may be infinite
  refine ⟨hinverse ▸ zero_lt_inverse hfinite hpos, ?_, ?_⟩
  · intro hlarge
    have hreturns : t.invScale.isFinite = true :=
      hinverse ▸ (isFinite_inverse_iff hfinite hpos).mpr hlarge
    have horigin := isZero_toModel hposition hrotation hreturns
    exact ⟨hreturns, horigin, sameValue_toWorld hposition hrotation (hscale ▸ hfinite) horigin⟩
  · intro hsmall
    have hinfinite : t.invScale = posInf := by
      rw [hinverse]
      apply eq_posInf_of_isInfinite _ (zero_lt_inverse hfinite hpos)
      rw [isInfinite_inverse_iff hfinite (isZero_of_zero_lt hpos), ← Nat.not_lt,
        ← greatestWithoutInverse_lt_iff hpos]
      intro hlarge
      exact lt_irrefl _ (lt_of_le_of_lt hsmall hlarge)
    have hmissing := isNaN_toModel hposition hrotation hinfinite
    exact ⟨hinfinite, hmissing, isNaN_toWorld (hmissing .z)⟩

/-- The least scale that has an inverse, on a spawn that is turned about all axes. -/
theorem place_is_origin_least_scale :
    let s : Spawn Binary32 :=
      .unbounded 1 0 [] ⟨.ofInt 1, .ofInt 2, .ofInt 3⟩ ⟨.ofInt 30, .ofInt 45, .ofInt 10⟩
        ⟨0x00200001⟩
    ∃ t, ofSpawn s = .ok t ∧
      (∀ axis, (s.position.along axis).isFinite = true) ∧
      (∀ axis, (s.rotation.along axis).isFinite = true) ∧ greatestWithoutInverse < s.scale ∧
      (∀ axis, ((t.toModel s.position).along axis).isZero = true) ∧
      (t.toWorld (t.toModel s.position)).sameValue s.position = true := by
  intro s
  have hposition : ∀ axis, (s.position.along axis).isFinite = true := by
    intro axis
    cases axis <;> decide
  have hangles : ∀ axis, (s.rotation.along axis).isFinite = true := by
    intro axis
    cases axis <;> decide
  have hscale : greatestWithoutInverse < s.scale := by decide
  have ht := ofSpawn_eq_ok_iff.mpr ⟨(by decide : _ ∧ Scalar.zero < s.scale), rfl⟩
  obtain ⟨-, hlarge, -⟩ := place_is_origin ht hposition hangles
  exact ⟨_, ht, hposition, hangles, hscale, (hlarge hscale).2⟩

/-- **A scale that is accepted and has no inverse.**  The transform has no image for its own
    place. -/
theorem place_without_image :
    let s : Spawn Binary32 :=
      .unbounded 1 0 [] ⟨.ofInt 1, .ofInt 2, .ofInt 3⟩ .zero greatestWithoutInverse
    s.scale.isFinite = true ∧ zero < s.scale ∧
    ∃ t, ofSpawn s = .ok t ∧ t.invScale = posInf ∧ t.toModel s.position = ⟨nan, nan, nan⟩ ∧
      t.toWorld (t.toModel s.position) = ⟨nan, nan, nan⟩ := by
  intro s
  exact ⟨by decide, by decide, _, ofSpawn_eq_ok_iff.mpr ⟨by decide, rfl⟩, by decide +kernel,
    by decide +kernel, by decide +kernel⟩

end Transform

end Placement
