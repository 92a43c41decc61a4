/-
  Placement/Proofs/Geometry/PointBounds.lean
  ==========================================
  **The smallest box around points, in rounded arithmetic.**

  A box is grown from a first point by taking in the others.  Components that are no numbers
  may stand anywhere, in the first point too, and they give way: a box has one only where
  no point has anything else.  So along each axis the box goes from the least number to the
  greatest (`ofPoints?_is_smallest`), and apart from the sign of a zero and the word of
  what is no number it does not depend on the order of the points.

  The induction does not follow which component is kept, as equal ones differ in their words.
  It says what the corner is compared with: the low corner is at most some number exactly
  if one of the points is (`leads_foldl_min`).  The rest is read off that (`Leads`), and
  none of it mentions how zeros are told apart.
-/
import Placement.Proofs.Binary32.Signs
import Placement.Proofs.Geometry.Axes

namespace Placement

namespace Binary32

variable {a b m n : Binary32} {le : Binary32 → Binary32 → Prop} {xs ys : List Binary32}

/-! ### Words that stand for the same -/

/-- Equal but for the sign of a zero and the word of what is no number. -/
def Alike (a b : Binary32) : Prop :=
  a = b ∨ (a.isZero = true ∧ b.isZero = true) ∨ (a.isNaN = true ∧ b.isNaN = true)

theorem alike_of_sameValue (h : Scalar.sameValue a b = true) : a.Alike b := by
  obtain ⟨-, -, hkey⟩ := sameValue_iff.mp h
  by_cases hzero : b.key = 0
  · exact .inr (.inl ⟨key_eq_zero_iff.mp (hkey.trans hzero), key_eq_zero_iff.mp hzero⟩)
  · exact .inl (eq_of_key_eq hkey hzero)

/-! ### The first of some values -/

/-- An order of values, one way or the other, in which what is no number comes before nothing. -/
structure ValueOrder (le : Binary32 → Binary32 → Prop) : Prop where
  left : ∀ {a b}, le a b → a.isNaN = false
  refl : ∀ {a}, a.isNaN = false → le a a
  trans : ∀ {a b c}, le a b → le b c → le a c
  antisymm : ∀ {a b}, le a b → le b a → Scalar.sameValue a b = true

theorem valueOrder_le : ValueOrder (· ≤ ·) where
  left h := h.1
  refl := le_refl
  trans := le_trans
  antisymm := sameValue_of_le_of_le

theorem valueOrder_ge : ValueOrder (· ≥ ·) where
  left h := h.2.1
  refl := le_refl
  trans h h' := le_trans h' h
  antisymm h h' := sameValue_of_le_of_le h' h

/-- It comes before exactly what some of the values come before. -/
def Leads (le : Binary32 → Binary32 → Prop) (m : Binary32) (xs : List Binary32) : Prop :=
  ∀ c, le m c ↔ ∃ x ∈ xs, le x c

/-- The value of the number that comes first, or no number if there is none. -/
structure IsFirst (le : Binary32 → Binary32 → Prop) (m : Binary32) (xs : List Binary32) : Prop where
  isNaN_iff : m.isNaN = true ↔ ∀ x ∈ xs, x.isNaN = true
  attained : m.isNaN = false → ∃ x ∈ xs, Scalar.sameValue x m = true
  le_of_mem : ∀ x ∈ xs, x.isNaN = false → le m x

namespace Leads

theorem of_perm (h : Leads le m xs) (hperm : xs.Perm ys) : Leads le m ys := by
  intro c
  simp only [h c, hperm.mem_iff]

theorem le_of_mem (horder : ValueOrder le) (h : Leads le m xs) {x : Binary32} (hx : x ∈ xs)
    (hnum : x.isNaN = false) : le m x :=
  (h x).mpr ⟨x, hx, horder.refl hnum⟩

theorem exists_le (horder : ValueOrder le) (h : Leads le m xs) (hnum : m.isNaN = false) :
    ∃ x ∈ xs, le x m :=
  (h m).mp (horder.refl hnum)

/-- What comes first is between two bounds that all values are between, if there are any. -/
theorem between (horder : ValueOrder le) (h : Leads le m xs) (hne : xs ≠ [])
    (hall : ∀ x ∈ xs, le a x ∧ le x b) : le a m ∧ le m b := by
  obtain ⟨x, hx⟩ := List.exists_mem_of_ne_nil xs hne
  have hright : le m b := (h b).mpr ⟨x, hx, (hall x hx).2⟩
  obtain ⟨y, hy, hle⟩ := h.exists_le horder (horder.left hright)
  exact ⟨horder.trans (hall y hy).1 hle, hright⟩

theorem isFirst (horder : ValueOrder le) (h : Leads le m xs) : IsFirst le m xs := by
  refine ⟨?_, ?_, fun x hx hnum => h.le_of_mem horder hx hnum⟩
  · constructor
    · intro hm x hx
      by_contra hnum
      have hle := h.le_of_mem horder hx (Bool.eq_false_iff.mpr hnum)
      simp [horder.left hle] at hm
    · intro hall
      by_contra hnum
      obtain ⟨x, hx, hle⟩ := h.exists_le horder (Bool.eq_false_iff.mpr hnum)
      have hnan := hall x hx
      simp [horder.left hle] at hnan
  · intro hnum
    obtain ⟨x, hx, hle⟩ := h.exists_le horder hnum
    exact ⟨x, hx, horder.antisymm hle (h.le_of_mem horder hx (horder.left hle))⟩

theorem alike (horder : ValueOrder le) (hm : Leads le m xs) (hn : Leads le n xs) : m.Alike n := by
  have hsame : ∀ c, le m c ↔ le n c := fun c => (hm c).trans (hn c).symm
  cases hnum : m.isNaN with
  | true =>
    refine .inr (.inr ⟨hnum, ?_⟩)
    by_contra hnot
    have hle := (hsame n).mpr (horder.refl (Bool.eq_false_iff.mpr hnot))
    simp [horder.left hle] at hnum
  | false =>
    have hle := (hsame m).mp (horder.refl hnum)
    have hle' := (hsame n).mpr (horder.refl (horder.left hle))
    exact alike_of_sameValue (horder.antisymm hle' hle)

end Leads

theorem leads_foldl_min (xs : List Binary32) (x : Binary32) :
    Leads (· ≤ ·) (xs.foldl Scalar.min x) (x :: xs) := by
  intro c
  induction xs generalizing x with
  | nil => simp
  | cons y xs ih => simp [ih, min_le_iff, or_assoc]

theorem leads_foldl_max (xs : List Binary32) (x : Binary32) :
    Leads (· ≥ ·) (xs.foldl Scalar.max x) (x :: xs) := by
  intro c
  induction xs generalizing x with
  | nil => simp
  | cons y xs ih => simp [ih, le_max_iff, or_assoc]

end Binary32

namespace Box

open Binary32

variable {b c : Box Binary32} {ps qs : List (Vec3 Binary32)}

/-- The two boxes are equal but for signs of zeros and words of what is no number. -/
def Alike (b c : Box Binary32) : Prop :=
  ∀ axis, (b.low.along axis).Alike (c.low.along axis) ∧ (b.high.along axis).Alike (c.high.along axis)

theorem ofPoints?_eq_none_iff : ofPoints? ps = none ↔ ps = [] := by
  cases ps <;> simp [ofPoints?]

theorem leads_of_ofPoints? (h : ofPoints? ps = some b) (axis : Axis) :
    Leads (· ≤ ·) (b.low.along axis) (ps.map (Vec3.along · axis)) ∧
      Leads (· ≥ ·) (b.high.along axis) (ps.map (Vec3.along · axis)) := by
  cases ps with
  | nil => cases h
  | cons p ps =>
    obtain rfl := Option.some.inj h
    obtain ⟨hlow, hhigh⟩ := foldl_along ps ⟨p, p⟩ axis
    rw [hlow, hhigh]
    exact ⟨leads_foldl_min _ _, leads_foldl_max _ _⟩

theorem contains_of_ofPoints? (h : ofPoints? ps = some b) {p : Vec3 Binary32} (hp : p ∈ ps)
    (hnum : ∀ axis, (p.along axis).isNaN = false) : b.contains p = true := by
  rw [contains_iff]
  intro axis
  obtain ⟨hlow, hhigh⟩ := leads_of_ofPoints? h axis
  have hmem : p.along axis ∈ ps.map (Vec3.along · axis) := List.mem_map_of_mem hp
  exact ⟨hlow.le_of_mem valueOrder_le hmem (hnum axis),
    hhigh.le_of_mem valueOrder_ge hmem (hnum axis)⟩

/-- A box around all points is around both corners.  There is at least one point, and none of
    its components is no number, for then it would be in no box. -/
theorem corners_of_contains (h : ofPoints? ps = some b) (hc : ∀ p ∈ ps, c.contains p = true) :
    c.contains b.low = true ∧ c.contains b.high = true := by
  have hne : ∀ axis, ps.map (Vec3.along · axis) ≠ [] := by
    intro axis hnil
    simp [ofPoints?_eq_none_iff.mpr (List.map_eq_nil_iff.mp hnil)] at h
  have hbetween : ∀ axis, ∀ x ∈ ps.map (Vec3.along · axis),
      c.low.along axis ≤ x ∧ x ≤ c.high.along axis := by
    intro axis x hx
    obtain ⟨p, hp, rfl⟩ := List.mem_map.mp hx
    exact contains_iff.mp (hc p hp) axis
  rw [contains_iff, contains_iff]
  constructor
  · intro axis
    exact (leads_of_ofPoints? h axis).1.between valueOrder_le (hne axis) (hbetween axis)
  · intro axis
    -- from above, the bounds change places
    exact ((leads_of_ofPoints? h axis).2.between valueOrder_ge (hne axis)
      fun x hx => (hbetween axis x hx).symm).symm

theorem exists_ofPoints? (hne : ps ≠ []) : ∃ b, ofPoints? ps = some b := by
  obtain ⟨p, ps, rfl⟩ := List.exists_cons_of_ne_nil hne
  exact ⟨_, rfl⟩

theorem alike_of_perm (hperm : ps.Perm qs) :
    Option.Rel Alike (ofPoints? ps) (ofPoints? qs) := by
  by_cases hnil : ps = []
  · subst hnil
    obtain rfl := hperm.nil_eq
    exact .none
  · have hnil' : qs ≠ [] := by
      rintro rfl
      exact hnil hperm.eq_nil
    obtain ⟨b, hb⟩ := exists_ofPoints? hnil
    obtain ⟨c, hc⟩ := exists_ofPoints? hnil'
    rw [hb, hc]
    refine .some ?_
    intro axis
    obtain ⟨hlow, hhigh⟩ := leads_of_ofPoints? hb axis
    obtain ⟨hlow', hhigh'⟩ := leads_of_ofPoints? hc axis
    have hsame := hperm.map (Vec3.along · axis)
    exact ⟨(hlow.of_perm hsame).alike valueOrder_le hlow',
      (hhigh.of_perm hsame).alike valueOrder_ge hhigh'⟩

/-- **The box around points is the smallest one, whatever their components are.**  There is one
    unless there are no points.  Along each axis its corners have the values of the least and
    the greatest of the components that are numbers, and no number if there are none.  So it
    contains all points without such gaps, both its corners lie in any box around all points,
    and the order of the points does not matter to it. -/
theorem ofPoints?_is_smallest (ps : List (Vec3 Binary32)) :
    (ofPoints? ps = none ↔ ps = []) ∧
    (∀ b, ofPoints? ps = some b →
      (∀ axis, IsFirst (· ≤ ·) (b.low.along axis) (ps.map (Vec3.along · axis)) ∧
        IsFirst (· ≥ ·) (b.high.along axis) (ps.map (Vec3.along · axis))) ∧
      (∀ p ∈ ps, (∀ axis, (p.along axis).isNaN = false) → b.contains p = true) ∧
      ∀ c : Box Binary32, (∀ p ∈ ps, c.contains p = true) →
        c.contains b.low = true ∧ c.contains b.high = true) ∧
    ∀ qs, ps.Perm qs → Option.Rel Alike (ofPoints? ps) (ofPoints? qs) := by
  refine ⟨ofPoints?_eq_none_iff, ?_, fun qs => alike_of_perm⟩
  intro b hb
  refine ⟨?_, ?_, ?_⟩
  · intro axis
    obtain ⟨hlow, hhigh⟩ := leads_of_ofPoints? hb axis
    exact ⟨hlow.isFirst valueOrder_le, hhigh.isFirst valueOrder_ge⟩
  · intro p hp hnum
    exact contains_of_ofPoints? hb hp hnum
  · intro c hc
    exact corners_of_contains hb hc

/-- Points with gaps, at heights of the two zeros. -/
def gappyPoints : List (Vec3 Binary32) :=
  [⟨nan, one, zero⟩, ⟨half, nan, -zero⟩, ⟨one, half, nan⟩]

/-- In the other order the gappy points have the zero of the other sign. -/
theorem ofPoints?_of_gappyPoints :
    ∃ b c, ofPoints? gappyPoints = some b ∧ ofPoints? gappyPoints.reverse = some c ∧
      b = ⟨⟨half, half, -zero⟩, ⟨one, one, -zero⟩⟩ ∧
      c = ⟨⟨half, half, zero⟩, ⟨one, one, zero⟩⟩ ∧ b.Alike c ∧
      b.contains ⟨one, half, zero⟩ = true := by
  refine ⟨_, _, rfl, rfl, by decide, by decide, ?_, by decide⟩
  obtain ⟨-, -, hperm⟩ := ofPoints?_is_smallest gappyPoints
  cases hperm gappyPoints.reverse (List.reverse_perm _).symm with
  | some h => exact h

end Box

end Placement
