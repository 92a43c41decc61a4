/-
  Placement/Proofs/Query/InnerRays.lean
  =====================================
  **Rays that start inside a bound, in rounded arithmetic.**

  A ray that starts in a box should be in it from the parameter zero on, and the slab test
  says so but for one case.  If a ray moves up along an axis so slowly that its pace, the
  inverse of its direction there, is infinite, then a face of the box through the origin
  is zero times infinity away, which has no value.  The comparison that sorts the two faces
  fails on it, and takes them for the wrong way round: the stretch of the ray starts where it
  should end (`Span.Stalls`).  The same happens on an infinite face.  The ray is then said to
  miss the box (`entryTime_of_inside`), and the mesh of a model with that bound is not asked.

  Rays that move down are spared: for them the order in which a failed comparison leaves the
  faces is the right one.
-/
import Placement.Proofs.Binary32.Signs
import Placement.Proofs.Geometry.Axes
import Placement.Query.PlacedModel

namespace Placement

open Binary32

/-! ### When a plane is passed -/

section Passing

variable {edge origin direction : Binary32}

theorem isFinite_of_between_zero (hpos : zero < direction) (hfinite : direction < posInf) :
    direction.isFinite = true ∧ direction.isZero = false := by
  have hnegative := negative_eq_of_zero_lt (zero_lt_iff.mp hpos).2
  have hkey : direction.key < (infinityPattern : Int) := hfinite.2.2
  rw [key, hnegative, if_neg Bool.false_ne_true] at hkey
  exact ⟨decide_eq_true (Int.ofNat_lt.mp hkey), isZero_of_zero_lt hpos⟩

/-- The pace of a ray is a number that is not on the other side of zero. -/
theorem pace_sides (hnum : direction.isNaN = false) (hmoves : direction.isZero = false) :
    (one / direction).isNaN = false ∧
      ((one / direction).key < 0 → direction.key < 0) ∧
      (0 < (one / direction).key → 0 < direction.key) := by
  obtain ⟨p, hp, hpace⟩ : ∃ p ≤ infinityPattern, one / direction = ofParts direction.negative p := by
    by_cases hinf : direction.isInfinite = true
    · exact ⟨0, Nat.zero_le _, inverse_of_isInfinite hinf⟩
    · have hfinite := isFinite_iff.mpr ⟨hnum, Bool.eq_false_iff.mpr hinf⟩
      exact ⟨_, Format.nearest_le_infinity _ _, inverse_of_isFinite hfinite hmoves⟩
  have hsign := key_lt_zero_iff hmoves
  have hne : direction.key ≠ 0 := fun h => Bool.eq_false_iff.mp hmoves (key_eq_zero_iff.mp h)
  rw [hpace, key_ofParts hp]
  refine ⟨isNaN_ofParts hp _, ?_⟩
  cases hnegative : direction.negative <;>
    simp only [hnegative, Bool.false_eq_true, if_true, if_false, iff_true, iff_false] at hsign ⊢ <;>
    omega

/-- The side of a plane that is passed at another time than zero: ahead, the ray moves towards
    it; behind, away from it. -/
theorem time_sides (hedge : edge.isNaN = false) (horigin : origin.isNaN = false)
    (hnum : direction.isNaN = false) (hmoves : direction.isZero = false)
    (htime : ((edge - origin) * (one / direction)).isNaN = false) :
    (0 < ((edge - origin) * (one / direction)).key →
      (0 < direction.key ∧ origin.key < edge.key) ∨
        (direction.key < 0 ∧ edge.key < origin.key)) ∧
    (((edge - origin) * (one / direction)).key < 0 →
      (0 < direction.key ∧ edge.key < origin.key) ∨
        (direction.key < 0 ∧ origin.key < edge.key)) := by
  obtain ⟨-, hneg, hpos⟩ := pace_sides hnum hmoves
  rcases sub_cases hedge horigin with ⟨hnan, -⟩ | ⟨-, ⟨hbelow, habove, hsame⟩, -⟩
  · rw [isNaN_mul_of_isNaN (.inl hnan)] at htime
    cases htime
  · constructor
    · intro hahead
      obtain ⟨hgap, hpace, hsign⟩ := mul_sides htime (Int.ne_of_gt hahead)
      omega
    · intro hbehind
      obtain ⟨hgap, hpace, hsign⟩ := mul_sides htime (Int.ne_of_lt hbehind)
      omega

theorem side_of_zero_lt (hedge : edge.isNaN = false) (horigin : origin.isNaN = false)
    (hnum : direction.isNaN = false) (hmoves : direction.isZero = false)
    (h : zero < (edge - origin) * (one / direction)) :
    (0 < direction.key ∧ origin.key < edge.key) ∨ (direction.key < 0 ∧ edge.key < origin.key) :=
  (time_sides hedge horigin hnum hmoves h.2.1).1 (zero_lt_iff.mp h).2

theorem side_of_lt_zero (hedge : edge.isNaN = false) (horigin : origin.isNaN = false)
    (hnum : direction.isNaN = false) (hmoves : direction.isZero = false)
    (h : (edge - origin) * (one / direction) < zero) :
    (0 < direction.key ∧ edge.key < origin.key) ∨ (direction.key < 0 ∧ origin.key < edge.key) :=
  (time_sides hedge horigin hnum hmoves h.1).2 (lt_zero_iff.mp h).2

/-- The distance to a plane in steps of the ray overflows: the ray has no finite pace, or it
    starts at infinity. -/
def Overflows (origin direction : Binary32) : Prop :=
  direction ≤ greatestWithoutInverse ∨ origin.isInfinite = true
  deriving Decidable

theorem isInfinite_pace_iff (hpos : zero < direction) (hfinite : direction < posInf) :
    (one / direction).isInfinite = true ↔ direction ≤ greatestWithoutInverse := by
  obtain ⟨hdirection, hmoves⟩ := isFinite_of_between_zero hpos hfinite
  have hnegative := negative_eq_of_zero_lt (zero_lt_iff.mp hpos).2
  have hnumber : greatestWithoutInverse.isNaN = false := by decide
  have hkey : greatestWithoutInverse.key = greatestWithoutInverse.pattern := by decide
  rw [isInfinite_inverse_iff hdirection hmoves, le_iff, hkey, key, hnegative,
    if_neg Bool.false_ne_true, Int.ofNat_le]
  simp only [(isFinite_iff.mp hdirection).1, hnumber, true_and]

/-- A ray that moves up passes its own plane at no time if distances overflow. -/
theorem isNaN_time_iff (hedge : edge.isNaN = false) (horigin : origin.isNaN = false)
    (hpos : zero < direction) (hfinite : direction < posInf) :
    ((edge - origin) * (one / direction)).isNaN = true ↔
      edge.key = origin.key ∧ Overflows origin direction := by
  obtain ⟨hdirection, hmoves⟩ := isFinite_of_between_zero hpos hfinite
  obtain ⟨hpace, -⟩ := pace_sides (isFinite_iff.mp hdirection).1 hmoves
  have hzero := isZero_inverse hdirection hmoves
  rw [Overflows, ← isInfinite_pace_iff hpos hfinite]
  rcases sub_cases hedge horigin with ⟨hnan, hsame, hinf⟩ | ⟨hgap, ⟨hbelow, habove, hsame⟩, hinf⟩
  · exact iff_of_true (isNaN_mul_of_isNaN (.inl hnan)) ⟨hsame, .inr hinf⟩
  · rw [isNaN_mul_iff hgap hpace, hzero, ← key_eq_zero_iff]
    constructor
    · rintro (⟨hkey, hpaceinf⟩ | ⟨-, hfalse⟩)
      · exact ⟨by omega, .inl hpaceinf⟩
      · cases hfalse
    · rintro ⟨hkey, hpaceinf | horigininf⟩
      · exact .inl ⟨hsame hkey, hpaceinf⟩
      · exact absurd hkey (hinf horigininf).2

/-- It passes every other plane at infinity, ahead or behind. -/
theorem time_of_overflows (hedge : edge.isNaN = false) (horigin : origin.isNaN = false)
    (hpos : zero < direction) (hfinite : direction < posInf) (hover : Overflows origin direction) :
    (origin.key < edge.key → (edge - origin) * (one / direction) = posInf) ∧
      (edge.key < origin.key → (edge - origin) * (one / direction) = negInf) := by
  obtain ⟨hdirection, hmoves⟩ := isFinite_of_between_zero hpos hfinite
  obtain ⟨hpace, -, hpacesign⟩ := pace_sides (isFinite_iff.mp hdirection).1 hmoves
  have hzero := isZero_inverse hdirection hmoves
  have hpacenegative : (one / direction).negative = false := by
    rw [inverse_of_isFinite hdirection hmoves, Binary32.round,
      negative_ofParts (lt_signBit_of_le (Format.nearest_le_infinity _ _))]
    exact negative_eq_of_zero_lt (zero_lt_iff.mp hpos).2
  rw [Overflows, ← isInfinite_pace_iff hpos hfinite] at hover
  rcases sub_cases hedge horigin with ⟨-, hsame, -⟩ | ⟨hgap, ⟨hbelow, habove, -⟩, hinf⟩
  · constructor <;> intro hlt <;> omega
  · have hover' : (edge - origin).isInfinite = true ∨ (one / direction).isInfinite = true := by
      rcases hover with h | h
      · exact .inr h
      · exact .inl (hinf h).1
    have htime : (edge - origin).key ≠ 0 → (edge - origin) * (one / direction) =
        ofParts (edge - origin).negative infinityPattern := by
      intro hkey
      have hgapzero : (edge - origin).isZero = false :=
        Bool.eq_false_iff.mpr fun h => hkey (key_eq_zero_iff.mpr h)
      rw [mul_of_isInfinite hgap hpace hgapzero hzero hover', hpacenegative, Bool.bne_false]
    constructor
    · intro hlt
      have hkey := habove hlt
      rw [htime (Int.ne_of_gt hkey), negative_eq_of_zero_lt hkey]
      rfl
    · intro hlt
      have hkey := hbelow hlt
      rw [htime (Int.ne_of_lt hkey), negative_eq_of_lt_zero hkey]
      rfl

end Passing

namespace Span

variable {origin direction low high : Binary32}

/-- The slab test takes the planes of this axis for the wrong way round, although the ray
    starts between them. -/
def Stalls (origin direction low high : Binary32) : Prop :=
  zero < direction ∧ direction < posInf ∧ low < high ∧
    (Scalar.sameValue origin low = true ∨ Scalar.sameValue origin high = true) ∧
    Overflows origin direction
  deriving Decidable

/-- The times at which the planes are passed, in the order in which they are taken. -/
def passings (origin direction low high : Binary32) : Binary32 × Binary32 :=
  let toLow := (low - origin) * (one / direction)
  let toHigh := (high - origin) * (one / direction)
  if toLow < toHigh then (toLow, toHigh) else (toHigh, toLow)

theorem clip_of_still (s : Span Binary32) (hstill : Scalar.sameValue direction zero = true) :
    s.clip origin direction low high = if origin < low ∨ high < origin then none else some s := by
  rw [clip]
  exact if_pos hstill

theorem clip_of_moves (s : Span Binary32) (hmoves : ¬ Scalar.sameValue direction zero = true) :
    s.clip origin direction low high =
      some ⟨Scalar.max s.enter (passings origin direction low high).1,
        Scalar.min s.exit (passings origin direction low high).2⟩ := by
  rw [clip]
  exact if_neg hmoves

theorem passings_of_stalls (h : Stalls origin direction low high) :
    (passings origin direction low high).1 = posInf ∨
      (passings origin direction low high).2 = negInf := by
  obtain ⟨hpos, hfinite, hopen, hface, hover⟩ := h
  have hlow := hopen.1
  have hhigh := hopen.2.1
  rw [sameValue_iff, sameValue_iff] at hface
  rw [passings]
  rcases hface with ⟨horigin, -, hkey⟩ | ⟨horigin, -, hkey⟩
  · -- the low plane is passed at no time
    have hnan := (isNaN_time_iff hlow horigin hpos hfinite).mpr ⟨hkey.symm, hover⟩
    have hnot : ¬ (low - origin) * (one / direction) < (high - origin) * (one / direction) := by
      intro hlt
      rw [hlt.1] at hnan
      cases hnan
    rw [if_neg hnot]
    refine .inl ((time_of_overflows hhigh horigin hpos hfinite hover).1 ?_)
    exact hkey ▸ hopen.2.2
  · have hnan := (isNaN_time_iff hhigh horigin hpos hfinite).mpr ⟨hkey.symm, hover⟩
    have hnot : ¬ (low - origin) * (one / direction) < (high - origin) * (one / direction) := by
      intro hlt
      rw [hlt.2.1] at hnan
      cases hnan
    rw [if_neg hnot]
    refine .inr ((time_of_overflows hlow horigin hpos hfinite hover).2 ?_)
    exact hkey ▸ hopen.2.2

/-- A ray without a finite direction passes planes at zero, if at any time. -/
theorem time_of_isInfinite {edge : Binary32} (h : direction.isInfinite = true) :
    ¬ zero < (edge - origin) * (one / direction) ∧ ¬ (edge - origin) * (one / direction) < zero := by
  have hpace : (one / direction).key = 0 := by
    rw [inverse_of_isInfinite h, key_ofParts (Nat.zero_le _)]
    simp
  constructor
  · intro hlt
    obtain ⟨hnum, hkey⟩ := zero_lt_iff.mp hlt
    exact (mul_sides hnum (Int.ne_of_gt hkey)).2.1 hpace
  · intro hlt
    obtain ⟨hnum, hkey⟩ := lt_zero_iff.mp hlt
    exact (mul_sides hnum (Int.ne_of_lt hkey)).2.1 hpace

theorem passings_of_isInfinite (h : direction.isInfinite = true) :
    ¬ zero < (passings origin direction low high).1 ∧
      ¬ (passings origin direction low high).2 < zero := by
  rw [passings]
  split
  · exact ⟨(time_of_isInfinite h).1, (time_of_isInfinite h).2⟩
  · exact ⟨(time_of_isInfinite h).1, (time_of_isInfinite h).2⟩

theorem passings_of_down (hlow : low ≤ origin) (hhigh : origin ≤ high) (hdown : direction < zero) :
    ¬ zero < (passings origin direction low high).1 ∧
      ¬ (passings origin direction low high).2 < zero := by
  obtain ⟨hnum, hkey⟩ := lt_zero_iff.mp hdown
  have hmoves : direction.isZero = false :=
    Bool.eq_false_iff.mpr fun h => Int.ne_of_lt hkey (key_eq_zero_iff.mpr h)
  have hlowkey : low.key ≤ origin.key := hlow.2.2
  have hhighkey : origin.key ≤ high.key := hhigh.2.2
  have hbehind : ¬ zero < (high - origin) * (one / direction) := by
    intro h
    have := side_of_zero_lt hhigh.2.1 hhigh.1 hnum hmoves h
    omega
  have hahead : ¬ (low - origin) * (one / direction) < zero := by
    intro h
    have := side_of_lt_zero hlow.1 hlow.2.1 hnum hmoves h
    omega
  rw [passings, if_neg]
  · exact ⟨hbehind, hahead⟩
  · intro hlt
    -- a number below another one is below zero, or the other one is above it
    rcases lt_or_lt_of_lt hlt (by decide : zero.isNaN = false) with h | h
    · exact hahead h
    · exact hbehind h

theorem passings_of_up (hlow : low ≤ origin) (hhigh : origin ≤ high) (hpos : zero < direction)
    (hfinite : direction < posInf) (hstalls : ¬ Stalls origin direction low high) :
    ¬ zero < (passings origin direction low high).1 ∧
      ¬ (passings origin direction low high).2 < zero := by
  have hnum := isNaN_right_of_lt hpos
  have hmoves := (isFinite_of_between_zero hpos hfinite).2
  have hkey : 0 < direction.key := (zero_lt_iff.mp hpos).2
  have hlowkey : low.key ≤ origin.key := hlow.2.2
  have hhighkey : origin.key ≤ high.key := hhigh.2.2
  have hbehind : ¬ zero < (low - origin) * (one / direction) := by
    intro h
    have := side_of_zero_lt hlow.1 hlow.2.1 hnum hmoves h
    omega
  have hahead : ¬ (high - origin) * (one / direction) < zero := by
    intro h
    have := side_of_lt_zero hhigh.2.1 hhigh.1 hnum hmoves h
    omega
  rw [passings]
  by_cases hlt : (low - origin) * (one / direction) < (high - origin) * (one / direction)
  · rw [if_pos hlt]
    exact ⟨hbehind, hahead⟩
  · rw [if_neg hlt]
    constructor
    · -- the high plane is ahead, so it is the low one that has no time
      intro hlate
      have hside := side_of_zero_lt hhigh.2.1 hhigh.1 hnum hmoves hlate
      have hnan : ((low - origin) * (one / direction)).isNaN = true := by
        by_contra h
        exact (lt_or_lt_of_lt hlate (Bool.eq_false_iff.mpr h)).elim hbehind hlt
      obtain ⟨hsame, hover⟩ := (isNaN_time_iff hlow.1 hlow.2.1 hpos hfinite).mp hnan
      refine hstalls ⟨hpos, hfinite, ⟨hlow.1, hhigh.2.1, by omega⟩, .inl ?_, hover⟩
      exact sameValue_iff.mpr ⟨hlow.2.1, hlow.1, hsame.symm⟩
    · intro hearly
      have hside := side_of_lt_zero hlow.1 hlow.2.1 hnum hmoves hearly
      have hnan : ((high - origin) * (one / direction)).isNaN = true := by
        by_contra h
        exact (lt_or_lt_of_lt hearly (Bool.eq_false_iff.mpr h)).elim hlt hahead
      obtain ⟨hsame, hover⟩ := (isNaN_time_iff hhigh.2.1 hhigh.1 hpos hfinite).mp hnan
      refine hstalls ⟨hpos, hfinite, ⟨hlow.1, hhigh.2.1, by omega⟩, .inr ?_, hover⟩
      exact sameValue_iff.mpr ⟨hhigh.1, hhigh.2.1, hsame.symm⟩

theorem passings_of_not_stalls (hlow : low ≤ origin) (hhigh : origin ≤ high)
    (hnum : direction.isNaN = false) (hmoves : ¬ Scalar.sameValue direction zero = true)
    (hstalls : ¬ Stalls origin direction low high) :
    ¬ zero < (passings origin direction low high).1 ∧
      ¬ (passings origin direction low high).2 < zero := by
  by_cases hinf : direction.isInfinite = true
  · exact passings_of_isInfinite hinf
  · have hbetween := key_between hnum (Bool.eq_false_iff.mpr hinf)
    rcases Int.lt_trichotomy direction.key 0 with hdown | hstill | hup
    · exact passings_of_down hlow hhigh (lt_zero_iff.mpr ⟨hnum, hdown⟩)
    · have hkey : direction.key = zero.key := hstill
      exact absurd (sameValue_iff.mpr ⟨hnum, by decide, hkey⟩) hmoves
    · exact passings_of_up hlow hhigh (zero_lt_iff.mpr ⟨hnum, hup⟩) ⟨hnum, by decide, hbetween.2⟩
        hstalls

/-! ### Stretches around the origin -/

/-- The stretch starts no later than at the origin, and does not end before it. -/
def AtOrigin (s : Span Binary32) : Prop := ¬ zero < s.enter ∧ ¬ s.exit < zero

/-- The stretch starts at infinity or ends before everything. -/
def Void (s : Span Binary32) : Prop := s.enter = posInf ∨ s.exit = negInf

theorem max_posInf_left (a : Binary32) : Scalar.max posInf a = posInf := by
  apply eq_posInf_of_le
  exact le_max_iff.mpr (.inl (by decide))

theorem max_posInf_right (a : Binary32) : Scalar.max a posInf = posInf := by
  apply eq_posInf_of_le
  exact le_max_iff.mpr (.inr (by decide))

theorem min_negInf_left (a : Binary32) : Scalar.min negInf a = negInf := by
  apply eq_negInf_of_le
  exact min_le_iff.mpr (.inl (by decide))

theorem min_negInf_right (a : Binary32) : Scalar.min a negInf = negInf := by
  apply eq_negInf_of_le
  exact min_le_iff.mpr (.inr (by decide))

theorem start_of_atOrigin {s : Span Binary32} (h : s.AtOrigin) : s.start = zero := by
  have henter : Scalar.max s.enter zero = zero := if_neg h.1
  rw [start]
  change (if s.exit < Scalar.max s.enter zero then posInf else Scalar.max s.enter zero) = zero
  rw [henter, if_neg h.2]

theorem start_of_void {s : Span Binary32} (h : s.Void) : s.start = posInf := by
  rw [start]
  change (if s.exit < Scalar.max s.enter zero then posInf else Scalar.max s.enter zero) = posInf
  rcases h with henter | hexit
  · rw [henter, max_posInf_left]
    split <;> rfl
  · rw [hexit]
    have hlt : negInf < Scalar.max s.enter zero := lt_max_iff.mpr (.inr (by decide))
    exact if_pos hlt

/-- A plane pair around the origin leaves a stretch around the origin, unless the ray stalls. -/
theorem exists_clip_of_inside (s : Span Binary32) (hlow : low ≤ origin) (hhigh : origin ≤ high)
    (hnum : direction.isNaN = false) :
    ∃ s', s.clip origin direction low high = some s' ∧
      (s.Void ∨ Stalls origin direction low high → s'.Void) ∧
      (s.AtOrigin → ¬ Stalls origin direction low high → s'.AtOrigin) := by
  by_cases hmoves : Scalar.sameValue direction zero = true
  · have hinside : ¬ (origin < low ∨ high < origin) := by
      rintro (h | h)
      · exact lt_irrefl _ (lt_of_le_of_lt hlow h)
      · exact lt_irrefl _ (lt_of_le_of_lt hhigh h)
    refine ⟨s, ?_, ?_, fun h _ => h⟩
    · rw [clip_of_still s hmoves, if_neg hinside]
    · rintro (h | ⟨hpos, -⟩)
      · exact h
      · have hkey := (sameValue_iff.mp hmoves).2.2
        exact absurd (zero_lt_iff.mp hpos).2 (hkey ▸ by decide)
  · refine ⟨_, clip_of_moves s hmoves, ?_, ?_⟩
    · rintro ((h | h) | h)
      · exact .inl (by rw [h, max_posInf_left])
      · exact .inr (by rw [h, min_negInf_left])
      · rcases passings_of_stalls h with hnear | hfar
        · exact .inl (by rw [hnear, max_posInf_right])
        · exact .inr (by rw [hfar, min_negInf_right])
    · rintro ⟨henter, hexit⟩ hstalls
      obtain ⟨hnear, hfar⟩ := passings_of_not_stalls hlow hhigh hnum hmoves hstalls
      constructor
      · rw [lt_max_iff]
        exact fun h => h.elim henter hnear
      · rw [min_lt_iff]
        exact fun h => h.elim hexit hfar

end Span

namespace Ray

variable {r : Ray Binary32} {b : Box Binary32}

/-- The ray stalls along an axis. -/
def Stalls (r : Ray Binary32) (b : Box Binary32) (axis : Axis) : Prop :=
  Span.Stalls (r.origin.along axis) (r.direction.along axis) (b.low.along axis) (b.high.along axis)
  deriving Decidable

theorem exists_span_of_inside (hinside : b.contains r.origin = true)
    (hnum : ∀ axis, (r.direction.along axis).isNaN = false) :
    ∃ s, r.span? b = some s ∧ ((∃ axis, r.Stalls b axis) → s.Void) ∧
      ((∀ axis, ¬ r.Stalls b axis) → s.AtOrigin) := by
  have hbetween := Box.contains_iff.mp hinside
  have hwhole : (Span.whole : Span Binary32).AtOrigin := ⟨by decide, by decide⟩
  obtain ⟨sx, hx, hvoidx, hatx⟩ := Span.exists_clip_of_inside .whole (hbetween .x).1
    (hbetween .x).2 (hnum .x)
  obtain ⟨sy, hy, hvoidy, haty⟩ := Span.exists_clip_of_inside sx (hbetween .y).1 (hbetween .y).2
    (hnum .y)
  obtain ⟨sz, hz, hvoidz, hatz⟩ := Span.exists_clip_of_inside sy (hbetween .z).1 (hbetween .z).2
    (hnum .z)
  refine ⟨sz, ?_, ?_, ?_⟩
  · exact Option.bind_eq_some_iff.mpr ⟨sx, hx, Option.bind_eq_some_iff.mpr ⟨sy, hy, hz⟩⟩
  · rintro ⟨_ | _ | _, hstalls⟩
    · exact hvoidz (.inl (hvoidy (.inl (hvoidx (.inr hstalls)))))
    · exact hvoidz (.inl (hvoidy (.inr hstalls)))
    · exact hvoidz (.inr hstalls)
  · intro hfree
    exact hatz (haty (hatx hwhole (hfree .x)) (hfree .y)) (hfree .z)

theorem entryTime_cases (hinside : b.contains r.origin = true)
    (hnum : ∀ axis, (r.direction.along axis).isNaN = false) :
    ((∃ axis, r.Stalls b axis) ∧ r.entryTime b = posInf) ∨
      ((∀ axis, ¬ r.Stalls b axis) ∧ r.entryTime b = zero) := by
  obtain ⟨s, hs, hvoid, hat⟩ := exists_span_of_inside hinside hnum
  have hentry : r.entryTime b = s.start := by rw [entryTime, hs]
  by_cases hstalls : ∃ axis, r.Stalls b axis
  · exact .inl ⟨hstalls, hentry.trans (Span.start_of_void (hvoid hstalls))⟩
  · rw [not_exists] at hstalls
    exact .inr ⟨hstalls, hentry.trans (Span.start_of_atOrigin (hat hstalls))⟩

/-- **A ray that starts inside a box is in it at once, unless it stalls.**  For every box and
    every ray from inside it, with numbers for its direction, the slab test says zero exactly
    if the ray stalls along no axis; otherwise it says that the ray misses.  A loaded model
    with that box as its bound is asked exactly in the first case. -/
theorem entryTime_of_inside (hinside : b.contains r.origin = true)
    (hnum : ∀ axis, (r.direction.along axis).isNaN = false) :
    (r.entryTime b = zero ↔ ∀ axis, ¬ r.Stalls b axis) ∧
    (r.entryTime b = posInf ↔ ∃ axis, r.Stalls b axis) ∧
    ∀ {μ : Type} (p : PlacedModel Binary32 μ) (model : μ), p.model = some model →
      p.spawn.bound = some b →
      (p.rayGate r = .ok model ↔ ∀ axis, ¬ r.Stalls b axis) ∧
      (p.rayGate r = .error (.besideBound p.spawn.shownName) ↔ ∃ axis, r.Stalls b axis) := by
  have hne : zero ≠ posInf := by decide
  have hmiss : Scalar.isInfinite posInf = true := by decide
  have hreach : Scalar.isInfinite zero = false := by decide
  rcases entryTime_cases hinside hnum with ⟨hstalls, hentry⟩ | ⟨hfree, hentry⟩
  · have hnot : ¬ ∀ axis, ¬ r.Stalls b axis := fun h => hstalls.elim h
    refine ⟨iff_of_false ?_ hnot, iff_of_true hentry hstalls, ?_⟩
    · rw [hentry]
      exact hne.symm
    · intro μ p model hmodel hbound
      have hgate : p.rayGate r = .error (.besideBound p.spawn.shownName) := by
        simp only [PlacedModel.rayGate, hmodel, hbound, hentry, hmiss, if_true]
      exact ⟨iff_of_false (by rw [hgate]; simp) hnot, iff_of_true hgate hstalls⟩
  · have hnot : ¬ ∃ axis, r.Stalls b axis := fun ⟨axis, h⟩ => hfree axis h
    refine ⟨iff_of_true hentry hfree, iff_of_false ?_ hnot, ?_⟩
    · rw [hentry]
      exact hne
    · intro μ p model hmodel hbound
      have hgate : p.rayGate r = .ok model := by
        simp only [PlacedModel.rayGate, hmodel, hbound, hentry, hreach, Bool.false_eq_true,
          if_false]
      exact ⟨iff_of_true hgate hfree, iff_of_false (by rw [hgate]; simp) hnot⟩

def unitBox : Box Binary32 := ⟨⟨zero, zero, zero⟩, ⟨one, one, one⟩⟩

/-- A spawn that fills the unit box. -/
def unitSpawn : Spawn Binary32 :=
  (Spawn.unbounded 0 0 [] unitBox.low unitBox.low one).attachBound unitBox

/-- A ray from the middle of the low face of the unit box, straight into it. -/
def fromFace (direction : Binary32) : Ray Binary32 :=
  ⟨⟨zero, half, half⟩, ⟨direction, zero, zero⟩⟩

/-- The slowest of these rays that does not stall. -/
theorem entryTime_of_slow_ray :
    unitBox.contains (fromFace ⟨0x00200001⟩).origin = true ∧
      (∀ axis, ((fromFace ⟨0x00200001⟩).direction.along axis).isNaN = false) ∧
      (fromFace ⟨0x00200001⟩).entryTime unitBox = zero ∧
      ∃ p : PlacedModel Binary32 Unit, PlacedModel.place 0 unitSpawn (some ()) = .ok p ∧
        p.rayGate (fromFace ⟨0x00200001⟩) = .ok () := by
  have hinside : unitBox.contains (fromFace ⟨0x00200001⟩).origin = true := by decide
  have hnum : ∀ axis, ((fromFace ⟨0x00200001⟩).direction.along axis).isNaN = false := by
    intro axis
    cases axis <;> decide
  have hfree : ∀ axis, ¬ (fromFace ⟨0x00200001⟩).Stalls unitBox axis := by
    intro axis
    cases axis <;> decide
  obtain ⟨hentry, -, hgate⟩ := entryTime_of_inside hinside hnum
  exact ⟨hinside, hnum, hentry.mpr hfree, _, rfl, (hgate _ () rfl rfl).1.mpr hfree⟩

/-- The next slower ray is said to miss the box in which it starts. -/
theorem entryTime_of_stalling_ray :
    unitBox.contains (fromFace greatestWithoutInverse).origin = true ∧
      (∀ axis, ((fromFace greatestWithoutInverse).direction.along axis).isNaN = false) ∧
      (fromFace greatestWithoutInverse).entryTime unitBox = posInf ∧
      ∃ p : PlacedModel Binary32 Unit, PlacedModel.place 0 unitSpawn (some ()) = .ok p ∧
        p.rayGate (fromFace greatestWithoutInverse) = .error (.besideBound "") := by
  have hnum : ∀ axis, ((fromFace greatestWithoutInverse).direction.along axis).isNaN = false := by
    intro axis
    cases axis <;> decide
  have hentry : (fromFace greatestWithoutInverse).entryTime unitBox = posInf := by
    decide +kernel
  refine ⟨by decide, hnum, hentry, _, rfl, ?_⟩
  rw [PlacedModel.rayGate]
  change (if Scalar.isInfinite ((fromFace greatestWithoutInverse).entryTime unitBox) then
    Except.error (Refusal.besideBound (Utf8.decodeLossy [])) else .ok ()) = _
  rw [hentry]
  decide

end Ray

end Placement
