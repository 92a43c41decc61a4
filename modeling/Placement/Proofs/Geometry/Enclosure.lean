/-
  Placement/Proofs/Geometry/Enclosure.lean
  ========================================
  **What is in a box, and when a ray is in it.**

  Two things lead from the geometry of a model to the bound of its spawn.  The image of a
  box encloses the images of all that the box encloses: along each axis a point is no
  farther from the centre than the half extents reach (`image_axis`).  And the slab test
  keeps account of the parameters at which a ray is in a box: clipping a stretch to a slab
  leaves those of its parameters at which the ray is between the planes
  (`Span.exists_clip_iff`), also if the ray runs along them.  So the stretch that three slabs
  leave is the stretch in the box, and it starts where the ray enters.
-/
import Mathlib.Algebra.Order.AbsoluteValue.Basic
import Mathlib.Algebra.Order.Ring.Rat
import Mathlib.Order.Bounds.Basic
import Mathlib.Tactic.Linarith
import Mathlib.Tactic.NormNum
import Placement.Proofs.Geometry.Frames

namespace Placement

variable {K : Type} [LinearOrder K]

/-! ### Boxes -/

/-- The low corner is nowhere above the high one. -/
def Box.Proper (b : Box K) : Prop :=
  b.low.x ≤ b.high.x ∧ b.low.y ≤ b.high.y ∧ b.low.z ≤ b.high.z

theorem Box.Encloses.proper {b : Box K} {p : Vec3 K} (h : b.Encloses p) : b.Proper :=
  ⟨h.1.1.trans h.1.2, h.2.1.1.trans h.2.1.2, h.2.2.1.trans h.2.2.2⟩

variable [Field K]

section Boxes

variable [IsStrictOrderedRing K]

/-- What one axis of the box contributes along one axis of its image. -/
theorem abs_part_sub_le (a : K) {s low high x : K} (hs : 0 ≤ s) (h : low ≤ x ∧ x ≤ high) :
    |a * x * s - a * ((low + high) * (1 / 2) * s)| ≤ |a| * ((high - low) * (1 / 2) * s) := by
  have hsplit : a * x * s - a * ((low + high) * (1 / 2) * s) =
      a * ((x - (low + high) * (1 / 2)) * s) := by ring
  have hdistance : |x - (low + high) * (1 / 2)| ≤ (high - low) * (1 / 2) := by
    rw [abs_le]
    constructor
    · linarith [h.1]
    · linarith [h.2]
  rw [hsplit, abs_mul, abs_mul, abs_of_nonneg hs]
  gcongr

/-- One axis of the image: the centre is mapped, and the half extents reach far enough. -/
theorem image_axis (a b c shift : K) {s : K} {p : Vec3 K} {box : Box K} (hs : 0 ≤ s)
    (h : box.Encloses p) :
    let center := a * ((box.low.x + box.high.x) * (1 / 2) * s) +
      b * ((box.low.y + box.high.y) * (1 / 2) * s) + c * ((box.low.z + box.high.z) * (1 / 2) * s)
    let reach := |a| * ((box.high.x - box.low.x) * (1 / 2) * s) +
      |b| * ((box.high.y - box.low.y) * (1 / 2) * s) +
      |c| * ((box.high.z - box.low.z) * (1 / 2) * s)
    center + shift - reach ≤ (a * p.x + b * p.y + c * p.z) * s + shift ∧
      (a * p.x + b * p.y + c * p.z) * s + shift ≤ center + shift + reach := by
  obtain ⟨hx, hy, hz⟩ := h
  have hx := abs_le.mp (abs_part_sub_le a hs hx)
  have hy := abs_le.mp (abs_part_sub_le b hs hy)
  have hz := abs_le.mp (abs_part_sub_le c hs hz)
  constructor
  · linarith [hx.1, hy.1, hz.1]
  · linarith [hx.2, hy.2, hz.2]

/-- The image of a box encloses the images of what the box encloses. -/
theorem Transform.encloses_boxToWorld {t : Transform K} (hscale : 0 ≤ t.scale) {b : Box K}
    {q : Vec3 K} (hq : b.Encloses q) : (t.boxToWorld b).Encloses (t.pointToWorld q) :=
  ⟨image_axis _ _ _ _ hscale hq, image_axis _ _ _ _ hscale hq, image_axis _ _ _ _ hscale hq⟩

end Boxes

/-! ### Slabs -/

namespace Span

/-- The parameter is in the stretch. -/
def Has (s : Span (Exact K)) (u : K) : Prop := s.enter ≤ .number u ∧ .number u ≤ s.exit

theorem has_whole (u : K) : (whole : Span (Exact K)).Has u :=
  ⟨Exact.negInf_le _, Exact.le_posInf _⟩

/-- A ray along the planes is left alone, or it is nowhere between them. -/
theorem clip_still (s : Span (Exact K)) (origin low high : K) :
    s.clip (.number origin) (.number 0) (.number low) (.number high) =
      if low ≤ origin ∧ origin ≤ high then some s else none := by
  have hstill : Scalar.sameValue (Exact.number (0 : K)) Scalar.zero = true :=
    Exact.sameValue_iff.mpr rfl
  rw [clip, if_pos hstill]
  simp only [Exact.number_lt_number]
  by_cases hinside : low ≤ origin ∧ origin ≤ high
  · rw [if_pos hinside, if_neg]
    rw [not_or]
    exact ⟨not_lt_of_ge hinside.1, not_lt_of_ge hinside.2⟩
  · rw [if_neg hinside, if_pos]
    by_contra hnot
    rw [not_or, not_lt, not_lt] at hnot
    exact hinside hnot

theorem sorted_pair (a b : K) :
    (if Exact.number a < Exact.number b then (Exact.number a, Exact.number b)
      else (Exact.number b, Exact.number a)) = (Exact.number (min a b), Exact.number (max a b)) := by
  rcases lt_or_ge a b with h | h
  · rw [if_pos (Exact.number_lt_number.mpr h), min_eq_left h.le, max_eq_right h.le]
  · rw [if_neg (fun h' => not_lt_of_ge h (Exact.number_lt_number.mp h')), min_eq_right h,
      max_eq_left h]

/-- A ray that crosses the planes is between them from the one parameter to the other. -/
theorem clip_moving (s : Span (Exact K)) {origin direction low high : K}
    (hdirection : direction ≠ 0) :
    s.clip (.number origin) (.number direction) (.number low) (.number high) =
      some ⟨max s.enter (.number (min ((low - origin) * (1 / direction))
          ((high - origin) * (1 / direction)))),
        min s.exit (.number (max ((low - origin) * (1 / direction))
          ((high - origin) * (1 / direction))))⟩ := by
  have hmoves : ¬ Scalar.sameValue (Exact.number direction) Scalar.zero = true := by
    rw [Exact.sameValue_iff]
    intro h
    exact hdirection (Exact.number.inj h)
  rw [clip, if_neg hmoves, ← Exact.max_eq, ← Exact.min_eq]
  exact congrArg (fun p : Exact K × Exact K =>
    some (⟨Scalar.max s.enter p.1, Scalar.min s.exit p.2⟩ : Span (Exact K))) (sorted_pair _ _)

/-- The start of a stretch is its least parameter that is not behind the origin. -/
theorem start_eq_number {s : Span (Exact K)} (hs : ∃ u : K, 0 ≤ u ∧ s.Has u) :
    ∃ e : K, s.start = .number e ∧ IsLeast {u | 0 ≤ u ∧ s.Has u} e := by
  obtain ⟨u, hu, hhas⟩ := hs
  have hbehind : ∀ v : K, 0 ≤ v → s.Has v → max s.enter (.number 0) ≤ .number v :=
    fun v hv hv' => max_le hv'.1 (Exact.number_le_number.mpr hv)
  have hopen : max s.enter (.number 0) ≤ s.exit := (hbehind u hu hhas).trans hhas.2
  obtain ⟨e, he, hzero, -⟩ :=
    Exact.exists_number_of_between (le_max_right s.enter (.number 0)) (hbehind u hu hhas)
  refine ⟨e, ?_, ⟨hzero, ?_, ?_⟩, ?_⟩
  · rw [start, Exact.max_eq]
    exact (if_neg (not_lt_of_ge hopen)).trans he
  · exact he ▸ le_max_left _ _
  · exact he ▸ hopen
  · rintro v ⟨hv, hv'⟩
    exact Exact.number_le_number.mp (he ▸ hbehind v hv hv')

theorem start_eq_posInf {s : Span (Exact K)} (hs : ¬ ∃ u : K, 0 ≤ u ∧ s.Has u) :
    s.start = .posInf := by
  have hzero : .number 0 ≤ max s.enter (.number 0) := le_max_right _ _
  have henter : s.enter ≤ max s.enter (.number 0) := le_max_left _ _
  rw [start, Exact.max_eq]
  by_cases hclosed : s.exit < max s.enter (.number 0)
  · exact if_pos hclosed
  · refine (if_neg hclosed).trans ?_
    have hopen := le_of_not_gt hclosed
    change max s.enter (.number 0) = .posInf
    generalize max s.enter (.number 0) = e at hzero henter hopen
    -- the stretch may start at infinity; then that is also what is returned
    cases e with
    | negInf => exact absurd (Exact.negInf_lt_number 0) (not_lt_of_ge hzero)
    | number e => exact absurd ⟨e, Exact.number_le_number.mp hzero, henter, hopen⟩ hs
    | posInf => rfl

variable [IsStrictOrderedRing K] {low high : K}

theorem between_iff {origin direction u : K} (hdirection : direction ≠ 0) (h : low ≤ high) :
    (min ((low - origin) * (1 / direction)) ((high - origin) * (1 / direction)) ≤ u ∧
        u ≤ max ((low - origin) * (1 / direction)) ((high - origin) * (1 / direction))) ↔
      low ≤ origin + direction * u ∧ origin + direction * u ≤ high := by
  rw [mul_one_div, mul_one_div]
  have hsub : low - origin ≤ high - origin := sub_le_sub_right h origin
  -- a ray that goes down comes to the high plane first
  rcases lt_or_gt_of_ne hdirection with hneg | hpos
  · have hsorted := div_le_div_of_nonpos_of_le hneg.le hsub
    rw [min_eq_right hsorted, max_eq_left hsorted, div_le_iff_of_neg hneg, le_div_iff_of_neg hneg]
    constructor
    · rintro ⟨h₁, h₂⟩
      constructor <;> linarith
    · rintro ⟨h₁, h₂⟩
      constructor <;> linarith
  · have hsorted := div_le_div_of_nonneg_right hsub hpos.le
    rw [min_eq_left hsorted, max_eq_right hsorted, div_le_iff₀ hpos, le_div_iff₀ hpos]
    constructor
    · rintro ⟨h₁, h₂⟩
      constructor <;> linarith
    · rintro ⟨h₁, h₂⟩
      constructor <;> linarith

/-- Clipping leaves those parameters of a stretch at which the ray is between the planes. -/
theorem exists_clip_iff (s : Span (Exact K)) (origin direction : K) (h : low ≤ high) {u : K} :
    (∃ s', s.clip (.number origin) (.number direction) (.number low) (.number high) = some s' ∧
        s'.Has u) ↔
      s.Has u ∧ low ≤ origin + direction * u ∧ origin + direction * u ≤ high := by
  by_cases hdirection : direction = 0
  · subst hdirection
    rw [clip_still, zero_mul, add_zero]
    by_cases hinside : low ≤ origin ∧ origin ≤ high
    · simp [hinside]
    · simp only [hinside, and_false, iff_false]
      rintro ⟨s', hs', -⟩
      cases hs'
  · simp only [clip_moving s hdirection, Option.some.injEq, exists_eq_left', Has, max_le_iff,
      le_min_iff, Exact.number_le_number, ← between_iff hdirection h]
    tauto

end Span

/-! ### Rays -/

namespace Ray

variable [IsStrictOrderedRing K] {r : Ray K} {b : Box K}

theorem exists_span_iff (hb : b.Proper) {u : K} :
    (∃ s, r.exact.span? b.exact = some s ∧ s.Has u) ↔ b.Encloses (r.point u) := by
  have hspan : r.exact.span? b.exact = ((Span.whole.clip (.number r.origin.x)
      (.number r.direction.x) (.number b.low.x) (.number b.high.x)).bind fun s =>
        (s.clip (.number r.origin.y) (.number r.direction.y) (.number b.low.y)
          (.number b.high.y)).bind fun s =>
            s.clip (.number r.origin.z) (.number r.direction.z) (.number b.low.z)
              (.number b.high.z)) := rfl
  obtain ⟨hx, hy, hz⟩ := hb
  rw [hspan]
  constructor
  · rintro ⟨sz, hclip, hhas⟩
    obtain ⟨sx, hsx, hclip⟩ := Option.bind_eq_some_iff.mp hclip
    obtain ⟨sy, hsy, hsz⟩ := Option.bind_eq_some_iff.mp hclip
    obtain ⟨hhas, hbetweenz⟩ := (Span.exists_clip_iff sy _ _ hz).mp ⟨sz, hsz, hhas⟩
    obtain ⟨hhas, hbetweeny⟩ := (Span.exists_clip_iff sx _ _ hy).mp ⟨sy, hsy, hhas⟩
    obtain ⟨-, hbetweenx⟩ := (Span.exists_clip_iff .whole _ _ hx).mp ⟨sx, hsx, hhas⟩
    exact ⟨hbetweenx, hbetweeny, hbetweenz⟩
  · rintro ⟨hbetweenx, hbetweeny, hbetweenz⟩
    obtain ⟨sx, hsx, hhas⟩ :=
      (Span.exists_clip_iff .whole _ _ hx).mpr ⟨Span.has_whole u, hbetweenx⟩
    obtain ⟨sy, hsy, hhas⟩ := (Span.exists_clip_iff sx _ _ hy).mpr ⟨hhas, hbetweeny⟩
    obtain ⟨sz, hsz, hhas⟩ := (Span.exists_clip_iff sy _ _ hz).mpr ⟨hhas, hbetweenz⟩
    refine ⟨sz, ?_, hhas⟩
    rw [hsx, Option.bind_some, hsy, Option.bind_some, hsz]

theorem has_iff (hb : b.Proper) {s : Span (Exact K)} (hs : r.exact.span? b.exact = some s) {u : K} :
    s.Has u ↔ b.Encloses (r.point u) := by
  rw [← exists_span_iff hb, hs]
  simp only [Option.some.injEq, exists_eq_left']

/-- The ray enters a box at the first of the parameters at which it is in it. -/
theorem entryTime_eq_number (hb : b.Proper) (h : ∃ u, 0 ≤ u ∧ b.Encloses (r.point u)) :
    ∃ e : K, r.exact.entryTime b.exact = .number e ∧
      IsLeast {u | 0 ≤ u ∧ b.Encloses (r.point u)} e := by
  obtain ⟨u, hu, hinside⟩ := h
  obtain ⟨s, hs, hhas⟩ := (exists_span_iff hb).mpr hinside
  obtain ⟨e, he, hleast⟩ := Span.start_eq_number ⟨u, hu, hhas⟩
  refine ⟨e, ?_, ?_⟩
  · rw [entryTime, hs]
    exact he
  · simpa only [has_iff hb hs] using hleast

theorem entryTime_eq_posInf (hb : b.Proper) (h : ¬ ∃ u, 0 ≤ u ∧ b.Encloses (r.point u)) :
    r.exact.entryTime b.exact = .posInf := by
  rw [entryTime]
  cases hs : r.exact.span? b.exact with
  | none => rfl
  | some s =>
    refine Span.start_eq_posInf ?_
    simpa only [has_iff hb hs] using h

/-- **The slab test is exact.**  In exact arithmetic, for whatever ray and whatever box with its
    corners in order, the test finds the least parameter from the origin on at which the ray
    is in the box, and infinity if there is none.  So it finds zero for those rays that start
    in the box, and for no others. -/
theorem slab_test_exact (hb : b.Proper) (r : Ray K) :
    ((∃ u, 0 ≤ u ∧ b.exact.contains (r.exact.pointAt (.number u)) = true) →
      ∃ e, r.exact.entryTime b.exact = .number e ∧
        IsLeast {u | 0 ≤ u ∧ b.exact.contains (r.exact.pointAt (.number u)) = true} e) ∧
    ((¬ ∃ u, 0 ≤ u ∧ b.exact.contains (r.exact.pointAt (.number u)) = true) →
      r.exact.entryTime b.exact = Scalar.posInf) ∧
    (r.exact.entryTime b.exact = Scalar.zero ↔ b.exact.contains r.exact.origin = true) := by
  have hinside : ∀ u, b.exact.contains (r.exact.pointAt (.number u)) = true ↔
      b.Encloses (r.point u) := by
    intro u
    rw [pointAt_exact, Box.contains_exact]
  have horigin : b.exact.contains r.exact.origin = true ↔ b.Encloses (r.point 0) := by
    have hstart : r.point 0 = r.origin := by simp [point]
    rw [hstart]
    exact Box.contains_exact
  simp only [hinside, horigin]
  refine ⟨entryTime_eq_number hb, entryTime_eq_posInf hb, ?_, ?_⟩
  · intro hzero
    by_cases hreach : ∃ u, 0 ≤ u ∧ b.Encloses (r.point u)
    · obtain ⟨e, he, hleast⟩ := entryTime_eq_number hb hreach
      obtain rfl : e = 0 := Exact.number.inj (he.symm.trans hzero)
      exact hleast.1.2
    · rw [entryTime_eq_posInf hb hreach] at hzero
      cases hzero
  · intro hstart
    obtain ⟨e, he, hleast⟩ := entryTime_eq_number hb ⟨0, le_refl 0, hstart⟩
    obtain rfl : e = 0 := le_antisymm (hleast.2 ⟨le_refl 0, hstart⟩) hleast.1.1
    exact he

/-- A ray along an edge of a box, which it touches and does not enter. -/
theorem slab_test_exact_edge :
    (⟨⟨-1, -1, -1⟩, ⟨1, 1, 1⟩⟩ : Box ℚ).Proper ∧
    (⟨⟨-3, 1, 1⟩, ⟨2, 0, 0⟩⟩ : Ray ℚ).exact.entryTime (⟨⟨-1, -1, -1⟩, ⟨1, 1, 1⟩⟩ : Box ℚ).exact =
      .number 1 := by
  have hb : (⟨⟨-1, -1, -1⟩, ⟨1, 1, 1⟩⟩ : Box ℚ).Proper := by
    refine ⟨?_, ?_, ?_⟩ <;> norm_num
  have htouch : (⟨⟨-1, -1, -1⟩, ⟨1, 1, 1⟩⟩ : Box ℚ).exact.contains
      ((⟨⟨-3, 1, 1⟩, ⟨2, 0, 0⟩⟩ : Ray ℚ).exact.pointAt (.number 1)) = true := by
    rw [pointAt_exact, Box.contains_exact]
    norm_num [Box.Encloses, point]
  obtain ⟨e, he, hleast⟩ :=
    (slab_test_exact hb ⟨⟨-3, 1, 1⟩, ⟨2, 0, 0⟩⟩).1 ⟨1, zero_le_one, htouch⟩
  have hbefore : e ≤ 1 := hleast.2 ⟨zero_le_one, htouch⟩
  have hinside := hleast.1.2
  rw [pointAt_exact, Box.contains_exact] at hinside
  have hface : (-1 : ℚ) ≤ -3 + 2 * e := hinside.1.1
  obtain rfl : e = 1 := by linarith
  exact ⟨hb, he⟩

end Ray

end Placement
