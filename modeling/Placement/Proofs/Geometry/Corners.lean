/-
  Placement/Proofs/Geometry/Corners.lean
  ======================================
  **The image of a box and the images of its corners.**

  The image of a box is computed from its centre and its half extents.  The plain way would
  be to map the eight corners and to put the smallest box around them.  With exact numbers
  both come to the same box (`image_eq_cornerBound`), whatever the matrix is: no point of the
  box gets farther from the centre than the half extents reach, and along each axis some
  corner gets as far, the one picked by the signs of the matrix (`exists_corner_low`).

  A box `Spans` a set of points if along each axis it reaches from the least of them to the
  greatest, and there is but one such box.  It is the smallest one around the points.
-/
import Mathlib.Algebra.Order.Ring.Rat
import Mathlib.Data.List.MinMax
import Mathlib.Tactic.NormNum
import Placement.Proofs.Geometry.Axes
import Placement.Proofs.Geometry.Enclosure

namespace Placement

/-! ### The smallest box around some points -/

namespace Box

section Spans

variable {β : Type} [PartialOrder β]

/-- Along each axis the box reaches from the least of the points to the greatest. -/
structure Spans (b : Box β) (S : Set (Vec3 β)) : Prop where
  low : ∀ axis, IsLeast ((fun p : Vec3 β => p.along axis) '' S) (b.low.along axis)
  high : ∀ axis, IsGreatest ((fun p : Vec3 β => p.along axis) '' S) (b.high.along axis)

theorem Spans.unique {b c : Box β} {S : Set (Vec3 β)} (hb : b.Spans S) (hc : c.Spans S) :
    b = c := by
  have hlow : b.low = c.low := Vec3.ext_along fun axis => (hb.low axis).unique (hc.low axis)
  have hhigh : b.high = c.high := Vec3.ext_along fun axis => (hb.high axis).unique (hc.high axis)
  cases b
  cases c
  exact congr (congrArg Box.mk hlow) hhigh

end Spans

variable {K : Type} [Field K] [LinearOrder K] {b c : Box (Exact K)} {S : Set (Vec3 (Exact K))}

theorem Spans.contains (hb : b.Spans S) {p : Vec3 (Exact K)} (hp : p ∈ S) :
    b.contains p = true :=
  contains_iff.mpr fun axis => ⟨(hb.low axis).2 ⟨p, hp, rfl⟩, (hb.high axis).2 ⟨p, hp, rfl⟩⟩

/-- No box around the points is smaller. -/
theorem Spans.contains_of_contains (hb : b.Spans S) (hc : ∀ p ∈ S, c.contains p = true)
    {p : Vec3 (Exact K)} (hp : b.contains p = true) : c.contains p = true := by
  refine contains_iff.mpr fun axis => ?_
  obtain ⟨hlow, hhigh⟩ := contains_iff.mp hp axis
  obtain ⟨first, hfirst, hfirst_eq⟩ := (hb.low axis).1
  obtain ⟨last, hlast, hlast_eq⟩ := (hb.high axis).1
  constructor
  · calc c.low.along axis ≤ first.along axis := (contains_iff.mp (hc first hfirst) axis).1
      _ = b.low.along axis := hfirst_eq
      _ ≤ p.along axis := hlow
  · calc p.along axis ≤ b.high.along axis := hhigh
      _ = last.along axis := hlast_eq.symm
      _ ≤ c.high.along axis := (contains_iff.mp (hc last hlast) axis).2

theorem min?_of_ofPoints? {ps : List (Vec3 (Exact K))} (h : ofPoints? ps = some b) (axis : Axis) :
    (ps.map (Vec3.along · axis)).min? = some (b.low.along axis) ∧
      (ps.map (Vec3.along · axis)).max? = some (b.high.along axis) := by
  rcases ps with _ | ⟨p, ps⟩
  · cases h
  obtain rfl := Option.some.inj h
  obtain ⟨hlow, hhigh⟩ := foldl_along ps ⟨p, p⟩ axis
  have hmin : (Scalar.min : Exact K → Exact K → Exact K) = min := funext₂ Exact.min_eq
  have hmax : (Scalar.max : Exact K → Exact K → Exact K) = max := funext₂ Exact.max_eq
  rw [List.map_cons, List.min?_cons', List.max?_cons', hlow, hhigh, hmin, hmax]
  exact ⟨rfl, rfl⟩

theorem spans_of_ofPoints? {ps : List (Vec3 (Exact K))} (h : ofPoints? ps = some b) :
    b.Spans {p | p ∈ ps} := by
  constructor
  · intro axis
    obtain ⟨hmem, hle⟩ := List.min?_eq_some_iff.mp (min?_of_ofPoints? h axis).1
    refine ⟨List.mem_map.mp hmem, ?_⟩
    rintro _ ⟨q, hq, rfl⟩
    exact hle _ (List.mem_map_of_mem hq)
  · intro axis
    obtain ⟨hmem, hle⟩ := List.max?_eq_some_iff.mp (min?_of_ofPoints? h axis).2
    refine ⟨List.mem_map.mp hmem, ?_⟩
    rintro _ ⟨q, hq, rfl⟩
    exact hle _ (List.mem_map_of_mem hq)

end Box

/-! ### Corners -/

namespace Box

section

variable {α : Type} {b : Box α}

def corners (b : Box α) : List (Vec3 α) :=
  [b.low.x, b.high.x].flatMap fun x => [b.low.y, b.high.y].flatMap fun y =>
    [b.low.z, b.high.z].map fun z => ⟨x, y, z⟩

theorem mem_corners {p : Vec3 α} :
    p ∈ b.corners ↔ (p.x = b.low.x ∨ p.x = b.high.x) ∧ (p.y = b.low.y ∨ p.y = b.high.y) ∧
      (p.z = b.low.z ∨ p.z = b.high.z) := by
  cases p
  simp [corners]
  tauto

end

variable {K : Type}

theorem corners_exact (b : Box K) : b.exact.corners = b.corners.map Vec3.exact := rfl

theorem encloses_of_mem_corners [LinearOrder K] {b : Box K} (hb : b.Proper) {q : Vec3 K}
    (hq : q ∈ b.corners) : b.Encloses q := by
  have hend : ∀ {low high x : K}, low ≤ high → x = low ∨ x = high → low ≤ x ∧ x ≤ high := by
    rintro low high x h (rfl | rfl)
    · exact ⟨le_refl _, h⟩
    · exact ⟨h, le_refl _⟩
  obtain ⟨hx, hy, hz⟩ := mem_corners.mp hq
  exact ⟨hend hb.1 hx, hend hb.2.1 hy, hend hb.2.2 hz⟩

variable [Field K] [LinearOrder K] [IsStrictOrderedRing K]

/-- One end of an edge gets as far down as the half extent reaches, which end being a matter
    of the sign. -/
theorem exists_end_low (a s low high : K) :
    ∃ x, (x = low ∨ x = high) ∧
      a * x * s = a * ((low + high) * (1 / 2) * s) - |a| * ((high - low) * (1 / 2) * s) := by
  rcases le_total 0 a with ha | ha
  · refine ⟨low, .inl rfl, ?_⟩
    rw [abs_of_nonneg ha]
    ring
  · refine ⟨high, .inr rfl, ?_⟩
    rw [abs_of_nonpos ha]
    ring

/-- Where the image of a box has its centre along an axis, by what the components are multiplied
    with there. -/
def imageCenter (b : Box K) (row : Vec3 K) (s shift : K) : K :=
  row.x * (b.middle.x * s) + row.y * (b.middle.y * s) + row.z * (b.middle.z * s) + shift

/-- How far the image of a box reaches from its centre along an axis. -/
def imageReach (b : Box K) (row : Vec3 K) (s : K) : K :=
  |row.x| * (b.halfExtent.x * s) + |row.y| * (b.halfExtent.y * s) + |row.z| * (b.halfExtent.z * s)

theorem exists_corner_low (b : Box K) (row : Vec3 K) (s shift : K) :
    ∃ q ∈ b.corners, (row.x * q.x + row.y * q.y + row.z * q.z) * s + shift =
      b.imageCenter row s shift - b.imageReach row s := by
  obtain ⟨x, hx, hx_eq⟩ := exists_end_low row.x s b.low.x b.high.x
  obtain ⟨y, hy, hy_eq⟩ := exists_end_low row.y s b.low.y b.high.y
  obtain ⟨z, hz, hz_eq⟩ := exists_end_low row.z s b.low.z b.high.z
  refine ⟨⟨x, y, z⟩, mem_corners.mpr ⟨hx, hy, hz⟩, ?_⟩
  rw [imageCenter, imageReach, middle, halfExtent]
  linear_combination hx_eq + hy_eq + hz_eq

theorem exists_corner_high (b : Box K) (row : Vec3 K) (s shift : K) :
    ∃ q ∈ b.corners, (row.x * q.x + row.y * q.y + row.z * q.z) * s + shift =
      b.imageCenter row s shift + b.imageReach row s := by
  -- what is highest along an axis is lowest along the opposite one
  obtain ⟨q, hq, hq_eq⟩ := exists_corner_low b ⟨-row.x, -row.y, -row.z⟩ s (-shift)
  rw [imageCenter, imageReach, abs_neg, abs_neg, abs_neg] at hq_eq
  refine ⟨q, hq, ?_⟩
  rw [imageCenter, imageReach]
  linear_combination -hq_eq

end Box

/-! ### The image -/

variable {K : Type} [Field K] [LinearOrder K]

/-- The map under which the image of a box is taken. -/
def Mat3.affine (rotation : Mat3 K) (scale : K) (shift : Vec3 K) (v : Vec3 (Exact K)) :
    Vec3 (Exact K) :=
  rotation.exact * (v * Exact.number scale) + shift.exact

theorem Mat3.along_affine (rotation : Mat3 K) (scale : K) (shift q : Vec3 K) (axis : Axis) :
    (rotation.affine scale shift q.exact).along axis =
      .number (((rotation.row axis).x * q.x + (rotation.row axis).y * q.y +
        (rotation.row axis).z * q.z) * scale + shift.along axis) := by
  have hdistrib : ∀ a b c d : K, a * (q.x * scale) + b * (q.y * scale) + c * (q.z * scale) + d =
      (a * q.x + b * q.y + c * q.z) * scale + d := by
    intro a b c d
    ring
  rw [← hdistrib]
  cases axis <;> rfl

/-- In exact arithmetic it does not matter that a transform scales after turning. -/
theorem Transform.toWorld_eq_affine (t : Transform K) (q : Vec3 K) :
    t.exact.toWorld q.exact =
      t.invRotation.transpose.affine t.scale t.position q.exact := by
  refine Vec3.ext_along fun axis => ?_
  rw [Mat3.along_affine]
  cases axis <;> rfl

namespace Box

/-- What is in a box has numbers for components. -/
theorem exists_exact_of_contains {b : Box K} {p : Vec3 (Exact K)} (hp : b.exact.contains p = true) :
    ∃ q : Vec3 K, b.Encloses q ∧ p = q.exact := by
  have hnumber : ∀ axis, ∃ u, p.along axis = .number u := by
    intro axis
    obtain ⟨hlow, hhigh⟩ := contains_iff.mp hp axis
    cases axis <;>
      (obtain ⟨u, hu, -⟩ := Exact.exists_number_of_between hlow hhigh; exact ⟨u, hu⟩)
  obtain ⟨x, hx⟩ := hnumber .x
  obtain ⟨y, hy⟩ := hnumber .y
  obtain ⟨z, hz⟩ := hnumber .z
  obtain rfl : p = (⟨x, y, z⟩ : Vec3 K).exact := by
    cases p
    exact congr (congr (congrArg Vec3.mk hx) hy) hz
  exact ⟨_, contains_exact.mp hp, rfl⟩

theorem low_image (b : Box K) (rotation : Mat3 K) (scale : K) (shift : Vec3 K) (axis : Axis) :
    (b.exact.image rotation.exact (.number scale) shift.exact).low.along axis =
      .number (b.imageCenter (rotation.row axis) scale (shift.along axis) -
        b.imageReach (rotation.row axis) scale) := by
  cases axis <;> rfl

theorem high_image (b : Box K) (rotation : Mat3 K) (scale : K) (shift : Vec3 K) (axis : Axis) :
    (b.exact.image rotation.exact (.number scale) shift.exact).high.along axis =
      .number (b.imageCenter (rotation.row axis) scale (shift.along axis) +
        b.imageReach (rotation.row axis) scale) := by
  cases axis <;> rfl

variable [IsStrictOrderedRing K] {b : Box K} {rotation : Mat3 K} {scale : K} {shift : Vec3 K}
  {S : Set (Vec3 (Exact K))}

theorem affine_within (hscale : 0 ≤ scale) {q : Vec3 K} (hq : b.Encloses q) (rotation : Mat3 K)
    (shift : Vec3 K) (axis : Axis) :
    .number (b.imageCenter (rotation.row axis) scale (shift.along axis) -
          b.imageReach (rotation.row axis) scale) ≤
        (rotation.affine scale shift q.exact).along axis ∧
      (rotation.affine scale shift q.exact).along axis ≤
        .number (b.imageCenter (rotation.row axis) scale (shift.along axis) +
          b.imageReach (rotation.row axis) scale) := by
  rw [Mat3.along_affine, Exact.number_le_number, Exact.number_le_number]
  exact image_axis (rotation.row axis).x (rotation.row axis).y (rotation.row axis).z
    (shift.along axis) hscale hq

/-- The image of a box spans any images of points of the box, if those of the corners are
    among them. -/
theorem spans_image (hscale : 0 ≤ scale)
    (hinside : ∀ p ∈ S, ∃ q : Vec3 K, b.Encloses q ∧ rotation.affine scale shift q.exact = p)
    (hcorners : ∀ q ∈ b.corners, rotation.affine scale shift q.exact ∈ S) :
    (b.exact.image rotation.exact (.number scale) shift.exact).Spans S := by
  constructor
  · intro axis
    rw [low_image]
    constructor
    · obtain ⟨q, hq, hq_eq⟩ := exists_corner_low b (rotation.row axis) scale (shift.along axis)
      refine ⟨_, hcorners q hq, (Mat3.along_affine _ _ _ _ axis).trans ?_⟩
      rw [hq_eq]
    · rintro _ ⟨p, hp, rfl⟩
      obtain ⟨q, hq, rfl⟩ := hinside p hp
      exact (affine_within hscale hq rotation shift axis).1
  · intro axis
    rw [high_image]
    constructor
    · obtain ⟨q, hq, hq_eq⟩ := exists_corner_high b (rotation.row axis) scale (shift.along axis)
      refine ⟨_, hcorners q hq, (Mat3.along_affine _ _ _ _ axis).trans ?_⟩
      rw [hq_eq]
    · rintro _ ⟨p, hp, rfl⟩
      obtain ⟨q, hq, rfl⟩ := hinside p hp
      exact (affine_within hscale hq rotation shift axis).2

theorem spans_image_corners (hb : b.Proper) (hscale : 0 ≤ scale) (rotation : Mat3 K)
    (shift : Vec3 K) :
    (b.exact.image rotation.exact (.number scale) shift.exact).Spans
      {p | p ∈ b.exact.corners.map (rotation.affine scale shift)} := by
  refine spans_image hscale ?_ ?_
  · intro p hp
    rw [Set.mem_ofPred_eq, corners_exact, List.map_map, List.mem_map] at hp
    obtain ⟨q, hq, hq_eq⟩ := hp
    exact ⟨q, encloses_of_mem_corners hb hq, hq_eq⟩
  · intro q hq
    rw [Set.mem_ofPred_eq, corners_exact, List.map_map]
    exact List.mem_map_of_mem hq

theorem spans_boundInWorld (hb : b.Proper) {t : Transform K} (hscale : 0 ≤ t.scale) :
    (t.exact.boundInWorld b.exact).Spans
      (t.exact.toWorld '' {q | b.exact.contains q = true}) := by
  have himage : t.exact.boundInWorld b.exact = b.exact.image t.invRotation.transpose.exact
      (.number t.scale) t.position.exact := rfl
  rw [himage]
  refine spans_image hscale ?_ ?_
  · rintro _ ⟨p, hp, rfl⟩
    obtain ⟨q, hq, rfl⟩ := exists_exact_of_contains hp
    exact ⟨q, hq, (t.toWorld_eq_affine q).symm⟩
  · intro q hq
    exact ⟨q.exact, contains_exact.mpr (encloses_of_mem_corners hb hq), t.toWorld_eq_affine q⟩

/-- **The image of a box is the smallest box around the images of its corners.**  This holds in
    exact arithmetic for every matrix, every scale that is not negative and every shift.  So
    the bound that a transform gives in the world is the smallest box around all the points
    of the model in their places: it contains them, and it is part of every box that does. -/
theorem image_eq_cornerBound (hb : b.Proper) (hscale : 0 ≤ scale) (rotation : Mat3 K)
    (shift : Vec3 K) :
    ofPoints? (b.exact.corners.map fun v =>
        rotation.exact * (v * Exact.number scale) + shift.exact) =
      some (b.exact.image rotation.exact (.number scale) shift.exact) ∧
    ∀ t : Transform K, 0 ≤ t.scale →
      (∀ q, b.exact.contains q = true →
        (t.exact.boundInWorld b.exact).contains (t.exact.toWorld q) = true) ∧
      ∀ c : Box (Exact K), (∀ q, b.exact.contains q = true → c.contains (t.exact.toWorld q) = true) →
        ∀ p, (t.exact.boundInWorld b.exact).contains p = true → c.contains p = true := by
  refine ⟨?_, ?_⟩
  · change ofPoints? (b.exact.corners.map (rotation.affine scale shift)) = _
    obtain ⟨c, hc⟩ : ∃ c, ofPoints? (b.exact.corners.map (rotation.affine scale shift)) = some c :=
      ⟨_, rfl⟩
    rw [hc, (spans_of_ofPoints? hc).unique (spans_image_corners hb hscale rotation shift)]
  · intro t ht
    have hspans := spans_boundInWorld hb ht
    refine ⟨fun q hq => hspans.contains ⟨q, hq, rfl⟩, ?_⟩
    intro c hc p hp
    refine hspans.contains_of_contains ?_ hp
    rintro _ ⟨q, hq, rfl⟩
    exact hc q hq

/-- A matrix that is no rotation. -/
def shear : Mat3 ℚ := ⟨⟨2, -1, 0⟩, ⟨0, 1, -3⟩, ⟨1, 0, 1⟩⟩

def slab : Box ℚ := ⟨⟨0, -1, 0⟩, ⟨1, 2, 3⟩⟩

theorem image_eq_cornerBound_shear :
    slab.Proper ∧ (0 : ℚ) ≤ 2 ∧
    ofPoints? (slab.exact.corners.map fun v =>
        shear.exact * (v * (Exact.number 2 : Exact ℚ)) + (⟨1, 0, -1⟩ : Vec3 ℚ).exact) =
      some (⟨⟨1, -4, -13⟩, ⟨11, 4, 11⟩⟩ : Box ℚ).exact := by
  have hslab : slab.Proper := by
    refine ⟨?_, ?_, ?_⟩ <;> norm_num [slab]
  have hscale : (0 : ℚ) ≤ 2 := by norm_num
  refine ⟨hslab, hscale, ?_⟩
  refine (image_eq_cornerBound hslab hscale shear ⟨1, 0, -1⟩).1.trans ?_
  have hlow : (slab.exact.image shear.exact (.number 2) (⟨1, 0, -1⟩ : Vec3 ℚ).exact).low =
      (⟨1, -4, -13⟩ : Vec3 ℚ).exact := by
    refine Vec3.ext_along fun axis => ?_
    rw [low_image]
    cases axis <;>
      norm_num [imageCenter, imageReach, middle, halfExtent, Mat3.row, Vec3.along, Vec3.exact,
        shear, slab]
  have hhigh : (slab.exact.image shear.exact (.number 2) (⟨1, 0, -1⟩ : Vec3 ℚ).exact).high =
      (⟨11, 4, 11⟩ : Vec3 ℚ).exact := by
    refine Vec3.ext_along fun axis => ?_
    rw [high_image]
    cases axis <;>
      norm_num [imageCenter, imageReach, middle, halfExtent, Mat3.row, Vec3.along, Vec3.exact,
        shear, slab]
  exact congrArg₂ (fun low high => some (Box.mk low high)) hlow hhigh

end Box

end Placement
