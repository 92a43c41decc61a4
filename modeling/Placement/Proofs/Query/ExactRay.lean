/-
  Placement/Proofs/Query/ExactRay.lean
  ====================================
  **A ray through a placed model, in exact arithmetic.**

  Between a ray of the world and the mesh of a model stand the bound of the spawn, the slab
  test, the transform of the ray and two conversions of distances.  With exact numbers none
  of them can be noticed: if the mesh finds the nearest point of a set on every ray of the
  model, then the query finds the nearest point of the image of this set on every ray of the
  world, and by the distance in the world (`placed_ray_exact`).

  All of this rests on two facts about parameters.  Those at which a ray of the world is in
  the image are those at which the ray of the model is in the set, times the scale
  (`mem_timesIn_toModel`); and where a ray is in the image, it is in the bound, so that the
  slab test lets it pass (`rayGate_eq_ok`).
-/
import Mathlib.Algebra.Order.Ring.Rat
import Mathlib.Tactic.FieldSimp
import Mathlib.Tactic.NormNum
import Mathlib.Tactic.Positivity
import Placement.Proofs.Geometry.Enclosure
import Placement.Proofs.Query.Probes

namespace Placement

variable {K μ γ : Type} [Field K] [LinearOrder K]

/-- The parameters at which a ray is in a set of points, from its origin on. -/
def Ray.timesIn (r : Ray K) (G : Set (Vec3 (Exact K))) : Set K :=
  {u | 0 ≤ u ∧ r.exact.pointAt (.number u) ∈ G}

/-- A mesh with the shape of a set of points.  On a ray it finds the least parameter in the
    set, if there is one and it is less than the distance that the mesh was given. -/
structure FindsNearest [Mesh (Exact K) μ γ] (model : μ) (mode : RayMode)
    (G : Set (Vec3 (Exact K))) : Prop where
  hit : ∀ (r : Ray K) (d u : K), IsLeast (r.timesIn G) u → u < d →
    Mesh.traceRay model r.exact (.number d) mode = ⟨true, .number u⟩
  miss : ∀ (r : Ray K) (d : K), (¬ ∃ u, IsLeast (r.timesIn G) u ∧ u < d) →
    (Mesh.traceRay model r.exact (.number d) mode).hit = false

/-! ### Parameters -/

section Parameters

variable [IsStrictOrderedRing K] {t : Transform K} {r : Ray K} {G : Set (Vec3 (Exact K))} {u : K}

theorem mem_timesIn_toModel (ht : t.Faithful) :
    u ∈ r.timesIn {x | t.exact.toModel x ∈ G} ↔
      u * t.invScale ∈ (t.rayToModel r).timesIn G := by
  have hpoint : t.exact.toModel (r.exact.pointAt (.number u)) =
      (t.rayToModel r).exact.pointAt (.number (u * t.invScale)) := by
    rw [Ray.pointAt_exact, Transform.toModel_exact, t.pointToModel_point, Ray.pointAt_exact]
  simp only [Ray.timesIn, Set.mem_ofPred_eq, hpoint, mul_nonneg_iff_of_pos_right ht.invScale_pos]

theorem isLeast_timesIn_toModel (ht : t.Faithful) :
    IsLeast (r.timesIn {x | t.exact.toModel x ∈ G}) u ↔
      IsLeast ((t.rayToModel r).timesIn G) (u * t.invScale) := by
  have hpos := ht.invScale_pos
  constructor
  · rintro ⟨hmem, hleast⟩
    refine ⟨(mem_timesIn_toModel ht).mp hmem, ?_⟩
    intro v hv
    -- any parameter of the model belongs to one of the world
    have hworld : v * t.scale * t.invScale = v := by
      rw [mul_assoc, ht.scale_mul, mul_one]
    rw [← hworld] at hv ⊢
    exact mul_le_mul_of_nonneg_right (hleast ((mem_timesIn_toModel ht).mpr hv)) hpos.le
  · rintro ⟨hmem, hleast⟩
    refine ⟨(mem_timesIn_toModel ht).mpr hmem, ?_⟩
    intro v hv
    exact le_of_mul_le_mul_right (hleast ((mem_timesIn_toModel ht).mp hv)) hpos

end Parameters

/-! ### One query -/

namespace PlacedModel

variable [Mesh (Exact K) μ γ]

theorem hitDistance_of_refusal {p : PlacedModel (Exact K) μ} {ray : Ray (Exact K)}
    {refusal : Refusal} (hgate : p.rayGate ray = .error refusal) (d : Exact K) (mode : RayMode) :
    (p.hitDistance ray d mode).value = none := by
  rw [hitDistance, hgate]
  rfl

theorem hitDistance_of_ok {p : PlacedModel (Exact K) μ} {t : Transform K} {ray : Ray K} {model : μ}
    (htransform : p.transform = t.exact) (hgate : p.rayGate ray.exact = .ok model) (d : K)
    (mode : RayMode) :
    (p.hitDistance ray.exact (.number d) mode).value =
      let answer := Mesh.traceRay model (t.rayToModel ray).exact (.number (d * t.invScale)) mode
      if answer.hit then some (answer.distance * .number t.scale) else none := by
  rw [hitDistance, hgate, htransform, Transform.rayInModel_exact]
  rfl

theorem place_exact [Turning K] {s : Spawn K} (hscale : 0 < s.scale) (slot : Nat)
    (model : Option μ) :
    place slot s.exact model = .ok ⟨slot, s.exact, model, s.transform.exact,
      s.transform.exact.directionInModel Vec3.down⟩ := by
  rw [place, Transform.ofSpawn_exact hscale]
  rfl

theorem exists_place [Turning K] (modelBound : Box K) (model : μ) {s : Spawn K}
    (hscale : 0 < s.scale) (slot : Nat) :
    ∃ bounded p, s.exact.attachModelBound modelBound.exact = .ok bounded ∧
      place slot bounded (some model) = .ok p ∧ p.transform = s.transform.exact ∧
      p.model = some model ∧ p.spawn.bound = some (s.transform.boxToWorld modelBound).exact := by
  have hattach : s.exact.attachModelBound modelBound.exact =
      .ok (s.exact.attachBound (s.transform.boxToWorld modelBound).exact) := by
    rw [Spawn.attachModelBound, Transform.ofSpawn_exact hscale, ← Transform.boundInWorld_exact]
    rfl
  have hplace := place_exact (s := s.attachBound (s.transform.boxToWorld modelBound)) hscale slot
    (some model)
  exact ⟨_, _, hattach, hplace, rfl, rfl, rfl⟩

variable [IsStrictOrderedRing K] {p : PlacedModel (Exact K) μ} {t : Transform K} {model : μ}
  {modelBound : Box K} {G : Set (Vec3 (Exact K))} {ray : Ray K}

/-- A ray that is in the image of the geometry is let through to the mesh. -/
theorem rayGate_eq_ok (ht : t.Faithful) (hmodel : p.model = some model)
    (hbound : p.spawn.bound = some (t.boxToWorld modelBound).exact)
    (hG : ∀ q ∈ G, modelBound.exact.contains q = true)
    (hreach : (ray.timesIn {x | t.exact.toModel x ∈ G}).Nonempty) :
    p.rayGate ray.exact = .ok model := by
  obtain ⟨u, hu, hmem⟩ := hreach
  have hmem : (t.pointToModel (ray.point u)).exact ∈ G := hmem
  have hinside : (t.boxToWorld modelBound).Encloses (ray.point u) := by
    rw [← ht.pointToWorld_pointToModel (ray.point u)]
    exact Transform.encloses_boxToWorld ht.scale_pos.le (Box.contains_exact.mp (hG _ hmem))
  obtain ⟨e, he, -⟩ := Ray.entryTime_eq_number hinside.proper ⟨u, hu, hinside⟩
  refine rayGate_eq_ok_iff.mpr ⟨hmodel, _, hbound, ?_⟩
  rw [he, Exact.isInfinite_number]

theorem hitDistance_of_hit (ht : t.Faithful) (htransform : p.transform = t.exact)
    (hgate : p.rayGate ray.exact = .ok model) {mode : RayMode} (hmesh : FindsNearest model mode G)
    {d u : K} (hleast : IsLeast (ray.timesIn {x | t.exact.toModel x ∈ G}) u) (hu : u < d) :
    (p.hitDistance ray.exact (.number d) mode).value = some (.number u) := by
  have hleast := (isLeast_timesIn_toModel ht).mp hleast
  have hu := mul_lt_mul_of_pos_right hu ht.invScale_pos
  rw [hitDistance_of_ok htransform hgate, hmesh.hit _ _ _ hleast hu]
  exact congrArg (fun v => some (Exact.number v)) (ht.mul_mul_scale u)

theorem hitDistance_of_miss (ht : t.Faithful) (htransform : p.transform = t.exact)
    (hmodel : p.model = some model) {mode : RayMode} (hmesh : FindsNearest model mode G) {d : K}
    (hnone : ¬ ∃ u, IsLeast (ray.timesIn {x | t.exact.toModel x ∈ G}) u ∧ u < d) :
    (p.hitDistance ray.exact (.number d) mode).value = none := by
  cases hgate : p.rayGate ray.exact with
  | error refusal => exact hitDistance_of_refusal hgate _ mode
  | ok own =>
    obtain rfl : own = model := Option.some.inj ((rayGate_eq_ok_iff.mp hgate).1.symm.trans hmodel)
    have hmiss := hmesh.miss (t.rayToModel ray) (d * t.invScale) ?_
    · rw [hitDistance_of_ok htransform hgate]
      simp only [hmiss, Bool.false_eq_true, if_false]
    · rintro ⟨v, hleast, hv⟩
      refine hnone ⟨v * t.scale, ?_, ?_⟩
      · rw [isLeast_timesIn_toModel ht, mul_assoc, ht.scale_mul, mul_one]
        exact hleast
      · calc v * t.scale < d * t.invScale * t.scale := mul_lt_mul_of_pos_right hv ht.scale_pos
          _ = d := ht.mul_mul_scale d

/-- **A placed ray query is exact.**  Let the mesh of a model have the shape of some points, all
    of them in the bound of the model.  However the model is placed, with whatever positive
    scale, once the bound of the spawn is the one that follows from the bound of the model,
    the query finds the least parameter at which a ray is in the placed points, if it is less
    than the greatest distance, and else finds nothing; and no ray that reaches these points
    is turned away before the mesh. -/
theorem placed_ray_exact [Turning K] {modelBound : Box K} {mode : RayMode}
    (hG : ∀ q ∈ G, modelBound.exact.contains q = true) (hmesh : FindsNearest model mode G)
    (s : Spawn K) (hscale : 0 < s.scale) (slot : Nat) :
    ∃ bounded p, s.exact.attachModelBound modelBound.exact = .ok bounded ∧
      place slot bounded (some model) = .ok p ∧
      ∀ (ray : Ray K) (maxDistance : K),
        (∀ u, (p.hitDistance ray.exact (.number maxDistance) mode).value = some (.number u) ↔
          IsLeast (ray.timesIn {x | p.transform.toModel x ∈ G}) u ∧ u < maxDistance) ∧
        ((p.hitDistance ray.exact (.number maxDistance) mode).value = none ↔
          ¬ ∃ u, IsLeast (ray.timesIn {x | p.transform.toModel x ∈ G}) u ∧ u < maxDistance) ∧
        ((ray.timesIn {x | p.transform.toModel x ∈ G}).Nonempty →
          p.rayGate ray.exact = .ok model) := by
  have ht := Spawn.faithful_transform hscale
  obtain ⟨bounded, p, hattach, hplace, htransform, hmodel, hbound⟩ :=
    exists_place modelBound model hscale slot
  refine ⟨bounded, p, hattach, hplace, ?_⟩
  intro ray d
  rw [htransform]
  have hgate : (ray.timesIn {x | s.transform.exact.toModel x ∈ G}).Nonempty →
      p.rayGate ray.exact = .ok model := rayGate_eq_ok ht hmodel hbound hG
  have hhit : ∀ u, IsLeast (ray.timesIn {x | s.transform.exact.toModel x ∈ G}) u → u < d →
      (p.hitDistance ray.exact (.number d) mode).value = some (.number u) :=
    fun u hleast hu => hitDistance_of_hit ht htransform (hgate ⟨u, hleast.1⟩) hmesh hleast hu
  have hmiss : (¬ ∃ u, IsLeast (ray.timesIn {x | s.transform.exact.toModel x ∈ G}) u ∧ u < d) →
      (p.hitDistance ray.exact (.number d) mode).value = none :=
    hitDistance_of_miss ht htransform hmodel hmesh
  refine ⟨?_, ⟨?_, hmiss⟩, hgate⟩
  · intro u
    refine ⟨?_, fun ⟨hleast, hu⟩ => hhit u hleast hu⟩
    intro hvalue
    obtain ⟨v, hleast, hv⟩ :
        ∃ v, IsLeast (ray.timesIn {x | s.transform.exact.toModel x ∈ G}) v ∧ v < d := by
      by_contra hnone
      rw [hmiss hnone] at hvalue
      cases hvalue
    rw [hhit v hleast hv] at hvalue
    obtain rfl : v = u := Exact.number.inj (Option.some.inj hvalue)
    exact ⟨hleast, hv⟩
  · rintro hvalue ⟨v, hleast, hv⟩
    rw [hhit v hleast hv] at hvalue
    cases hvalue

end PlacedModel

/-! ### A solid box on a slope -/

/-- A box as a model, without groups. -/
structure SolidBox (K : Type) where
  box : Box K

instance : Mesh (Exact K) (SolidBox K) Empty where
  traceRay solid ray d _ :=
    let entry := ray.entryTime solid.box.exact
    if entry < d then ⟨true, entry⟩ else ⟨false, d⟩
  findArea _ _ _ := none
  findGroup _ _ _ := none
  liquidHeight _ _ := none

/-- All points of a box. -/
def Box.points (b : Box K) : Set (Vec3 (Exact K)) := {q | b.exact.contains q = true}

theorem Box.timesIn_points (b : Box K) (r : Ray K) :
    r.timesIn b.points = {u | 0 ≤ u ∧ b.Encloses (r.point u)} := by
  ext u
  simp only [Ray.timesIn, points, Set.mem_ofPred_eq, Ray.pointAt_exact, contains_exact]

theorem SolidBox.findsNearest [IsStrictOrderedRing K] {solid : SolidBox K}
    (hsolid : solid.box.Proper) (mode : RayMode) :
    FindsNearest solid mode solid.box.points := by
  constructor
  · intro r d u hleast hu
    rw [Box.timesIn_points] at hleast
    obtain ⟨e, he, hleast'⟩ := Ray.entryTime_eq_number hsolid ⟨u, hleast.1⟩
    obtain rfl := hleast.unique hleast'
    simp only [Mesh.traceRay, he, Exact.number_lt_number, if_pos hu]
  · intro r d hnone
    rw [Box.timesIn_points] at hnone
    by_cases hreach : ∃ u, 0 ≤ u ∧ solid.box.Encloses (r.point u)
    · obtain ⟨e, he, hleast⟩ := Ray.entryTime_eq_number hsolid hreach
      have hfar : ¬ e < d := fun h => hnone ⟨e, hleast, h⟩
      simp only [Mesh.traceRay, he, Exact.number_lt_number, if_neg hfar]
    · have hfar : ¬ (Exact.posInf : Exact K) < .number d :=
        not_lt_of_ge (Exact.le_posInf _)
      simp only [Mesh.traceRay, Ray.entryTime_eq_posInf hsolid hreach, if_neg hfar]

/-- Angles by the tangents of their halves. -/
instance : Turning ℚ where
  turn tangent := ⟨(1 - tangent ^ 2) / (1 + tangent ^ 2), 2 * tangent / (1 + tangent ^ 2)⟩
  unit tangent := by
    have hpos : 1 + tangent ^ 2 ≠ 0 := by positivity
    field_simp
    ring

/-- The cube around the origin with edges of length two. -/
def cube : Box ℚ := ⟨⟨-1, -1, -1⟩, ⟨1, 1, 1⟩⟩

/-- A cube of twice the size, turned and pitched by the angles of the triangle with sides 3, 4, 5. -/
def pitchedCube : Spawn ℚ := .unbounded 7 1 [] ⟨1, 2, 3⟩ ⟨1 / 3, 1 / 2, 0⟩ 2

/-- A ray straight down onto the pitched cube. -/
def plumbRay : Ray ℚ := ⟨⟨81 / 25, 291 / 50, 36 / 5⟩, ⟨-9 / 25, -12 / 25, -4 / 5⟩⟩

theorem rayToModel_plumbRay :
    pitchedCube.transform.rayToModel plumbRay = ⟨⟨1 / 2, 1 / 4, 3⟩, ⟨0, 0, -1⟩⟩ := by
  norm_num [Transform.rayToModel, Transform.pointToModel, Spawn.transform, Mat3.turned, Mat3.turns,
    Mat3.turnX, Mat3.turnY, Mat3.turnZ, Mat3.times, Mat3.transpose, Mat3.apply, pitchedCube,
    plumbRay, Spawn.unbounded, Turning.turn]

theorem placed_ray_exact_pitched_cube :
    ∃ bounded p, pitchedCube.exact.attachModelBound cube.exact = .ok bounded ∧
      PlacedModel.place 0 bounded (some (SolidBox.mk cube)) = .ok p ∧
      (p.hitDistance plumbRay.exact (.number 10) ⟨false, false⟩).value = some (.number 4) := by
  have hcube : cube.Proper := by
    refine ⟨?_, ?_, ?_⟩ <;> norm_num [cube]
  have hscale : 0 < pitchedCube.scale := by norm_num [pitchedCube, Spawn.unbounded]
  have hpoints : ∀ q ∈ cube.points, cube.exact.contains q = true := fun q hq => hq
  have hmesh : FindsNearest (SolidBox.mk cube) ⟨false, false⟩ cube.points :=
    SolidBox.findsNearest hcube _
  obtain ⟨bounded, p, hattach, hplace, hquery⟩ :=
    PlacedModel.placed_ray_exact hpoints hmesh pitchedCube hscale 0
  refine ⟨bounded, p, hattach, hplace, ((hquery plumbRay 10).1 4).mpr ⟨?_, by norm_num⟩⟩
  -- placing is a function, so its result has the transform of the spawn
  obtain ⟨bounded', p', hattach', hplace', htransform, -, -⟩ :=
    PlacedModel.exists_place cube (SolidBox.mk cube) hscale 0
  obtain rfl : bounded' = bounded := Except.ok.inj (hattach'.symm.trans hattach)
  obtain rfl : p' = p := Except.ok.inj (hplace'.symm.trans hplace)
  rw [htransform, isLeast_timesIn_toModel (Spawn.faithful_transform hscale), rayToModel_plumbRay,
    Box.timesIn_points]
  have hshort : 4 * pitchedCube.transform.invScale = 2 := by
    norm_num [pitchedCube, Spawn.transform, Spawn.unbounded]
  rw [hshort]
  constructor
  · norm_num [Box.Encloses, cube, Ray.point]
  · rintro v ⟨-, -, -, -, htop⟩
    have htop : (3 : ℚ) + -1 * v ≤ 1 := htop
    linarith

end Placement
