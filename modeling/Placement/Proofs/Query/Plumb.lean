/-
  Placement/Proofs/Query/Plumb.lean
  =================================
  **Probes are plumb, however the model is tilted.**

  A probe follows the direction straight down as the model sees it, and the mesh answers with
  a depth in units of the model.  Seen from the model the probe is a ray like any other, so
  with exact numbers its point at depth `d` is the point of the world that lies `scale * d`
  straight below (`Faithful.pointToWorld_point`): the rotation there and the rotation back
  cancel, and the scale is applied once.  Hence the heights that ground queries keep.

  A liquid is another matter.  The mesh names its height along the upright axis of the model,
  so the height in the world is the same under every point only if this axis is upright in
  the world too.
-/
import Placement.Proofs.Query.ExactRay
import Placement.Proofs.Query.Probes

namespace Placement

variable {K : Type} [Field K]

/-! ### Down in the model -/

namespace Transform

variable [LinearOrder K] {t : Transform K}

/-- What lies on a ray as the model sees it lies on the ray in the world, farther by the scale. -/
theorem Faithful.pointToWorld_point (ht : t.Faithful) (r : Ray K) (d : K) :
    t.pointToWorld ((t.rayToModel r).point d) = r.point (d * t.scale) := by
  have hshort : d * t.scale * t.invScale = d := by
    rw [mul_assoc, ht.scale_mul, mul_one]
  calc t.pointToWorld ((t.rayToModel r).point d)
      = t.pointToWorld ((t.rayToModel r).point (d * t.scale * t.invScale)) := by rw [hshort]
    _ = t.pointToWorld (t.pointToModel (r.point (d * t.scale))) := by rw [t.pointToModel_point]
    _ = r.point (d * t.scale) := ht.pointToWorld_pointToModel _

theorem Faithful.toWorld_below (ht : t.Faithful) (point : Vec3 K) (d : K) :
    t.exact.toWorld
        (t.exact.toModel point.exact + t.exact.directionInModel Vec3.down * Exact.number d) =
      Vec3.exact ⟨point.x, point.y, point.z - t.scale * d⟩ := by
  -- a probe is the plumb ray through its point, as the model sees it
  let plumb : Ray K := ⟨point, ⟨0, 0, -1⟩⟩
  have hmodel : t.exact.toModel point.exact + t.exact.directionInModel Vec3.down * Exact.number d =
      ((t.rayToModel plumb).point d).exact := rfl
  have hpoint : plumb.point (d * t.scale) = ⟨point.x, point.y, point.z - t.scale * d⟩ := by
    simp only [Ray.point, plumb, Vec3.mk.injEq]
    refine ⟨?_, ?_, ?_⟩ <;> ring
  rw [hmodel, toWorld_exact, ht.pointToWorld_point, hpoint]

end Transform

/-! ### Levels -/

/-- A placement that is turned about the upright axis only. -/
def Spawn.Upright [Turning K] (s : Spawn K) : Prop :=
  Turning.turn s.rotation.x = ⟨1, 0⟩ ∧ Turning.turn s.rotation.z = ⟨1, 0⟩

theorem Spawn.Upright.height [Turning K] {s : Spawn K} (hs : s.Upright) (x y level : K) :
    (s.transform.pointToWorld ⟨x, y, level⟩).z = s.position.z + s.scale * level := by
  obtain ⟨hpitch, hroll⟩ := hs
  simp only [transform, Transform.pointToWorld, Mat3.transpose, Mat3.turned, Mat3.turns, hpitch,
    hroll, Mat3.times, Mat3.turnX, Mat3.turnY, Mat3.turnZ, Mat3.apply]
  ring

namespace PlacedModel

variable {μ γ : Type} [LinearOrder K] [Mesh (Exact K) μ γ]

theorem probeArea_of_finds {p : PlacedModel (Exact K) μ} {point : Vec3 (Exact K)}
    {s : AreaSurface (Exact K)} (h : p.FindsAreaBelow point s) (best : AreaSurface (Exact K)) :
    (p.probeArea point best).value = best.higher s := by
  rw [probeArea_value, areaBelow_eq_some_iff.mpr h]
  rfl

theorem probeGroup_of_finds {p : PlacedModel (Exact K) μ} {point : Vec3 (Exact K)}
    {s : LocatedSurface (Exact K) μ γ} (h : p.FindsSurfaceBelow point s)
    (best : LocatedSurface (Exact K) μ γ) :
    (p.probeGroup point best).value = (best.yieldsTo s, best.higher s) := by
  rw [probeGroup_value, surfaceBelow_eq_some_iff.mpr h]
  rfl

/-- **Probes measure straight down in the world.**  Every spawn with a positive scale can be
    placed, and whatever the turns of its rotation are, what lies at depth `d` below a point as
    the model sees it lies `scale * d` straight below the point in the world.  So a ground query
    of either kind is offered a surface at this height when the mesh answers with a depth.  And
    the liquid of a group whose level the mesh names is, in an upright placement, at the height
    of the placement plus the scaled level, whatever the point. -/
theorem probes_are_plumb [Turning K] [IsStrictOrderedRing K] (s : Spawn K) (hscale : 0 < s.scale)
    (slot : Nat) (model : Option μ) :
    ∃ p, place slot s.exact model = .ok p ∧
      (∀ (point : Vec3 K) (d : K),
        p.transform.toWorld (p.transform.toModel point.exact + p.downInModel * Exact.number d) =
          Vec3.exact ⟨point.x, point.y, point.z - s.scale * d⟩) ∧
      (∀ (point : Vec3 K) (own : μ) (hit : AreaFinding (Exact K)) (d : K),
        p.LetsIn point.exact own →
        Mesh.findArea own (p.transform.toModel point.exact) p.downInModel = some hit →
        hit.distance = .number d →
        ∀ best, (p.probeArea point.exact best).value = best.higher
          { found := true
            height := .number (point.z - s.scale * d)
            flags := hit.flags
            tile := s.tile
            rootId := hit.rootId
            groupId := hit.groupId }) ∧
      (∀ (point : Vec3 K) (own : μ) (hit : GroupFinding (Exact K) γ) (d : K),
        p.LetsIn point.exact own →
        Mesh.findGroup own (p.transform.toModel point.exact) p.downInModel = some hit →
        hit.distance = .number d →
        let surface : LocatedSurface (Exact K) μ γ :=
          { rootId := hit.rootId
            group := some hit.group
            placed := some p
            height := .number (point.z - s.scale * d) }
        ∀ best, (p.probeGroup point.exact best).value =
          (best.yieldsTo surface, best.higher surface)) ∧
      (s.Upright → ∀ (point : Vec3 K) (surface : LocatedSurface (Exact K) μ γ) (group : γ)
        (level : K), surface.group = some group →
        Mesh.liquidHeight μ group (p.transform.toModel point.exact) = some (.number level) →
        (p.liquidHeight point.exact surface).value =
          some (.number (s.position.z + s.scale * level))) := by
  have ht := Spawn.faithful_transform hscale
  refine ⟨_, place_exact hscale slot model, ht.toWorld_below, ?_, ?_, ?_⟩
  · intro point own hit d hin hhit hd best
    apply probeArea_of_finds
    refine ⟨own, hit, hin, hhit, ?_⟩
    rw [groundHeight, hd, ht.toWorld_below]
    rfl
  · intro point own hit d hin hhit hd surface best
    apply probeGroup_of_finds
    refine ⟨own, hit, hin, hhit, ?_⟩
    rw [groundHeight, hd, ht.toWorld_below]
    rfl
  · intro hupright point surface group level hgroup hlevel
    have hheight := hupright.height (s.transform.pointToModel point).x
      (s.transform.pointToModel point).y level
    rw [liquidHeight, hgroup]
    simp only [Query.liquidHeight, Traced.value_bind, Traced.value_pure, hlevel, Option.map_some,
      Option.some.injEq]
    exact congrArg Exact.number hheight

end PlacedModel

/-! ### Wells -/

/-- A model with its floor at one depth under every point, and water up to one level. -/
structure Well (K : Type) where
  depth : K
  level : K

namespace Well

instance {K : Type} : Mesh (Exact K) (Well K) (Well K) where
  traceRay _ _ distance _ := ⟨false, distance⟩
  findArea well _ _ := some ⟨.number well.depth, 0, 0, 0⟩
  findGroup well _ _ := some ⟨.number well.depth, well, 0⟩
  liquidHeight well _ := some (.number well.level)

/-- A spawn of twice the size, with a bound of ten all around the origin of the world. -/
def spawn (rotation : Vec3 ℚ) : Spawn ℚ :=
  (Spawn.unbounded 0 5 [] ⟨1, 2, 3⟩ rotation 2).attachBound ⟨⟨-10, -10, -10⟩, ⟨10, 10, 10⟩⟩

theorem letsIn (rotation : Vec3 ℚ) (well : Well ℚ) {p : PlacedModel (Exact ℚ) (Well ℚ)}
    (hspawn : p.spawn = (spawn rotation).exact) (hmodel : p.model = some well) :
    p.LetsIn (Vec3.exact ⟨4, 5, 6⟩) well := by
  refine ⟨hmodel, ?_, ?_⟩
  · have hflags : SpawnFlag.doodad.isSet (0 ||| SpawnFlag.bounded.bit) = false := by decide
    rw [hspawn]
    exact hflags
  · rw [hspawn]
    refine ⟨_, rfl, Box.contains_exact.mpr ?_⟩
    norm_num [Box.Encloses]

end Well

/-- A well of depth 3/2 seen from height 6, pitched, and one of level 7, turned upright. -/
theorem probes_are_plumb_wells :
    let pitched := Well.spawn ⟨1 / 3, 1 / 2, 1 / 4⟩
    let turned := Well.spawn ⟨0, 1 / 2, 0⟩
    let well : Well ℚ := ⟨3 / 2, 7⟩
    0 < pitched.scale ∧ turned.Upright ∧
    (∃ p, PlacedModel.place 0 pitched.exact (some well) = .ok p ∧
      (p.probeArea (Vec3.exact ⟨4, 5, 6⟩) .none).value.height = .number 3) ∧
    ∃ p, PlacedModel.place 0 turned.exact (some well) = .ok p ∧
      (p.liquidHeight (Vec3.exact ⟨4, 5, 6⟩) ⟨0, some well, some p, .number 3⟩).value =
        some (.number 17) := by
  intro pitched turned well
  have hscale : ∀ rotation, 0 < (Well.spawn rotation).scale := by
    intro rotation
    norm_num [Well.spawn, Spawn.attachBound, Spawn.unbounded]
  have hupright : turned.Upright := by
    constructor <;> norm_num [turned, Well.spawn, Spawn.attachBound, Spawn.unbounded, Turning.turn]
  refine ⟨hscale _, hupright, ?_, ?_⟩
  · obtain ⟨p, hplace, -, hareas, -⟩ :=
      PlacedModel.probes_are_plumb pitched (hscale _) 0 (some well)
    refine ⟨p, hplace, ?_⟩
    have hp := (PlacedModel.place_exact (hscale _) 0 (some well)).symm.trans hplace
    obtain rfl := Except.ok.inj hp
    have hheight : Exact.number (6 - pitched.scale * (3 / 2)) = .number 3 := by
      norm_num [pitched, Well.spawn, Spawn.attachBound, Spawn.unbounded]
    have hfirst : (Scalar.negInf : Exact ℚ) < .number 3 := Exact.negInf_lt_number 3
    rw [hareas ⟨4, 5, 6⟩ well _ (3 / 2) (Well.letsIn _ well rfl rfl) rfl rfl, hheight]
    simp [AreaSurface.higher, AreaSurface.yieldsTo, AreaSurface.none, hfirst]
  · obtain ⟨p, hplace, -, -, -, hliquid⟩ :=
      PlacedModel.probes_are_plumb turned (hscale _) 0 (some well)
    refine ⟨p, hplace, ?_⟩
    rw [hliquid hupright ⟨4, 5, 6⟩ _ well 7 rfl rfl]
    norm_num [turned, Well.spawn, Spawn.attachBound, Spawn.unbounded]

end Placement
