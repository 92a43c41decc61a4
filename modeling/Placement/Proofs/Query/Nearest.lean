/-
  Placement/Proofs/Query/Nearest.lean
  ===================================
  **When a shrinking distance finds the nearest hit.**

  A pass over placed models hands the distance of its last hit to the next model, in the
  units of that model, and gets the next hit back in the units of the world.  Both ways it
  is a rounded product.  So the model compares its parameter `t` with `best * invScale`,
  while in the world `t * scale` would be compared with `best`; over real numbers that is
  one comparison, over 32-bit numbers it is two.

  `Discerns` says that they come out alike.  Meshes are of fixed geometry here, and placed
  models of accepted scale, and under no other condition the two ways of asking agree all
  along a list, with every hit nearer than the one before, exactly if each model discerns
  what stands when its turn comes.  Models of scale one always do (`agree_of_scale_one`).
  Of others even a pair may not, and then a second hit that is no nearer than the first may
  take its place.
-/
import Placement.Proofs.Binary32.Rounding
import Placement.Proofs.Query.Hits

namespace Placement

namespace RayFinding

/-- The parameter that an answer reports, if it reports a hit. -/
def hit? {α : Type} (finding : RayFinding α) : Option α :=
  if finding.hit then some finding.distance else none

/-- The answer for a parameter, if there is one, up to a distance. -/
def within (distance : Binary32) : Option Binary32 → RayFinding Binary32
  | some t => if t < distance then ⟨true, t⟩ else ⟨false, distance⟩
  | none => ⟨false, distance⟩

theorem hit?_within (distance : Binary32) (t? : Option Binary32) :
    (within distance t?).hit? = t?.filter fun t => decide (t < distance) := by
  cases t? with
  | none => rfl
  | some t =>
    rw [within, Option.filter_some]
    by_cases h : t < distance
    · simp [hit?, h]
    · simp [hit?, h]

end RayFinding

/-- Meshes of fixed geometry: on each ray there is one nearest parameter or none, and the
    answer reports it exactly if it is below the distance that was asked for. -/
structure FixedGeometry (μ : Type) {γ : Type} [Mesh Binary32 μ γ] where
  nearest : (model : μ) → (ray : Ray Binary32) → (ignoreDoodads : Bool) → Option Binary32
  zero_le : ∀ {model ray ignoreDoodads t},
    nearest model ray ignoreDoodads = some t → Binary32.zero ≤ t
  hit?_eq : ∀ {model ray distance mode}, mode.stopAtFirstHit = false →
    (Mesh.traceRay model ray distance mode).hit? =
      (nearest model ray mode.ignoreDoodads).filter fun t => decide (t < distance)

/-- Meshes that leave a number as the distance of every hit. -/
def LeavesNumbers (μ : Type) {γ : Type} [Mesh Binary32 μ γ] (mode : RayMode) : Prop :=
  ∀ (model : μ) (ray : Ray Binary32) (distance : Binary32),
    (Mesh.traceRay model ray distance mode).hit = true →
      (Mesh.traceRay model ray distance mode).distance.isNaN = false

theorem FixedGeometry.leavesNumbers {μ γ : Type} [Mesh Binary32 μ γ] (geometry : FixedGeometry μ)
    {mode : RayMode} (hmode : mode.stopAtFirstHit = false) : LeavesNumbers μ mode := by
  intro model ray distance hhit
  have hfound : (Mesh.traceRay model ray distance mode).hit? =
      some (Mesh.traceRay model ray distance mode).distance := if_pos hhit
  rw [geometry.hit?_eq hmode, Option.filter_eq_some_iff] at hfound
  exact (geometry.zero_le hfound.1).2.1

namespace PlacedModel

variable {μ γ : Type} [Mesh Binary32 μ γ] (geometry : FixedGeometry μ)

/-- Placed models that a spawn with an accepted scale gave. -/
def Accepted (p : PlacedModel Binary32 μ) : Prop :=
  ∃ slot spawn model, place slot spawn model = .ok p

omit [Mesh Binary32 μ γ] in
theorem place_of_toOption {slot : Nat} {spawn : Spawn Binary32} {model : Option μ}
    {p : PlacedModel Binary32 μ} (h : (place slot spawn model).toOption = some p) :
    place slot spawn model = .ok p := by
  cases hplace : place slot spawn model with
  | error e =>
    rw [hplace] at h
    cases h
  | ok q =>
    rw [hplace] at h
    cases h
    rfl

/-- The nearest parameter on a ray of the world, in the units of the model. -/
def nearest? (p : PlacedModel Binary32 μ) (ray : Ray Binary32) (ignoreDoodads : Bool) :
    Option Binary32 :=
  match p.rayGate ray with
  | .error _ => none
  | .ok model => geometry.nearest model (p.transform.rayInModel ray) ignoreDoodads

/-- The test of the model in its own units, against the distance of the best hit so far,
    comes out as it does in the world, where hits start from the greatest distance. -/
def Discerns (settings : QuerySettings Binary32) (ray : Ray Binary32) (p : PlacedModel Binary32 μ)
    (best : Binary32) : Prop :=
  ∀ t ∈ p.nearest? geometry ray settings.ignoreDoodads,
    t < best * p.transform.invScale ↔
      t < settings.maxRayDistance * p.transform.invScale ∧ t * p.transform.scale < best

instance (settings : QuerySettings Binary32) (ray : Ray Binary32) (p : PlacedModel Binary32 μ)
    (best : Binary32) : Decidable (p.Discerns geometry settings ray best) :=
  inferInstanceAs (Decidable (∀ t ∈ _, _))

variable {p : PlacedModel Binary32 μ} {ray : Ray Binary32} {mode : RayMode}

theorem hitDistance_value (hmode : mode.stopAtFirstHit = false) (distance : Binary32) :
    (p.hitDistance ray distance mode).value =
      ((p.nearest? geometry ray mode.ignoreDoodads).filter fun t =>
        decide (t < distance * p.transform.invScale)).map (· * p.transform.scale) := by
  rw [hitDistance, nearest?]
  cases p.rayGate ray with
  | error refusal => rfl
  | ok model =>
    simp only [← geometry.hit?_eq hmode, RayFinding.hit?, Query.traceRay, Traced.value_bind,
      Traced.value_pure]
    split
    · rfl
    · rfl

theorem scale_of_accepted (hp : p.Accepted) :
    p.transform.scale.isFinite = true ∧ p.transform.scale.isZero = false ∧
      p.transform.invScale = .one / p.transform.scale := by
  obtain ⟨slot, spawn, model, hplace⟩ := hp
  obtain ⟨t, ht, rfl⟩ := place_eq_ok_iff.mp hplace
  obtain ⟨⟨hfinite, hpos⟩, rfl⟩ := Transform.ofSpawn_eq_ok_iff.mp ht
  exact ⟨Binary32.isFinite_of_between hfinite, Binary32.isZero_of_zero_lt hpos, rfl⟩

variable {geometry}

theorem isNaN_of_nearest? {ignoreDoodads : Bool} {t : Binary32}
    (ht : p.nearest? geometry ray ignoreDoodads = some t) : t.isNaN = false := by
  rw [nearest?] at ht
  split at ht
  · cases ht
  · exact (geometry.zero_le ht).2.1

/-- An accepted scale makes a number of the number that a mesh leaves. -/
theorem isNaN_hitDistance {distance d : Binary32} (hp : p.Accepted) (hmesh : LeavesNumbers μ mode)
    (hd : (p.hitDistance ray distance mode).value = some d) : d.isNaN = false := by
  obtain ⟨hfinite, hzero, -⟩ := scale_of_accepted hp
  obtain ⟨model, -, hhit, hscaled⟩ := hitDistance_eq_some_iff.mp hd
  rw [← hscaled]
  exact Binary32.isNaN_mul (hmesh model _ _ hhit) hfinite hzero

/-- At scale one the test is the comparison in the world. -/
theorem discerns_of_scale_one {settings : QuerySettings Binary32} {best : Binary32}
    (hscale : p.transform.scale = .one) (hinv : p.transform.invScale = .one)
    (hbest : best < settings.maxRayDistance * .one) : p.Discerns geometry settings ray best := by
  intro t ht
  have hnum : t.isNaN = false := isNaN_of_nearest? ht
  rw [hscale, hinv, Binary32.mul_one hnum, Binary32.mul_one hbest.1]
  constructor
  · intro h
    exact ⟨Binary32.lt_trans h hbest, h⟩
  · rintro ⟨-, h⟩
    exact h

end PlacedModel

namespace Batch

open PlacedModel

variable {μ γ : Type} [Mesh Binary32 μ γ] {geometry : FixedGeometry μ}
  {settings : QuerySettings Binary32} {ray : Ray Binary32}

theorem loneHit_value (geometry : FixedGeometry μ) (hmode : settings.stopAtFirstHit = false)
    (p : PlacedModel Binary32 μ) (index : Nat) :
    (loneHit settings ray (p, index)).value =
      (((p.nearest? geometry ray settings.ignoreDoodads).filter fun t =>
        decide (t < settings.maxRayDistance * p.transform.invScale)).map
          (· * p.transform.scale)).map (PlacedHit.mk index) := by
  rw [loneHit, Traced.value_bind, Traced.value_pure, hitDistance_value geometry hmode]

theorem exists_of_mem_loneHits (geometry : FixedGeometry μ)
    {placed : List (PlacedModel Binary32 μ)} {hit : PlacedHit Binary32}
    (hmode : settings.stopAtFirstHit = false) (hhit : hit ∈ loneHits settings ray placed) :
    ∃ p ∈ placed, ∃ t, p.nearest? geometry ray settings.ignoreDoodads = some t ∧
      t < settings.maxRayDistance * p.transform.invScale ∧
      hit.distance = t * p.transform.scale := by
  obtain ⟨⟨p, index⟩, hp, hlone⟩ := List.mem_filterMap.mp hhit
  rw [loneHit_value geometry hmode, Option.map_map, Option.map_eq_some_iff] at hlone
  obtain ⟨t, ht, rfl⟩ := hlone
  rw [Option.filter_eq_some_iff, decide_eq_true_eq] at ht
  exact ⟨p, List.fst_mem_of_mem_zipIdx hp, t, ht.1, ht.2, rfl⟩

theorem isNaN_of_loneHit {placed : List (PlacedModel Binary32 μ)}
    (hmesh : LeavesNumbers μ settings.toRayMode) (hplaced : ∀ p ∈ placed, p.Accepted) :
    ∀ h ∈ loneHits settings ray placed, h.distance.isNaN = false := by
  intro h hh
  obtain ⟨⟨p, index⟩, hp, hlone⟩ := List.mem_filterMap.mp hh
  obtain ⟨d, hvalue, rfl⟩ := Option.map_eq_some_iff.mp hlone
  exact isNaN_hitDistance (hplaced p (List.fst_mem_of_mem_zipIdx hp)) hmesh hvalue

theorem isNaN_of_mem_loneHits (geometry : FixedGeometry μ) {placed : List (PlacedModel Binary32 μ)}
    (hmode : settings.stopAtFirstHit = false) (hplaced : ∀ p ∈ placed, p.Accepted) :
    ∀ h ∈ loneHits settings ray placed, h.distance.isNaN = false :=
  isNaN_of_loneHit (geometry.leavesNumbers hmode) hplaced

/-! ### One step -/

/-- With a hit standing, the next model changes it to the same effect in both ways of asking
    exactly if it discerns it. -/
theorem step_eq_iff {p : PlacedModel Binary32 μ} {index : Nat} {best : PlacedHit Binary32}
    (hmode : settings.stopAtFirstHit = false) (hindex : best.index < index) :
    ((p.hitDistance ray best.distance settings.toRayMode).value.map (PlacedHit.mk index)).or
        (some best) =
      (loneHit settings ray (p, index)).value.elim (some best) (fun hit => some (best.nearer hit)) ↔
    p.Discerns geometry settings ray best.distance := by
  rw [loneHit_value geometry hmode, hitDistance_value geometry hmode, Discerns]
  cases p.nearest? geometry ray settings.ignoreDoodads with
  | none => simp
  | some t =>
    have hnew : ∀ d, (⟨index, d⟩ : PlacedHit Binary32) ≠ best := by
      rintro d rfl
      exact Nat.lt_irrefl _ hindex
    have hnearer : best.nearer ⟨index, t * p.transform.scale⟩ =
        if t * p.transform.scale < best.distance then ⟨index, t * p.transform.scale⟩ else best :=
      PlacedHit.nearer_of_index_lt hindex
    simp only [Option.filter_some, Option.mem_def, Option.some.injEq, forall_eq',
      decide_eq_true_eq]
    -- nothing relates the three comparisons to one another, so every case can come up
    by_cases hown : t < best.distance * p.transform.invScale
    · by_cases hlone : t < settings.maxRayDistance * p.transform.invScale
      · by_cases hworld : t * p.transform.scale < best.distance
        · simp [hown, hlone, hworld, hnearer]
        · simp [hown, hlone, hworld, hnearer, hnew]
      · simp [hown, hlone, hnew]
    · by_cases hlone : t < settings.maxRayDistance * p.transform.invScale
      · by_cases hworld : t * p.transform.scale < best.distance
        · simp [hown, hlone, hworld, hnearer, (hnew _).symm]
        · simp [hown, hlone, hworld, hnearer]
      · simp [hown, hlone]

/-- As long as both ways agree, they go on to agree exactly if the next model discerns the
    hit that stands. -/
theorem agree_concat_iff {front : List (PlacedModel Binary32 μ)} {p : PlacedModel Binary32 μ}
    (hmode : settings.stopAtFirstHit = false)
    (hagree : (takenHits ray settings.toRayMode 0 front settings.maxRayDistance).getLast? =
      PlacedHit.nearest? (loneHits settings ray front)) :
    (takenHits ray settings.toRayMode 0 (front ++ [p]) settings.maxRayDistance).getLast? =
        PlacedHit.nearest? (loneHits settings ray (front ++ [p])) ↔
      ∀ best ∈ PlacedHit.nearest? (loneHits settings ray front),
        p.Discerns geometry settings ray best.distance := by
  have hlast? : ∀ hit? : Option (PlacedHit Binary32), hit?.toList.getLast? = hit? := by
    rintro (_ | hit)
    · rfl
    · rfl
  rw [takenHits_concat, loneHits_concat, PlacedHit.nearest?_append_toList, List.getLast?_append,
    hlast?, hagree]
  cases hbest : PlacedHit.nearest? (loneHits settings ray front) with
  | none =>
    simp only [reach, Option.elim_none, Option.or_none, loneHit, Traced.value_bind,
      Traced.value_pure]
    cases (p.hitDistance ray settings.maxRayDistance settings.toRayMode).value with
    | none => simp
    | some distance => simp
  | some best =>
    have hindex : best.index < front.length := by
      have hmem := index_lt_of_mem_takenHits (List.mem_of_getLast? (hagree.trans hbest))
      rwa [Nat.zero_add] at hmem
    simp only [reach, Option.elim_some, Option.mem_def, Option.some.injEq, forall_eq']
    exact step_eq_iff hmode hindex

theorem descending_concat {front : List (PlacedModel Binary32 μ)} {p : PlacedModel Binary32 μ}
    (hmode : settings.stopAtFirstHit = false)
    (hfront : PlacedHit.Descending
      (takenHits ray settings.toRayMode 0 front settings.maxRayDistance))
    (hdiscerns : ∀ best ∈ (takenHits ray settings.toRayMode 0 front settings.maxRayDistance).getLast?,
      p.Discerns geometry settings ray best.distance) :
    PlacedHit.Descending
      (takenHits ray settings.toRayMode 0 (front ++ [p]) settings.maxRayDistance) := by
  rw [takenHits_concat]
  refine hfront.append_toList fun last hlast hit hhit => ?_
  rw [hlast, reach, Option.elim_some, hitDistance_value geometry hmode, Option.mem_def,
    Option.map_map, Option.map_eq_some_iff] at hhit
  obtain ⟨t, ht, rfl⟩ := hhit
  rw [Option.filter_eq_some_iff, decide_eq_true_eq] at ht
  exact ((hdiscerns last hlast t ht.1).mp ht.2).2

/-! ### A whole pass -/

theorem agree_of_discerns {placed : List (PlacedModel Binary32 μ)}
    (hmode : settings.stopAtFirstHit = false)
    (hdiscerns : ∀ (k : Nat) (hk : k < placed.length),
      ∀ best ∈ PlacedHit.nearest? (loneHits settings ray (placed.take k)),
        placed[k].Discerns geometry settings ray best.distance) (k : Nat) :
    (takenHits ray settings.toRayMode 0 (placed.take k) settings.maxRayDistance).getLast? =
        PlacedHit.nearest? (loneHits settings ray (placed.take k)) ∧
      PlacedHit.Descending
        (takenHits ray settings.toRayMode 0 (placed.take k) settings.maxRayDistance) := by
  induction k with
  | zero => exact ⟨rfl, .nil⟩
  | succ k ih =>
    obtain ⟨hagree, hdescending⟩ := ih
    rcases Nat.lt_or_ge k placed.length with hk | hk
    · have hnext := hdiscerns k hk
      rw [List.take_succ_eq_append_getElem hk]
      refine ⟨(agree_concat_iff hmode hagree).mpr hnext, ?_⟩
      exact descending_concat hmode hdescending (hagree ▸ hnext)
    · rw [List.take_of_length_le (Nat.le_succ_of_le hk)]
      rw [List.take_of_length_le hk] at hagree hdescending
      exact ⟨hagree, hdescending⟩

/-- Models of scale one discern every hit, so over them both ways agree. -/
theorem agree_of_scale_one (geometry : FixedGeometry μ) (schedule : Schedule)
    {placed : List (PlacedModel Binary32 μ)} (hmode : settings.stopAtFirstHit = false)
    (hplaced : ∀ p ∈ placed, p.Accepted) (hscale : ∀ p ∈ placed, p.transform.scale = .one) :
    (seekRay ray settings.toRayMode 0 placed settings.maxRayDistance none).value =
        (splitRay schedule settings placed ray).value ∧
      PlacedHit.Descending (takenHits ray settings.toRayMode 0 placed settings.maxRayDistance) := by
  have hone : ∀ p ∈ placed, p.transform.invScale = .one := by
    intro p hp
    obtain ⟨-, -, hinv⟩ := scale_of_accepted (hplaced p hp)
    rw [hinv, hscale p hp]
    decide
  have hnext : ∀ (k : Nat) (hk : k < placed.length),
      ∀ best ∈ PlacedHit.nearest? (loneHits settings ray (placed.take k)),
        placed[k].Discerns geometry settings ray best.distance := by
    intro k hk best hbest
    -- what stands is the lone hit of an earlier model, and that model has scale one too
    obtain ⟨q, hq, t, ht, hreach, hdistance⟩ :=
      exists_of_mem_loneHits geometry hmode (PlacedHit.mem_of_nearest? hbest)
    have hqmem := List.mem_of_mem_take hq
    rw [hscale q hqmem, Binary32.mul_one (isNaN_of_nearest? ht)] at hdistance
    rw [hone q hqmem, ← hdistance] at hreach
    have hmem := List.getElem_mem hk
    exact discerns_of_scale_one (hscale _ hmem) (hone _ hmem) hreach
  have hall := agree_of_discerns hmode hnext placed.length
  rw [List.take_length] at hall
  rw [seekRay_value hmode, Option.or_none,
    splitRay_eq_nearest? hmode (isNaN_of_mem_loneHits geometry hmode hplaced)]
  exact hall

/-- **A pass finds the nearest hit exactly if every model discerns what stands.**  For meshes
    of fixed geometry and placed models of accepted scale, whatever the schedule: all along
    the list the hit of the pass is the hit of split work and each hit is nearer than the
    ones before, if and only if each model, when its turn comes, tells in its own units
    whether it is nearer in the world than the nearest so far. -/
theorem agree_iff_discerns (geometry : FixedGeometry μ) (schedule : Schedule)
    (settings : QuerySettings Binary32) (ray : Ray Binary32)
    (placed : List (PlacedModel Binary32 μ)) (hmode : settings.stopAtFirstHit = false)
    (hplaced : ∀ p ∈ placed, p.Accepted) :
    (∀ k : Nat,
      (seekRay ray settings.toRayMode 0 (placed.take k) settings.maxRayDistance none).value =
          (splitRay schedule settings (placed.take k) ray).value ∧
        PlacedHit.Descending
          (takenHits ray settings.toRayMode 0 (placed.take k) settings.maxRayDistance)) ↔
      ∀ (k : Nat) (hk : k < placed.length),
        ∀ best ∈ (splitRay schedule settings (placed.take k) ray).value,
          placed[k].Discerns geometry settings ray best.distance := by
  have hsplit : ∀ k, (splitRay schedule settings (placed.take k) ray).value =
      PlacedHit.nearest? (loneHits settings ray (placed.take k)) := fun k =>
    splitRay_eq_nearest? hmode
      (isNaN_of_mem_loneHits geometry hmode fun p hp => hplaced p (List.mem_of_mem_take hp))
  simp only [hsplit, seekRay_value hmode, Option.or_none]
  constructor
  · intro h k hk
    have hnext := (h (k + 1)).1
    rw [List.take_succ_eq_append_getElem hk] at hnext
    exact (agree_concat_iff hmode (h k).1).mp hnext
  · exact agree_of_discerns hmode

end Batch

/-! ### Floors -/

/-- A model that is one level floor. -/
structure Floor where
  height : Binary32

namespace Floor

variable {floor : Floor} {ray : Ray Binary32}

/-- The parameter at which a ray meets the floor. -/
def reach? (floor : Floor) (ray : Ray Binary32) : Option Binary32 :=
  let t := (floor.height - ray.origin.z) / ray.direction.z
  if .zero ≤ t then some t else none

instance : Mesh Binary32 Floor Unit where
  traceRay floor ray distance _ := .within distance (floor.reach? ray)
  findArea _ _ _ := none
  findGroup _ _ _ := none
  liquidHeight _ _ := none

theorem zero_le_of_reach? {t : Binary32} (h : floor.reach? ray = some t) : Binary32.zero ≤ t := by
  rw [reach?] at h
  split at h
  · rename_i hzero
    cases h
    exact hzero
  · cases h

def geometry : FixedGeometry Floor where
  nearest floor ray _ := floor.reach? ray
  zero_le := zero_le_of_reach?
  hit?_eq _ := RayFinding.hit?_within _ _

/-- A spawn at the origin of the world, unturned, with a bound of fifty all around. -/
def spawn (id : Nat) (scale : Binary32) : Spawn Binary32 :=
  let corner : Vec3 Binary32 := ⟨.ofInt 50, .ofInt 50, .ofInt 50⟩
  (Spawn.unbounded id.toUInt32 0 [] .zero .zero scale).attachBound ⟨.zero - corner, corner⟩

/-- Floors with the given heights and scales, as far as they can be placed. -/
def placed (floors : List (Binary32 × Binary32)) : List (PlacedModel Binary32 Floor) :=
  floors.zipIdx.filterMap fun f =>
    (PlacedModel.place f.2 (spawn f.2 f.1.2) (some (mk f.1.1))).toOption

theorem accepted_of_mem_placed {floors : List (Binary32 × Binary32)} :
    ∀ p ∈ placed floors, p.Accepted := by
  intro p hp
  obtain ⟨f, -, hf⟩ := List.mem_filterMap.mp hp
  exact ⟨_, _, _, PlacedModel.place_of_toOption hf⟩

/-- Straight down from five above the origin. -/
def downward : Ray Binary32 := ⟨⟨.zero, .zero, .ofInt 5⟩, .down⟩

end Floor

namespace Batch

/-- Floors of scales one and two, the second of them the higher one. -/
theorem agree_on_two_floors :
    let floors := Floor.placed [(.zero, .one), (.one, .ofInt 2)]
    QuerySettings.standard.stopAtFirstHit = false ∧
    (∀ p ∈ floors, p.Accepted) ∧
    (seekRay Floor.downward QuerySettings.standard.toRayMode 0 floors
        QuerySettings.standard.maxRayDistance none).value =
      (splitRay .halving QuerySettings.standard floors Floor.downward).value ∧
    (splitRay .halving QuerySettings.standard floors Floor.downward).value = some ⟨1, .ofInt 3⟩ ∧
    PlacedHit.Descending (takenHits Floor.downward QuerySettings.standard.toRayMode 0 floors
      QuerySettings.standard.maxRayDistance) := by
  intro floors
  have hplaced : ∀ p ∈ floors, p.Accepted := Floor.accepted_of_mem_placed
  have hall := (agree_iff_discerns Floor.geometry .halving QuerySettings.standard Floor.downward
    floors rfl hplaced).mpr (by decide +kernel) 2
  rw [List.take_of_length_le (by decide +kernel)] at hall
  exact ⟨rfl, hplaced, hall.1, by decide +kernel, hall.2⟩

/-- **A hit that is no nearer takes the place of the first.**  The second floor has scale
    three and lies `2⁻²³` of its units higher.  Its parameter is the last one below the
    distance it is handed, and rounds back to that very distance. -/
theorem equal_hit_replaces_first :
    let floors := Floor.placed [(.zero, .one), (⟨0x34000000⟩, .ofInt 3)]
    QuerySettings.standard.check = .ok QuerySettings.standard ∧
    (∀ p ∈ floors, p.Accepted) ∧
    (seekRay Floor.downward QuerySettings.standard.toRayMode 0 floors
        QuerySettings.standard.maxRayDistance none).value = some ⟨1, .ofInt 5⟩ ∧
    (∀ schedule : Schedule,
      (splitRay schedule QuerySettings.standard floors Floor.downward).value = some ⟨0, .ofInt 5⟩) ∧
    takenHits Floor.downward QuerySettings.standard.toRayMode 0 floors
      QuerySettings.standard.maxRayDistance = [⟨0, .ofInt 5⟩, ⟨1, .ofInt 5⟩] ∧
    ¬ PlacedHit.Descending [⟨0, .ofInt 5⟩, ⟨1, .ofInt 5⟩] := by
  intro floors
  have hplaced : ∀ p ∈ floors, p.Accepted := Floor.accepted_of_mem_placed
  refine ⟨rfl, hplaced, by decide +kernel, ?_, by decide +kernel, ?_⟩
  · intro schedule
    rw [splitRay_eq_nearest? rfl (isNaN_of_mem_loneHits Floor.geometry rfl hplaced)]
    decide +kernel
  · intro h
    have hlt := List.rel_of_pairwise_cons h (List.mem_singleton.mpr rfl)
    exact Binary32.lt_irrefl _ hlt

end Batch

end Placement
