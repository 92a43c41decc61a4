/-
  Placement/Query/Surface.lean
  ============================
  **The highest surface found below a point.**

  Probes of several placed models are put together by keeping the highest surface.  A
  surface found first stays unless a later one is strictly higher, so equal heights keep
  the first.  Before anything is found the height is minus infinity; a surface whose
  height is that low, or is no number, is never kept.

  There are two kinds: an `AreaSurface` tells the area of the map, a `LocatedSurface`
  the group and the placed model that were hit, and through them the liquid there.

  A surface of either kind changes in two ways.  A probe writes what it has found into it
  (`raise`); and of two surfaces that probes have left behind, the higher one is kept
  (`higher`), for which the other one must have found something.  A probe always has, so
  that to write a surface down comes to keeping it.
-/
import Placement.Query.PlacedModel

namespace Placement

variable {α μ γ : Type}

/-! ### Areas -/

/-- The highest surface of an area found so far. -/
structure AreaSurface (α : Type) where
  found : Bool
  height : α
  flags : UInt32
  tile : UInt16
  rootId : Int32
  groupId : Int32
  deriving DecidableEq

namespace AreaSurface

variable [Scalar α]

/-- Nothing found yet. -/
def none : AreaSurface α := ⟨false, Scalar.negInf, 0, 0, 0, 0⟩

/-- Whether another surface is to be kept instead. -/
def yieldsTo (best other : AreaSurface α) : Bool :=
  other.found && decide (best.height < other.height)

/-- The surface to keep of two. -/
def higher (best other : AreaSurface α) : AreaSurface α :=
  if best.yieldsTo other then other else best

/-- Write down what a probe has found, part by part, if it is higher. -/
def raise (best surface : AreaSurface α) : AreaSurface α :=
  if best.height < surface.height then
    { found := true
      height := surface.height
      flags := surface.flags
      tile := surface.tile
      rootId := surface.rootId
      groupId := surface.groupId }
  else best

theorem raise_eq_higher (best : AreaSurface α) {surface : AreaSurface α}
    (hfound : surface.found = true) : best.raise surface = best.higher surface := by
  simp only [raise, higher, yieldsTo, hfound, Bool.true_and, decide_eq_true_eq]
  rw [← hfound]

def dump (s : AreaSurface Binary32) : String :=
  "AreaInfo \x7b result: " ++ (if s.found then "true" else "false")
    ++ ", ground_z: " ++ s.height.text .dump
    ++ ", flags: " ++ s.flags.toNat.repr
    ++ ", adt_id: " ++ s.tile.toNat.repr
    ++ ", root_id: " ++ s.rootId.toInt.repr
    ++ ", group_id: " ++ s.groupId.toInt.repr ++ " \x7d"

end AreaSurface

/-! ### Located surfaces -/

/-- The highest surface found so far, with its group and its placed model. -/
structure LocatedSurface (α μ γ : Type) where
  rootId : Int32
  group : Option γ
  placed : Option (PlacedModel α μ)
  height : α

namespace LocatedSurface

variable [Scalar α]

/-- Nothing found yet. -/
def none : LocatedSurface α μ γ := ⟨0, .none, .none, Scalar.negInf⟩

/-- Whether a placed model has been hit. -/
def found (s : LocatedSurface α μ γ) : Bool := s.placed.isSome

/-- Whether another surface is to be kept instead. -/
def yieldsTo (best other : LocatedSurface α μ γ) : Bool :=
  other.found && decide (best.height < other.height)

/-- The surface to keep of two. -/
def higher (best other : LocatedSurface α μ γ) : LocatedSurface α μ γ :=
  if best.yieldsTo other then other else best

/-- Write down what a probe has found, part by part, if it is higher; also whether it was. -/
def raise (best surface : LocatedSurface α μ γ) : Bool × LocatedSurface α μ γ :=
  if best.height < surface.height then
    (true,
      { rootId := surface.rootId
        group := surface.group
        placed := surface.placed
        height := surface.height })
  else (false, best)

theorem raise_eq_higher (best : LocatedSurface α μ γ) {surface : LocatedSurface α μ γ}
    (hfound : surface.found = true) :
    best.raise surface = (best.yieldsTo surface, best.higher surface) := by
  have hyields : best.yieldsTo surface = decide (best.height < surface.height) := by
    rw [yieldsTo, hfound, Bool.true_and]
  rw [raise, higher, hyields]
  by_cases hheight : best.height < surface.height
  · simp only [hheight, if_true, decide_true]
  · simp only [hheight, if_false, decide_false, Bool.false_eq_true]

/-- A dump: the group is only told to be there, and the placed model by the id of its spawn. -/
def dump (s : LocatedSurface Binary32 μ γ) : String :=
  "LocationInfo \x7b root_id: " ++ s.rootId.toInt.repr
    ++ ", has_hit_model: " ++ (if s.group.isSome then "true" else "false")
    ++ ", hit_instance: "
    ++ (match s.placed with
        | .some p => "Some(" ++ p.spawn.id.toNat.repr ++ ")"
        | .none => "None")
    ++ ", ground_z: " ++ s.height.text .dump ++ " \x7d"

end LocatedSurface

/-! ### Probes of one placed model -/

namespace PlacedModel

variable [Scalar α] [Mesh α μ γ]

/-- The surface of an area straight below a point. -/
def areaBelow (p : PlacedModel α μ) (point : Vec3 α) : Query α μ γ (Option (AreaSurface α)) := do
  let hit ← p.probe point Query.findArea
  return hit.map fun (pointInModel, hit) =>
    { found := true
      height := p.groundHeight pointInModel hit.distance
      flags := hit.flags
      tile := p.spawn.tile
      rootId := hit.rootId
      groupId := hit.groupId }

/-- The surface straight below a point, with its group. -/
def surfaceBelow (p : PlacedModel α μ) (point : Vec3 α) :
    Query α μ γ (Option (LocatedSurface α μ γ)) := do
  let hit ← p.probe point Query.findGroup
  return hit.map fun (pointInModel, hit) =>
    { rootId := hit.rootId
      group := some hit.group
      placed := some p
      height := p.groundHeight pointInModel hit.distance }

/-- Add a probe for an area to what was found before. -/
def probeArea (p : PlacedModel α μ) (point : Vec3 α) (best : AreaSurface α) :
    Query α μ γ (AreaSurface α) := do
  match ← p.areaBelow point with
  | some surface => return best.raise surface
  | none => return best

/-- Add a probe for a group to what was found before; also whether that changed it. -/
def probeGroup (p : PlacedModel α μ) (point : Vec3 α) (best : LocatedSurface α μ γ) :
    Query α μ γ (Bool × LocatedSurface α μ γ) := do
  match ← p.surfaceBelow point with
  | some surface => return best.raise surface
  | none => return (false, best)

/-- The height in the world of the liquid in the group that a surface belongs to, over or
    under a point.  The surface should come from a probe of this placed model, since its
    transform is the one applied. -/
def liquidHeight (p : PlacedModel α μ) (point : Vec3 α) (surface : LocatedSurface α μ γ) :
    Query α μ γ (Option α) :=
  match surface.group with
  | none => return none
  | some group => do
    let pointInModel := p.transform.toModel point
    let height ← Query.liquidHeight μ group pointInModel
    return height.map fun h => (p.transform.toWorld ⟨pointInModel.x, pointInModel.y, h⟩).z

end PlacedModel

end Placement
