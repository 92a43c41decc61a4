/-
  Placement/Proofs/Query/Ground.lean
  ==================================
  **The ground below a point, however the work is split.**

  A pass over placed models is a fold over what their probes find, and putting two results
  together is the same choice that each step of the fold makes.  The two kinds of surfaces
  differ in what they carry and in how they say that something was found, and in nothing
  that the choice looks at; so both are cases of `isHigher`.

  The answers of a mesh may be anything at all.  A probe that comes back without a height,
  or with minus infinity, is passed over by every fold, and so it cannot tell the groupings
  apart; nothing is asked of a mesh, and nothing of the placed models.
-/
import Placement.Proofs.Query.Preference
import Placement.Proofs.Query.Probes

namespace Placement

variable {μ γ : Type}

namespace AreaSurface

theorem higher_eq_keep :
    (higher : AreaSurface Binary32 → AreaSurface Binary32 → AreaSurface Binary32) =
      keep (isHigher found height) := rfl

theorem ranked_none : Ranked (isHigher found height) (none : AreaSurface Binary32) :=
  ranked_of_lowest rfl

theorem not_isHigher_none (best : AreaSurface Binary32) :
    ¬ isHigher found height best none = true := by
  intro h
  cases (isHigher_iff.mp h).1

theorem foldl_higher_append (xs ys : List (AreaSurface Binary32)) :
    (xs ++ ys).foldl higher none = higher (xs.foldl higher none) (ys.foldl higher none) := by
  rw [higher_eq_keep]
  exact foldl_keep_append preference_isHigher ranked_none not_isHigher_none xs ys

end AreaSurface

namespace LocatedSurface

theorem higher_eq_keep :
    (higher : LocatedSurface Binary32 μ γ → LocatedSurface Binary32 μ γ → _) =
      keep (isHigher found height) := rfl

theorem ranked_none : Ranked (isHigher found height) (none : LocatedSurface Binary32 μ γ) :=
  ranked_of_lowest rfl

theorem not_isHigher_none (best : LocatedSurface Binary32 μ γ) :
    ¬ isHigher found height best none = true := by
  intro h
  cases (isHigher_iff.mp h).1

theorem foldl_higher_append (xs ys : List (LocatedSurface Binary32 μ γ)) :
    (xs ++ ys).foldl higher none = higher (xs.foldl higher none) (ys.foldl higher none) := by
  rw [higher_eq_keep]
  exact foldl_keep_append preference_isHigher ranked_none not_isHigher_none xs ys

end LocatedSurface

namespace Batch

variable [Mesh Binary32 μ γ] (point : Vec3 Binary32)

/-! ### A pass is a fold -/

theorem seekArea_value (ps : List (PlacedModel Binary32 μ)) (best : AreaSurface Binary32) :
    (seekArea point ps best).value =
      (ps.filterMap fun p => (p.areaBelow point).value).foldl AreaSurface.higher best := by
  induction ps generalizing best with
  | nil => rfl
  | cons p ps ih =>
    rw [seekArea, Traced.value_bind, ih, p.probeArea_value, List.filterMap_cons]
    cases (p.areaBelow point).value with
    | none => rfl
    | some surface => rfl

theorem seekGroup_value (ps : List (PlacedModel Binary32 μ)) (best : LocatedSurface Binary32 μ γ) :
    (seekGroup point ps best).value =
      (ps.filterMap fun p => (p.surfaceBelow point).value).foldl LocatedSurface.higher best := by
  induction ps generalizing best with
  | nil => rfl
  | cons p ps ih =>
    have hstep : (seekGroup point (p :: ps) best).value =
        (seekGroup point ps (p.probeGroup point best).value.2).value := rfl
    rw [hstep, ih, p.probeGroup_value, List.filterMap_cons]
    cases (p.surfaceBelow point).value with
    | none => rfl
    | some surface => rfl

/-! ### Passes put together -/

theorem seekArea_append (xs ys : List (PlacedModel Binary32 μ)) :
    (seekArea point (xs ++ ys) .none).value =
      (seekArea point xs .none).value.higher (seekArea point ys .none).value := by
  rw [seekArea_value, seekArea_value, seekArea_value, List.filterMap_append]
  exact AreaSurface.foldl_higher_append _ _

theorem seekGroup_append (xs ys : List (PlacedModel Binary32 μ)) :
    (seekGroup point (xs ++ ys) .none).value =
      (seekGroup point xs .none).value.higher (seekGroup point ys .none).value := by
  rw [seekGroup_value, seekGroup_value, seekGroup_value, List.filterMap_append]
  exact LocatedSurface.foldl_higher_append _ _

theorem collect_seekArea (tree : SplitTree (PlacedModel Binary32 μ)) :
    tree.collect (fun ps => (seekArea point ps .none).value) AreaSurface.higher =
      (seekArea point tree.items .none).value :=
  tree.collect_eq fun xs ys _ => seekArea_append point xs ys

theorem collect_seekGroup (tree : SplitTree (PlacedModel Binary32 μ)) :
    tree.collect (fun ps => (seekGroup point ps .none).value) LocatedSurface.higher =
      (seekGroup point tree.items .none).value :=
  tree.collect_eq fun xs ys _ => seekGroup_append point xs ys

theorem splitArea_value (schedule : Schedule) (placed : List (PlacedModel Binary32 μ)) :
    (splitArea schedule placed point).value = (seekArea point placed .none).value := by
  rw [splitArea, SplitTree.value_collect, collect_seekArea, schedule.items_split]

theorem splitGroup_value (schedule : Schedule) (placed : List (PlacedModel Binary32 μ)) :
    (splitGroup schedule placed point).value = (seekGroup point placed .none).value := by
  rw [splitGroup, SplitTree.value_collect, collect_seekGroup, schedule.items_split]

section Paths

variable (schedule : Schedule) (settings : QuerySettings Binary32)
  (placed : List (PlacedModel Binary32 μ))

theorem areaBelow_value_eq_seekArea :
    (areaBelow schedule settings placed point).value = (seekArea point placed .none).value := by
  rw [areaBelow]
  split
  · rfl
  · exact splitArea_value point schedule placed

theorem surfaceBelow_value_eq_seekGroup :
    (surfaceBelow schedule settings placed point).value =
      (seekGroup point placed .none).value := by
  rw [surfaceBelow]
  split
  · rfl
  · exact splitGroup_value point schedule placed

end Paths

/-- **Split ground queries give the sequential answer.**  Along any tree of segments, empty
    ones among them (the result of which is nothing found yet), the surfaces put together
    are those of one pass over all placed models, field by field; and so neither the
    settings nor the schedule of a query have a say in its result. -/
theorem ground_split_eq_sequential (point : Vec3 Binary32) :
    (∀ tree : SplitTree (PlacedModel Binary32 μ),
      tree.collect (fun ps => (seekArea point ps .none).value) AreaSurface.higher =
          (seekArea point tree.items .none).value ∧
        tree.collect (fun ps => (seekGroup point ps .none).value) LocatedSurface.higher =
          (seekGroup point tree.items .none).value) ∧
    ∀ (schedule : Schedule) (settings : QuerySettings Binary32)
        (placed : List (PlacedModel Binary32 μ)),
      (areaBelow schedule settings placed point).value = (seekArea point placed .none).value ∧
        (surfaceBelow schedule settings placed point).value =
          (seekGroup point placed .none).value := by
  refine ⟨fun tree => ⟨collect_seekArea point tree, collect_seekGroup point tree⟩, ?_⟩
  intro schedule settings placed
  exact ⟨areaBelow_value_eq_seekArea point schedule settings placed,
    surfaceBelow_value_eq_seekGroup point schedule settings placed⟩

end Batch

end Placement
