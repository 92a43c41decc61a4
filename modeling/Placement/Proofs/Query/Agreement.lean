/-
  Placement/Proofs/Query/Agreement.lean
  =====================================
  **The two kinds of ground queries agree.**

  A query for an area and one for a group keep their surfaces by two procedures of their own,
  over two kinds of surfaces.  If a mesh answers both probes together, each placed model finds
  two surfaces that match; and because the choice of the higher surface looks at nothing but
  what matches, it falls alike on both sides.  So the two queries go in lockstep over any list
  of placed models (`matches_seek`), ties and heights that are no numbers included.

  The lockstep needs no law of numbers.  Only that the two queries may split their work in
  different ways rests on what is known of heights.
-/
import Placement.Proofs.Query.Highest

namespace Placement

section Lockstep

variable {α μ γ : Type} [Scalar α]

/-- Both surfaces are missing, or both are there, at one height and of one root; and the area
    is on the tile of the placed model that was hit. -/
structure AreaSurface.Matches (area : AreaSurface α) (located : LocatedSurface α μ γ) : Prop where
  found : area.found = located.found
  height : area.height = located.height
  rootId : area.rootId = located.rootId
  tile : ∀ p ∈ located.placed, area.tile = p.spawn.tile

/-- Meshes that answer a probe for an area and one for a group together: neither, or both with
    one distance and one root. -/
def AnswersTogether (α μ : Type) {γ : Type} [Mesh α μ γ] : Prop :=
  ∀ (model : μ) (point direction : Vec3 α),
    (Mesh.findArea model point direction).map (fun hit => (hit.distance, hit.rootId)) =
      (Mesh.findGroup model point direction).map fun hit => (hit.distance, hit.rootId)

namespace AreaSurface

theorem matches_none : Matches (none : AreaSurface α) (.none : LocatedSurface α μ γ) := by
  refine ⟨rfl, rfl, rfl, ?_⟩
  intro p hp
  cases hp

variable {area area' : AreaSurface α} {located located' : LocatedSurface α μ γ}

theorem Matches.yieldsTo_eq (h : area.Matches located) (h' : area'.Matches located') :
    area.yieldsTo area' = located.yieldsTo located' := by
  simp only [AreaSurface.yieldsTo, LocatedSurface.yieldsTo, h.height, h'.height, h'.found]

theorem Matches.higher (h : area.Matches located) (h' : area'.Matches located') :
    (area.higher area').Matches (located.higher located') := by
  rw [AreaSurface.higher, LocatedSurface.higher, h.yieldsTo_eq h']
  split
  · exact h'
  · exact h

end AreaSurface

variable [Mesh α μ γ]

namespace PlacedModel

/-- What the two probes of one placed model find matches. -/
theorem matches_below (hmesh : AnswersTogether α μ) (p : PlacedModel α μ) (point : Vec3 α) :
    Option.Rel AreaSurface.Matches (p.areaBelow point).value (p.surfaceBelow point).value := by
  simp only [areaBelow, surfaceBelow, probe, Traced.value_bind, Traced.value_pure]
  -- one gate decides for both probes whether the mesh is asked
  rcases p.pointGate point with (_ | refusal) | ⟨model, q⟩
  · exact .none
  · exact .none
  · have hanswer := hmesh model q p.downInModel
    simp only [Query.findArea, Query.findGroup, Traced.value_bind, Traced.value_pure]
    cases harea : Mesh.findArea model q p.downInModel with
    | none =>
      rw [harea, Option.map_none, eq_comm, Option.map_eq_none_iff] at hanswer
      rw [hanswer]
      exact .none
    | some hit =>
      rw [harea, Option.map_some, eq_comm, Option.map_eq_some_iff] at hanswer
      obtain ⟨hit', hgroup, hsame⟩ := hanswer
      obtain ⟨hdistance, hroot⟩ := Prod.mk.inj hsame
      rw [hgroup]
      refine .some ⟨rfl, ?_, hroot.symm, ?_⟩
      · exact congrArg (p.groundHeight q) hdistance.symm
      · intro own hown
        rw [← Option.some.inj hown]

/-- One step of both queries. -/
theorem matches_probe (hmesh : AnswersTogether α μ) (p : PlacedModel α μ) (point : Vec3 α)
    {area : AreaSurface α} {located : LocatedSurface α μ γ} (h : area.Matches located) :
    (p.probeArea point area).value.Matches (p.probeGroup point located).value.2 := by
  have hbelow := matches_below hmesh p point
  rw [probeArea_value, probeGroup_value]
  generalize (p.areaBelow point).value = area?, (p.surfaceBelow point).value = located? at hbelow ⊢
  cases hbelow with
  | none => exact h
  | some hother => exact h.higher hother

end PlacedModel

namespace Batch

/-- A whole pass of both queries, from surfaces that match. -/
theorem matches_seek (hmesh : AnswersTogether α μ) (point : Vec3 α) (ps : List (PlacedModel α μ))
    {area : AreaSurface α} {located : LocatedSurface α μ γ} (h : area.Matches located) :
    (seekArea point ps area).value.Matches (seekGroup point ps located).value := by
  induction ps generalizing area located with
  | nil => exact h
  | cons p ps ih =>
    rw [seekArea, seekGroup, Traced.value_bind, Traced.value_bind]
    exact ih (p.matches_probe hmesh point h)

end Batch

end Lockstep

namespace Batch

variable {μ γ : Type} [Mesh Binary32 μ γ]

/-- **Queries for areas and for groups agree.**  Where meshes answer both probes together, the two
    queries end with surfaces that match, over any placed models and for any point: as passes,
    as split work along any two trees, and on whichever paths two schedules and two settings
    take them. -/
theorem area_agrees_with_group (hmesh : AnswersTogether Binary32 μ)
    (placed : List (PlacedModel Binary32 μ)) (point : Vec3 Binary32) :
    (seekArea point placed .none).value.Matches (seekGroup point placed .none).value ∧
    (∀ tree tree' : SplitTree (PlacedModel Binary32 μ), tree.items = placed →
      tree'.items = placed →
      (tree.collect (fun ps => (seekArea point ps .none).value) AreaSurface.higher).Matches
        (tree'.collect (fun ps => (seekGroup point ps .none).value) LocatedSurface.higher)) ∧
    ∀ (schedule schedule' : Schedule) (settings settings' : QuerySettings Binary32),
      (areaBelow schedule settings placed point).value.Matches
        (surfaceBelow schedule' settings' placed point).value := by
  have hpass := matches_seek hmesh point placed AreaSurface.matches_none
  refine ⟨hpass, ?_, ?_⟩
  · intro tree tree' hitems hitems'
    rw [collect_seekArea, collect_seekGroup, hitems, hitems']
    exact hpass
  · intro schedule schedule' settings settings'
    rw [areaBelow_value_eq_seekArea, surfaceBelow_value_eq_seekGroup]
    exact hpass

/-- Of four soundings, one without a depth and two of one depth, both queries report the third. -/
theorem area_agrees_with_group_soundings :
    let placed := Sounding.placed [.nan, .ofInt 4, .ofInt 2, .ofInt 2]
    AnswersTogether Binary32 Sounding ∧
    (∀ schedule schedule' : Schedule,
      (areaBelow schedule QuerySettings.standard placed .zero).value.Matches
        (surfaceBelow schedule' QuerySettings.standard placed .zero).value) ∧
    (surfaceBelow .halving QuerySettings.standard placed .zero).value.height = .ofInt (-2) ∧
    (areaBelow .halving QuerySettings.standard placed .zero).value.tile = 2 := by
  intro placed
  have hmesh : AnswersTogether Binary32 Sounding := fun model point direction => rfl
  refine ⟨hmesh, ?_, by decide +kernel, by decide +kernel⟩
  intro schedule schedule'
  obtain ⟨-, -, hqueries⟩ := area_agrees_with_group hmesh placed .zero
  exact hqueries schedule schedule' QuerySettings.standard QuerySettings.standard

end Batch

end Placement
