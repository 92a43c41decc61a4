/-
  Placement/Proofs/Query/Probes.lean
  ==================================
  **What a probe of one placed model finds.**

  Before a probe gets to the mesh it has to be let in: by a model that is loaded and no
  doodad, and by a bound that has the point in it.  What it then finds is what the mesh of
  this model answers about the point as seen there, and its height is that of the answer
  in the world.  A ray is let in by doodads too, and by a bound that it does not miss.
-/
import Placement.Query.Surface

namespace Placement

variable {α μ γ : Type} [Scalar α]

namespace PlacedModel

/-- The model is loaded and no doodad, and the point lies in the bound of its spawn. -/
structure LetsIn (p : PlacedModel α μ) (point : Vec3 α) (model : μ) : Prop where
  loaded : p.model = some model
  noDoodad : p.spawn.has .doodad = false
  inside : ∃ bound, p.spawn.bound = some bound ∧ bound.contains point = true

variable {p : PlacedModel α μ} {ray : Ray α} {point q : Vec3 α}

theorem rayGate_of_bound {model : μ} {bound : Box α} (hmodel : p.model = some model)
    (hbound : p.spawn.bound = some bound) :
    p.rayGate ray = if Scalar.isInfinite (ray.entryTime bound) then
      .error (.besideBound p.spawn.shownName) else .ok model := by
  simp only [rayGate, hmodel, hbound]

theorem rayGate_eq_ok_iff {model : μ} :
    p.rayGate ray = .ok model ↔ p.model = some model ∧
      ∃ bound, p.spawn.bound = some bound ∧ Scalar.isInfinite (ray.entryTime bound) = false := by
  cases hmodel : p.model with
  | none => simp [rayGate, hmodel]
  | some own =>
    cases hbound : p.spawn.bound with
    | none => simp [rayGate, hmodel, hbound]
    | some bound =>
      rw [rayGate_of_bound hmodel hbound]
      cases htime : Scalar.isInfinite (ray.entryTime bound) with
      | true => simp [htime]
      | false => simp [htime]

theorem pointGate_eq_ok_iff {model : μ} :
    p.pointGate point = .ok (model, q) ↔
      p.LetsIn point model ∧ q = p.transform.toModel point := by
  rw [pointGate]
  constructor
  · intro h
    cases hmodel : p.model with
    | none =>
      rw [hmodel] at h
      cases h
    | some own =>
      rw [hmodel] at h
      simp only [Bool.and_eq_true, Bool.not_eq_true', Option.any_eq_true] at h
      split at h
      · rename_i hgate
        obtain ⟨rfl, rfl⟩ := Prod.mk.inj (Except.ok.inj h)
        exact ⟨⟨hmodel, hgate.1, hgate.2⟩, rfl⟩
      · cases h
  · intro h
    obtain ⟨⟨hmodel, hdoodad, hinside⟩, rfl⟩ := h
    have hany := (Option.any_eq_true _ _).mpr hinside
    simp only [hmodel, hdoodad, hany, Bool.not_false, Bool.and_self, if_true]

variable [Mesh α μ γ]

theorem probe_eq_some_iff {β : Type} {question : μ → Vec3 α → Vec3 α → Query α μ γ (Option β)}
    {hit : β} :
    (p.probe point question).value = some (q, hit) ↔
      q = p.transform.toModel point ∧ ∃ model, p.LetsIn point model ∧
        (question model (p.transform.toModel point) p.downInModel).value = some hit := by
  have hnone : ∀ refusal, p.pointGate point = .error refusal → ∀ model, ¬ p.LetsIn point model := by
    intro refusal hgate model hin
    rw [pointGate_eq_ok_iff.mpr ⟨hin, rfl⟩] at hgate
    cases hgate
  rw [probe]
  rcases hgate : p.pointGate point with (_ | refusal) | ⟨model, own⟩
  · simp [hnone _ hgate]
  · simp [hnone _ hgate]
  · obtain ⟨hin, rfl⟩ := pointGate_eq_ok_iff.mp hgate
    simp only [Traced.value_bind, Traced.value_pure, Option.map_eq_some_iff, Prod.mk.injEq]
    constructor
    · intro h
      obtain ⟨found, hanswer, rfl, rfl⟩ := h
      exact ⟨rfl, model, hin, hanswer⟩
    · intro h
      obtain ⟨rfl, other, hother, hanswer⟩ := h
      obtain rfl : model = other := Option.some.inj (hin.loaded.symm.trans hother.loaded)
      exact ⟨hit, hanswer, rfl, rfl⟩

theorem map_probe_eq_some_iff {β δ : Type} {question : μ → Vec3 α → Vec3 α → Query α μ γ (Option β)}
    {told : Vec3 α × β → δ} {s : δ} :
    (p.probe point question).value.map told = some s ↔
      ∃ model hit, p.LetsIn point model ∧
        (question model (p.transform.toModel point) p.downInModel).value = some hit ∧
        s = told (p.transform.toModel point, hit) := by
  simp only [Option.map_eq_some_iff, Prod.exists, probe_eq_some_iff]
  constructor
  · intro h
    obtain ⟨_, hit, ⟨rfl, model, hin, hhit⟩, rfl⟩ := h
    exact ⟨model, hit, hin, hhit, rfl⟩
  · intro h
    obtain ⟨model, hit, hin, hhit, rfl⟩ := h
    exact ⟨_, hit, ⟨rfl, model, hin, hhit⟩, rfl⟩

/-- The area that a probe from a point finds. -/
def FindsAreaBelow (p : PlacedModel α μ) (point : Vec3 α) (s : AreaSurface α) : Prop :=
  ∃ model hit, p.LetsIn point model ∧
    Mesh.findArea model (p.transform.toModel point) p.downInModel = some hit ∧
    s = { found := true
          height := p.groundHeight (p.transform.toModel point) hit.distance
          flags := hit.flags
          tile := p.spawn.tile
          rootId := hit.rootId
          groupId := hit.groupId }

/-- The surface that a probe from a point finds, with its group and with this placed model. -/
def FindsSurfaceBelow (p : PlacedModel α μ) (point : Vec3 α) (s : LocatedSurface α μ γ) : Prop :=
  ∃ model hit, p.LetsIn point model ∧
    Mesh.findGroup model (p.transform.toModel point) p.downInModel = some hit ∧
    s = { rootId := hit.rootId
          group := some hit.group
          placed := some p
          height := p.groundHeight (p.transform.toModel point) hit.distance }

theorem areaBelow_eq_some_iff {s : AreaSurface α} :
    (p.areaBelow point).value = some s ↔ p.FindsAreaBelow point s := by
  rw [areaBelow, Traced.value_bind, Traced.value_pure]
  exact map_probe_eq_some_iff

theorem surfaceBelow_eq_some_iff {s : LocatedSurface α μ γ} :
    (p.surfaceBelow point).value = some s ↔ p.FindsSurfaceBelow point s := by
  rw [surfaceBelow, Traced.value_bind, Traced.value_pure]
  exact map_probe_eq_some_iff

/-! ### Steps of a ground query -/

/-- What a probe reports it has found, so writing it down comes to keeping the higher one. -/
theorem probeArea_value (p : PlacedModel α μ) (point : Vec3 α) (best : AreaSurface α) :
    (p.probeArea point best).value = (p.areaBelow point).value.elim best best.higher := by
  rw [probeArea, Traced.value_bind]
  cases hbelow : (p.areaBelow point).value with
  | none => rfl
  | some surface =>
    obtain ⟨model, hit, -, -, rfl⟩ := areaBelow_eq_some_iff.mp hbelow
    exact best.raise_eq_higher rfl

theorem probeGroup_value (p : PlacedModel α μ) (point : Vec3 α) (best : LocatedSurface α μ γ) :
    (p.probeGroup point best).value =
      (p.surfaceBelow point).value.elim (false, best) fun surface =>
        (best.yieldsTo surface, best.higher surface) := by
  rw [probeGroup, Traced.value_bind]
  cases hbelow : (p.surfaceBelow point).value with
  | none => rfl
  | some surface =>
    obtain ⟨model, hit, -, -, rfl⟩ := surfaceBelow_eq_some_iff.mp hbelow
    exact best.raise_eq_higher rfl

end PlacedModel

end Placement
