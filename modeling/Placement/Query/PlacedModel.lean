/-
  Placement/Query/PlacedModel.lean
  ================================
  **A spawn together with its model, ready to be asked.**

  The transform of the spawn and the direction straight down in its space are computed
  once.  A model may not be loaded yet; then every query finds nothing.
-/
import Placement.Transform
import Placement.Query.Mesh

namespace Placement

/-- A model in its place. -/
structure PlacedModel (α μ : Type) where
  /-- Where it stands among the placed models.  Two of them may agree in all else. -/
  slot : Nat
  spawn : Spawn α
  /-- The model, once it is loaded. -/
  model : Option μ
  transform : Transform α
  /-- The direction straight down, as seen in the model. -/
  downInModel : Vec3 α

namespace PlacedModel

variable {α μ : Type}

/-- Place a model, if the scale of its spawn allows it. -/
def place [Angular α] (slot : Nat) (spawn : Spawn α) (model : Option μ) :
    Except (UnusableScale α) (PlacedModel α μ) :=
  (Transform.ofSpawn spawn).map fun transform =>
    { slot, spawn, model, transform, downInModel := transform.directionInModel Vec3.down }

theorem place_eq_ok_iff [Angular α] {slot : Nat} {spawn : Spawn α} {model : Option μ}
    {p : PlacedModel α μ} :
    place slot spawn model = .ok p ↔ ∃ t, Transform.ofSpawn spawn = .ok t ∧
      p = ⟨slot, spawn, model, t, t.directionInModel Vec3.down⟩ := by
  rw [place]
  cases Transform.ofSpawn spawn with
  | error e => simp [Except.map]
  | ok t => simp [Except.map, eq_comm]

end PlacedModel

/-! ### Why nothing is asked -/

/-- Why a query does not get as far as the mesh. -/
inductive Refusal
  | notLoaded (id : UInt32)
  | noBound (id : UInt32) (name : String)
  | besideBound (name : String)
  deriving DecidableEq

/-- The log line for a refused query.  Only a missing bound hints at a mistake. -/
def Refusal.logLine : Refusal → LogLine
  | .notLoaded id => ⟨.trace, "Spawn " ++ id.toNat.repr ++ " not loaded"⟩
  | .noBound id name =>
    ⟨.debug, "Spawn " ++ id.toNat.repr ++ " (" ++ name ++ ") has no bound, skipping ray"⟩
  | .besideBound name => ⟨.trace, "Ray does not hit '" ++ name ++ "'"⟩

namespace PlacedModel

variable {α μ γ : Type} [Scalar α]

/-! ### Rays -/

/-- Whether a ray gets to the mesh: the model must be loaded, and the ray must reach the
    bound of the spawn. -/
def rayGate (p : PlacedModel α μ) (ray : Ray α) : Except Refusal μ :=
  match p.model, p.spawn.bound with
  | none, _ => .error (.notLoaded p.spawn.id)
  | some _, none => .error (.noBound p.spawn.id p.spawn.shownName)
  | some model, some bound =>
    if Scalar.isInfinite (ray.entryTime bound) then .error (.besideBound p.spawn.shownName)
    else .ok model

/-- The distance along a ray of the world at which it hits the model, searched for up to
    a greatest distance; none if it does not. -/
def hitDistance [Mesh α μ γ] (p : PlacedModel α μ) (ray : Ray α) (maxDistance : α)
    (mode : RayMode) : Query α μ γ (Option α) :=
  match p.rayGate ray with
  | .error refusal => do
    Query.log refusal.logLine
    return none
  | .ok model => do
    let answer ← Query.traceRay model (p.transform.rayInModel ray)
      (maxDistance * p.transform.invScale) mode
    return if answer.hit then some (answer.distance * p.transform.scale) else none

/-! ### Probes straight down -/

/-- Whether a probe from a point gets to the mesh, and the point in the space of the
    model: the model must be loaded and no doodad, and the point must lie in the bound. -/
def pointGate (p : PlacedModel α μ) (point : Vec3 α) : Except (Option Refusal) (μ × Vec3 α) :=
  match p.model with
  | none => .error (some (.notLoaded p.spawn.id))
  | some model =>
    if !p.spawn.has .doodad && (p.spawn.bound.any fun b => b.contains point) then
      .ok (model, p.transform.toModel point)
    else .error none

/-- The height in the world of what lies below a point of the model at a distance. -/
def groundHeight (p : PlacedModel α μ) (pointInModel : Vec3 α) (distance : α) : α :=
  (p.transform.toWorld (pointInModel + p.downInModel * distance)).z

/-- Probe straight down from a point with one question to the mesh. -/
def probe [Mesh α μ γ] {β : Type} (p : PlacedModel α μ) (point : Vec3 α)
    (question : μ → Vec3 α → Vec3 α → Query α μ γ (Option β)) :
    Query α μ γ (Option (Vec3 α × β)) :=
  match p.pointGate point with
  | .error none => return none
  | .error (some refusal) => do
    Query.log refusal.logLine
    return none
  | .ok (model, pointInModel) => do
    let answer ← question model pointInModel p.downInModel
    return answer.map fun hit => (pointInModel, hit)

end PlacedModel

end Placement
