/-
  Placement/Query/Mesh.lean
  =========================
  **What a placed model is asked, and what it answers.**

  The shape of a model is kept elsewhere; here it is only asked about, always in its own
  space.  A model consists of groups, and a group may hold a liquid.  Answers are
  functions of the question.

  A question put to a mesh and a line written to the log are both observable, and are
  the events of a query.
-/
import Placement.Geometry.Ray
import Placement.Traced
import Placement.Log

namespace Placement

/-- What a ray is to stop at. -/
structure RayMode where
  /-- The first hit found will do, nearest or not. -/
  stopAtFirstHit : Bool
  /-- Doodads inside the model are passed through. -/
  ignoreDoodads : Bool
  deriving DecidableEq

/-- The answer to a ray: whether something was hit, and the distance left over.  The
    distance means something only with a hit. -/
structure RayFinding (α : Type) where
  hit : Bool
  distance : α
  deriving DecidableEq

/-- The answer to a probe for an area. -/
structure AreaFinding (α : Type) where
  /-- Along the direction of the probe, in units of the model. -/
  distance : α
  flags : UInt32
  rootId : Int32
  groupId : Int32
  deriving DecidableEq

/-- The answer to a probe for a group. -/
structure GroupFinding (α γ : Type) where
  /-- Along the direction of the probe, in units of the model. -/
  distance : α
  group : γ
  rootId : Int32
  deriving DecidableEq

/-- Models `μ` with groups `γ` that can be asked about their shape. -/
class Mesh (α μ : Type) (γ : outParam Type) where
  /-- Follow a ray for at most a distance. -/
  traceRay : μ → Ray α → α → RayMode → RayFinding α
  /-- Follow a direction from a point to the first surface that belongs to an area. -/
  findArea : μ → (point direction : Vec3 α) → Option (AreaFinding α)
  /-- Follow a direction from a point to the first surface, and name its group. -/
  findGroup : μ → (point direction : Vec3 α) → Option (GroupFinding α γ)
  /-- The height of the liquid of a group over or under a point. -/
  liquidHeight : γ → (point : Vec3 α) → Option α

/-- A question to a mesh. -/
inductive MeshCall (α μ γ : Type)
  | traceRay (model : μ) (ray : Ray α) (distance : α) (mode : RayMode)
  | findArea (model : μ) (point direction : Vec3 α)
  | findGroup (model : μ) (point direction : Vec3 α)
  | liquidHeight (group : γ) (point : Vec3 α)

/-- What can be observed of a query. -/
inductive QueryEvent (α μ γ : Type)
  | asked (call : MeshCall α μ γ)
  | logged (line : LogLine)

namespace QueryEvent

variable {α μ γ : Type}

/-- The question that was asked, if one was. -/
def call? : QueryEvent α μ γ → Option (MeshCall α μ γ)
  | asked call => some call
  | logged _ => none

/-- The line that was logged, if one was. -/
def line? : QueryEvent α μ γ → Option LogLine
  | asked _ => none
  | logged line => some line

end QueryEvent

/-- A query: its result, and what could be observed of it. -/
abbrev Query (α μ γ β : Type) := Traced (QueryEvent α μ γ) β

namespace Query

variable {α μ γ : Type} [Mesh α μ γ]

def traceRay (model : μ) (ray : Ray α) (distance : α) (mode : RayMode) :
    Query α μ γ (RayFinding α) :=
  ⟨Mesh.traceRay model ray distance mode, [.asked (.traceRay model ray distance mode)]⟩

def findArea (model : μ) (point direction : Vec3 α) : Query α μ γ (Option (AreaFinding α)) :=
  ⟨Mesh.findArea model point direction, [.asked (.findArea model point direction)]⟩

def findGroup (model : μ) (point direction : Vec3 α) : Query α μ γ (Option (GroupFinding α γ)) :=
  ⟨Mesh.findGroup model point direction, [.asked (.findGroup model point direction)]⟩

/-- The meshes of `μ` answer for their groups. -/
def liquidHeight (μ : Type) [Mesh α μ γ] (group : γ) (point : Vec3 α) : Query α μ γ (Option α) :=
  ⟨Mesh.liquidHeight μ group point, [.asked (.liquidHeight group point)]⟩

def log (line : LogLine) : Query α μ γ Unit := .emit (.logged line)

end Query

end Placement
