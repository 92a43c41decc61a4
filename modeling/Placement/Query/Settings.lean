/-
  Placement/Query/Settings.lean
  =============================
  **What the queries of many placed models have in common.**
-/
import Placement.Query.Mesh
import Placement.Decimal.Text

namespace Placement

structure QuerySettings (α : Type) extends RayMode where
  /-- How far a ray is followed, in the world. -/
  maxRayDistance : α
  /-- From how many placed models on the work is split. -/
  parallelThreshold : Nat
  deriving DecidableEq

/-- Why settings cannot be used. -/
inductive SettingsFlaw
  | badDistance (distance : Binary32)
  | zeroThreshold
  deriving DecidableEq

def SettingsFlaw.message : SettingsFlaw → String
  | .badDistance d => "max_ray_distance (" ++ d.text .message ++ ") must be positive and finite"
  | .zeroThreshold => "parallel_threshold must be at least 1"

namespace QuerySettings

/-- The settings where nothing else is said. -/
def standard : QuerySettings Binary32 where
  stopAtFirstHit := false
  ignoreDoodads := false
  maxRayDistance := .ofInt 1000
  parallelThreshold := 256

/-- Accept settings whose distance is positive and finite and whose threshold is not zero;
    of two flaws, name the distance. -/
def check (s : QuerySettings Binary32) : Except SettingsFlaw (QuerySettings Binary32) :=
  if s.maxRayDistance ≤ .zero ∨ ¬ s.maxRayDistance.isFinite then
    .error (.badDistance s.maxRayDistance)
  else if s.parallelThreshold = 0 then .error .zeroThreshold
  else .ok s

end QuerySettings

end Placement
