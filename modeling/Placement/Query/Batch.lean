/-
  Placement/Query/Batch.lean
  ==========================
  **Queries of many placed models.**

  Few placed models are asked one after the other, what was found so far being handed
  on.  From a threshold on the work is split: each part starts afresh, and the results
  of the parts are put together again.  How the work is split, and which of several hits
  is met first, is up to a `Schedule`; the splitting of a schedule keeps the order of
  the placed models.

  Parts may be worked on at the same time.  What can be observed of them is listed in the
  order of the placed models, whichever part is done first.
-/
import Placement.Query.Surface
import Placement.Query.Settings

namespace Placement

/-! ### Splitting work -/

/-- A way to split a list: consecutive segments, put together pairwise. -/
inductive SplitTree (β : Type)
  | segment (items : List β)
  | join (left right : SplitTree β)

namespace SplitTree

variable {β γ : Type}

/-- The list that was split. -/
def items : SplitTree β → List β
  | segment items => items
  | join left right => left.items ++ right.items

/-- Work on each segment and put the results together. -/
def collect (work : List β → γ) (combine : γ → γ → γ) : SplitTree β → γ
  | segment items => work items
  | join left right => combine (left.collect work combine) (right.collect work combine)

/-- Split a list in the middle, and its halves again, at most `depth` times over. -/
def halves : (depth : Nat) → List β → SplitTree β
  | 0, xs => segment xs
  | depth + 1, xs =>
    if xs.length ≤ 1 then segment xs
    else
      join (halves depth (xs.take (xs.length / 2))) (halves depth (xs.drop (xs.length / 2)))

theorem value_collect {ε : Type} (work : List β → Traced ε γ) (combine : γ → γ → γ)
    (tree : SplitTree β) :
    (tree.collect work (Traced.merge combine)).value =
      tree.collect (fun xs => (work xs).value) combine := by
  induction tree with
  | segment items => rfl
  | join left right ihl ihr => rw [collect, collect, Traced.merge, ihl, ihr]

theorem items_halves (depth : Nat) (xs : List β) : (halves depth xs).items = xs := by
  induction depth generalizing xs with
  | zero => rfl
  | succ depth ih =>
    rw [halves]
    split
    · rfl
    · rw [items, ih, ih, List.take_append_drop]

end SplitTree

/-- How work is split, which of several results is there first, and what is then left out. -/
structure Schedule where
  split : {β : Type} → List β → SplitTree β
  items_split : ∀ {β : Type} (xs : List β), (split xs).items = xs
  /-- Of `n + 1` results, the one with the number `first n` is there first. -/
  first : Nat → Nat
  /-- Once item `k` has given a result that will do, item `j` is not begun any more. -/
  skips : (k j : Nat) → Bool

namespace Schedule

/-- Halves of halves down to single placed models, the first of which is done first. -/
def halving : Schedule where
  split xs := SplitTree.halves xs.length xs
  items_split xs := SplitTree.items_halves xs.length xs
  first _ := 0
  skips k j := decide (k < j)

/-- The result that is there first. -/
def pick {β : Type} (schedule : Schedule) : List β → Option β
  | [] => none
  | x :: xs => some ((x :: xs).getD (schedule.first xs.length) x)

end Schedule

/-! ### Rays -/

/-- A hit of one of many placed models. -/
structure PlacedHit (α : Type) where
  /-- Where the placed model stands in the list that was asked. -/
  index : Nat
  /-- Along the ray, in the world. -/
  distance : α
  deriving DecidableEq

namespace PlacedHit

variable {α : Type} [Scalar α]

/-- The nearer of two hits; of equally near ones, that of the earlier placed model. -/
def nearer (a b : PlacedHit α) : PlacedHit α :=
  if b.distance < a.distance ∨ (Scalar.sameValue b.distance a.distance ∧ b.index < a.index) then b
  else a

/-- The nearest of some hits, compared from left to right. -/
def nearest? : List (PlacedHit α) → Option (PlacedHit α)
  | [] => none
  | h :: hs => some (hs.foldl nearer h)

end PlacedHit

namespace Batch

variable {α μ γ : Type} [Scalar α] [Mesh α μ γ]

/-- Ask placed models one after the other, the first of them having number `index`.  Each
    hit shortens the distance for the rest, so a later hit is the nearer one. -/
def seekRay (ray : Ray α) (mode : RayMode) :
    (index : Nat) → List (PlacedModel α μ) → (distance : α) → (best : Option (PlacedHit α)) →
      Query α μ γ (Option (PlacedHit α))
  | _, [], _, best => return best
  | index, p :: ps, distance, best => do
    match ← p.hitDistance ray distance mode with
    | none => seekRay ray mode (index + 1) ps distance best
    | some distance =>
      if mode.stopAtFirstHit then return some ⟨index, distance⟩
      else seekRay ray mode (index + 1) ps distance (some ⟨index, distance⟩)

/-- The hit of one placed model that is asked on its own. -/
def loneHit (settings : QuerySettings α) (ray : Ray α) (p : PlacedModel α μ × Nat) :
    Query α μ γ (Option (PlacedHit α)) := do
  let distance? ← p.1.hitDistance ray settings.maxRayDistance settings.toRayMode
  return distance?.map fun distance => ⟨p.2, distance⟩

/-- The nearest of the hits of placed models that are each asked on their own. -/
def nearestOf (settings : QuerySettings α) (ray : Ray α) (ps : List (PlacedModel α μ × Nat)) :
    Query α μ γ (Option (PlacedHit α)) := do
  return PlacedHit.nearest? (← Traced.sift (loneHit settings ray) ps)

/-- The hit that is there first, when any will do.  Of the other placed models only those
    are asked that the schedule does not skip from then on. -/
def firstOf (schedule : Schedule) (settings : QuerySettings α) (ray : Ray α)
    (ps : List (PlacedModel α μ × Nat)) : Query α μ γ (Option (PlacedHit α)) :=
  let hit? := schedule.pick (Traced.sift (loneHit settings ray) ps).value
  let asked := ps.filter fun p => hit?.all fun hit => hit.index == p.2 || !schedule.skips hit.index p.2
  ⟨hit?, (Traced.sift (loneHit settings ray) asked).events⟩

/-- The hit on a ray when the work is split. -/
def splitRay (schedule : Schedule) (settings : QuerySettings α) (placed : List (PlacedModel α μ))
    (ray : Ray α) : Query α μ γ (Option (PlacedHit α)) :=
  let tree := schedule.split placed.zipIdx
  if settings.stopAtFirstHit then firstOf schedule settings ray tree.items
  else tree.collect (nearestOf settings ray) (Traced.merge (Option.merge PlacedHit.nearer))

/-- Whether so many placed models are asked one after the other. -/
def isSequential (settings : QuerySettings α) (placed : List (PlacedModel α μ)) : Bool :=
  decide (placed.length < settings.parallelThreshold)

/-- The nearest hit on a ray, or any hit if the first will do. -/
def hitOnRay (schedule : Schedule) (settings : QuerySettings α) (placed : List (PlacedModel α μ))
    (ray : Ray α) : Query α μ γ (Option (PlacedHit α)) :=
  if isSequential settings placed then
    seekRay ray settings.toRayMode 0 placed settings.maxRayDistance none
  else splitRay schedule settings placed ray

/-! ### Ground -/

/-- Probe placed models for an area, one after the other. -/
def seekArea (point : Vec3 α) :
    List (PlacedModel α μ) → (best : AreaSurface α) → Query α μ γ (AreaSurface α)
  | [], best => return best
  | p :: ps, best => do
    let best ← p.probeArea point best
    seekArea point ps best

/-- The area when the work is split. -/
def splitArea (schedule : Schedule) (placed : List (PlacedModel α μ)) (point : Vec3 α) :
    Query α μ γ (AreaSurface α) :=
  (schedule.split placed).collect (fun ps => seekArea point ps .none)
    (Traced.merge AreaSurface.higher)

/-- The highest surface of an area below a point. -/
def areaBelow (schedule : Schedule) (settings : QuerySettings α) (placed : List (PlacedModel α μ))
    (point : Vec3 α) : Query α μ γ (AreaSurface α) :=
  if isSequential settings placed then seekArea point placed .none
  else splitArea schedule placed point

/-- Probe placed models for a group, one after the other. -/
def seekGroup (point : Vec3 α) :
    List (PlacedModel α μ) → (best : LocatedSurface α μ γ) → Query α μ γ (LocatedSurface α μ γ)
  | [], best => return best
  | p :: ps, best => do
    let (_, best) ← p.probeGroup point best
    seekGroup point ps best

/-- The group when the work is split. -/
def splitGroup (schedule : Schedule) (placed : List (PlacedModel α μ)) (point : Vec3 α) :
    Query α μ γ (LocatedSurface α μ γ) :=
  (schedule.split placed).collect (fun ps => seekGroup point ps .none)
    (Traced.merge LocatedSurface.higher)

/-- The highest surface below a point, with its group. -/
def surfaceBelow (schedule : Schedule) (settings : QuerySettings α)
    (placed : List (PlacedModel α μ)) (point : Vec3 α) : Query α μ γ (LocatedSurface α μ γ) :=
  if isSequential settings placed then seekGroup point placed .none
  else splitGroup schedule placed point

end Batch

end Placement
