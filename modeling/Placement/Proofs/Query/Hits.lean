/-
  Placement/Proofs/Query/Hits.lean
  ================================
  **The hits of many placed models on one ray.**

  The two ways of asking keep a hit for different reasons.  Split work compares distances
  in the world, all of them measured from the same start; among hits that are numbers this
  is a lexicographic choice of distance and index, so it comes out as the nearest of all
  lone hits, whatever the schedule (`splitRay_eq_nearest?`).  The pass from one placed model
  to the next never compares two hits: it hands on the distance of the last one and believes
  the next model that still reports one.  `takenHits` lists what it believed.
-/
import Mathlib.Data.List.Chain
import Placement.Proofs.Query.Preference

namespace Placement

namespace PlacedHit

variable {a b : PlacedHit Binary32}

/-! ### The nearer hit -/

/-- The other one is nearer, or as near and of an earlier placed model. -/
def isNearer (best other : PlacedHit Binary32) : Bool :=
  decide (other.distance < best.distance ∨
    (Scalar.sameValue other.distance best.distance ∧ other.index < best.index))

theorem nearer_eq_keep :
    (nearer : PlacedHit Binary32 → PlacedHit Binary32 → PlacedHit Binary32) = keep isNearer := by
  funext a b
  simp only [nearer, keep, isNearer, decide_eq_true_eq]

/-- Among numbers the choice is that of the lesser pair of key and index. -/
theorem isNearer_iff :
    isNearer a b = true ↔ a.distance.isNaN = false ∧ b.distance.isNaN = false ∧
      (b.distance.key < a.distance.key ∨
        b.distance.key = a.distance.key ∧ b.index < a.index) := by
  have hlt : b.distance < a.distance ↔
      b.distance.isNaN = false ∧ a.distance.isNaN = false ∧ b.distance.key < a.distance.key :=
    Iff.rfl
  rw [isNearer, decide_eq_true_eq, hlt, Binary32.sameValue_iff]
  constructor
  · rintro (⟨hb, ha, h⟩ | ⟨⟨hb, ha, h⟩, hindex⟩)
    · exact ⟨ha, hb, .inl h⟩
    · exact ⟨ha, hb, .inr ⟨h, hindex⟩⟩
  · rintro ⟨ha, hb, h | ⟨h, hindex⟩⟩
    · exact .inl ⟨hb, ha, h⟩
    · exact .inr ⟨⟨hb, ha, h⟩, hindex⟩

theorem ranked_of_number (hb : b.distance.isNaN = false) : Ranked isNearer b := by
  intro a c hac
  rw [isNearer_iff] at hac
  simp only [isNearer_iff, hac.1, hb, hac.2.1, true_and]
  omega

theorem preference_isNearer : Preference isNearer where
  trans hab hbc := by
    rw [isNearer_iff] at hab hbc ⊢
    refine ⟨hab.1, hbc.2.1, ?_⟩
    omega
  ranked_of_better hab := ranked_of_number (isNearer_iff.mp hab).2.1

/-! ### The nearest hit -/

theorem nearest?_append {xs ys : List (PlacedHit Binary32)}
    (hys : ∀ h ∈ ys, h.distance.isNaN = false) :
    nearest? (xs ++ ys) = Option.merge nearer (nearest? xs) (nearest? ys) := by
  rcases xs with _ | ⟨x, xs⟩
  · cases ys with
    | nil => rfl
    | cons y ys => rfl
  · rcases ys with _ | ⟨y, ys⟩
    · rw [List.append_nil]
      rfl
    · have hy := ranked_of_number (hys y List.mem_cons_self)
      simp only [List.cons_append, nearest?, Option.merge_some_some, List.foldl_append,
        List.foldl_cons, nearer_eq_keep]
      rw [foldl_keep preference_isNearer hy]

theorem mem_of_nearest? {hits : List (PlacedHit Binary32)} {hit : PlacedHit Binary32}
    (h : nearest? hits = some hit) : hit ∈ hits := by
  cases hits with
  | nil => cases h
  | cons first hits =>
    rw [nearest?, nearer_eq_keep, Option.some.injEq] at h
    rw [← h]
    exact foldl_keep_mem first hits

/-- One more result, of a placed model that may have missed. -/
theorem nearest?_append_toList (xs : List (PlacedHit Binary32)) (hit? : Option (PlacedHit Binary32)) :
    nearest? (xs ++ hit?.toList) =
      hit?.elim (nearest? xs) fun hit => some ((nearest? xs).elim hit fun best => best.nearer hit) := by
  cases hit? with
  | none => rw [Option.toList_none, List.append_nil, Option.elim_none]
  | some hit =>
    cases xs with
    | nil => rfl
    | cons x xs => simp only [Option.toList_some, List.cons_append, nearest?, List.foldl_append,
        List.foldl_cons, List.foldl_nil, Option.elim_some]

/-- Against a later placed model the index settles nothing. -/
theorem nearer_of_index_lt (h : a.index < b.index) :
    a.nearer b = if b.distance < a.distance then b else a := by
  have hindex : ¬ b.index < a.index := Nat.not_lt.mpr (Nat.le_of_lt h)
  simp only [nearer, hindex, and_false, or_false]

/-- Each hit is nearer than all those before it. -/
def Descending (hits : List (PlacedHit Binary32)) : Prop :=
  hits.Pairwise fun earlier later => later.distance < earlier.distance

theorem Descending.append_toList {hits : List (PlacedHit Binary32)}
    {hit? : Option (PlacedHit Binary32)} (hhits : Descending hits)
    (hlast : ∀ last ∈ hits.getLast?, ∀ hit ∈ hit?, hit.distance < last.distance) :
    Descending (hits ++ hit?.toList) := by
  let Later (earlier later : PlacedHit Binary32) : Prop := later.distance < earlier.distance
  have htrans : Trans Later Later Later := ⟨fun hab hbc => Binary32.lt_trans hbc hab⟩
  have hchain : (hits ++ hit?.toList).IsChain Later := by
    refine List.IsChain.append hhits.isChain ?_ ?_
    · cases hit? with
      | none => exact .nil
      | some hit => exact .singleton hit
    · intro last hmem hit hhit
      refine hlast last hmem hit ?_
      cases hit? with
      | none => cases hhit
      | some hit => exact hhit
  exact hchain.pairwise

end PlacedHit

/-! ### One placed model -/

theorem PlacedModel.hitDistance_eq_some_iff {μ γ : Type} [Mesh Binary32 μ γ]
    {p : PlacedModel Binary32 μ} {ray : Ray Binary32} {distance d : Binary32} {mode : RayMode} :
    (p.hitDistance ray distance mode).value = some d ↔
      ∃ model, p.rayGate ray = .ok model ∧
        let answer := Mesh.traceRay model (p.transform.rayInModel ray)
          (distance * p.transform.invScale) mode
        answer.hit = true ∧ answer.distance * p.transform.scale = d := by
  rw [hitDistance]
  cases p.rayGate ray with
  | error refusal => simp
  | ok model => simp [Query.traceRay]

namespace Batch

variable {μ γ : Type} [Mesh Binary32 μ γ]

/-! ### Split work -/

/-- The hits of placed models that are each asked on their own. -/
def loneHits (settings : QuerySettings Binary32) (ray : Ray Binary32)
    (placed : List (PlacedModel Binary32 μ)) : List (PlacedHit Binary32) :=
  placed.zipIdx.filterMap fun p => (loneHit settings ray p).value

theorem nearestOf_value (settings : QuerySettings Binary32) (ray : Ray Binary32)
    (ps : List (PlacedModel Binary32 μ × Nat)) :
    (nearestOf settings ray ps).value =
      PlacedHit.nearest? (ps.filterMap fun p => (loneHit settings ray p).value) := by
  rw [nearestOf, Traced.value_bind, Traced.value_pure, Traced.value_sift]

theorem splitRay_eq_nearest? {schedule : Schedule} {settings : QuerySettings Binary32}
    {placed : List (PlacedModel Binary32 μ)} {ray : Ray Binary32}
    (hmode : settings.stopAtFirstHit = false)
    (hnum : ∀ h ∈ loneHits settings ray placed, h.distance.isNaN = false) :
    (splitRay schedule settings placed ray).value =
      PlacedHit.nearest? (loneHits settings ray placed) := by
  have hitems : (schedule.split placed.zipIdx).items = placed.zipIdx := schedule.items_split _
  have hcollect : (schedule.split placed.zipIdx).collect
      (fun ps => (nearestOf settings ray ps).value) (Option.merge PlacedHit.nearer) =
        PlacedHit.nearest? (loneHits settings ray placed) := by
    rw [SplitTree.collect_eq, hitems, nearestOf_value, loneHits]
    intro xs ys hsub
    rw [hitems] at hsub
    rw [nearestOf_value, nearestOf_value, nearestOf_value, List.filterMap_append]
    refine PlacedHit.nearest?_append fun h hh => hnum h ?_
    obtain ⟨p, hp, hph⟩ := List.mem_filterMap.mp hh
    exact List.mem_filterMap.mpr ⟨p, hsub (List.mem_append_right xs hp), hph⟩
  have hstop : ¬ settings.stopAtFirstHit = true := by simp [hmode]
  rw [splitRay, if_neg hstop, SplitTree.value_collect, hcollect]

/-- Where any hit will do, split work picks one of the lone hits. -/
theorem splitRay_value_of_stop {schedule : Schedule} {settings : QuerySettings Binary32}
    {placed : List (PlacedModel Binary32 μ)} {ray : Ray Binary32}
    (hmode : settings.stopAtFirstHit = true) :
    (splitRay schedule settings placed ray).value =
      schedule.pick (loneHits settings ray placed) := by
  rw [splitRay, if_pos hmode, schedule.items_split]
  exact congrArg schedule.pick (Traced.value_sift _ _)

/-! ### One after the other -/

variable {ray : Ray Binary32} {mode : RayMode}

/-- The hits that a pass takes, one after the other. -/
def takenHits (ray : Ray Binary32) (mode : RayMode) :
    (index : Nat) → List (PlacedModel Binary32 μ) → (distance : Binary32) →
      List (PlacedHit Binary32)
  | _, [], _ => []
  | index, p :: ps, distance =>
    match (p.hitDistance ray distance mode).value with
    | none => takenHits ray mode (index + 1) ps distance
    | some distance => ⟨index, distance⟩ :: takenHits ray mode (index + 1) ps distance

/-- The distance that a pass hands on when it has taken a hit, or none yet. -/
def reach (maxDistance : Binary32) (best : Option (PlacedHit Binary32)) : Binary32 :=
  best.elim maxDistance PlacedHit.distance

/-- A pass that looks for the nearest hit ends with the last one it takes. -/
theorem seekRay_value (hmode : mode.stopAtFirstHit = false) (index : Nat)
    (ps : List (PlacedModel Binary32 μ)) (distance : Binary32)
    (best : Option (PlacedHit Binary32)) :
    (seekRay ray mode index ps distance best).value =
      (takenHits ray mode index ps distance).getLast?.or best := by
  induction ps generalizing index distance best with
  | nil => rfl
  | cons p ps ih =>
    rw [seekRay, Traced.value_bind, takenHits]
    cases (p.hitDistance ray distance mode).value with
    | none => exact ih (index + 1) distance best
    | some distance =>
      simp only [hmode, Bool.false_eq_true, if_false, ih, List.getLast?_cons, Option.or_some]
      cases (takenHits ray mode (index + 1) ps distance).getLast? with
      | none => rfl
      | some hit => rfl

theorem takenHits_append (index : Nat) (front back : List (PlacedModel Binary32 μ))
    (distance : Binary32) :
    takenHits ray mode index (front ++ back) distance =
      takenHits ray mode index front distance ++
        takenHits ray mode (index + front.length) back
          (reach distance (takenHits ray mode index front distance).getLast?) := by
  induction front generalizing index distance with
  | nil => rfl
  | cons p front ih =>
    have hindex : index + (p :: front).length = index + 1 + front.length := by
      rw [List.length_cons]
      omega
    rw [List.cons_append, takenHits, takenHits, hindex]
    cases (p.hitDistance ray distance mode).value with
    | none => exact ih (index + 1) distance
    | some distance =>
      simp only [ih, List.cons_append, List.getLast?_cons, reach]
      cases (takenHits ray mode (index + 1) front distance).getLast? with
      | none => rfl
      | some hit => rfl

theorem takenHits_concat (front : List (PlacedModel Binary32 μ)) (p : PlacedModel Binary32 μ)
    (distance : Binary32) :
    takenHits ray mode 0 (front ++ [p]) distance =
      takenHits ray mode 0 front distance ++
        ((p.hitDistance ray (reach distance (takenHits ray mode 0 front distance).getLast?)
          mode).value.map (PlacedHit.mk front.length)).toList := by
  rw [takenHits_append, takenHits, Nat.zero_add]
  cases (p.hitDistance ray _ mode).value with
  | none => rfl
  | some distance => rfl

theorem index_lt_of_mem_takenHits {index : Nat} {ps : List (PlacedModel Binary32 μ)}
    {distance : Binary32} {hit : PlacedHit Binary32}
    (hhit : hit ∈ takenHits ray mode index ps distance) : hit.index < index + ps.length := by
  induction ps generalizing index distance with
  | nil => cases hhit
  | cons p ps ih =>
    have hlength : index + (p :: ps).length = index + 1 + ps.length := by
      rw [List.length_cons]
      omega
    rw [takenHits] at hhit
    rw [hlength]
    split at hhit
    · exact ih hhit
    · rcases List.mem_cons.mp hhit with rfl | hhit
      · exact Nat.lt_of_lt_of_le (Nat.lt_succ_self index) (Nat.le_add_right _ _)
      · exact ih hhit

theorem loneHits_concat (settings : QuerySettings Binary32) (front : List (PlacedModel Binary32 μ))
    (p : PlacedModel Binary32 μ) :
    loneHits settings ray (front ++ [p]) =
      loneHits settings ray front ++ (loneHit settings ray (p, front.length)).value.toList := by
  rw [loneHits, List.zipIdx_append, List.filterMap_append, loneHits, Nat.zero_add,
    List.zipIdx_singleton, List.filterMap_cons, List.filterMap_nil]
  cases (loneHit settings ray (p, front.length)).value with
  | none => rfl
  | some hit => rfl

end Batch

end Placement
