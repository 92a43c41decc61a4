/-
  Placement/Proofs/Query/LoneHits.lean
  ====================================
  **What placed models hit when each is asked alone.**

  Split work asks each placed model over the full distance, and a pass does the same until
  something is hit.  So the hits of the models asked alone decide, for every mesh and on both
  paths, whether a ray query finds anything; and where the first hit will do, they decide
  what a pass finds (`hit_on_every_path`).

  Which of them split work finds depends on its tree as soon as a distance is no number,
  for such a hit hides its neighbours.  A scale that was accepted makes a number of every
  number, so none comes up as long as the meshes leave none; the nearest hit is then the
  same along every tree (`nearest_on_every_tree`).
-/
import Placement.Proofs.Query.Nearest

namespace Placement

namespace PlacedHit

variable {hits : List (PlacedHit Binary32)} {best : PlacedHit Binary32}

theorem not_isNearer_self (hit : PlacedHit Binary32) : ¬ isNearer hit hit = true := by
  intro h
  rw [isNearer_iff] at h
  omega

/-- The nearest hit is one of the least distance, and the first of these. -/
theorem le_of_nearest? (hnum : ∀ hit ∈ hits, hit.distance.isNaN = false)
    (hbest : nearest? hits = some best) :
    ∀ other ∈ hits, best.distance ≤ other.distance ∧
      (Scalar.sameValue best.distance other.distance = true → best.index ≤ other.index) := by
  have hnumber := hnum best (mem_of_nearest? hbest)
  intro other hother
  have hlast : ¬ isNearer best other = true := by
    cases hits with
    | nil => cases hbest
    | cons first hits =>
      rw [nearest?, nearer_eq_keep, Option.some.injEq] at hbest
      rw [← hbest]
      exact not_better_foldl_keep preference_isNearer not_isNearer_self first hits other hother
  rw [isNearer_iff] at hlast
  simp only [hnumber, hnum other hother, true_and, not_or, not_and, not_lt] at hlast
  refine ⟨⟨hnumber, hnum other hother, hlast.1⟩, ?_⟩
  intro hsame
  exact hlast.2 (Binary32.sameValue_iff.mp hsame).2.2.symm

theorem nearest?_eq_none_iff : nearest? hits = none ↔ hits = [] := by
  cases hits with
  | nil => simp [nearest?]
  | cons first hits => simp [nearest?]

theorem collect_nearest? (tree : SplitTree (PlacedHit Binary32))
    (hnum : ∀ hit ∈ tree.items, hit.distance.isNaN = false) :
    tree.collect nearest? (Option.merge nearer) = nearest? tree.items := by
  apply tree.collect_eq
  intro xs ys hsub
  apply nearest?_append
  intro hit hhit
  exact hnum hit (hsub (List.mem_append_right xs hhit))

end PlacedHit

namespace Batch

variable {μ γ : Type} [Mesh Binary32 μ γ] {settings : QuerySettings Binary32}
  {ray : Ray Binary32} {placed : List (PlacedModel Binary32 μ)}

/-! ### Lone hits -/

/-- A placed model of the list, asked alone over the full distance, gives this hit. -/
def HitsAlone (settings : QuerySettings Binary32) (ray : Ray Binary32)
    (placed : List (PlacedModel Binary32 μ)) (hit : PlacedHit Binary32) : Prop :=
  ∃ p, placed[hit.index]? = some p ∧
    (p.hitDistance ray settings.maxRayDistance settings.toRayMode).value = some hit.distance

theorem mem_loneHits_iff {hit : PlacedHit Binary32} :
    hit ∈ loneHits settings ray placed ↔ HitsAlone settings ray placed hit := by
  constructor
  · intro hmem
    obtain ⟨⟨p, index⟩, hp, hlone⟩ := List.mem_filterMap.mp hmem
    obtain ⟨distance, hvalue, rfl⟩ := Option.map_eq_some_iff.mp hlone
    exact ⟨p, List.mk_mem_zipIdx_iff_getElem?.mp hp, hvalue⟩
  · intro h
    obtain ⟨p, hp, hvalue⟩ := h
    apply List.mem_filterMap.mpr
    refine ⟨(p, hit.index), List.mk_mem_zipIdx_iff_getElem?.mpr hp, ?_⟩
    rw [loneHit, Traced.value_bind, hvalue]
    rfl

theorem loneHits_ne_nil_iff :
    loneHits settings ray placed ≠ [] ↔ ∃ hit, HitsAlone settings ray placed hit := by
  simp only [← mem_loneHits_iff]
  constructor
  · intro h
    exact List.exists_mem_of_ne_nil _ h
  · intro h
    obtain ⟨hit, hmem⟩ := h
    exact List.ne_nil_of_mem hmem

theorem HitsAlone.eq_of_index {hit other : PlacedHit Binary32}
    (h : HitsAlone settings ray placed hit) (h' : HitsAlone settings ray placed other)
    (hindex : hit.index = other.index) : hit = other := by
  obtain ⟨p, hp, hvalue⟩ := h
  obtain ⟨q, hq, hvalue'⟩ := h'
  rw [hindex, hq, Option.some.injEq] at hp
  rw [hp, hvalue, Option.some.injEq] at hvalue'
  cases hit
  cases other
  simp only [PlacedHit.mk.injEq]
  exact ⟨hindex, hvalue'⟩

theorem pairwise_loneHits (settings : QuerySettings Binary32) (ray : Ray Binary32)
    (placed : List (PlacedModel Binary32 μ)) :
    (loneHits settings ray placed).Pairwise fun hit later => hit.index < later.index := by
  have hindices : (placed.zipIdx.map Prod.snd).Pairwise (· < ·) := by
    rw [List.zipIdx_map_snd]
    exact List.pairwise_lt_range'
  rw [List.pairwise_map] at hindices
  apply hindices.filterMap
  intro p q hlt hit hhit later hlater
  obtain ⟨_, -, rfl⟩ := Option.map_eq_some_iff.mp hhit
  obtain ⟨_, -, rfl⟩ := Option.map_eq_some_iff.mp hlater
  exact hlt

theorem head?_loneHits_eq_some_iff {hit : PlacedHit Binary32} :
    (loneHits settings ray placed).head? = some hit ↔
      HitsAlone settings ray placed hit ∧
        ∀ other, HitsAlone settings ray placed other → hit.index ≤ other.index := by
  have hordered := pairwise_loneHits settings ray placed
  simp only [← mem_loneHits_iff]
  cases hhits : loneHits settings ray placed with
  | nil => simp
  | cons first hits =>
    rw [hhits] at hordered
    have hfirst : ∀ other ∈ hits, first.index < other.index := by
      intro other hother
      exact List.rel_of_pairwise_cons hordered hother
    rw [List.head?_cons, Option.some.injEq]
    constructor
    · intro h
      subst h
      refine ⟨List.mem_cons_self, ?_⟩
      intro other hother
      rcases List.mem_cons.mp hother with rfl | hother
      · exact Nat.le_refl _
      · exact Nat.le_of_lt (hfirst other hother)
    · intro h
      obtain ⟨hmem, hleast⟩ := h
      rcases List.mem_cons.mp hmem with rfl | hmem
      · rfl
      · have hbefore := hfirst hit hmem
        have hafter := hleast first List.mem_cons_self
        omega

/-! ### Hit or no hit -/

variable {mode : RayMode}

/-- A pass that ends with the first hit ends with the first one it takes. -/
theorem seekRay_value_of_stop (hmode : mode.stopAtFirstHit = true) (index : Nat)
    (ps : List (PlacedModel Binary32 μ)) (distance : Binary32)
    (best : Option (PlacedHit Binary32)) :
    (seekRay ray mode index ps distance best).value =
      (takenHits ray mode index ps distance).head?.or best := by
  induction ps generalizing index with
  | nil => rfl
  | cons p ps ih =>
    rw [seekRay, Traced.value_bind, takenHits]
    cases (p.hitDistance ray distance mode).value with
    | none => exact ih (index + 1)
    | some distance => simp only [hmode, if_true, Traced.value_pure, List.head?_cons, Option.some_or]

/-- Until something is hit the distance stays what it was, so the first hit that a pass takes is
    the first lone hit. -/
theorem head?_takenHits (settings : QuerySettings Binary32) (ray : Ray Binary32)
    (placed : List (PlacedModel Binary32 μ)) :
    (takenHits ray settings.toRayMode 0 placed settings.maxRayDistance).head? =
      (loneHits settings ray placed).head? := by
  rw [loneHits]
  generalize 0 = index
  induction placed generalizing index with
  | nil => rfl
  | cons p placed ih =>
    rw [takenHits, List.zipIdx_cons, List.filterMap_cons, loneHit, Traced.value_bind]
    cases (p.hitDistance ray settings.maxRayDistance settings.toRayMode).value with
    | none => exact ih (index + 1)
    | some distance => rfl

theorem isSome_seekRay_iff :
    (seekRay ray settings.toRayMode 0 placed settings.maxRayDistance none).value.isSome = true ↔
      ∃ hit, HitsAlone settings ray placed hit := by
  have hfirst := head?_takenHits settings ray placed
  rw [← loneHits_ne_nil_iff, ← List.isSome_head?, ← hfirst]
  by_cases hmode : settings.stopAtFirstHit = true
  · rw [seekRay_value_of_stop hmode, Option.or_none]
  · rw [seekRay_value (by simpa using hmode), Option.or_none]
    -- a list has a last element just if it has a first one
    cases takenHits ray settings.toRayMode 0 placed settings.maxRayDistance with
    | nil => simp
    | cons hit hits => simp [List.getLast?_cons]

theorem pick_eq_some {β : Type} {schedule : Schedule} {xs : List β} {x : β}
    (h : schedule.pick xs = some x) : x ∈ xs := by
  cases xs with
  | nil => cases h
  | cons y ys =>
    rw [Schedule.pick, Option.some.injEq] at h
    rw [← h, List.getD_eq_getElem?_getD]
    cases hfound : (y :: ys)[schedule.first ys.length]? with
    | none => exact List.mem_cons_self
    | some found => exact List.mem_of_getElem? hfound

theorem isSome_pick_iff {β : Type} {schedule : Schedule} {xs : List β} :
    (schedule.pick xs).isSome = true ↔ xs ≠ [] := by
  cases xs with
  | nil => simp [Schedule.pick]
  | cons y ys => simp [Schedule.pick]

/-- Putting parts together loses no hit, whatever the distances are. -/
theorem isSome_collect_iff (settings : QuerySettings Binary32) (ray : Ray Binary32)
    (tree : SplitTree (PlacedModel Binary32 μ × Nat)) :
    (tree.collect (fun ps => (nearestOf settings ray ps).value)
      (Option.merge PlacedHit.nearer)).isSome = true ↔
      (tree.items.filterMap fun p => (loneHit settings ray p).value) ≠ [] := by
  induction tree with
  | segment items =>
    rw [SplitTree.collect, SplitTree.items, nearestOf_value, Option.isSome_iff_ne_none, ne_eq,
      PlacedHit.nearest?_eq_none_iff]
  | join left right ihl ihr =>
    rw [SplitTree.collect, SplitTree.items, Option.isSome_merge, Bool.or_eq_true, ihl, ihr,
      List.filterMap_append]
    simp only [ne_eq, List.append_eq_nil_iff, not_and_or]

theorem isSome_splitRay_iff (schedule : Schedule) :
    (splitRay schedule settings placed ray).value.isSome = true ↔
      ∃ hit, HitsAlone settings ray placed hit := by
  rw [← loneHits_ne_nil_iff]
  by_cases hmode : settings.stopAtFirstHit = true
  · rw [splitRay_value_of_stop hmode]
    exact isSome_pick_iff
  · rw [splitRay, if_neg hmode, SplitTree.value_collect, isSome_collect_iff,
      schedule.items_split, loneHits]

/-- **Every path finds a hit just if some placed model, asked alone, does.**  This asks nothing
    of the mesh, which may change the distance even where it misses, of the settings or of
    the placed models.  Where the first hit will do, a pass ends with that of the first such
    model, and split work with that of one of them, at the distance each gives alone. -/
theorem hit_on_every_path (schedule : Schedule) (settings : QuerySettings Binary32)
    (ray : Ray Binary32) (placed : List (PlacedModel Binary32 μ)) :
    ((seekRay ray settings.toRayMode 0 placed settings.maxRayDistance none).value.isSome = true ↔
      ∃ hit, HitsAlone settings ray placed hit) ∧
    ((splitRay schedule settings placed ray).value.isSome = true ↔
      ∃ hit, HitsAlone settings ray placed hit) ∧
    ((hitOnRay schedule settings placed ray).value.isSome = true ↔
      ∃ hit, HitsAlone settings ray placed hit) ∧
    (settings.stopAtFirstHit = true → ∀ hit,
      ((seekRay ray settings.toRayMode 0 placed settings.maxRayDistance none).value = some hit ↔
        HitsAlone settings ray placed hit ∧
          ∀ other, HitsAlone settings ray placed other → hit.index ≤ other.index) ∧
      ((splitRay schedule settings placed ray).value = some hit →
        HitsAlone settings ray placed hit)) := by
  refine ⟨isSome_seekRay_iff, isSome_splitRay_iff schedule, ?_, ?_⟩
  · rw [hitOnRay]
    split
    · exact isSome_seekRay_iff
    · exact isSome_splitRay_iff schedule
  · intro hmode hit
    constructor
    · rw [seekRay_value_of_stop hmode, Option.or_none, head?_takenHits]
      exact head?_loneHits_eq_some_iff
    · intro hpicked
      rw [splitRay_value_of_stop hmode] at hpicked
      exact mem_loneHits_iff.mp (pick_eq_some hpicked)

/-- Where the first hit will do, it is that of the first floor and not of the one above it. -/
example :
    (seekRay Floor.downward ⟨true, false⟩ 0 (Floor.placed [(.zero, .one), (.one, .ofInt 2)])
      (.ofInt 1000) none).value = some ⟨0, .ofInt 5⟩ := by
  decide +kernel

/-! ### The nearest hit -/

/-- Of the lone hits this is one of the least distance, and the first of these. -/
structure NearestAlone (settings : QuerySettings Binary32) (ray : Ray Binary32)
    (placed : List (PlacedModel Binary32 μ)) (best : PlacedHit Binary32) : Prop where
  hits : HitsAlone settings ray placed best
  least : ∀ other, HitsAlone settings ray placed other → best.distance ≤ other.distance
  first : ∀ other, HitsAlone settings ray placed other →
    Scalar.sameValue best.distance other.distance = true → best.index ≤ other.index

theorem NearestAlone.unique {best other : PlacedHit Binary32}
    (h : NearestAlone settings ray placed best) (h' : NearestAlone settings ray placed other) :
    best = other := by
  have hle := h.least other h'.hits
  have hge := h'.least best h.hits
  apply h.hits.eq_of_index h'.hits
  apply Nat.le_antisymm
  · exact h.first other h'.hits (Binary32.sameValue_of_le_of_le hle hge)
  · exact h'.first best h.hits (Binary32.sameValue_of_le_of_le hge hle)

section

variable {hits : List (PlacedHit Binary32)}
  (hmem : ∀ hit, hit ∈ hits ↔ HitsAlone settings ray placed hit)

include hmem

theorem nearest?_eq_none_iff_forall :
    PlacedHit.nearest? hits = none ↔ ∀ hit, ¬ HitsAlone settings ray placed hit := by
  rw [PlacedHit.nearest?_eq_none_iff, List.eq_nil_iff_forall_not_mem]
  simp only [hmem]

theorem nearest?_eq_some_iff (hnum : ∀ hit ∈ hits, hit.distance.isNaN = false)
    {best : PlacedHit Binary32} :
    PlacedHit.nearest? hits = some best ↔ NearestAlone settings ray placed best := by
  have hnearest : ∀ best, PlacedHit.nearest? hits = some best →
      NearestAlone settings ray placed best := by
    intro best hbest
    have hleast := PlacedHit.le_of_nearest? hnum hbest
    refine ⟨(hmem best).mp (PlacedHit.mem_of_nearest? hbest), ?_, ?_⟩
    · intro other hother
      exact (hleast other ((hmem other).mpr hother)).1
    · intro other hother
      exact (hleast other ((hmem other).mpr hother)).2
  refine ⟨hnearest best, ?_⟩
  intro hbest
  cases hfound : PlacedHit.nearest? hits with
  | none => exact absurd hbest.hits ((nearest?_eq_none_iff_forall hmem).mp hfound best)
  | some found => rw [(hnearest found hfound).unique hbest]

end

/-- **Split work finds the nearest hit along every tree.**  Where meshes leave numbers and scales
    were accepted, no lone hit has a distance that is no number.  Any tree over the lone hits,
    in the order of the list or in another, then comes to the same: nothing if there are none,
    and else a hit of the least distance, the first one of those of equal value.  So does
    split work over the placed models, whatever its schedule. -/
theorem nearest_on_every_tree (hmode : settings.stopAtFirstHit = false)
    (hmesh : LeavesNumbers μ settings.toRayMode) (hplaced : ∀ p ∈ placed, p.Accepted)
    (ray : Ray Binary32) :
    (∀ hit, HitsAlone settings ray placed hit → hit.distance.isNaN = false) ∧
    (∀ tree : SplitTree (PlacedHit Binary32),
      (∀ hit, hit ∈ tree.items ↔ HitsAlone settings ray placed hit) →
      (tree.collect PlacedHit.nearest? (Option.merge PlacedHit.nearer) = none ↔
        ∀ hit, ¬ HitsAlone settings ray placed hit) ∧
      ∀ best, tree.collect PlacedHit.nearest? (Option.merge PlacedHit.nearer) = some best ↔
        NearestAlone settings ray placed best) ∧
    ∀ schedule : Schedule,
      ((splitRay schedule settings placed ray).value = none ↔
        ∀ hit, ¬ HitsAlone settings ray placed hit) ∧
      ∀ best, (splitRay schedule settings placed ray).value = some best ↔
        NearestAlone settings ray placed best := by
  have hnum : ∀ hit, HitsAlone settings ray placed hit → hit.distance.isNaN = false := by
    intro hit hhit
    obtain ⟨p, hp, hvalue⟩ := hhit
    exact PlacedModel.isNaN_hitDistance (hplaced p (List.mem_of_getElem? hp)) hmesh hvalue
  refine ⟨hnum, ?_, ?_⟩
  · intro tree hmem
    have hnumbers : ∀ hit ∈ tree.items, hit.distance.isNaN = false := by
      intro hit hhit
      exact hnum hit ((hmem hit).mp hhit)
    rw [PlacedHit.collect_nearest? tree hnumbers]
    exact ⟨nearest?_eq_none_iff_forall hmem, fun best => nearest?_eq_some_iff hmem hnumbers⟩
  · intro schedule
    have hmem : ∀ hit, hit ∈ loneHits settings ray placed ↔ HitsAlone settings ray placed hit :=
      fun hit => mem_loneHits_iff
    have hnumbers : ∀ hit ∈ loneHits settings ray placed, hit.distance.isNaN = false := by
      intro hit hhit
      exact hnum hit ((hmem hit).mp hhit)
    rw [splitRay_eq_nearest? hmode hnumbers]
    exact ⟨nearest?_eq_none_iff_forall hmem, fun best => nearest?_eq_some_iff hmem hnumbers⟩

/-- Of three floors the two upper ones are at one height, though of different scale. -/
theorem nearest_of_level_floors :
    let floors := Floor.placed [(.zero, .one), (.one, .ofInt 2), (.ofInt 2, .one)]
    QuerySettings.standard.stopAtFirstHit = false ∧
    LeavesNumbers Floor QuerySettings.standard.toRayMode ∧ (∀ p ∈ floors, p.Accepted) ∧
    ∀ schedule : Schedule,
      (splitRay schedule QuerySettings.standard floors Floor.downward).value =
        some ⟨1, .ofInt 3⟩ := by
  intro floors
  have hmode : QuerySettings.standard.stopAtFirstHit = false := rfl
  have hmesh : LeavesNumbers Floor QuerySettings.standard.toRayMode :=
    Floor.geometry.leavesNumbers hmode
  have hplaced : ∀ p ∈ floors, p.Accepted := Floor.accepted_of_mem_placed
  refine ⟨hmode, hmesh, hplaced, ?_⟩
  intro schedule
  obtain ⟨-, -, hsplit⟩ := nearest_on_every_tree hmode hmesh hplaced Floor.downward
  have hnearest := ((hsplit .halving).2 ⟨1, .ofInt 3⟩).mp (by decide +kernel)
  exact ((hsplit schedule).2 _).mpr hnearest

end Batch

end Placement
