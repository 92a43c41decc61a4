/-
  Placement/Proofs/Query/Highest.lean
  ===================================
  **The first of the highest surfaces.**

  A ground query keeps what is strictly higher than anything before it.  So it ends with what
  the first of the highest candidates finds, a candidate being a placed model whose probe
  comes back with a height above minus infinity; a height that is no number is above
  nothing and takes no part (`foldl_keep_reportsHighest`).

  Which candidate is the first depends on the order of the placed models, and how high the
  highest of them is does not.  The same models in another order give a height of the same
  value, and the same surface if only one of them reaches it (`ground_is_first_highest`).
-/
import Placement.Proofs.Query.Ground
import Placement.Proofs.Query.Probes

namespace Placement

/-! ### Candidates in a list -/

section Candidates

variable {ι β : Type} (Finds : ι → β → Prop) (height : β → Binary32)

/-- What is found has a height that is a number above minus infinity. -/
def Candidate (x : ι) (s : β) : Prop := Finds x s ∧ Binary32.negInf < height s

/-- The first of those candidates that none exceeds finds this. -/
def FirstHighest (xs : List ι) (s : β) : Prop :=
  ∃ front x back, xs = front ++ x :: back ∧ Candidate Finds height x s ∧
    (∀ y ∈ front, ∀ other, Candidate Finds height y other → height other < height s) ∧
    ∀ y ∈ back, ∀ other, Candidate Finds height y other → height other ≤ height s

/-- One candidate finds this, and all others something lower. -/
def SoleHighest (xs : List ι) (s : β) : Prop :=
  ∃ x ∈ xs, Candidate Finds height x s ∧
    ∀ y ∈ xs, y ≠ x → ∀ other, Candidate Finds height y other → height other < height s

/-- What is reported of a list is as at the start if there is no candidate, and else what the
    first of the highest candidates finds. -/
structure ReportsHighest (found : β → Bool) (start : β) (xs : List ι) (s : β) : Prop where
  nothing_iff : found s = false ↔ ∀ x ∈ xs, ∀ other, ¬ Candidate Finds height x other
  eq_start : found s = false → s = start
  first : found s = true → FirstHighest Finds height xs s

variable {Finds height} {found : β → Bool} {start s best : β} {xs ys : List ι}

theorem SoleHighest.perm (hperm : xs.Perm ys) (h : SoleHighest Finds height xs s) :
    SoleHighest Finds height ys s := by
  obtain ⟨x, hx, hfinds, hothers⟩ := h
  refine ⟨x, hperm.mem_iff.mp hx, hfinds, ?_⟩
  intro y hy
  exact hothers y (hperm.mem_iff.mpr hy)

theorem FirstHighest.exists_mem (h : FirstHighest Finds height xs s) :
    ∃ x ∈ xs, Candidate Finds height x s := by
  obtain ⟨front, x, back, rfl, hx, -, -⟩ := h
  exact ⟨x, List.mem_append_right front List.mem_cons_self, hx⟩

section

variable {offer : ι → Option β} (hoffer : ∀ x s, offer x = some s ↔ Finds x s)

include hoffer

theorem Candidate.unique {x : ι} {other : β} (h : Candidate Finds height x s)
    (h' : Candidate Finds height x other) : s = other := by
  have hs := (hoffer x s).mpr h.1
  rw [(hoffer x other).mpr h'.1, Option.some.injEq] at hs
  exact hs.symm

theorem FirstHighest.height_le (h : FirstHighest Finds height xs s) :
    ∀ x ∈ xs, ∀ other, Candidate Finds height x other → height other ≤ height s := by
  obtain ⟨front, own, back, rfl, hown, hfront, hback⟩ := h
  intro x hx other hother
  rcases List.mem_append.mp hx with hx | hx
  · exact Binary32.le_of_lt (hfront x hx other hother)
  · rcases List.mem_cons.mp hx with rfl | hx
    · rw [hother.unique hoffer hown]
      exact Binary32.le_refl (Binary32.isNaN_right_of_lt hown.2)
    · exact hback x hx other hother

/-- Keeping the higher one, from one end of the list to the other, comes to the first of the
    highest. -/
theorem foldl_keep_reportsHighest (hfound : ∀ x s, Finds x s → found s = true)
    (hheight : height start = .negInf) (hnothing : found start = false) (xs : List ι) :
    ReportsHighest Finds height found start xs
      ((xs.filterMap offer).foldl (keep (isHigher found height)) start) := by
  have hstart : ∀ {x other}, Candidate Finds height x other →
      isHigher found height start other = true := by
    intro x other hother
    rw [isHigher_iff, hheight]
    exact ⟨hfound x other hother.1, hother.2⟩
  have hoffered : ∀ {zs : List ι} {x other}, x ∈ zs → Candidate Finds height x other →
      other ∈ zs.filterMap offer := by
    intro zs x other hx hother
    exact List.mem_filterMap.mpr ⟨x, hx, (hoffer x other).mpr hother.1⟩
  rcases foldl_keep_cases preference_isHigher start (xs.filterMap offer) with ⟨hsame, hnone⟩ |
    ⟨front, best, back, hsplit, hkept, hbest, hfront, hback⟩
  · rw [hsame]
    refine ⟨iff_of_true hnothing ?_, fun _ => rfl, ?_⟩
    · intro x hx other hother
      exact hnone other (hoffered hx hother) (hstart hother)
    · intro hsome
      rw [hnothing] at hsome
      cases hsome
  · rw [hkept]
    rw [isHigher_iff, hheight] at hbest
    -- the best of what was found goes back to the model that found it
    obtain ⟨before, rest, rfl, rfl, hrest⟩ := List.filterMap_eq_append_iff.mp hsplit
    obtain ⟨silent, x, after, rfl, hsilent, hx, rfl⟩ := List.filterMap_eq_cons_iff.mp hrest
    have hcandidate : Candidate Finds height x best := ⟨(hoffer x best).mp hx, hbest.2⟩
    have hfirst : FirstHighest Finds height (before ++ (silent ++ x :: after)) best := by
      refine ⟨before ++ silent, x, after, (List.append_assoc _ _ _).symm, hcandidate, ?_, ?_⟩
      · intro y hy other hother
        rcases List.mem_append.mp hy with hy | hy
        · exact (isHigher_iff.mp (hfront other (hoffered hy hother) (hstart hother))).2
        · have hmissing := hsilent y hy
          rw [(hoffer y other).mpr hother.1] at hmissing
          cases hmissing
      · intro y hy other hother
        apply Binary32.le_of_not_lt (Binary32.isNaN_right_of_lt hbest.2)
          (Binary32.isNaN_right_of_lt hother.2)
        intro hhigher
        apply hback other (hoffered hy hother)
        exact isHigher_iff.mpr ⟨hfound y other hother.1, hhigher⟩
    refine ⟨iff_of_false ?_ ?_, ?_, fun _ => hfirst⟩
    · simp [hbest.1]
    · intro hno
      obtain ⟨x, hx, hcandidate⟩ := hfirst.exists_mem
      exact hno x hx best hcandidate
    · intro hmissing
      rw [hbest.1] at hmissing
      cases hmissing

namespace ReportsHighest

omit hoffer in
theorem found_of_candidate (h : ReportsHighest Finds height found start xs s) {x : ι} {other : β}
    (hx : x ∈ xs) (hother : Candidate Finds height x other) : found s = true := by
  by_contra hmissing
  rw [Bool.not_eq_true] at hmissing
  exact h.nothing_iff.mp hmissing x hx other hother

theorem eq_of_sole (h : ReportsHighest Finds height found start xs s)
    (hsole : SoleHighest Finds height xs best) : s = best := by
  obtain ⟨x, hx, hbest, hothers⟩ := hsole
  have hfirst := h.first (h.found_of_candidate hx hbest)
  obtain ⟨y, hy, hs⟩ := hfirst.exists_mem
  by_cases hsame : y = x
  · subst hsame
    exact hs.unique hoffer hbest
  · have hlower := hothers y hy hsame s hs
    have hle := hfirst.height_le hoffer x hx best hbest
    exact absurd (Binary32.lt_of_le_of_lt hle hlower) (Binary32.lt_irrefl _)

/-- What is reported of the same list in another order has a height of the same value. -/
theorem sameValue_of_perm {s' : β} (hheight : height start = .negInf)
    (h : ReportsHighest Finds height found start xs s)
    (h' : ReportsHighest Finds height found start ys s') (hperm : xs.Perm ys) :
    Scalar.sameValue (height s) (height s') = true := by
  cases hs : found s with
  | false =>
    have hs' : found s' = false := by
      apply h'.nothing_iff.mpr
      intro y hy
      exact h.nothing_iff.mp hs y (hperm.mem_iff.mpr hy)
    rw [h.eq_start hs, h'.eq_start hs', hheight]
    decide
  | true =>
    have hfirst := h.first hs
    obtain ⟨x, hx, hfinds⟩ := hfirst.exists_mem
    have hx' := hperm.mem_iff.mp hx
    have hfirst' := h'.first (h'.found_of_candidate hx' hfinds)
    obtain ⟨y, hy, hfinds'⟩ := hfirst'.exists_mem
    apply Binary32.sameValue_of_le_of_le
    · exact hfirst'.height_le hoffer x hx' s hfinds
    · exact hfirst.height_le hoffer y (hperm.mem_iff.mpr hy) s' hfinds'

end ReportsHighest

end

end Candidates

/-! ### Ground queries -/

namespace Batch

variable {μ γ : Type} [Mesh Binary32 μ γ] (schedule : Schedule) (settings : QuerySettings Binary32)
  (placed : List (PlacedModel Binary32 μ)) (point : Vec3 Binary32)

theorem areaBelow_value :
    (areaBelow schedule settings placed point).value =
      (placed.filterMap fun p => (p.areaBelow point).value).foldl AreaSurface.higher .none := by
  rw [areaBelow_value_eq_seekArea, seekArea_value]

theorem surfaceBelow_value :
    (surfaceBelow schedule settings placed point).value =
      (placed.filterMap fun p => (p.surfaceBelow point).value).foldl LocatedSurface.higher .none := by
  rw [surfaceBelow_value_eq_seekGroup, seekGroup_value]

theorem areaBelow_reportsHighest :
    ReportsHighest (fun p => PlacedModel.FindsAreaBelow p point) AreaSurface.height
      AreaSurface.found .none placed (areaBelow schedule settings placed point).value := by
  rw [areaBelow_value, AreaSurface.higher_eq_keep]
  apply foldl_keep_reportsHighest (fun p s => PlacedModel.areaBelow_eq_some_iff)
  · intro p s h
    obtain ⟨model, hit, -, -, rfl⟩ := h
    rfl
  · rfl
  · rfl

theorem surfaceBelow_reportsHighest :
    ReportsHighest (fun p => PlacedModel.FindsSurfaceBelow p point) LocatedSurface.height
      LocatedSurface.found .none placed (surfaceBelow schedule settings placed point).value := by
  rw [surfaceBelow_value, LocatedSurface.higher_eq_keep]
  apply foldl_keep_reportsHighest (fun p s => PlacedModel.surfaceBelow_eq_some_iff)
  · intro p s h
    obtain ⟨model, hit, -, -, rfl⟩ := h
    rfl
  · rfl
  · rfl

/-- **Ground queries report the first of the highest surfaces.**  Whatever meshes answer, and on
    either path: nothing is found exactly if no placed model is a candidate, and else the
    surface is that of the first candidate that none exceeds.  For the placed models in
    another order, asked on whichever path, the height is of the same value, and if only one
    candidate reaches it, the surface is its surface in both orders. -/
theorem ground_is_first_highest (placed : List (PlacedModel Binary32 μ)) (point : Vec3 Binary32) :
    (∀ (schedule : Schedule) (settings : QuerySettings Binary32),
      ReportsHighest (fun p => PlacedModel.FindsAreaBelow p point) AreaSurface.height
        AreaSurface.found .none placed (areaBelow schedule settings placed point).value ∧
      ReportsHighest (fun p => PlacedModel.FindsSurfaceBelow p point) LocatedSurface.height
        LocatedSurface.found .none placed (surfaceBelow schedule settings placed point).value) ∧
    ∀ order : List (PlacedModel Binary32 μ), placed.Perm order →
      ∀ (schedule schedule' : Schedule) (settings settings' : QuerySettings Binary32),
        let area := (areaBelow schedule settings placed point).value
        let area' := (areaBelow schedule' settings' order point).value
        let surface := (surfaceBelow schedule settings placed point).value
        let surface' := (surfaceBelow schedule' settings' order point).value
        Scalar.sameValue area.height area'.height = true ∧
        Scalar.sameValue surface.height surface'.height = true ∧
        (∀ best, SoleHighest (fun p => PlacedModel.FindsAreaBelow p point) AreaSurface.height
          placed best → area = best ∧ area' = best) ∧
        ∀ best, SoleHighest (fun p => PlacedModel.FindsSurfaceBelow p point)
          LocatedSurface.height placed best → surface = best ∧ surface' = best := by
  have hareas : ∀ (p : PlacedModel Binary32 μ) s,
      (p.areaBelow point).value = some s ↔ p.FindsAreaBelow point s :=
    fun p s => PlacedModel.areaBelow_eq_some_iff
  have hsurfaces : ∀ (p : PlacedModel Binary32 μ) s,
      (p.surfaceBelow point).value = some s ↔ p.FindsSurfaceBelow point s :=
    fun p s => PlacedModel.surfaceBelow_eq_some_iff
  constructor
  · intro schedule settings
    exact ⟨areaBelow_reportsHighest schedule settings placed point,
      surfaceBelow_reportsHighest schedule settings placed point⟩
  · intro order hperm schedule schedule' settings settings'
    have harea := areaBelow_reportsHighest schedule settings placed point
    have harea' := areaBelow_reportsHighest schedule' settings' order point
    have hsurface := surfaceBelow_reportsHighest schedule settings placed point
    have hsurface' := surfaceBelow_reportsHighest schedule' settings' order point
    refine ⟨?_, ?_, ?_, ?_⟩
    · exact harea.sameValue_of_perm hareas rfl harea' hperm
    · exact hsurface.sameValue_of_perm hsurfaces rfl hsurface' hperm
    · intro best hsole
      exact ⟨harea.eq_of_sole hareas hsole, harea'.eq_of_sole hareas (hsole.perm hperm)⟩
    · intro best hsole
      exact ⟨hsurface.eq_of_sole hsurfaces hsole, hsurface'.eq_of_sole hsurfaces (hsole.perm hperm)⟩

end Batch

/-! ### Soundings -/

/-- A model that answers every probe at one depth. -/
structure Sounding where
  depth : Binary32

namespace Sounding

instance : Mesh Binary32 Sounding Unit where
  traceRay _ _ distance _ := ⟨false, distance⟩
  findArea sounding _ _ := some ⟨sounding.depth, 0, 0, 0⟩
  findGroup sounding _ _ := some ⟨sounding.depth, (), 0⟩
  liquidHeight _ _ := none

/-- Soundings at the origin, on tiles of their own. -/
def placed (depths : List Binary32) : List (PlacedModel Binary32 Sounding) :=
  depths.zipIdx.filterMap fun d =>
    let spawn := Spawn.unbounded 0 d.2.toUInt16 [] .zero .zero Binary32.one
    (PlacedModel.place d.2 (spawn.attachBound ⟨.zero, .zero⟩) (some (mk d.1))).toOption

/-- A depth that is no number hides nothing, and of two equal depths the first is reported. -/
example :
    (Batch.areaBelow .halving QuerySettings.standard
      (placed [.nan, .ofInt 4, .ofInt 2, .ofInt 2]) .zero).value =
      ⟨true, .ofInt (-2), 0, 2, 0, 0⟩ := by
  decide +kernel

end Sounding

end Placement
