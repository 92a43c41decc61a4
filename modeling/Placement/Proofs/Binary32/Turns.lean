/-
  Placement/Proofs/Binary32/Turns.lean
  ====================================
  **The cosine and sine of a finite angle are at most about one.**

  Both are sums of an alternating series whose terms do not grow, so a sum lies between zero
  and its first term (`alternating_bounds`).  That the terms do not grow takes an angle of at
  most one in radians, and after its reduction no angle is as large, an eighth of a turn being
  less.  What remains are a change of quarter, signs and one rounding.

  With these bounds a rotation is made of finite numbers whatever the angles of a spawn are.
-/
import Placement.Proofs.Binary32.Magnitudes

namespace Placement

namespace FixedPoint

theorem alternating_bounds {ratio : Nat → Nat → Nat} (hratio : ∀ k t, ratio k t ≤ t)
    (fuel start term : Nat) :
    0 ≤ alternating ratio fuel start term ∧ alternating ratio fuel start term ≤ term := by
  induction fuel generalizing start term with
  | zero =>
    rw [alternating]
    exact ⟨Int.le_refl _, Int.natCast_nonneg _⟩
  | succ fuel ih =>
    -- the rest lies between zero and its own first term, which is at most this one
    obtain ⟨hlow, hhigh⟩ := ih (start + 1) (ratio start term)
    have hnext : (ratio start term : Int) ≤ term := Int.ofNat_le.mpr (hratio start term)
    rw [alternating]
    split
    · omega
    · omega

/-- Multiplied twice by at most one and divided, a term does not grow. -/
theorem ratio_le {x : Nat} (hx : x ≤ unit) (t divisor : Nat) :
    t * x / unit * x / unit / divisor ≤ t := by
  have hstep : ∀ t, t * x / unit ≤ t := fun t => Nat.div_le_of_le_mul (by
    rw [Nat.mul_comm unit]
    exact Nat.mul_le_mul_left t hx)
  calc t * x / unit * x / unit / divisor ≤ t * x / unit * x / unit := Nat.div_le_self _ _
    _ ≤ t * x / unit := hstep _
    _ ≤ t := hstep t

theorem sin_bounds {x : Nat} (hx : x ≤ unit) : 0 ≤ sin x ∧ sin x ≤ unit := by
  obtain ⟨hlow, hhigh⟩ := alternating_bounds (fun _ t => ratio_le hx t _) precision 0 x
  exact ⟨hlow, Int.le_trans hhigh (Int.ofNat_le.mpr hx)⟩

theorem cos_bounds {x : Nat} (hx : x ≤ unit) : 0 ≤ cos x ∧ cos x ≤ unit :=
  alternating_bounds (fun _ t => ratio_le hx t _) precision 0 unit

theorem quarterTurn_le : quarterTurn ≤ 2 * unit := by decide +kernel

theorem natAbs_turnInQuarter_le (r : Nat) :
    (turnInQuarter r).cos.natAbs ≤ unit ∧ (turnInQuarter r).sin.natAbs ≤ unit := by
  have hquarter := quarterTurn_le
  rw [turnInQuarter]
  -- either the angle or what it lacks to a quarter is at most an eighth of a turn
  split
  · have hr : r ≤ unit := by omega
    have hsin := sin_bounds hr
    have hcos := cos_bounds hr
    constructor <;> simp only <;> omega
  · have hr : quarterTurn - r ≤ unit := by omega
    have hsin := sin_bounds hr
    have hcos := cos_bounds hr
    constructor <;> simp only <;> omega

theorem natAbs_turn_le (x : Nat) :
    (turn x).cos.natAbs ≤ unit ∧ (turn x).sin.natAbs ≤ unit := by
  obtain ⟨hcos, hsin⟩ := natAbs_turnInQuarter_le (x % quarterTurn)
  rw [turn]
  split
  · exact ⟨hcos, hsin⟩
  · rw [Int.natAbs_neg]
    exact ⟨hsin, hcos⟩
  · rw [Int.natAbs_neg, Int.natAbs_neg]
    exact ⟨hcos, hsin⟩
  · rw [Int.natAbs_neg]
    exact ⟨hsin, hcos⟩

end FixedPoint

namespace Binary32

/-- Both parts are at most twice one. -/
def SmallTurn (t : Turn Binary32) : Prop := t.cos.Within 150 ∧ t.sin.Within 150

theorem within_ofSteps {n : Int} (h : n.natAbs ≤ FixedPoint.unit) : (ofSteps n).Within 150 := by
  have hone : Format.single.one = 2 ^ 149 := rfl
  have hunit : 0 < FixedPoint.unit := by decide +kernel
  rw [ofSteps]
  -- the unit is a long number that nothing here needs to know
  generalize FixedPoint.unit = unit at h hunit ⊢
  apply within_round _ (by decide) (by decide)
  rw [Nat.div_lt_iff_lt_mul hunit, hone]
  calc n.natAbs * 2 ^ 149 ≤ unit * 2 ^ 149 := Nat.mul_le_mul_right _ h
    _ < unit * 2 ^ 150 :=
      Nat.mul_lt_mul_of_pos_left (Nat.pow_lt_pow_right (by decide) (by decide)) hunit
    _ = 2 ^ 150 * unit := Nat.mul_comm _ _

theorem within_one : one.Within 150 := ⟨by decide, by decide⟩

theorem smallTurn_turnOfRadians {a : Binary32} (ha : a.isFinite = true) :
    SmallTurn (turnOfRadians a) := by
  rw [turnOfRadians, if_pos ha]
  split
  · rename_i hzero
    exact ⟨within_one, within_of_isZero hzero 150⟩
  · obtain ⟨hcos, hsin⟩ :=
      FixedPoint.natAbs_turn_le (a.units * (FixedPoint.unit / Format.single.one))
    refine ⟨within_ofSteps hcos, within_ofSteps ?_⟩
    split
    · rw [Int.natAbs_neg]
      exact hsin
    · exact hsin

theorem smallTurn_turnOfDegrees {a : Binary32} (ha : a.isFinite = true) :
    SmallTurn (turnOfDegrees a) := by
  have hfactor : radiansPerDegree.Within 144 := ⟨by decide, by decide⟩
  have hradians : (a * radiansPerDegree).Within 276 :=
    (within_of_isFinite ha).mul hfactor (by decide) (by decide) (by decide)
  exact smallTurn_turnOfRadians hradians.finite

end Binary32

end Placement
