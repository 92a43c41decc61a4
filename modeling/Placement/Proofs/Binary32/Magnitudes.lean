/-
  Placement/Proofs/Binary32/Magnitudes.lean
  =========================================
  **What stays finite, and what stays zero.**

  Whether a sum of products overflows is decided by its factors, and powers of two are fine
  enough to decide it.  `Within e` bounds a number by `2 ^ e` units; one is `2 ^ 149` of them
  and infinity stands where `2 ^ 277` would.  A product is within any power that the exact
  product is below (`Within.mul`), and a sum loses no more than two powers (`Within.add`).

  Next to zero nothing is rounded.  Zero times a finite number is zero, a finite number less
  itself is zero, and adding zero changes no value.
-/
import Placement.Proofs.Binary32.Signs

namespace Placement

namespace Format

/-- The pattern whose fraction is empty. -/
theorem units_normal (k : Nat) : single.units ((k + 1) * 2 ^ 23) = 2 ^ (23 + k) := by
  have hdiv : (k + 1) * 2 ^ 23 / 2 ^ 23 = k + 1 := Nat.mul_div_cancel _ (Nat.two_pow_pos 23)
  have hmod : (k + 1) * 2 ^ 23 % 2 ^ 23 = 0 := Nat.mul_mod_left _ _
  simp only [units, single, Nat.pow_eq, hdiv, hmod, Nat.succ_ne_zero, if_false, Nat.add_zero,
    Nat.add_sub_cancel]
  exact (Nat.pow_add 2 23 k).symm

theorem nearest_le_of_lt {num den k : Nat} (h : num / den < 2 ^ (24 + k)) :
    single.nearest num den ≤ (k + 2) * 2 ^ 23 := by
  refine Nat.le_trans (Nat.min_le_left _ _) ?_
  have hround := roundDiv_le num (den * 2 ^ (Nat.log2 (num / den) - 23))
  have hbits := div_scaled_lt num den
  have hlog : Nat.log2 (num / den) ≤ 23 + k := by
    by_cases hzero : num / den = 0
    · rw [hzero, Nat.log2_zero]
      exact Nat.zero_le _
    · have hlt := (Nat.log2_lt hzero).mpr h
      omega
  simp only [Nat.pow_eq, single]
  have hexponent : Nat.log2 (num / den) - 23 ≤ k := by omega
  -- rounding may carry into the next exponent, which the bound leaves room for
  calc (Nat.log2 (num / den) - 23) * 2 ^ 23 +
        roundDiv num (den * 2 ^ (Nat.log2 (num / den) - 23))
      ≤ k * 2 ^ 23 + (num / (den * 2 ^ (Nat.log2 (num / den) - 23)) + 1) :=
        Nat.add_le_add (Nat.mul_le_mul_right _ hexponent) hround
    _ ≤ k * 2 ^ 23 + 2 ^ 24 := Nat.add_le_add_left hbits _
    _ = (k + 2) * 2 ^ 23 := by ring

end Format

namespace Binary32

variable {a b : Binary32} {d e i j : Nat}

/-! ### Finite closure -/

/-- A finite number of at most a power of two of units. -/
structure Within (e : Nat) (a : Binary32) : Prop where
  finite : a.isFinite = true
  units_le : a.units ≤ 2 ^ e

theorem Within.mono (h : a.Within d) (hde : d ≤ e) : a.Within e :=
  ⟨h.finite, Nat.le_trans h.units_le (Nat.pow_le_pow_right Nat.two_pos hde)⟩

theorem within_of_isFinite (h : a.isFinite = true) : a.Within 277 := by
  have hpattern : a.pattern < infinityPattern := of_decide_eq_true h
  have htop : Format.single.units infinityPattern = 2 ^ (23 + 254) := Format.units_normal 254
  refine ⟨h, ?_⟩
  calc a.units ≤ Format.single.units infinityPattern :=
        Nat.le_of_lt (Format.single.units_strictMono hpattern)
    _ ≤ 2 ^ 277 := by rw [htop]

theorem within_of_isZero (h : a.isZero = true) (e : Nat) : a.Within e := by
  have hpattern : a.pattern = 0 := of_decide_eq_true h
  refine ⟨decide_eq_true ?_, ?_⟩
  · rw [hpattern]
    decide
  · rw [units_of_isZero h]
    exact Nat.zero_le _

theorem isFinite_of_isZero (h : a.isZero = true) : a.isFinite = true :=
  (within_of_isZero h 0).finite

theorem Within.neg (h : a.Within e) : (-a).Within e := by
  have hneg : -a = Binary32.neg a := rfl
  rw [hneg]
  refine ⟨?_, ?_⟩
  · rw [isFinite, pattern_neg]
    exact h.finite
  · rw [units, pattern_neg]
    exact h.units_le

theorem within_round {num den : Nat} (negative : Bool) (hlow : 24 ≤ e) (hhigh : e < 277)
    (h : num / den < 2 ^ e) : (round negative num den).Within e := by
  obtain ⟨k, rfl⟩ := Nat.exists_eq_add_of_le hlow
  have hle := Format.nearest_le_of_lt h
  have hfinite : (k + 2) * 2 ^ 23 < infinityPattern := by
    have hinfinity : infinityPattern = 255 * 2 ^ 23 := by decide
    omega
  have hsign : Format.single.nearest num den < signBit :=
    lt_signBit_of_le (Nat.le_of_lt (Nat.lt_of_le_of_lt hle hfinite))
  -- the pattern of the power itself, which the result does not exceed
  have htop : Format.single.units ((k + 2) * 2 ^ 23) = 2 ^ (24 + k) := by
    rw [Format.units_normal]
    ring_nf
  refine ⟨decide_eq_true ?_, ?_⟩
  · rw [round, pattern_ofParts hsign]
    exact Nat.lt_of_le_of_lt hle hfinite
  · rw [units, round, pattern_ofParts hsign, ← htop]
    exact Format.single.units_strictMono.monotone hle

theorem mul_of_isFinite (ha : a.isFinite = true) (hb : b.isFinite = true) :
    a * b = round (a.negative != b.negative) (a.units * b.units) Format.single.one := by
  obtain ⟨hanum, hainf⟩ := isFinite_iff.mp ha
  obtain ⟨hbnum, hbinf⟩ := isFinite_iff.mp hb
  rcases mul_cases hanum hbnum with ⟨-, hcause⟩ | ⟨hinf, -⟩ | ⟨-, -, hresult⟩
  · simp [hainf, hbinf] at hcause
  · simp [hainf, hbinf] at hinf
  · exact hresult

theorem add_of_isFinite (ha : a.isFinite = true) (hb : b.isFinite = true) :
    a + b = if a.signedUnits + b.signedUnits = 0 then ofParts (a.negative && b.negative) 0
      else round (decide (a.signedUnits + b.signedUnits < 0))
        (a.signedUnits + b.signedUnits).natAbs 1 := by
  obtain ⟨hanum, hainf⟩ := isFinite_iff.mp ha
  obtain ⟨hbnum, hbinf⟩ := isFinite_iff.mp hb
  have hadd : a + b = add a b := rfl
  rw [hadd, add]
  simp only [hanum, hainf, hbnum, hbinf, Bool.or_self, Bool.false_eq_true, if_false]

theorem Within.mul (ha : a.Within i) (hb : b.Within j) (hlow : 24 ≤ e) (hhigh : e < 277)
    (h : i + j < e + 149) : (a * b).Within e := by
  have hone : Format.single.one = 2 ^ 149 := rfl
  rw [mul_of_isFinite ha.finite hb.finite]
  apply within_round _ hlow hhigh
  rw [hone, Nat.div_lt_iff_lt_mul (Nat.two_pow_pos 149), ← Nat.pow_add]
  calc a.units * b.units ≤ 2 ^ i * 2 ^ j := Nat.mul_le_mul ha.units_le hb.units_le
    _ = 2 ^ (i + j) := (Nat.pow_add 2 i j).symm
    _ < 2 ^ (e + 149) := Nat.pow_lt_pow_right (by decide) h

theorem natAbs_signedUnits (a : Binary32) : a.signedUnits.natAbs = a.units := by
  rw [signedUnits]
  split
  · exact (Int.natAbs_neg _).trans (Int.natAbs_natCast _)
  · exact Int.natAbs_natCast _

theorem isZero_ofParts (negative : Bool) : (ofParts negative 0).isZero = true := by
  rw [isZero, pattern_ofParts (by decide)]
  rfl

theorem Within.add (ha : a.Within e) (hb : b.Within e) (hlow : 22 ≤ e) (hhigh : e + 2 < 277) :
    (a + b).Within (e + 2) := by
  rw [add_of_isFinite ha.finite hb.finite]
  split
  · exact within_of_isZero (isZero_ofParts _) _
  · refine within_round _ (by omega) hhigh ?_
    rw [Nat.div_one]
    calc (a.signedUnits + b.signedUnits).natAbs
        ≤ a.signedUnits.natAbs + b.signedUnits.natAbs := Int.natAbs_add_le _ _
      _ = a.units + b.units := by rw [natAbs_signedUnits, natAbs_signedUnits]
      _ ≤ 2 ^ e + 2 ^ e := Nat.add_le_add ha.units_le hb.units_le
      _ = 2 ^ (e + 1) := by rw [Nat.pow_succ, Nat.mul_two]
      _ < 2 ^ (e + 2) := Nat.pow_lt_pow_right (by decide) (Nat.lt_succ_self _)

/-! ### Zeros -/

theorem isZero_mul (ha : a.isFinite = true) (hb : b.isFinite = true)
    (hzero : a.isZero = true ∨ b.isZero = true) : (a * b).isZero = true := by
  have hunits : a.units * b.units = 0 := by
    rcases hzero with hzero | hzero
    · rw [units_of_isZero hzero, Nat.zero_mul]
    · rw [units_of_isZero hzero, Nat.mul_zero]
  rw [← key_eq_zero_iff, mul_of_isFinite ha hb, hunits, key_round_zero]

theorem isZero_add (ha : a.isZero = true) (hb : b.isZero = true) : (a + b).isZero = true := by
  rw [add_of_isFinite (isFinite_of_isZero ha) (isFinite_of_isZero hb), signedUnits_of_isZero ha,
    signedUnits_of_isZero hb]
  exact isZero_ofParts _

theorem isZero_sub_self (ha : a.isFinite = true) : (a - a).isZero = true := by
  obtain ⟨hnum, hinf⟩ := isFinite_iff.mp ha
  obtain ⟨-, hside⟩ := sub_of_finite hnum hnum hinf hinf
  exact key_eq_zero_iff.mp (hside.2.2 rfl)

/-- Adding zero changes no value; it may change the sign of another zero. -/
theorem sameValue_add_of_isZero (ha : a.isZero = true) (hb : b.isFinite = true) :
    Scalar.sameValue (a + b) b = true := by
  have hnum := (isFinite_iff.mp hb).1
  rw [add_of_isFinite (isFinite_of_isZero ha) hb, signedUnits_of_isZero ha, zero_add]
  split
  · -- the sum of two zeros may have another sign than `b`
    rename_i hunits
    have hzero : b.isZero = true := by
      by_contra h
      have hpos := units_pos (Bool.eq_false_iff.mpr h)
      rw [← natAbs_signedUnits, hunits] at hpos
      exact Nat.lt_irrefl 0 hpos
    refine sameValue_iff.mpr ⟨isNaN_ofParts (Nat.zero_le _) _, hnum, ?_⟩
    rw [key_eq_zero_iff.mpr hzero, key_eq_zero_iff.mpr (isZero_ofParts _)]
  · -- the sum is `b` rounded once more, and `b` is there already
    rename_i hunits
    have hsign : decide (b.signedUnits < 0) = b.negative := by
      rw [signedUnits] at hunits ⊢
      cases hneg : b.negative with
      | false =>
        rw [if_neg Bool.false_ne_true]
        exact decide_eq_false (Int.not_lt.mpr (Int.natCast_nonneg _))
      | true =>
        rw [hneg, if_pos rfl] at hunits
        rw [if_pos rfl]
        exact decide_eq_true (by omega)
    have hrounded : round b.negative b.units 1 = b := by
      have hnearest := Format.nearest_units (f := .single) (of_decide_eq_true hb) Nat.one_pos
      rw [Nat.mul_one] at hnearest
      rw [round, units, hnearest, ofParts_parts]
    rw [hsign, natAbs_signedUnits, hrounded]
    exact sameValue_of_le_of_le (le_refl hnum) (le_refl hnum)

/-! ### No numbers -/

theorem isNaN_add_of_isNaN (h : a.isNaN = true ∨ b.isNaN = true) : (a + b).isNaN = true := by
  have hadd : a + b = add a b := rfl
  rw [hadd, add, if_pos (Bool.or_eq_true_iff.mpr h)]
  decide

end Binary32

end Placement
