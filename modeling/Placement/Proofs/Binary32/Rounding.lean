/-
  Placement/Proofs/Binary32/Rounding.lean
  =======================================
  **What rounding makes of a magnitude.**

  A rounded magnitude is a pattern up to that of infinity, so a rounded number is a number
  (`isNaN_round`), and arithmetic loses its value only where it says so.  A magnitude that
  the format has is its own rounding (`Format.nearest_units`); in particular a product with
  one is exact.
-/
import Mathlib
import Placement.Proofs.Binary32.Order

namespace Placement

theorem roundDiv_mul {den : Nat} (hden : 0 < den) (q : Nat) : roundDiv (q * den) den = q := by
  have hmod : q * den % den = 0 := Nat.mul_mod_left q den
  have hdiv : q * den / den = q := Nat.mul_div_cancel q hden
  rw [roundDiv, hmod, hdiv]
  exact if_pos (by omega)

namespace Format

variable {f : Format}

theorem nearest_le_infinity (num den : Nat) : f.nearest num den ≤ f.infinity :=
  Nat.min_le_right _ _

theorem log2_normal {m : Nat} (hm : m < 2 ^ f.fracBits) (e : Nat) :
    Nat.log2 ((2 ^ f.fracBits + m) * 2 ^ e) = f.fracBits + e := by
  have hpos : 0 < 2 ^ f.fracBits := Nat.two_pow_pos _
  have hlow : 2 ^ (f.fracBits + e) ≤ (2 ^ f.fracBits + m) * 2 ^ e := by
    rw [Nat.pow_add]
    exact Nat.mul_le_mul_right _ (Nat.le_add_right _ _)
  have hhigh : (2 ^ f.fracBits + m) * 2 ^ e < 2 ^ (f.fracBits + e + 1) := by
    rw [Nat.add_right_comm, Nat.pow_add]
    refine Nat.mul_lt_mul_of_pos_right ?_ (Nat.two_pow_pos e)
    rw [Nat.pow_succ]
    omega
  have hne : (2 ^ f.fracBits + m) * 2 ^ e ≠ 0 :=
    Nat.mul_ne_zero (by omega) (Nat.ne_of_gt (Nat.two_pow_pos e))
  exact (Nat.log2_eq_iff hne).mpr ⟨hlow, hhigh⟩

/-- A finite pattern is the one nearest to its own magnitude. -/
theorem nearest_units {p den : Nat} (hp : p < f.infinity) (hden : 0 < den) :
    f.nearest (f.units p * den) den = p := by
  have hm : p % 2 ^ f.fracBits < 2 ^ f.fracBits := Nat.mod_lt _ (Nat.two_pow_pos _)
  have hparts : p / 2 ^ f.fracBits * 2 ^ f.fracBits + p % 2 ^ f.fracBits = p :=
    Nat.div_add_mod' p _
  simp only [nearest, Nat.mul_div_cancel _ hden, Nat.pow_eq]
  by_cases he : p / 2 ^ f.fracBits = 0
  · have hunits : f.units p = p % 2 ^ f.fracBits := by
      simp only [units, Nat.pow_eq, he, if_true]
    have hk : Nat.log2 (p % 2 ^ f.fracBits) - f.fracBits = 0 := by
      by_cases hzero : p % 2 ^ f.fracBits = 0
      · rw [hzero, Nat.log2_zero, Nat.zero_sub]
      · have hlog := (Nat.log2_lt hzero).mpr hm
        omega
    rw [hunits, hk, Nat.zero_mul, Nat.pow_zero, Nat.mul_one, roundDiv_mul hden]
    rw [he] at hparts
    omega
  · obtain ⟨e, hsucc⟩ := Nat.exists_eq_add_one_of_ne_zero he
    have hunits : f.units p = (2 ^ f.fracBits + p % 2 ^ f.fracBits) * 2 ^ e := by
      simp only [units, Nat.pow_eq, hsucc, Nat.add_sub_cancel, Nat.add_one_ne_zero, if_false]
    have hk : Nat.log2 ((2 ^ f.fracBits + p % 2 ^ f.fracBits) * 2 ^ e) - f.fracBits = e := by
      rw [log2_normal hm]
      omega
    have hscale : (2 ^ f.fracBits + p % 2 ^ f.fracBits) * 2 ^ e * den =
        (2 ^ f.fracBits + p % 2 ^ f.fracBits) * (den * 2 ^ e) := by
      rw [Nat.mul_assoc, Nat.mul_comm (2 ^ e) den]
    rw [hunits, hk, hscale, roundDiv_mul (Nat.mul_pos hden (Nat.two_pow_pos e))]
    rw [hsucc, Nat.succ_mul] at hparts
    omega

end Format

namespace Binary32

variable {a b : Binary32}

/-! ### Words from parts -/

theorem pattern_lt (a : Binary32) : a.pattern < signBit := Nat.mod_lt _ (by decide)

theorem toNat_bits_ofParts {p : Nat} (hp : p < signBit) (negative : Bool) :
    (ofParts negative p).bits.toNat = if negative then signBit + p else p := by
  have hlt : (if negative then signBit + p else p) < 2 ^ 32 := by
    rw [signBit] at hp ⊢
    split <;> omega
  exact UInt32.toNat_ofNat_of_lt' hlt

theorem pattern_ofParts {p : Nat} (hp : p < signBit) (negative : Bool) :
    (ofParts negative p).pattern = p := by
  rw [pattern, toNat_bits_ofParts hp]
  cases negative with
  | false => exact Nat.mod_eq_of_lt hp
  | true => exact (Nat.add_mod_left _ _).trans (Nat.mod_eq_of_lt hp)

theorem ofParts_parts (a : Binary32) : ofParts a.negative a.pattern = a := by
  have hword : a.bits.toNat < 2 ^ 32 := a.bits.toNat_lt
  have hbits : (ofParts a.negative a.pattern).bits = a.bits := by
    rw [← UInt32.toNat_inj, toNat_bits_ofParts a.pattern_lt]
    by_cases hsign : signBit ≤ a.bits.toNat
    · rw [if_pos (by simpa [negative] using hsign), pattern]
      rw [signBit] at hsign ⊢
      omega
    · rw [if_neg (by simpa [negative] using hsign), pattern]
      rw [signBit] at hsign ⊢
      omega
  cases h : ofParts a.negative a.pattern
  rw [h] at hbits
  cases a
  exact congrArg mk hbits

theorem isNaN_ofParts {p : Nat} (hp : p ≤ infinityPattern) (negative : Bool) :
    (ofParts negative p).isNaN = false := by
  have hlt : p < signBit := Nat.lt_of_le_of_lt hp (by decide)
  rw [isNaN, pattern_ofParts hlt]
  exact decide_eq_false (Nat.not_lt.mpr hp)

theorem isNaN_round (negative : Bool) (num den : Nat) : (round negative num den).isNaN = false :=
  isNaN_ofParts (Format.nearest_le_infinity num den) negative

/-! ### Products -/

theorem isFinite_iff : a.isFinite = true ↔ a.isNaN = false ∧ a.isInfinite = false := by
  rw [isFinite, isNaN, isInfinite, decide_eq_true_eq, decide_eq_false_iff_not,
    decide_eq_false_iff_not]
  omega

theorem pattern_of_isInfinite (ha : a.isInfinite = true) : a.pattern = infinityPattern :=
  of_decide_eq_true ha

theorem isZero_of_isInfinite (ha : a.isInfinite = true) : a.isZero = false := by
  rw [isZero, pattern_of_isInfinite ha]
  decide

/-- A number times a finite one that is not zero is a number. -/
theorem isNaN_mul (ha : a.isNaN = false) (hb : b.isFinite = true) (hzero : b.isZero = false) :
    (a * b).isNaN = false := by
  have hmul : a * b = mul a b := rfl
  obtain ⟨hbnum, hbinf⟩ := isFinite_iff.mp hb
  rw [hmul, mul]
  simp only [ha, hbnum, hbinf, hzero, Bool.or_false, Bool.false_eq_true, if_false]
  by_cases hinf : a.isInfinite = true
  · rw [if_pos hinf, isZero_of_isInfinite hinf, if_neg Bool.false_ne_true]
    exact isNaN_ofParts (Nat.le_refl _) _
  · rw [if_neg hinf]
    exact isNaN_round _ _ _

theorem mul_one (ha : a.isNaN = false) : a * one = a := by
  have hmul : a * one = mul a one := rfl
  have hone : one.isNaN = false ∧ one.isInfinite = false ∧ one.isZero = false ∧
      one.negative = false ∧ one.units = Format.single.one := by decide
  obtain ⟨hnum, hinf, hzero, hsign, hunits⟩ := hone
  rw [hmul, mul]
  simp only [ha, hnum, hinf, hzero, hsign, hunits, Bool.or_false, Bool.bne_false,
    Bool.false_eq_true, if_false]
  by_cases hainf : a.isInfinite = true
  · rw [if_pos hainf, isZero_of_isInfinite hainf, if_neg Bool.false_ne_true,
      ← pattern_of_isInfinite hainf, ofParts_parts]
  · have hfinite : a.pattern < infinityPattern :=
      of_decide_eq_true (isFinite_iff.mpr ⟨ha, by simpa using hainf⟩)
    have hpos : 0 < Format.single.one := Nat.two_pow_pos _
    rw [if_neg hainf, round, units, Format.nearest_units hfinite hpos, ofParts_parts]

end Binary32

end Placement
