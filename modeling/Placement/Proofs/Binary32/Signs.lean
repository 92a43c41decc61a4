/-
  Placement/Proofs/Binary32/Signs.lean
  ====================================
  **The signs of differences, products and inverses.**

  Rounding never turns a number into one of the other sign.  A difference keeps its sign
  entirely, since the least positive number is a unit of all of them (`sub_cases`); a
  product may become zero.  What has no value is told apart from this: a difference of equal
  infinities, and zero times infinity (`isNaN_mul_iff`).

  The inverse of a number is infinite before the number is zero, namely up to
  `greatestWithoutInverse`, for there is no room for the inverse among the finite numbers
  (`isInfinite_inverse_iff`).
-/
import Placement.Proofs.Binary32.Rounding

namespace Placement

theorem div_le_roundDiv (num den : Nat) : num / den ≤ roundDiv num den := by
  simp only [roundDiv]
  split
  · exact Nat.le_refl _
  · split <;> omega

theorem roundDiv_le (num den : Nat) : roundDiv num den ≤ num / den + 1 := by
  simp only [roundDiv]
  split
  · omega
  · split <;> omega

theorem ne_zero_of_two_pow_le {e q : Nat} (h : 2 ^ e ≤ q) : q ≠ 0 :=
  Nat.ne_of_gt (Nat.lt_of_lt_of_le (Nat.two_pow_pos e) h)

theorem two_pow_lt_mul {k e m n : Nat} (hm : m = k + e) (h : 2 ^ k < n) : 2 ^ m < n * 2 ^ e := by
  rw [hm, Nat.pow_add]
  exact Nat.mul_lt_mul_of_pos_right h (Nat.two_pow_pos e)

theorem mul_le_two_pow {k e m n : Nat} (hm : e + k ≤ m) (h : n ≤ 2 ^ k) : 2 ^ e * n ≤ 2 ^ m := by
  refine Nat.le_trans (Nat.mul_le_mul_left _ h) ?_
  rw [← Nat.pow_add]
  exact Nat.pow_le_pow_right Nat.two_pos hm

namespace Format

theorem units_strictMono (f : Format) : StrictMono f.units := by
  refine strictMono_nat_of_lt_succ ?_
  intro p
  have hpos : 0 < 2 ^ f.fracBits := Nat.two_pow_pos _
  have hparts : p / 2 ^ f.fracBits * 2 ^ f.fracBits + p % 2 ^ f.fracBits = p := Nat.div_add_mod' p _
  have hm : p % 2 ^ f.fracBits < 2 ^ f.fracBits := Nat.mod_lt _ hpos
  simp only [units, Nat.pow_eq]
  generalize p / 2 ^ f.fracBits = e at hparts
  generalize p % 2 ^ f.fracBits = m at hparts hm
  generalize 2 ^ f.fracBits = lead at hpos hparts hm
  subst hparts
  by_cases hcarry : m + 1 < lead
  · have hdiv : (e * lead + m + 1) / lead = e := by
      rw [Nat.add_assoc, Nat.mul_comm, Nat.mul_add_div hpos, Nat.div_eq_of_lt hcarry, Nat.add_zero]
    have hmod : (e * lead + m + 1) % lead = m + 1 := by
      rw [Nat.add_assoc, Nat.mul_comm, Nat.mul_add_mod, Nat.mod_eq_of_lt hcarry]
    rw [hdiv, hmod]
    split
    · exact Nat.lt_succ_self m
    · exact Nat.mul_lt_mul_of_pos_right (by omega) (Nat.two_pow_pos _)
  · -- the fraction is full, and the next pattern has the next exponent
    have hfull : m + 1 = lead := by omega
    have hdiv : (e * lead + m + 1) / lead = e + 1 := by
      rw [Nat.add_assoc, hfull, ← Nat.succ_mul, Nat.mul_div_cancel _ hpos]
    have hmod : (e * lead + m + 1) % lead = 0 := by
      rw [Nat.add_assoc, hfull, ← Nat.succ_mul, Nat.mul_mod_left]
    rw [hdiv, hmod, if_neg (Nat.succ_ne_zero e), Nat.add_sub_cancel, Nat.add_zero]
    rcases e with _ | e
    · simp
      omega
    · rw [if_neg (Nat.succ_ne_zero e), Nat.add_sub_cancel, Nat.pow_succ, Nat.mul_comm (2 ^ e) 2,
        ← Nat.mul_assoc]
      exact Nat.mul_lt_mul_of_pos_right (by omega) (Nat.two_pow_pos e)

theorem nearest_pos {f : Format} {num den : Nat} (hf : 0 < f.infinity) (hden : 0 < den)
    (h : den ≤ num) : 0 < f.nearest num den := by
  refine Nat.lt_min.mpr ⟨?_, hf⟩
  rcases Nat.eq_zero_or_pos (Nat.log2 (num / den) - f.fracBits) with hk | hk
  · have hone : 0 < num / den := Nat.div_pos h hden
    have hle := div_le_roundDiv num den
    rw [hk, Nat.pow_eq, Nat.pow_eq, Nat.pow_zero, Nat.mul_one]
    omega
  · exact Nat.add_pos_left (Nat.mul_pos hk (Nat.two_pow_pos _)) _

/-- Scaled down for rounding, a quotient has no more bits than a fraction with its leading one. -/
theorem div_scaled_lt (num n : Nat) :
    num / (n * 2 ^ (Nat.log2 (num / n) - 23)) < 2 ^ 24 := by
  rw [← Nat.div_div_eq_div_mul]
  refine Nat.div_lt_of_lt_mul ?_
  rw [← Nat.pow_add]
  refine Nat.lt_of_lt_of_le Nat.lt_log2_self (Nat.pow_le_pow_right (by decide) ?_)
  omega

/-- A quotient below a power of two that is out of range does not overflow, unless rounding
    carries it there. -/
theorem nearest_lt_infinity {num n : Nat} (hnum : num < n * 2 ^ 277)
    (hcarry : num / (n * 2 ^ 253) + 1 < 2 ^ 24) : single.nearest num n < single.infinity := by
  have hq : num / n < 2 ^ 277 := Nat.div_lt_of_lt_mul hnum
  have hinfinity : single.infinity = 255 * 2 ^ 23 := by decide
  refine Nat.lt_of_le_of_lt (Nat.min_le_left _ _) ?_
  rw [hinfinity]
  simp only [Nat.pow_eq, single]
  have hbits := div_scaled_lt num n
  generalize hk : Nat.log2 (num / n) - 23 = k at hbits
  have hround := roundDiv_le num (n * 2 ^ k)
  have hle : k ≤ 253 := by
    by_cases hzero : num / n = 0
    · rw [hzero, Nat.log2_zero] at hk
      omega
    · have hlt := (Nat.log2_lt hzero).mpr hq
      omega
  rcases Nat.lt_or_eq_of_le hle with hlt | rfl
  · omega
  · omega

theorem infinity_le_nearest {num n e : Nat} (he : 277 ≤ e) (hn : 0 < n) (hnum : 2 ^ e * n ≤ num) :
    single.nearest num n = single.infinity := by
  have hq : 2 ^ e ≤ num / n := (Nat.le_div_iff_mul_le hn).mpr hnum
  have hne : num / n ≠ 0 := ne_zero_of_two_pow_le hq
  have hlog : e ≤ Nat.log2 (num / n) := (Nat.le_log2 hne).mpr hq
  have hinfinity : single.infinity = 255 * 2 ^ 23 := by decide
  refine Nat.min_eq_right ?_
  rw [hinfinity]
  simp only [Nat.pow_eq, single]
  generalize hk : Nat.log2 (num / n) - 23 = k
  have hround := div_le_roundDiv num (n * 2 ^ k)
  have hbits : 2 ^ 23 ≤ num / (n * 2 ^ k) := by
    rw [← Nat.div_div_eq_div_mul, Nat.le_div_iff_mul_le (Nat.two_pow_pos k), ← Nat.pow_add]
    refine Nat.le_trans (Nat.pow_le_pow_right (by decide) ?_) (Nat.log2_self_le hne)
    omega
  omega

end Format

namespace Binary32

variable {a b c : Binary32}

/-! ### Signs -/

theorem negative_ofParts {p : Nat} (hp : p < signBit) (negative : Bool) :
    (ofParts negative p).negative = negative := by
  rw [Binary32.negative, toNat_bits_ofParts hp]
  cases negative with
  | false => exact decide_eq_false (Nat.not_le.mpr hp)
  | true => exact decide_eq_true (Nat.le_add_right _ _)

theorem lt_signBit_of_le {p : Nat} (hp : p ≤ infinityPattern) : p < signBit :=
  Nat.lt_of_le_of_lt hp (by decide)

theorem key_ofParts {p : Nat} (hp : p ≤ infinityPattern) (negative : Bool) :
    (ofParts negative p).key = if negative then -(p : Int) else p := by
  rw [key, negative_ofParts (lt_signBit_of_le hp), pattern_ofParts (lt_signBit_of_le hp)]

theorem zero_lt_iff : zero < a ↔ a.isNaN = false ∧ 0 < a.key :=
  ⟨fun h => h.2, fun h => ⟨by decide, h⟩⟩

theorem lt_zero_iff : a < zero ↔ a.isNaN = false ∧ a.key < 0 :=
  ⟨fun h => ⟨h.1, h.2.2⟩, fun h => ⟨h.1, by decide, h.2⟩⟩

theorem key_eq_zero_iff : a.key = 0 ↔ a.isZero = true := by
  rw [key, isZero, decide_eq_true_eq]
  split <;> omega

theorem pattern_le (ha : a.isNaN = false) : a.pattern ≤ infinityPattern := by
  simpa [isNaN] using ha

theorem key_of_isInfinite (ha : a.isInfinite = true) :
    a.key = if a.negative then -(infinityPattern : Int) else infinityPattern := by
  rw [key, pattern_of_isInfinite ha]

/-- No two words have one key but the two zeros. -/
theorem eq_of_key_eq (h : a.key = b.key) (hne : b.key ≠ 0) : a = b := by
  rw [key, key] at h
  rw [key] at hne
  have hparts : a.negative = b.negative ∧ a.pattern = b.pattern := by
    cases ha : a.negative <;> cases hb : b.negative <;> simp [ha, hb] at h hne ⊢ <;> omega
  rw [← ofParts_parts a, ← ofParts_parts b, hparts.1, hparts.2]

theorem eq_posInf_of_le (h : posInf ≤ a) : a = posInf :=
  eq_of_key_eq (Int.le_antisymm (le_posInf h.2.1).2.2 h.2.2) (by decide)

theorem eq_negInf_of_le (h : a ≤ negInf) : a = negInf :=
  eq_of_key_eq (Int.le_antisymm h.2.2 (negInf_le h.1).2.2) (by decide)

/-! ### Differences -/

theorem pattern_neg (a : Binary32) : (neg a).pattern = a.pattern :=
  pattern_ofParts a.pattern_lt _

theorem negative_neg (a : Binary32) : (neg a).negative = !a.negative :=
  negative_ofParts a.pattern_lt _

theorem signedUnits_neg (a : Binary32) : (neg a).signedUnits = -a.signedUnits := by
  rw [signedUnits, signedUnits, negative_neg, units, units, pattern_neg]
  cases a.negative <;> simp

/-- The order of numbers is the order of their magnitudes with signs. -/
theorem signedUnits_lt (h : a.key < b.key) : a.signedUnits < b.signedUnits := by
  have hmono := Format.single.units_strictMono
  have hzero : Format.single.units 0 = 0 := by decide
  have hle : ∀ p, (0 : Int) ≤ Format.single.units p := fun p => Int.natCast_nonneg _
  rw [key, key] at h
  rw [signedUnits, signedUnits, units, units]
  cases ha : a.negative <;> cases hb : b.negative <;>
    simp only [ha, hb, Bool.false_eq_true, if_true, if_false] at h ⊢
  · exact Int.ofNat_lt.mpr (hmono (Int.ofNat_lt.mp h))
  · omega
  · -- one of the two is not zero
    rcases Nat.eq_zero_or_pos a.pattern with hpattern | hpattern
    · have hlt := hmono (by omega : 0 < b.pattern)
      rw [hpattern, hzero]
      omega
    · have hlt := hmono hpattern
      have := hle b.pattern
      omega
  · have hlt := hmono (by omega : b.pattern < a.pattern)
    omega

theorem units_of_isZero (h : a.isZero = true) : a.units = 0 := by
  have hpattern : a.pattern = 0 := of_decide_eq_true h
  rw [units, hpattern]
  decide

theorem signedUnits_of_isZero (h : a.isZero = true) : a.signedUnits = 0 := by
  rw [signedUnits, units_of_isZero h]
  simp

theorem signedUnits_congr (h : a.key = b.key) : a.signedUnits = b.signedUnits := by
  by_cases hzero : b.key = 0
  · rw [signedUnits_of_isZero (key_eq_zero_iff.mp (h.trans hzero)),
      signedUnits_of_isZero (key_eq_zero_iff.mp hzero)]
  · rw [eq_of_key_eq h hzero]

theorem key_round_lt_zero {num : Int} (h : num < 0) :
    (round (decide (num < 0)) num.natAbs 1).key < 0 := by
  have hpos : 0 < Format.single.nearest num.natAbs 1 :=
    Format.nearest_pos (by decide) Nat.one_pos (by omega)
  rw [round, key_ofParts (Format.nearest_le_infinity _ _), decide_eq_true h, if_pos rfl]
  omega

theorem zero_lt_key_round {num : Int} (h : 0 < num) :
    0 < (round (decide (num < 0)) num.natAbs 1).key := by
  have hpos : 0 < Format.single.nearest num.natAbs 1 :=
    Format.nearest_pos (by decide) Nat.one_pos (by omega)
  have hsign : ¬ num < 0 := by omega
  rw [round, key_ofParts (Format.nearest_le_infinity _ _), decide_eq_false hsign,
    if_neg Bool.false_ne_true]
  omega

theorem key_neg (a : Binary32) : (neg a).key = -a.key := by
  rw [key, key, pattern_neg, negative_neg]
  cases a.negative <;> simp

theorem key_between (ha : a.isNaN = false) (hinf : a.isInfinite = false) :
    -(infinityPattern : Int) < a.key ∧ a.key < infinityPattern := by
  have hlt : a.pattern < infinityPattern :=
    Nat.lt_of_le_of_ne (pattern_le ha) (of_decide_eq_false hinf)
  rw [key]
  split <;> omega

/-- The number is on the same side of zero as the first of two on the side of the other. -/
def HasSideOf (d a b : Binary32) : Prop :=
  (a.key < b.key → d.key < 0) ∧ (b.key < a.key → 0 < d.key) ∧ (a.key = b.key → d.key = 0)

theorem sub_of_finite (ha : a.isNaN = false) (hb : b.isNaN = false)
    (hainf : a.isInfinite = false) (hbinf : b.isInfinite = false) :
    (a - b).isNaN = false ∧ HasSideOf (a - b) a b := by
  have hsub : a - b = add a (neg b) := rfl
  have hnum : (neg b).isNaN = false := by rwa [isNaN, pattern_neg]
  have hfinite : (neg b).isInfinite = false := by rwa [isInfinite, pattern_neg]
  rw [hsub, add]
  simp only [ha, hnum, hainf, hfinite, Bool.or_self, Bool.false_eq_true, if_false, signedUnits_neg,
    ← Int.sub_eq_add_neg]
  rcases Int.lt_trichotomy a.key b.key with hlt | heq | hgt
  · have hunits : a.signedUnits - b.signedUnits < 0 := by
      have := signedUnits_lt hlt
      omega
    have hkey := key_round_lt_zero hunits
    rw [if_neg (Int.ne_of_lt hunits)]
    exact ⟨isNaN_round _ _ _, by unfold HasSideOf; omega⟩
  · have hunits : a.signedUnits - b.signedUnits = 0 := by
      rw [signedUnits_congr heq, Int.sub_self]
    have hkey : (ofParts (a.negative && (neg b).negative) 0).key = 0 := by
      rw [key_ofParts (Nat.zero_le _)]
      simp
    rw [if_pos hunits]
    exact ⟨isNaN_ofParts (Nat.zero_le _) _, by unfold HasSideOf; omega⟩
  · have hunits : 0 < a.signedUnits - b.signedUnits := by
      have := signedUnits_lt hgt
      omega
    have hkey := zero_lt_key_round hunits
    rw [if_neg (Int.ne_of_gt hunits)]
    exact ⟨isNaN_round _ _ _, by unfold HasSideOf; omega⟩

/-- A difference is a number on the right side of zero, unless it is one of equal infinities.
    What is taken from something else than itself stays infinite. -/
theorem sub_cases (ha : a.isNaN = false) (hb : b.isNaN = false) :
    ((a - b).isNaN = true ∧ a.key = b.key ∧ b.isInfinite = true) ∨
    ((a - b).isNaN = false ∧ HasSideOf (a - b) a b ∧
      (b.isInfinite = true → (a - b).isInfinite = true ∧ a.key ≠ b.key)) := by
  have hsub : a - b = add a (neg b) := rfl
  have hnum : (neg b).isNaN = false := by rwa [isNaN, pattern_neg]
  have hsame : (neg b).isInfinite = b.isInfinite := by rw [isInfinite, isInfinite, pattern_neg]
  have hpos : 0 < infinityPattern := by decide
  rcases hainf : a.isInfinite with _ | _ <;> rcases hbinf : b.isInfinite with _ | _
  · obtain ⟨hvalue, hside⟩ := sub_of_finite ha hb hainf hbinf
    exact .inr ⟨hvalue, hside, fun h => absurd h Bool.false_ne_true⟩
  · have hresult : a - b = neg b := by
      rw [hsub, add]
      simp [ha, hnum, hainf, hsame, hbinf]
    have hkey := key_of_isInfinite hbinf
    have hbetween := key_between ha hainf
    have hne : a.key ≠ b.key := by split at hkey <;> omega
    rw [hresult]
    refine .inr ⟨hnum, ?_, fun _ => ⟨hsame.trans hbinf, hne⟩⟩
    rw [HasSideOf, key_neg]
    split at hkey <;> omega
  · have hresult : a - b = a := by
      rw [hsub, add]
      simp [ha, hnum, hainf, hsame, hbinf]
    have hkey := key_of_isInfinite hainf
    have hbetween := key_between hb hbinf
    rw [hresult]
    refine .inr ⟨ha, ?_, fun h => absurd h Bool.false_ne_true⟩
    rw [HasSideOf]
    split at hkey <;> omega
  · have hkeya := key_of_isInfinite hainf
    have hkeyb := key_of_isInfinite hbinf
    by_cases hsign : a.negative = b.negative
    · have hresult : a - b = nan := by
        rw [hsub, add]
        simp [ha, hnum, hainf, hsame, hbinf, negative_neg, hsign]
      rw [hresult]
      exact .inl ⟨by decide, by rw [hkeya, hkeyb, hsign], rfl⟩
    · have hresult : a - b = a := by
        rw [hsub, add]
        simp [ha, hnum, hainf, hsame, hbinf, negative_neg, hsign]
      rw [hresult]
      cases hna : a.negative <;> cases hnb : b.negative <;>
        simp only [hna, hnb, Bool.false_eq_true, if_true, if_false] at hkeya hkeyb hsign
      · exact absurd trivial hsign
      · refine .inr ⟨ha, by unfold HasSideOf; omega, fun _ => ⟨hainf, by omega⟩⟩
      · refine .inr ⟨ha, by unfold HasSideOf; omega, fun _ => ⟨hainf, by omega⟩⟩
      · exact absurd trivial hsign

/-! ### Products -/

theorem mul_cases (ha : a.isNaN = false) (hb : b.isNaN = false) :
    ((a * b).isNaN = true ∧
      (a.isZero = true ∧ b.isInfinite = true ∨ a.isInfinite = true ∧ b.isZero = true)) ∨
    ((a.isInfinite = true ∨ b.isInfinite = true) ∧ a.isZero = false ∧ b.isZero = false ∧
      a * b = ofParts (a.negative != b.negative) infinityPattern) ∨
    (a.isInfinite = false ∧ b.isInfinite = false ∧
      a * b = round (a.negative != b.negative) (a.units * b.units) Format.single.one) := by
  have hmul : a * b = mul a b := rfl
  rw [hmul, mul]
  simp only [ha, hb, Bool.or_self, Bool.false_eq_true, if_false]
  by_cases hinf : (a.isInfinite || b.isInfinite) = true
  · rw [if_pos hinf]
    rw [Bool.or_eq_true] at hinf
    by_cases hzero : (a.isZero || b.isZero) = true
    · rw [if_pos hzero]
      rw [Bool.or_eq_true] at hzero
      refine .inl ⟨by decide, ?_⟩
      -- an infinite number is not the one that is zero
      rcases hinf with hinf | hinf <;> rcases hzero with hzero | hzero
      · rw [isZero_of_isInfinite hinf] at hzero
        cases hzero
      · exact .inr ⟨hinf, hzero⟩
      · exact .inl ⟨hzero, hinf⟩
      · rw [isZero_of_isInfinite hinf] at hzero
        cases hzero
    · rw [if_neg hzero]
      rw [Bool.or_eq_true, not_or, Bool.not_eq_true, Bool.not_eq_true] at hzero
      exact .inr (.inl ⟨hinf, hzero.1, hzero.2, rfl⟩)
  · rw [if_neg hinf]
    rw [Bool.or_eq_true, not_or, Bool.not_eq_true, Bool.not_eq_true] at hinf
    exact .inr (.inr ⟨hinf.1, hinf.2, rfl⟩)

theorem isNaN_mul_of_isNaN (h : a.isNaN = true ∨ b.isNaN = true) : (a * b).isNaN = true := by
  have hmul : a * b = mul a b := rfl
  rw [hmul, mul, if_pos (Bool.or_eq_true_iff.mpr h)]
  decide

theorem isNaN_mul_iff (ha : a.isNaN = false) (hb : b.isNaN = false) :
    (a * b).isNaN = true ↔
      a.isZero = true ∧ b.isInfinite = true ∨ a.isInfinite = true ∧ b.isZero = true := by
  rcases mul_cases ha hb with ⟨hnan, hcause⟩ | ⟨-, hazero, hbzero, hresult⟩ |
    ⟨hainf, hbinf, hresult⟩
  · exact ⟨fun _ => hcause, fun _ => hnan⟩
  · rw [hresult, isNaN_ofParts (Nat.le_refl _), hazero, hbzero]
    simp
  · rw [hresult, isNaN_round, hainf, hbinf]
    simp

theorem negative_eq_of_zero_lt (h : 0 < a.key) : a.negative = false := by
  rw [key] at h
  split at h
  · omega
  next hsign => exact Bool.eq_false_iff.mpr hsign

theorem negative_eq_of_lt_zero (h : a.key < 0) : a.negative = true := by
  rw [key] at h
  split at h
  next hsign => exact hsign
  · omega

theorem key_lt_zero_iff (h : a.isZero = false) : a.key < 0 ↔ a.negative = true := by
  have hpattern : a.pattern ≠ 0 := of_decide_eq_false h
  rw [key]
  split
  next hsign => exact iff_of_true (by omega) hsign
  next hsign => exact iff_of_false (by omega) hsign

theorem key_round_zero (negative : Bool) (den : Nat) : (round negative 0 den).key = 0 := by
  have hnearest : Format.single.nearest 0 den = 0 := by
    simp [Format.nearest, roundDiv]
  rw [round, hnearest, key_ofParts (Nat.zero_le _)]
  simp

/-- A product that is not zero has the sign of its factors. -/
theorem mul_sides (hnum : (a * b).isNaN = false) (hkey : (a * b).key ≠ 0) :
    a.key ≠ 0 ∧ b.key ≠ 0 ∧ ((a * b).key < 0 ↔ (a.key < 0 ↔ 0 < b.key)) := by
  have ha : a.isNaN = false := by
    refine Bool.eq_false_iff.mpr fun h => ?_
    rw [isNaN_mul_of_isNaN (.inl h)] at hnum
    cases hnum
  have hb : b.isNaN = false := by
    refine Bool.eq_false_iff.mpr fun h => ?_
    rw [isNaN_mul_of_isNaN (.inr h)] at hnum
    cases hnum
  obtain ⟨p, hp, hresult, hazero, hbzero⟩ : ∃ p ≤ infinityPattern,
      a * b = ofParts (a.negative != b.negative) p ∧ a.isZero = false ∧ b.isZero = false := by
    rcases mul_cases ha hb with ⟨hnan, -⟩ | ⟨-, hazero, hbzero, hresult⟩ | ⟨-, -, hresult⟩
    · rw [hnan] at hnum
      cases hnum
    · exact ⟨_, Nat.le_refl _, hresult, hazero, hbzero⟩
    · rw [hresult] at hkey
      refine ⟨_, Format.nearest_le_infinity (a.units * b.units) Format.single.one, hresult, ?_, ?_⟩
      · refine Bool.eq_false_iff.mpr fun hzero => hkey ?_
        rw [units_of_isZero hzero, Nat.zero_mul, key_round_zero]
      · refine Bool.eq_false_iff.mpr fun hzero => hkey ?_
        rw [units_of_isZero hzero, Nat.mul_zero, key_round_zero]
  have hakey : a.key ≠ 0 := fun h => Bool.eq_false_iff.mp hazero (key_eq_zero_iff.mp h)
  have hbkey : b.key ≠ 0 := fun h => Bool.eq_false_iff.mp hbzero (key_eq_zero_iff.mp h)
  have hasign := key_lt_zero_iff hazero
  have hbsign := key_lt_zero_iff hbzero
  refine ⟨hakey, hbkey, ?_⟩
  rw [hresult, key_ofParts hp] at hkey ⊢
  cases hna : a.negative <;> cases hnb : b.negative <;>
    simp only [hna, hnb, bne_self_eq_false, Bool.false_bne, Bool.true_bne, Bool.not_false,
      Bool.false_eq_true, if_true, if_false, iff_true, iff_false] at hasign hbsign hkey ⊢ <;>
    omega

/-- A product with an infinite factor is infinite, or it has no value. -/
theorem mul_of_isInfinite (ha : a.isNaN = false) (hb : b.isNaN = false) (hazero : a.isZero = false)
    (hbzero : b.isZero = false) (hinf : a.isInfinite = true ∨ b.isInfinite = true) :
    a * b = ofParts (a.negative != b.negative) infinityPattern := by
  rcases mul_cases ha hb with ⟨-, hcause⟩ | ⟨-, -, -, hresult⟩ | ⟨hainf, hbinf, -⟩
  · rw [hazero, hbzero] at hcause
    simp at hcause
  · exact hresult
  · rw [hainf, hbinf] at hinf
    simp at hinf

/-! ### Inverses -/

/-- The greatest number with an infinite inverse, `2 ^ (-128)`. -/
def greatestWithoutInverse : Binary32 := ⟨0x00200000⟩

theorem inverse_of_isInfinite (ha : a.isInfinite = true) : one / a = ofParts a.negative 0 := by
  have hnum : a.isNaN = false := by
    have hpattern := pattern_of_isInfinite ha
    exact decide_eq_false (by omega)
  have hone : one.isNaN = false ∧ one.isInfinite = false ∧ one.negative = false := by decide
  have hdiv : one / a = div one a := rfl
  rw [hdiv, div]
  simp [hone, hnum, ha]

theorem inverse_of_isFinite (ha : a.isFinite = true) (hzero : a.isZero = false) :
    one / a = round a.negative (Format.single.one * Format.single.one) a.units := by
  obtain ⟨hnum, hinf⟩ := isFinite_iff.mp ha
  have hone : one.isNaN = false ∧ one.isInfinite = false ∧ one.negative = false ∧
      one.units = Format.single.one := by decide
  have hdiv : one / a = div one a := rfl
  rw [hdiv, div]
  simp [hone, hnum, hinf, hzero]

theorem units_pos (hzero : a.isZero = false) : 0 < a.units := by
  have hpattern : 0 < a.pattern := Nat.pos_of_ne_zero (of_decide_eq_false hzero)
  exact Nat.lt_of_le_of_lt (Nat.zero_le _) (Format.single.units_strictMono hpattern)

theorem isInfinite_inverse_iff (ha : a.isFinite = true) (hzero : a.isZero = false) :
    (one / a).isInfinite = true ↔ a.pattern ≤ greatestWithoutInverse.pattern := by
  have hmono := Format.single.units_strictMono
  have htop : Format.single.units greatestWithoutInverse.pattern = 2 ^ 21 := by decide
  have hone : Format.single.one = 2 ^ 149 := rfl
  have hle := Format.nearest_le_infinity (f := .single) (Format.single.one * Format.single.one)
    a.units
  rw [inverse_of_isFinite ha hzero, round, isInfinite, decide_eq_true_eq,
    pattern_ofParts (lt_signBit_of_le hle), ← hmono.le_iff_le, htop, hone, ← pow_add]
  constructor
  · intro hinf
    by_contra hlarge
    have hlarge : 2 ^ 21 < a.units := Nat.lt_of_not_le hlarge
    refine Nat.ne_of_lt (Format.nearest_lt_infinity ?_ ?_) hinf
    · exact two_pow_lt_mul rfl hlarge
    · -- the quotient misses the next power of two by more than a rounding
      have hsplit : 2 ^ (149 + 149) = 2 ^ 45 * 2 ^ 253 := by rw [← pow_add]
      have hquotient : 2 ^ 45 / a.units ≤ 2 ^ 45 / (2 ^ 21 + 1) :=
        Nat.div_le_div_left hlarge (by decide)
      rw [hsplit, Nat.mul_div_mul_right _ _ (Nat.two_pow_pos 253)]
      omega
  · intro hsmall
    exact Format.infinity_le_nearest (Nat.le_refl 277) (units_pos hzero)
      (mul_le_two_pow (Nat.le_refl _) hsmall)

theorem isZero_inverse (ha : a.isFinite = true) (hzero : a.isZero = false) :
    (one / a).isZero = false := by
  have hpattern : a.pattern < infinityPattern := of_decide_eq_true ha
  have hparts : infinityPattern / 2 ^ 23 = 254 + 1 ∧ infinityPattern % 2 ^ 23 = 0 := by decide
  have htop : Format.single.units infinityPattern = 2 ^ 23 * 2 ^ 254 := by
    simp only [Format.units, Format.single, Nat.pow_eq, hparts]
    rfl
  have hunits : a.units ≤ Format.single.one * Format.single.one := by
    have hone : Format.single.one = 2 ^ 149 := rfl
    refine Nat.le_trans (Nat.le_of_lt (Format.single.units_strictMono hpattern)) ?_
    rw [htop, hone, Nat.mul_comm, ← pow_add 2 149]
    exact mul_le_two_pow (by decide : 254 + 23 ≤ 149 + 149) (Nat.le_refl _)
  have hpos := Format.nearest_pos (f := .single) (by decide) (units_pos hzero) hunits
  have hle := Format.nearest_le_infinity (f := .single) (Format.single.one * Format.single.one)
    a.units
  rw [inverse_of_isFinite ha hzero, round, isZero, pattern_ofParts (lt_signBit_of_le hle)]
  exact decide_eq_false (Nat.ne_of_gt hpos)

end Binary32

end Placement
