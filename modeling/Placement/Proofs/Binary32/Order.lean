/-
  Placement/Proofs/Binary32/Order.lean
  ====================================
  **The order of 32-bit numbers.**

  Numbers are ordered by an integer, their key, and what is not a number is ordered with
  nothing.  So the laws of a linear order hold with one reservation: a third that is to stand
  on one side or the other of a gap has to be a number.  Both zeros have key zero; order
  does not tell them apart.
-/
import Placement.Geometry.Scalar

namespace Placement

namespace Binary32

variable {a b c : Binary32}

theorem le_iff : a ≤ b ↔ a.isNaN = false ∧ b.isNaN = false ∧ a.key ≤ b.key := Iff.rfl

theorem isNaN_right_of_lt (h : a < b) : b.isNaN = false := h.2.1

theorem lt_irrefl (a : Binary32) : ¬ a < a := fun h => Int.lt_irrefl _ h.2.2

theorem lt_trans (h : a < b) (h' : b < c) : a < c := ⟨h.1, h'.2.1, Int.lt_trans h.2.2 h'.2.2⟩

theorem lt_of_le_of_lt (h : a ≤ b) (h' : b < c) : a < c :=
  ⟨h.1, h'.2.1, Int.lt_of_le_of_lt h.2.2 h'.2.2⟩

theorem le_refl (ha : a.isNaN = false) : a ≤ a := ⟨ha, ha, Int.le_refl _⟩

theorem le_trans (h : a ≤ b) (h' : b ≤ c) : a ≤ c := ⟨h.1, h'.2.1, Int.le_trans h.2.2 h'.2.2⟩

theorem le_of_lt (h : a < b) : a ≤ b := ⟨h.1, h.2.1, Int.le_of_lt h.2.2⟩

theorem le_of_not_lt (ha : a.isNaN = false) (hb : b.isNaN = false) (h : ¬ a < b) : b ≤ a := by
  refine ⟨hb, ha, Int.not_lt.mp ?_⟩
  intro hkey
  exact h ⟨ha, hb, hkey⟩

theorem not_lt_iff (ha : a.isNaN = false) (hb : b.isNaN = false) : ¬ a < b ↔ b ≤ a :=
  ⟨le_of_not_lt ha hb, fun h h' => lt_irrefl _ (lt_of_le_of_lt h h')⟩

theorem not_le_iff (ha : a.isNaN = false) (hb : b.isNaN = false) : ¬ a ≤ b ↔ b < a := by
  rw [← not_lt_iff hb ha, Decidable.not_not]

/-- A number stands on one side or the other of any gap. -/
theorem lt_or_lt_of_lt (h : a < c) (hb : b.isNaN = false) : a < b ∨ b < c := by
  rcases Int.lt_or_le a.key b.key with hkey | hkey
  · exact .inl ⟨h.1, hb, hkey⟩
  · exact .inr ⟨hb, h.2.1, Int.lt_of_le_of_lt hkey h.2.2⟩

/-! ### Infinity -/

theorem natAbs_key_le (ha : a.isNaN = false) : a.key.natAbs ≤ infinityPattern := by
  have hpattern : a.pattern ≤ infinityPattern := by simpa [isNaN] using ha
  rw [key]
  split <;> omega

theorem negInf_le (ha : a.isNaN = false) : negInf ≤ a := by
  have hkey := natAbs_key_le ha
  have hinf : negInf.key = -(infinityPattern : Int) := by decide
  exact ⟨by decide, ha, by omega⟩

theorem le_posInf (ha : a.isNaN = false) : a ≤ posInf := by
  have hkey := natAbs_key_le ha
  have hinf : posInf.key = infinityPattern := by decide
  exact ⟨ha, by decide, by omega⟩

/-- Whatever exceeds something exceeds minus infinity. -/
theorem negInf_lt_of_lt (h : a < b) : negInf < b := lt_of_le_of_lt (negInf_le h.1) h

theorem isFinite_of_between (h : Scalar.isFinite a = true) : a.isFinite = true := by
  rw [Scalar.isFinite, Bool.and_eq_true, decide_eq_true_eq, decide_eq_true_eq] at h
  have hlow : -(infinityPattern : Int) < a.key := h.1.2.2
  have hhigh : a.key < (infinityPattern : Int) := h.2.2.2
  rw [key] at hlow hhigh
  refine decide_eq_true ?_
  by_cases hsign : a.negative = true
  · rw [if_pos hsign] at hlow
    omega
  · rw [if_neg hsign] at hhigh
    omega

theorem isZero_of_zero_lt (h : zero < a) : a.isZero = false := by
  have hkey : 0 < a.key := h.2.2
  refine decide_eq_false ?_
  intro hpattern
  rw [key, hpattern] at hkey
  split at hkey <;> omega

/-! ### Equality of values -/

theorem sameValue_iff :
    Scalar.sameValue a b = true ↔ a.isNaN = false ∧ b.isNaN = false ∧ a.key = b.key := by
  have hle : Scalar.sameValue a b = true ↔ a ≤ b ∧ b ≤ a := by
    rw [Scalar.sameValue, Bool.and_eq_true, decide_eq_true_eq, decide_eq_true_eq]
  rw [hle, le_iff, le_iff]
  constructor
  · rintro ⟨⟨ha, hb, hab⟩, -, -, hba⟩
    exact ⟨ha, hb, Int.le_antisymm hab hba⟩
  · rintro ⟨ha, hb, hkey⟩
    exact ⟨⟨ha, hb, Int.le_of_eq hkey⟩, hb, ha, Int.le_of_eq hkey.symm⟩

theorem sameValue_of_le_of_le (h : a ≤ b) (h' : b ≤ a) : Scalar.sameValue a b = true := by
  simp only [Scalar.sameValue, h, h', decide_true, Bool.and_self]

/-! ### The lesser and the greater -/

theorem scalar_isNaN (a : Binary32) : Scalar.isNaN a = a.isNaN := by
  rw [Scalar.isNaN]
  cases ha : a.isNaN with
  | false => rw [decide_eq_true (le_refl ha), Bool.not_true]
  | true =>
    have hnot : ¬ a ≤ a := fun h => by rw [h.1] at ha; cases ha
    rw [decide_eq_false hnot, Bool.not_false]

/-- What is below the greater of two is below one of them, numbers or not. -/
theorem lt_max_iff : c < Scalar.max a b ↔ c < a ∨ c < b := by
  rw [Scalar.max, scalar_isNaN]
  cases hb : b.isNaN with
  | true =>
    have hnot : ¬ c < b := fun h => by rw [h.2.1] at hb; cases hb
    rw [if_pos rfl]
    exact ⟨.inl, fun h => h.resolve_right hnot⟩
  | false =>
    rw [if_neg Bool.false_ne_true]
    by_cases hlt : b < a
    · rw [if_pos hlt]
      exact ⟨.inl, fun h => h.elim id fun h' => lt_trans h' hlt⟩
    · rw [if_neg hlt]
      exact ⟨.inr, fun h => h.elim (fun h' => (lt_or_lt_of_lt h' hb).resolve_right hlt) id⟩

theorem min_lt_iff : Scalar.min a b < c ↔ a < c ∨ b < c := by
  rw [Scalar.min, scalar_isNaN]
  cases hb : b.isNaN with
  | true =>
    have hnot : ¬ b < c := fun h => by rw [h.1] at hb; cases hb
    rw [if_pos rfl]
    exact ⟨.inl, fun h => h.resolve_right hnot⟩
  | false =>
    rw [if_neg Bool.false_ne_true]
    by_cases hlt : a < b
    · rw [if_pos hlt]
      exact ⟨.inl, fun h => h.elim id fun h' => lt_trans hlt h'⟩
    · rw [if_neg hlt]
      exact ⟨.inr, fun h => h.elim (fun h' => (lt_or_lt_of_lt h' hb).resolve_left hlt) id⟩

/-- What is at least the lesser of two is at least one of them, numbers or not. -/
theorem min_le_iff : Scalar.min a b ≤ c ↔ a ≤ c ∨ b ≤ c := by
  cases hb : b.isNaN with
  | true =>
    have hnot : ¬ b ≤ c := fun h => by simp [h.1] at hb
    simp [Scalar.min, scalar_isNaN, hb, hnot]
  | false =>
    by_cases hlt : a < b
    · have hle : b ≤ c → a ≤ c := le_trans (le_of_lt hlt)
      simpa [Scalar.min, scalar_isNaN, hb, hlt] using hle
    · have hle : a ≤ c → b ≤ c := fun h => le_trans (le_of_not_lt h.1 hb hlt) h
      simpa [Scalar.min, scalar_isNaN, hb, hlt] using hle

theorem le_max_iff : c ≤ Scalar.max a b ↔ c ≤ a ∨ c ≤ b := by
  cases hb : b.isNaN with
  | true =>
    have hnot : ¬ c ≤ b := fun h => by simp [h.2.1] at hb
    simp [Scalar.max, scalar_isNaN, hb, hnot]
  | false =>
    by_cases hlt : b < a
    · have hle : c ≤ b → c ≤ a := fun h => le_trans h (le_of_lt hlt)
      simpa [Scalar.max, scalar_isNaN, hb, hlt] using hle
    · have hle : c ≤ a → c ≤ b := fun h => le_trans h (le_of_not_lt hb h.2.1 hlt)
      simpa [Scalar.max, scalar_isNaN, hb, hlt] using hle

end Binary32

end Placement
