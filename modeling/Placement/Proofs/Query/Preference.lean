/-
  Placement/Proofs/Query/Preference.lean
  ======================================
  **Keeping the better of two, in whatever grouping.**

  Queries of many placed models keep the best of what they find: the highest surface, the
  nearest hit.  One after the other or in parts put together, they do it with one binary
  choice, `keep`.  Grouping does not matter to it as long as everything that may stand in
  the middle is `Ranked`.  That is not everything: a candidate whose height is no number is
  neither above nor below its neighbours, and a group formed around it would hide one of
  them.  But such a candidate is not better than anything, so it is never kept, and what
  has been kept is ranked (`Preference.ranked_of_better`).

  From there it is an induction over the tree: a result of a list that can be put together
  from the results of any two parts can be collected over every split (`collect_eq`).
-/
import Mathlib.Data.List.Induction
import Placement.Proofs.Binary32.Order
import Placement.Query.Batch

namespace Placement

section Choice

variable {β : Type} (better : β → β → Bool)

/-- Keep the one found first unless the other is better than it. -/
def keep (best other : β) : β := if better best other then other else best

/-- Whatever is better than something is better than this, or this is better than that. -/
def Ranked (b : β) : Prop := ∀ ⦃a c⦄, better a c = true → better a b = true ∨ better b c = true

/-- A choice that can be made in parts. -/
structure Preference : Prop where
  trans : ∀ {a b c}, better a b = true → better b c = true → better a c = true
  ranked_of_better : ∀ {a b}, better a b = true → Ranked better b

variable {better} {a b c : β}

theorem keep_of_better (h : better a b = true) : keep better a b = b := if_pos h

theorem keep_of_not_better (h : ¬ better a b = true) : keep better a b = a := if_neg h

theorem ranked_keep (hbetter : Preference better) (ha : Ranked better a) (b : β) :
    Ranked better (keep better a b) := by
  by_cases h : better a b = true
  · rw [keep_of_better h]
    exact hbetter.ranked_of_better h
  · rw [keep_of_not_better h]
    exact ha

theorem keep_assoc (hbetter : Preference better) (hb : Ranked better b) (a c : β) :
    keep better (keep better a b) c = keep better a (keep better b c) := by
  by_cases hab : better a b = true
  · rw [keep_of_better hab]
    by_cases hbc : better b c = true
    · rw [keep_of_better hbc, keep_of_better (hbetter.trans hab hbc)]
    · rw [keep_of_not_better hbc, keep_of_better hab]
  · rw [keep_of_not_better hab]
    by_cases hbc : better b c = true
    · rw [keep_of_better hbc]
    · -- the one in the middle must not hide the last one from the first
      have hac : ¬ better a c = true := by
        intro hac
        rcases hb hac with h | h
        · exact hab h
        · exact hbc h
      rw [keep_of_not_better hbc, keep_of_not_better hab, keep_of_not_better hac]

/-- What was found before a ranked start may be put in afterwards. -/
theorem foldl_keep (hbetter : Preference better) (hb : Ranked better b) (a : β) (xs : List β) :
    xs.foldl (keep better) (keep better a b) = keep better a (xs.foldl (keep better) b) := by
  induction xs generalizing b with
  | nil => rfl
  | cons x xs ih =>
    rw [List.foldl_cons, List.foldl_cons, keep_assoc hbetter hb]
    exact ih (ranked_keep hbetter hb x)

theorem foldl_keep_mem (b : β) (xs : List β) : xs.foldl (keep better) b ∈ b :: xs := by
  induction xs generalizing b with
  | nil => exact List.mem_cons_self
  | cons x xs ih =>
    rcases List.mem_cons.mp (ih (keep better b x)) with h | h
    · rw [List.foldl_cons, h, keep]
      split
      · exact List.mem_cons_of_mem b List.mem_cons_self
      · exact List.mem_cons_self
    · exact List.mem_cons_of_mem b (List.mem_cons_of_mem x h)

/-- What is kept in the end is the start, if nothing is better, or else the first of the best:
    what stands before it and was worth keeping is worse, and nothing behind it is better. -/
theorem foldl_keep_cases (hbetter : Preference better) (b : β) (xs : List β) :
    (xs.foldl (keep better) b = b ∧ ∀ x ∈ xs, ¬ better b x = true) ∨
    ∃ front best back, xs = front ++ best :: back ∧ xs.foldl (keep better) b = best ∧
      better b best = true ∧ (∀ x ∈ front, better b x = true → better x best = true) ∧
      ∀ x ∈ back, ¬ better best x = true := by
  -- by the last one seen, as it is the one that may take the place of the best so far
  induction xs using List.reverseRecOn with
  | nil => exact .inl ⟨rfl, fun x hx => absurd hx List.not_mem_nil⟩
  | append_singleton xs x ih =>
    rw [List.foldl_append, List.foldl_cons, List.foldl_nil]
    rcases ih with ⟨hsame, hnone⟩ | ⟨front, best, back, hxs, hkept, hb, hfront, hback⟩
    · rw [hsame]
      by_cases hx : better b x = true
      · refine .inr ⟨xs, x, [], rfl, keep_of_better hx, hx, ?_, ?_⟩
        · intro y hy hby
          exact absurd hby (hnone y hy)
        · intro y hy
          exact absurd hy List.not_mem_nil
      · refine .inl ⟨keep_of_not_better hx, ?_⟩
        intro y hy
        rcases List.mem_append.mp hy with hy | hy
        · exact hnone y hy
        · rw [List.mem_singleton.mp hy]
          exact hx
    · rw [hkept]
      by_cases hx : better best x = true
      · refine .inr ⟨xs, x, [], rfl, keep_of_better hx, hbetter.trans hb hx, ?_, ?_⟩
        · intro y hy hby
          rw [hxs] at hy
          rcases List.mem_append.mp hy with hy | hy
          · exact hbetter.trans (hfront y hy hby) hx
          · rcases List.mem_cons.mp hy with rfl | hy
            · exact hx
            · -- it is no better than the best, so what exceeds the best exceeds it
              rcases hbetter.ranked_of_better hby hx with h | h
              · exact absurd h (hback y hy)
              · exact h
        · intro y hy
          exact absurd hy List.not_mem_nil
      · refine .inr ⟨front, best, back ++ [x], ?_, keep_of_not_better hx, hb, hfront, ?_⟩
        · rw [hxs, List.append_assoc, List.cons_append]
        · intro y hy
          rcases List.mem_append.mp hy with hy | hy
          · exact hback y hy
          · rw [List.mem_singleton.mp hy]
            exact hx

/-- Nothing that was seen is better than what is kept in the end. -/
theorem not_better_foldl_keep (hbetter : Preference better) (hirrefl : ∀ a, ¬ better a a = true)
    (b : β) (xs : List β) : ∀ x ∈ b :: xs, ¬ better (xs.foldl (keep better) b) x = true := by
  intro x hx
  rcases foldl_keep_cases hbetter b xs with ⟨hsame, hnone⟩ |
    ⟨front, best, back, hxs, hkept, hb, hfront, hback⟩
  · rw [hsame]
    rcases List.mem_cons.mp hx with rfl | hx
    · exact hirrefl x
    · exact hnone x hx
  · rw [hkept]
    intro hbest
    have hbx : better b x = true := hbetter.trans hb hbest
    rcases List.mem_cons.mp hx with rfl | hx
    · exact hirrefl x hbx
    · rw [hxs] at hx
      rcases List.mem_append.mp hx with hx | hx
      · exact hirrefl best (hbetter.trans hbest (hfront x hx hbx))
      · rcases List.mem_cons.mp hx with rfl | hx
        · exact hirrefl x hbest
        · exact hback x hx hbest

/-- The best of two lists, one after the other, from a start that nothing gives way to. -/
theorem foldl_keep_append {start : β} (hbetter : Preference better) (hstart : Ranked better start)
    (hlast : ∀ a, ¬ better a start = true) (xs ys : List β) :
    (xs ++ ys).foldl (keep better) start =
      keep better (xs.foldl (keep better) start) (ys.foldl (keep better) start) := by
  rw [List.foldl_append, ← foldl_keep hbetter hstart, keep_of_not_better (hlast _)]

end Choice

/-! ### Preference by height -/

section Height

variable {β : Type} (found : β → Bool) (height : β → Binary32)

/-- The other one has been found, and higher. -/
def isHigher (best other : β) : Bool := found other && decide (height best < height other)

variable {found height} {a b : β}

theorem isHigher_iff :
    isHigher found height a b = true ↔ found b = true ∧ height a < height b := by
  rw [isHigher, Bool.and_eq_true, decide_eq_true_eq]

theorem ranked_of_found (hfound : found b = true) (hnum : (height b).isNaN = false) :
    Ranked (isHigher found height) b := by
  intro a c hac
  rw [isHigher_iff] at hac
  rcases Binary32.lt_or_lt_of_lt hac.2 hnum with h | h
  · exact .inl (isHigher_iff.mpr ⟨hfound, h⟩)
  · exact .inr (isHigher_iff.mpr ⟨hac.1, h⟩)

theorem ranked_of_lowest (hheight : height b = .negInf) : Ranked (isHigher found height) b := by
  intro a c hac
  rw [isHigher_iff] at hac
  refine .inr (isHigher_iff.mpr ⟨hac.1, ?_⟩)
  rw [hheight]
  exact Binary32.negInf_lt_of_lt hac.2

theorem preference_isHigher : Preference (isHigher found height) where
  trans hab hbc := by
    rw [isHigher_iff] at hab hbc ⊢
    exact ⟨hbc.1, Binary32.lt_trans hab.2 hbc.2⟩
  ranked_of_better hab := by
    rw [isHigher_iff] at hab
    exact ranked_of_found hab.1 (Binary32.isNaN_right_of_lt hab.2)

end Height

/-! ### Split work -/

namespace SplitTree

variable {β γ : Type}

/-- Work that can be done in two parts wherever a list is cut can be done along any tree. -/
theorem collect_eq {work : List β → γ} {combine : γ → γ → γ} (tree : SplitTree β)
    (hwork : ∀ xs ys, xs ++ ys ⊆ tree.items → work (xs ++ ys) = combine (work xs) (work ys)) :
    tree.collect work combine = work tree.items := by
  induction tree with
  | segment items => rfl
  | join left right ihl ihr =>
    have hl := ihl fun xs ys h => hwork xs ys (List.Subset.trans h (List.subset_append_left _ _))
    have hr := ihr fun xs ys h => hwork xs ys (List.Subset.trans h (List.subset_append_right _ _))
    rw [collect, hl, hr, items]
    exact (hwork left.items right.items (List.Subset.refl _)).symm

end SplitTree

end Placement
