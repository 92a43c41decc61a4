/-
  Placement/Proofs/Bytes/Prospects.lean
  =====================================
  **What a source is in for.**

  A source may hand out its bytes in pieces of any size and break off calls in between, and it
  may also fail for good.  A reader that gets as far as that has to tell it from the end of the
  data.  `Prospect` is the promise of such a source, together with the view it is about: the
  bytes yet to come, and with what they end, an error or nothing.

  A fill then comes to one of three things (`fill_cases`): it gets what it wants, it gets all
  there is, or the source breaks (`Prospect.Breaks`), which happens with the last byte of the
  view gone and never before.  So whatever is done with fills can be done beside the plain
  bytes of the view, and comes to the same until these run out (`Prospect.Follows`).
-/
import Placement.Proofs.Bytes.Consumption

namespace Placement

namespace ByteSource

variable {σ : Type} [ByteSource σ]

/-- The promise of a source that may break, about each call for at least one byte. -/
structure Prospect (σ : Type) [ByteSource σ] where
  /-- The states that the promise is about, all before the source breaks. -/
  Sound : σ → Prop
  /-- The bytes that are still to come. -/
  view : σ → List UInt8
  /-- The error behind them, if it is one. -/
  ending : σ → Option IoError
  /-- What is known of the source once it broke. -/
  Broken : σ → Prop
  delivered : ∀ {s s' : σ} {want : Nat} {bs : List UInt8}, Sound s → 0 < want →
    read s want = (.bytes bs, s') →
      Sound s' ∧ view s = bs ++ view s' ∧ ending s' = ending s ∧ bs.length ≤ want ∧
        (bs = [] → view s = [] ∧ ending s = none) ∧ patience s' ≤ patience s
  failed : ∀ {s s' : σ} {want : Nat} {e : IoError}, Sound s → 0 < want →
    read s want = (.failed e, s') →
      (e.kind = .interrupted ∧ Sound s' ∧ view s' = view s ∧ ending s' = ending s ∧
        patience s' < patience s) ∨
      (e.kind ≠ .interrupted ∧ view s = [] ∧ ending s = some e ∧ Broken s')

namespace Prospect

variable (p : Prospect σ)

/-- Some bytes were taken, and the source did not break. -/
structure Reaches (s : σ) (bs : List UInt8) (s' : σ) : Prop where
  sound : p.Sound s'
  took : Took s bs s'
  view_eq : p.view s = bs ++ p.view s'
  ending_eq : p.ending s' = p.ending s

/-- All bytes were taken, and then the source broke. -/
structure Breaks (s : σ) (e : IoError) (s' : σ) : Prop where
  broken : p.Broken s'
  took : Took s (p.view s) s'
  ending_eq : p.ending s = some e

variable {p} {s s' s'' : σ} {bs cs : List UInt8} {e : IoError}

theorem reaches_nil (hs : p.Sound s) : p.Reaches s [] s := ⟨hs, .nothing s, rfl, rfl⟩

theorem Reaches.trans (h : p.Reaches s bs s') (h' : p.Reaches s' cs s'') :
    p.Reaches s (bs ++ cs) s'' := by
  refine ⟨h'.sound, h.took.append h'.took, ?_, h'.ending_eq.trans h.ending_eq⟩
  rw [h.view_eq, h'.view_eq, List.append_assoc]

theorem Reaches.breaks (h : p.Reaches s bs s') (h' : p.Breaks s' e s'') : p.Breaks s e s'' := by
  refine ⟨h'.broken, ?_, h.ending_eq.symm.trans h'.ending_eq⟩
  rw [h.view_eq]
  exact h.took.append h'.took

theorem Reaches.view_of_take {n : Nat} (h : p.Reaches s ((p.view s).take n) s') :
    p.view s' = (p.view s).drop n :=
  List.append_cancel_left (h.view_eq.symm.trans (List.take_append_drop n _).symm)

theorem Reaches.view_of_all (h : p.Reaches s (p.view s) s') : p.view s' = [] :=
  List.append_right_eq_self.mp h.view_eq.symm

/-! ### Filling -/

/-- What can come of asking for a number of bytes, with some already there. -/
inductive Fills (p : Prospect σ) (s : σ) (want : Nat) (got : List UInt8) : Fill × σ → Prop
  | complete {s' : σ} : want ≤ (p.view s).length → p.Reaches s ((p.view s).take want) s' →
      Fills p s want got (.complete (got ++ (p.view s).take want), s')
  | ended {s' : σ} : (p.view s).length < want → p.ending s = none → p.Reaches s (p.view s) s' →
      Fills p s want got (.ended (got ++ p.view s), s')
  | broke {e : IoError} {s' : σ} : (p.view s).length < want → p.Breaks s e s' →
      Fills p s want got (.failed e, s')

theorem Fills.after {want : Nat} {got : List UInt8} {outcome : Fill × σ} (h : p.Reaches s bs s')
    (h' : p.Fills s' want (got ++ bs) outcome) : p.Fills s (bs.length + want) got outcome := by
  have hlength : (p.view s).length = bs.length + (p.view s').length := by
    rw [h.view_eq, List.length_append]
  cases h' with
  | complete hle hreach =>
    have htake : (p.view s).take (bs.length + want) = bs ++ (p.view s').take want := by
      rw [h.view_eq, List.take_length_add_append]
    rw [List.append_assoc, ← htake]
    refine .complete (by omega) ?_
    rw [htake]
    exact h.trans hreach
  | ended hlt hnone hreach =>
    rw [List.append_assoc, ← h.view_eq]
    refine .ended (by omega) (h.ending_eq.symm.trans hnone) ?_
    rw [h.view_eq]
    exact h.trans hreach
  | broke hlt hbreak => exact .broke (by omega) (h.breaks hbreak)

theorem fills_nothing (got : List UInt8) (hs : p.Sound s) : p.Fills s 0 got (.complete got, s) := by
  have hfills : p.Fills s 0 got (.complete (got ++ (p.view s).take 0), s) :=
    .complete (Nat.zero_le _) (reaches_nil hs)
  rwa [List.take_zero, List.append_nil] at hfills

theorem fillWithin_fills {calls want : Nat} (got : List UInt8) (hs : p.Sound s)
    (hcalls : want + patience s ≤ calls) : p.Fills s want got (fillWithin calls want got s) := by
  induction calls generalizing want got s with
  | zero =>
    obtain rfl : want = 0 := by omega
    exact fills_nothing got hs
  | succ calls ih =>
    rcases want with _ | want
    · exact fills_nothing got hs
    rw [fillWithin]
    rcases hread : read s (want + 1) with ⟨bs | e, s₁⟩
    · obtain ⟨hs₁, hview, hending, hlen, hend, hpatience⟩ := p.delivered hs (Nat.succ_pos want) hread
      have hreach : p.Reaches s bs s₁ := by
        have htook : Took s (bs ++ []) s₁ := .bytes hread (.nothing s₁)
        rw [List.append_nil] at htook
        exact ⟨hs₁, htook, hview, hending⟩
      rcases bs with _ | ⟨b, bs⟩
      · obtain ⟨hnil, hnone⟩ := hend rfl
        have hfills : p.Fills s (want + 1) got (.ended (got ++ p.view s), s₁) :=
          .ended (by simp [hnil]) hnone (hnil ▸ hreach)
        rwa [hnil, List.append_nil] at hfills
      · -- what is still wanted is wanted from what is left, and one call less does for it
        obtain ⟨k, hk⟩ : ∃ k, want + 1 = (b :: bs).length + k := Nat.exists_eq_add_of_le hlen
        have hleft : want + 1 - (b :: bs).length = k := by omega
        simp only [hleft]
        rw [hk]
        refine .after hreach (ih (got ++ b :: bs) hs₁ ?_)
        rw [List.length_cons] at hk
        omega
    · rcases p.failed hs (Nat.succ_pos want) hread with
        ⟨hkind, hs₁, hview, hending, hpatience⟩ | ⟨hkind, hview, hending, hbroken⟩
      · have hreach : p.Reaches s [] s₁ :=
          ⟨hs₁, .failed hread (.nothing s₁), hview.symm, hending⟩
        have hagain := ih got hs₁ (by omega : want + 1 + patience s₁ ≤ calls)
        rw [← List.append_nil got] at hagain
        simpa [hkind] using hagain.after hreach
      · simp only [hkind, if_false]
        refine .broke (by simp [hview]) ⟨hbroken, ?_, hending⟩
        rw [hview]
        exact .failed hread (.nothing s₁)

/-- A fill over a source, beside the fill over the bytes that are to come. -/
theorem fill_cases (hs : p.Sound s) (want : Nat) :
    (∃ field s', fill want (p.view s) = (.complete field, p.view s') ∧
      fill want s = (.complete field, s') ∧ p.Reaches s field s') ∨
    (∃ got s', fill want (p.view s) = (.ended got, p.view s') ∧ fill want s = (.ended got, s') ∧
      p.Reaches s got s' ∧ p.ending s = none) ∨
    ∃ got e s', fill want (p.view s) = (.ended got, []) ∧ fill want s = (.failed e, s') ∧
      p.Breaks s e s' := by
  have hfills : p.Fills s want [] (fill want s) := fillWithin_fills [] hs (Nat.le_refl _)
  generalize fill want s = outcome at hfills
  cases hfills with
  | complete hle hreach =>
    refine .inl ⟨_, _, ?_, rfl, hreach⟩
    rw [fill_of_le hle, hreach.view_of_take]
    rfl
  | ended hlt hnone hreach =>
    refine .inr (.inl ⟨_, _, ?_, rfl, hreach, hnone⟩)
    rw [fill_of_lt hlt, hreach.view_of_all]
    rfl
  | broke hlt hbreak => exact .inr (.inr ⟨_, _, _, fill_of_lt hlt, rfl, hbreak⟩)

/-! ### Beside the plain bytes -/

/-- What a reader comes to over a source, beside what it comes to over the bytes that are to come:
    the same, or else the reader ran out of these bytes and the source breaks instead of being
    over.  `broken?` tells which results are for want of bytes, and what an error behind the
    bytes makes of them. -/
inductive Follows (p : Prospect σ) {β : Type} (broken? : β → Option (IoError → β)) (s : σ) :
    β × List UInt8 → β × σ → Prop
  | reaches {result : β} {bs : List UInt8} {s' : σ} : p.Reaches s bs s' →
      ((broken? result).isSome → p.ending s = none) →
      Follows p broken? s (result, p.view s') (result, s')
  | breaks {result : β} {f : IoError → β} {e : IoError} {s' : σ} : broken? result = some f →
      p.Breaks s e s' → Follows p broken? s (result, []) (f e, s')

section Follows

variable {β γ : Type} {broken? : β → Option (IoError → β)} {plain : β × List UInt8}
  {outcome : β × σ}

theorem Follows.after (h : p.Reaches s bs s') (h' : p.Follows broken? s' plain outcome) :
    p.Follows broken? s plain outcome := by
  cases h' with
  | reaches hreach hend => exact .reaches (h.trans hreach) fun hcut => h.ending_eq.symm.trans (hend hcut)
  | breaks hresult hbreak => exact .breaks hresult (h.breaks hbreak)

theorem Follows.exists_took (h : p.Follows broken? s plain outcome) :
    ∃ bytes, Took s bytes outcome.2 := by
  cases h with
  | reaches hreach hend => exact ⟨_, hreach.took⟩
  | breaks hresult hbreak => exact ⟨_, hbreak.took⟩

/-- What is made of a result can be made of it on both sides. -/
theorem Follows.map {broken'? : γ → Option (IoError → γ)} (f : β → γ)
    (hf : ∀ result, broken'? (f result) = (broken? result).map fun g e => f (g e))
    (h : p.Follows broken? s plain outcome) :
    p.Follows broken'? s (f plain.1, plain.2) (f outcome.1, outcome.2) := by
  cases h with
  | reaches hreach hend =>
    refine .reaches hreach ?_
    rw [hf, Option.isSome_map]
    exact hend
  | @breaks result g e s' hresult hbreak =>
    have hbroken : broken'? (f result) = some fun e => f (g e) := by
      rw [hf, hresult]
      rfl
    exact .breaks hbroken hbreak

end Follows

/-! ### Tapes -/

/-- A taped source breaks where its source does. -/
def taped (p : Prospect σ) : Prospect (Taped σ) where
  Sound t := p.Sound t.source
  view t := p.view t.source
  ending t := p.ending t.source
  Broken t := p.Broken t.source
  delivered hs hwant hread := p.delivered hs hwant (read_taped_bytes hread).1
  failed hs hwant hread := p.failed hs hwant (read_taped_failed hread).1

/-- What a reader comes to over a taped source it comes to over the source, and the bytes that
    were taken are on the tape. -/
theorem Follows.of_taped {β : Type} {broken? : β → Option (IoError → β)} {plain : β × List UInt8}
    {outcome : β × Taped σ} (h : p.taped.Follows broken? (Taped.start s) plain outcome) :
    p.Follows broken? s plain (outcome.1, outcome.2.source) ∧
      Took s outcome.2.bytes outcome.2.source := by
  cases h with
  | reaches hreach hend =>
    obtain ⟨htook, htape⟩ := hreach.took.tape_eq
    have htape := htape.trans (List.nil_append _)
    exact ⟨.reaches ⟨hreach.sound, htook, hreach.view_eq, hreach.ending_eq⟩ hend, htape ▸ htook⟩
  | breaks hresult hbreak =>
    obtain ⟨htook, htape⟩ := hbreak.took.tape_eq
    have htape := htape.trans (List.nil_append _)
    exact ⟨.breaks hresult ⟨hbreak.broken, htook, hbreak.ending_eq⟩, htape ▸ htook⟩

end Prospect

end ByteSource

end Placement
