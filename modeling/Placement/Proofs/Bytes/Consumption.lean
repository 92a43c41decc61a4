/-
  Placement/Proofs/Bytes/Consumption.lean
  =======================================
  **What was taken out of a source between two of its states.**

  `Took s bs s'` says that some calls lead from `s` to `s'` and that `bs` is everything
  that came of them, in order.  It is a fact about any source; for a source in memory it
  says which part of the bytes is gone (`Took.eq_append`, `Took.rest_eq`), and for a taped
  one what was added to the tape (`Took.tape_eq`).

  A complete `fill` took exactly the bytes it gives (`took_of_fill_complete`), provided the
  source keeps to the one promise every source makes: not to hand out more than was asked
  for (`Modest`).
-/
import Placement.Bytes.Source
import Mathlib.Data.List.Basic

namespace Placement

namespace ByteSource

variable {σ : Type} [ByteSource σ]

/-- Some calls lead from one state to another, and these bytes are all that came of them. -/
inductive Took : σ → List UInt8 → σ → Prop
  | nothing (s : σ) : Took s [] s
  | bytes {s s' s'' : σ} {want : Nat} {bs more : List UInt8} :
      read s want = (.bytes bs, s') → Took s' more s'' → Took s (bs ++ more) s''
  | failed {s s' s'' : σ} {want : Nat} {e : IoError} {more : List UInt8} :
      read s want = (.failed e, s') → Took s' more s'' → Took s more s''

/-- A source that never hands out more than it was asked for. -/
class Modest (σ : Type) [ByteSource σ] : Prop where
  length_le : ∀ {s s' : σ} {want : Nat} {bs : List UInt8},
    read s want = (.bytes bs, s') → bs.length ≤ want

theorem Took.append {s s' s'' : σ} {bs cs : List UInt8} (h : Took s bs s') (h' : Took s' cs s'') :
    Took s (bs ++ cs) s'' := by
  induction h with
  | nothing s => exact h'
  | bytes hread _ ih =>
    rw [List.append_assoc]
    exact .bytes hread (ih h')
  | failed hread _ ih => exact .failed hread (ih h')

/-! ### Filling -/

theorem took_of_fillWithin_complete [Modest σ] {calls want : Nat} {got bs : List UInt8} {s s' : σ}
    (h : fillWithin calls want got s = (.complete bs, s')) :
    ∃ more, bs = got ++ more ∧ more.length = want ∧ Took s more s' := by
  induction calls generalizing want got s with
  | zero =>
    cases want with
    | zero =>
      simp only [fillWithin, Prod.mk.injEq, Fill.complete.injEq] at h
      obtain ⟨rfl, rfl⟩ := h
      exact ⟨[], by simp, rfl, .nothing _⟩
    | succ want => simp [fillWithin] at h
  | succ calls ih =>
    cases want with
    | zero =>
      simp only [fillWithin, Prod.mk.injEq, Fill.complete.injEq] at h
      obtain ⟨rfl, rfl⟩ := h
      exact ⟨[], by simp, rfl, .nothing _⟩
    | succ want =>
      rw [fillWithin] at h
      rcases hread : read s (want + 1) with ⟨bs₁ | e, s₁⟩
      · rcases bs₁ with _ | ⟨b, bs₁⟩
        · simp [hread] at h
        · simp only [hread] at h
          obtain ⟨more, hbs, hlen, htook⟩ := ih h
          have hle := Modest.length_le hread
          refine ⟨b :: bs₁ ++ more, by rw [hbs, List.append_assoc], ?_, .bytes hread htook⟩
          simp only [List.length_append]
          omega
      · by_cases he : e.kind = .interrupted
        · simp only [hread, he, if_true] at h
          obtain ⟨more, hbs, hlen, htook⟩ := ih h
          exact ⟨more, hbs, hlen, .failed hread htook⟩
        · simp [hread, he] at h

theorem took_of_fill_complete [Modest σ] {want : Nat} {bs : List UInt8} {s s' : σ}
    (h : fill want s = (.complete bs, s')) : bs.length = want ∧ Took s bs s' := by
  obtain ⟨more, rfl, hlen, htook⟩ := took_of_fillWithin_complete h
  exact ⟨hlen, htook⟩

/-! ### Bytes in memory -/

instance : Modest (List UInt8) where
  length_le := by
    rintro bs s' want front h
    simp only [read, Prod.mk.injEq, Delivery.bytes.injEq] at h
    rw [← h.1]
    exact List.length_take_le want bs

theorem Took.eq_append {bs front rest : List UInt8} (h : Took bs front rest) :
    bs = front ++ rest := by
  induction h with
  | nothing s => rfl
  | bytes hread _ ih =>
    simp only [read, Prod.mk.injEq, Delivery.bytes.injEq] at hread
    obtain ⟨rfl, rfl⟩ := hread
    rw [List.append_assoc, ← ih, List.take_append_drop]
  | failed hread _ _ => simp [read] at hread

theorem fill_of_le {want : Nat} {bs : List UInt8} (h : want ≤ bs.length) :
    fill want bs = (.complete (bs.take want), bs.drop want) := by
  cases want with
  | zero => simp [fill, fillWithin]
  | succ want =>
    rcases bs with _ | ⟨b, bs⟩
    · simp at h
    · have hlen : want ≤ bs.length := by simpa using h
      simp [fill, fillWithin, read, patience, hlen]

theorem fill_of_lt {want : Nat} {bs : List UInt8} (h : bs.length < want) :
    fill want bs = (.ended bs, []) := by
  rcases bs with _ | ⟨b, bs⟩
  · cases want with
    | zero => simp at h
    | succ want => simp [fill, patience, fillWithin, read]
  · -- the first call brings all that is there, and the second one nothing
    obtain ⟨want, rfl⟩ : ∃ k, want = k + 2 := ⟨want - 2, by simp at h; omega⟩
    have hlen : bs.length < want + 1 := by simpa using h
    have htake : bs.take (want + 1) = bs := List.take_of_length_le (by omega)
    have hdrop : bs.drop (want + 1) = [] := List.drop_of_length_le (by omega)
    have hleft : want + 1 + 1 - (bs.length + 1) = (want - bs.length) + 1 := by omega
    simp only [fill, patience, Nat.add_zero, fillWithin, read, List.take_succ_cons, htake,
      List.drop_succ_cons, hdrop, List.length_cons, hleft, List.take_nil, List.drop_nil,
      List.nil_append]

end ByteSource

/-! ### Streams with pieces and faults -/

theorem Fault.clear_le (offset : Nat) (faults : List Fault) (count : Nat) :
    Fault.clear offset faults count ≤ count := by
  unfold Fault.clear
  induction faults generalizing count with
  | nil => simp
  | cons f fs ih =>
    rw [List.foldl_cons]
    refine Nat.le_trans (ih _) ?_
    split
    · exact Nat.min_le_left _ _
    · exact Nat.le_refl _

namespace ByteStream

variable {s s' : ByteStream} {want : Nat} {bs : List UInt8} {e : IoError}

/-- What a stream gives for a call, if there are as many bytes and no fault is in between. -/
def portion (s : ByteStream) (want : Nat) : Nat := s.chunk.elim want (min want)

theorem portion_le (s : ByteStream) (want : Nat) : s.portion want ≤ want := by
  rw [portion]
  cases s.chunk with
  | none => exact Nat.le_refl _
  | some chunk => exact Nat.min_le_left _ _

/-- All that a call does which is for bytes. -/
theorem of_read_bytes (h : s.read want = (.bytes bs, s')) :
    Fault.strike? s.position s.faults = none ∧
      ∃ n, n = Fault.clear s.position s.faults (s.portion want) ∧ bs = s.rest.take n ∧
        s' = { s with rest := s.rest.drop n, position := s.position + bs.length } := by
  rw [read] at h
  split at h
  · cases h
  next hstrike =>
    obtain ⟨hbytes, rfl⟩ := Prod.mk.inj h
    obtain rfl := Delivery.bytes.inj hbytes
    rw [portion]
    cases s.chunk with
    | none => exact ⟨hstrike, _, rfl, rfl, rfl⟩
    | some chunk => exact ⟨hstrike, _, rfl, rfl, rfl⟩

/-- All that a call does which fails. -/
theorem of_read_failed (h : s.read want = (.failed e, s')) :
    ∃ faults, Fault.strike? s.position s.faults = some (e, faults) ∧ s' = { s with faults } := by
  rw [read] at h
  split at h
  next e' faults hstrike =>
    obtain ⟨hfailed, rfl⟩ := Prod.mk.inj h
    obtain rfl := Delivery.failed.inj hfailed
    exact ⟨faults, hstrike, rfl⟩
  · cases h

/-- Bytes come off the front of what a stream has left, at most as many as were asked for. -/
theorem read_bytes (h : s.read want = (.bytes bs, s')) :
    bs.length ≤ want ∧ s.rest = bs ++ s'.rest ∧ s'.position = s.position + bs.length := by
  obtain ⟨-, n, hn, rfl, rfl⟩ := of_read_bytes h
  refine ⟨?_, (List.take_append_drop _ _).symm, rfl⟩
  calc (s.rest.take n).length
      _ ≤ n := List.length_take_le _ _
      _ ≤ s.portion want := hn ▸ Fault.clear_le _ _ _
      _ ≤ want := s.portion_le want

/-- A call that fails takes nothing. -/
theorem read_failed (h : s.read want = (.failed e, s')) :
    s'.rest = s.rest ∧ s'.position = s.position := by
  obtain ⟨faults, -, rfl⟩ := of_read_failed h
  exact ⟨rfl, rfl⟩

end ByteStream

namespace ByteSource

instance : Modest ByteStream where
  length_le h := (ByteStream.read_bytes h).1

theorem Took.rest_eq {s s' : ByteStream} {bs : List UInt8} (h : Took s bs s') :
    s.rest = bs ++ s'.rest ∧ s'.position = s.position + bs.length := by
  induction h with
  | nothing s => exact ⟨rfl, rfl⟩
  | bytes hread _ ih =>
    obtain ⟨-, hrest, hpos⟩ := ByteStream.read_bytes hread
    refine ⟨by rw [hrest, ih.1, List.append_assoc], ?_⟩
    rw [ih.2, hpos, List.length_append, Nat.add_assoc]
  | failed hread _ ih =>
    obtain ⟨hrest, hpos⟩ := ByteStream.read_failed hread
    exact ⟨by rw [← hrest, ih.1], by rw [ih.2, hpos]⟩

/-! ### Tapes -/

variable {σ : Type} [ByteSource σ]

theorem read_taped_bytes {t t' : Taped σ} {want : Nat} {bs : List UInt8}
    (h : read t want = (.bytes bs, t')) :
    read t.source want = (.bytes bs, t'.source) ∧ t'.bytes = t.bytes ++ bs := by
  simp only [read, Taped.read] at h
  split at h <;> rename_i hread
  · simp only [Prod.mk.injEq, Delivery.bytes.injEq] at h
    obtain ⟨rfl, rfl⟩ := h
    exact ⟨hread, rfl⟩
  · simp at h

theorem read_taped_failed {t t' : Taped σ} {want : Nat} {e : IoError}
    (h : read t want = (.failed e, t')) :
    read t.source want = (.failed e, t'.source) ∧ t'.bytes = t.bytes := by
  simp only [read, Taped.read] at h
  split at h <;> rename_i hread
  · simp at h
  · simp only [Prod.mk.injEq, Delivery.failed.injEq] at h
    obtain ⟨rfl, rfl⟩ := h
    exact ⟨hread, rfl⟩

instance [Modest σ] : Modest (Taped σ) where
  length_le h := Modest.length_le (read_taped_bytes h).1

/-- What comes out of a taped source comes out of the source, and goes on the tape. -/
theorem Took.tape_eq {t t' : Taped σ} {bs : List UInt8} (h : Took t bs t') :
    Took t.source bs t'.source ∧ t'.bytes = t.bytes ++ bs := by
  induction h with
  | nothing t => exact ⟨.nothing _, (List.append_nil _).symm⟩
  | bytes hread _ ih =>
    obtain ⟨hsource, htape⟩ := read_taped_bytes hread
    exact ⟨.bytes hsource ih.1, by rw [ih.2, htape, List.append_assoc]⟩
  | failed hread _ ih =>
    obtain ⟨hsource, htape⟩ := read_taped_failed hread
    exact ⟨.failed hsource ih.1, by rw [ih.2, htape]⟩

end ByteSource

end Placement
