/-
  Placement/Proofs/Bytes/Delivery.lean
  ====================================
  **Bytes are the same however they are delivered.**

  A source may hand out its bytes in pieces of any size and break off calls in between; all
  that a reader is promised is that bytes keep their order, that none are handed out only
  at the end, and that it is not interrupted for ever.  `Reliable` is that promise, together
  with the view it is about: `rest`, the bytes a source has yet to hand out.

  It is the case of a prospect that ends without an error (`Reliable.prospect`).  So whatever
  can be done with fills over the plain bytes is done alike over the source, and its view keeps
  pace with the bytes that are left (`of_follows`).
-/
import Placement.Proofs.Bytes.Prospects

namespace Placement

namespace ByteSource

variable {σ : Type} [ByteSource σ]

/-- The promise of a source about each call for at least one byte. -/
structure Reliable (σ : Type) [ByteSource σ] where
  /-- The states that the promise is about. -/
  Sound : σ → Prop
  /-- What has yet to be handed out. -/
  rest : σ → List UInt8
  /-- Bytes come in order, at most as many as were asked for, and none only at the end. -/
  delivered : ∀ {s s' : σ} {want : Nat} {bs : List UInt8}, Sound s → 0 < want →
    read s want = (.bytes bs, s') →
      Sound s' ∧ rest s = bs ++ rest s' ∧ bs.length ≤ want ∧ (bs = [] → rest s = []) ∧
        patience s' ≤ patience s
  /-- A call that fails was interrupted.  Nothing is lost by it, and there is one interruption
      less to come. -/
  interrupted : ∀ {s s' : σ} {want : Nat} {e : IoError}, Sound s → 0 < want →
    read s want = (.failed e, s') →
      Sound s' ∧ e.kind = .interrupted ∧ rest s' = rest s ∧ patience s' < patience s

/-! ### Bytes in one piece -/

/-- Bytes in memory are handed out as they are asked for. -/
def contiguous : Reliable (List UInt8) where
  Sound _ := True
  rest bs := bs
  delivered := by
    rintro s s' want bs - hwant hread
    simp only [read, Prod.mk.injEq, Delivery.bytes.injEq] at hread
    obtain ⟨rfl, rfl⟩ := hread
    refine ⟨trivial, (List.take_append_drop _ _).symm, List.length_take_le _ _, ?_, Nat.le_refl _⟩
    intro hnone
    rcases List.take_eq_nil_iff.mp hnone with hzero | hnil
    · omega
    · exact hnil
  interrupted := by
    rintro s s' want e - - hread
    simp [read] at hread

namespace Reliable

variable (r : Reliable σ)

/-- A reliable source is in for its bytes and never breaks. -/
def prospect : Prospect σ where
  Sound := r.Sound
  view := r.rest
  ending _ := none
  Broken _ := False
  delivered := by
    intro s s' want bs hs hwant hread
    obtain ⟨hs', hrest, hlen, hend, hpatience⟩ := r.delivered hs hwant hread
    exact ⟨hs', hrest, rfl, hlen, fun hnone => ⟨hend hnone, rfl⟩, hpatience⟩
  failed := by
    intro s s' want e hs hwant hread
    obtain ⟨hs', hkind, hrest, hpatience⟩ := r.interrupted hs hwant hread
    exact .inl ⟨hkind, hs', hrest, rfl, hpatience⟩

/-- What follows the plain bytes over a source that never breaks comes to the same over it. -/
theorem of_follows {β : Type} {broken? : β → Option (IoError → β)} {s : σ} {result : β}
    {left : List UInt8} {outcome : β × σ}
    (h : r.prospect.Follows broken? s (result, left) outcome) :
    ∃ s', r.Sound s' ∧ r.rest s' = left ∧ outcome = (result, s') := by
  cases h with
  | reaches hreach hend => exact ⟨_, hreach.sound, rfl, rfl⟩
  | breaks hresult hbreak => exact hbreak.broken.elim

/-! ### Tapes -/

/-- A taped source keeps the promise of its source, and nothing goes missing between the
    tape and what is still to come. -/
def taped (whole : List UInt8) : Reliable (Taped σ) where
  Sound t := r.Sound t.source ∧ t.bytes ++ r.rest t.source = whole
  rest t := r.rest t.source
  delivered := by
    rintro t t' want bs ⟨hsound, hwhole⟩ hwant hread
    obtain ⟨hsource, htape⟩ := read_taped_bytes hread
    obtain ⟨hsound', hrest, hothers⟩ := r.delivered hsound hwant hsource
    refine ⟨⟨hsound', ?_⟩, hrest, hothers⟩
    rw [htape, List.append_assoc, ← hrest, hwhole]
  interrupted := by
    rintro t t' want e ⟨hsound, hwhole⟩ hwant hread
    obtain ⟨hsource, htape⟩ := read_taped_failed hread
    obtain ⟨hsound', hkind, hrest, hpatience⟩ := r.interrupted hsound hwant hsource
    refine ⟨⟨hsound', ?_⟩, hkind, hrest, hpatience⟩
    rw [htape, hrest, hwhole]

end Reliable

end ByteSource

/-! ### Streams with pieces and interruptions -/

/-- A fault strikes once: it is the first one at the offset, and the others are still to come. -/
theorem Fault.exists_of_strike? {offset : Nat} {faults rest : List Fault} {e : IoError}
    (h : Fault.strike? offset faults = some (e, rest)) :
    ∃ front struck back, faults = front ++ struck :: back ∧ rest = front ++ back ∧
      struck.error = e ∧ struck.offset = offset ∧ ∀ f ∈ front, f.offset ≠ offset := by
  induction faults generalizing rest with
  | nil => simp [Fault.strike?] at h
  | cons fault faults ih =>
    rw [Fault.strike?] at h
    split at h
    next hoffset =>
      simp only [Option.some.injEq, Prod.mk.injEq] at h
      obtain ⟨rfl, rfl⟩ := h
      exact ⟨[], fault, faults, rfl, rfl, rfl, hoffset, by simp⟩
    next hoffset =>
      simp only [Option.map_eq_some_iff, Prod.mk.injEq, Prod.exists] at h
      obtain ⟨e', rest', hstrike, rfl, rfl⟩ := h
      obtain ⟨front, struck, back, rfl, rfl, rfl, hstruck, hfront⟩ := ih hstrike
      refine ⟨fault :: front, struck, back, rfl, rfl, rfl, hstruck, ?_⟩
      intro f hf
      rcases List.mem_cons.mp hf with rfl | hf
      · exact hoffset
      · exact hfront f hf

/-- Some bytes pass before the next fault. -/
theorem Fault.clear_pos (offset : Nat) (faults : List Fault) {count : Nat} (hcount : 0 < count) :
    0 < Fault.clear offset faults count := by
  unfold Fault.clear
  induction faults generalizing count with
  | nil => exact hcount
  | cons fault faults ih =>
    rw [List.foldl_cons]
    refine ih ?_
    split
    · omega
    · exact hcount

namespace ByteStream

/-- A stream that delivers something with each call and fails only by being interrupted. -/
def IsPatient (s : ByteStream) : Prop :=
  s.chunk ≠ some 0 ∧ ∀ fault ∈ s.faults, fault.error.kind = .interrupted

instance (s : ByteStream) : Decidable s.IsPatient :=
  inferInstanceAs (Decidable (s.chunk ≠ some 0 ∧ ∀ fault ∈ s.faults, _))

/-- A call that asks for something is for some bytes, unless the stream never hands out any. -/
theorem clear_pos_of_want {s : ByteStream} {want : Nat} (hchunk : s.chunk ≠ some 0)
    (hwant : 0 < want) :
    0 < Fault.clear s.position s.faults (s.portion want) := by
  refine Fault.clear_pos _ _ ?_
  rw [portion]
  rcases hc : s.chunk with _ | chunk
  · exact hwant
  · have hzero : chunk ≠ 0 := fun h => hchunk (by rw [hc, h])
    exact Nat.lt_min.mpr ⟨hwant, Nat.pos_of_ne_zero hzero⟩

def reliable : ByteSource.Reliable ByteStream where
  Sound := IsPatient
  rest := rest
  delivered := by
    rintro s s' want bs ⟨hchunk, hfaults⟩ hwant hread
    obtain ⟨hlen, hrest, -⟩ := read_bytes hread
    obtain ⟨-, n, rfl, rfl, rfl⟩ := of_read_bytes hread
    refine ⟨⟨hchunk, hfaults⟩, hrest, hlen, ?_, Nat.le_refl _⟩
    intro hnone
    rcases List.take_eq_nil_iff.mp hnone with hzero | hnil
    · exact absurd hzero (Nat.ne_of_gt (clear_pos_of_want hchunk hwant))
    · exact hnil
  interrupted := by
    rintro s s' want e ⟨hchunk, hfaults⟩ - hread
    obtain ⟨faults, hstrike, rfl⟩ := of_read_failed hread
    obtain ⟨front, struck, back, hall, rfl, rfl, -, -⟩ := Fault.exists_of_strike? hstrike
    have hkind : struck.error.kind = .interrupted := hfaults struck (by simp [hall])
    refine ⟨⟨hchunk, fun fault hmem => hfaults fault ?_⟩, hkind, rfl, ?_⟩
    · rw [hall]
      simp only [List.mem_append, List.mem_cons] at hmem ⊢
      tauto
    · simp [ByteSource.patience, hall]

end ByteStream

end Placement
