/-
  Placement/Proofs/Spawn/Records.lean
  ===================================
  **One record: what is read is what was stored.**

  `receive_eq_some_iff` takes the reading of a record apart into its three stages, and the
  two directions of the format follow from it.  Reading invents nothing: whatever a reader
  returns, the bytes it took are the stored form of that record (`took_of_receive`), for
  any source.  Reading misses nothing: the stored form of a record is read back as that
  record and the bytes behind it stay where they are (`receive_stored_append`).

  On the side of writing, a sink in memory gets the stored form and nothing else
  (`send_eq`).
-/
import Placement.Proofs.Bytes.Consumption
import Placement.Proofs.Spawn.Fields
import Placement.Spawn.Reading
import Placement.Spawn.Writing

namespace Placement

namespace Spawn

open ByteSource

/-! ### The stages of reading -/

section Stages

variable {σ : Type} [ByteSource σ]

theorem receiveName_eq_ok_iff {length : Nat} {s s' : σ} {name : List UInt8} :
    receiveName length s = (.ok name, s') ↔
      length ≤ maxNameLength ∧ fill length s = (.complete name, s') := by
  unfold receiveName
  by_cases hlong : maxNameLength < length
  · simp [hlong, Nat.not_le.mpr hlong]
  · rw [if_neg hlong]
    rcases hfill : fill length s with ⟨bs | bs | e, s₁⟩
    · simp [Nat.le_of_not_lt hlong]
    · simp
    · simp

theorem receive_eq_some_iff {s s' : σ} {spawn : Spawn Binary32} :
    receive s = (.ok (some spawn), s') ↔
      ∃ lead s₁ block s₂ name,
        fill 4 s = (.complete lead, s₁) ∧
        receiveFields (fieldCount (SpawnFlag.bounded.isSet (readWord32 lead)))
          (fieldWidths (SpawnFlag.bounded.isSet (readWord32 lead))).tail 1 s₁ = (.ok block, s₂) ∧
        receiveName (readNameLength (SpawnFlag.bounded.isSet (readWord32 lead)) block) s₂ =
          (.ok name, s') ∧
        spawn = ofFields (readWord32 lead) block name := by
  unfold receive receiveAfterFlags
  constructor
  · intro h
    rcases hlead : fill 4 s with ⟨lead | lead | e, s₁⟩
    · simp only [hlead] at h
      rcases hblock : receiveFields (fieldCount (SpawnFlag.bounded.isSet (readWord32 lead)))
          (fieldWidths (SpawnFlag.bounded.isSet (readWord32 lead))).tail 1 s₁ with ⟨e | block, s₂⟩
      · simp [hblock] at h
      · rcases hname : receiveName
            (readNameLength (SpawnFlag.bounded.isSet (readWord32 lead)) block) s₂ with ⟨e | name, s₃⟩
        · simp [hblock, hname] at h
        · simp only [hblock, hname, Prod.mk.injEq, Except.ok.injEq, Option.some.injEq] at h
          obtain ⟨rfl, rfl⟩ := h
          exact ⟨lead, s₁, block, s₂, name, rfl, hblock, hname, rfl⟩
    · rcases lead with _ | ⟨b, lead⟩ <;> simp [hlead] at h
    · simp [hlead] at h
  · rintro ⟨lead, s₁, block, s₂, name, hlead, hblock, hname, rfl⟩
    simp only [hlead, hblock, hname]

theorem took_of_receiveFields [Modest σ] {expected read : Nat} {widths : List Nat} {s s' : σ}
    {block : List UInt8} (h : receiveFields expected widths read s = (.ok block, s')) :
    block.length = widths.sum ∧ Took s block s' := by
  induction widths generalizing read s block with
  | nil =>
    simp only [receiveFields, Prod.mk.injEq, Except.ok.injEq] at h
    obtain ⟨rfl, rfl⟩ := h
    exact ⟨rfl, .nothing _⟩
  | cons width widths ih =>
    rw [receiveFields] at h
    rcases hfill : fill width s with ⟨field | got | e, s₁⟩
    · simp only [hfill] at h
      rcases hrest : receiveFields expected widths (read + 1) s₁ with ⟨e | rest, s₂⟩
      · simp [hrest] at h
      · simp only [hrest, Prod.mk.injEq, Except.ok.injEq] at h
        obtain ⟨rfl, rfl⟩ := h
        obtain ⟨hlen, htook⟩ := took_of_fill_complete hfill
        obtain ⟨hlen', htook'⟩ := ih hrest
        refine ⟨?_, htook.append htook'⟩
        rw [List.length_append, hlen, hlen', List.sum_cons]
    · simp [hfill] at h
    · simp [hfill] at h

/-- **Reading invents nothing.**  A record is read from its own stored form, and its bit of
    the bound tells the truth. -/
theorem took_of_receive [Modest σ] {s s' : σ} {spawn : Spawn Binary32}
    (h : receive s = (.ok (some spawn), s')) :
    Took s spawn.stored s' ∧ spawn.Storable := by
  obtain ⟨lead, s₁, block, s₂, name, hlead, hblock, hname, rfl⟩ := receive_eq_some_iff.mp h
  obtain ⟨hshort, hfill⟩ := receiveName_eq_ok_iff.mp hname
  obtain ⟨hleadlen, htook⟩ := took_of_fill_complete hlead
  obtain ⟨hblocklen, htook'⟩ := took_of_receiveFields hblock
  obtain ⟨hnamelen, htook''⟩ := took_of_fill_complete hfill
  have hword : word32 (readWord32 lead) = lead := by
    rw [word32_readWord32 lead (Nat.le_of_eq hleadlen.symm), ← hleadlen, List.take_length]
  have hstored : (ofFields (readWord32 lead) block name).stored = lead ++ block ++ name := by
    rw [stored, flatten_fields_ofFields hblocklen hnamelen, hword]
    rfl
  refine ⟨?_, ⟨consistent_ofFields _ _ _, ?_⟩⟩
  · rw [hstored]
    exact (htook.append htook').append htook''
  · exact Nat.le_trans (Nat.le_of_eq hnamelen) hshort

theorem consistent_of_receive {s s' : σ} {spawn : Spawn Binary32}
    (h : receive s = (.ok (some spawn), s')) : spawn.Consistent := by
  obtain ⟨lead, s₁, block, s₂, name, -, -, -, rfl⟩ := receive_eq_some_iff.mp h
  exact consistent_ofFields _ _ _

end Stages

/-! ### Records in memory -/

theorem receiveFields_of_le {expected read : Nat} {widths : List Nat} {bs : List UInt8}
    (h : widths.sum ≤ bs.length) :
    receiveFields expected widths read bs = (.ok (bs.take widths.sum), bs.drop widths.sum) := by
  induction widths generalizing read bs with
  | nil => simp [receiveFields]
  | cons width widths ih =>
    rw [List.sum_cons] at h
    have hrest : widths.sum ≤ (bs.drop width).length := by
      rw [List.length_drop]
      omega
    rw [receiveFields, fill_of_le (by omega : width ≤ bs.length)]
    simp only [ih hrest, List.sum_cons, List.take_add, List.drop_drop]

theorem receiveFields_append {expected read : Nat} {widths : List Nat} {block rest : List UInt8}
    (h : block.length = widths.sum) :
    receiveFields expected widths read (block ++ rest) = (.ok block, rest) := by
  rw [receiveFields_of_le (by rw [List.length_append]; omega), ← h, List.take_left, List.drop_left]

theorem fill_append {want : Nat} {front rest : List UInt8} (h : front.length = want) :
    fill want (front ++ rest) = (.complete front, rest) := by
  rw [fill_of_le (by rw [List.length_append]; omega), ← h, List.take_left, List.drop_left]

/-- **Reading misses nothing.**  The stored form of a record is read back as that record,
    and nothing behind it is touched. -/
theorem receive_stored_append {spawn : Spawn Binary32} (hs : spawn.Storable) (tail : List UInt8) :
    receive (spawn.stored ++ tail) = (.ok (some spawn), tail) := by
  have hset : SpawnFlag.bounded.isSet spawn.flags = spawn.bound.isSome := hs.consistent
  have hflags : readWord32 (word32 spawn.flags) = spawn.flags := by
    simpa using readWord32_word32_append spawn.flags []
  rw [stored_append]
  refine receive_eq_some_iff.mpr ⟨word32 spawn.flags, _, spawn.fields.tail.flatten,
    spawn.name ++ tail, spawn.name, fill_append (length_word32 _), ?_, ?_, ?_⟩
  · rw [hflags, hset]
    exact receiveFields_append (length_flatten_tail_fields spawn)
  · rw [hflags, hset, readNameLength_fields hs.name_le]
    exact receiveName_eq_ok_iff.mpr ⟨hs.name_le, fill_append rfl⟩
  · rw [hflags, ofFields_fields hs]

/-- Bytes that do not even begin a record are no bytes at all. -/
theorem eq_nil_of_receive_eq_none {bs rest : List UInt8} (h : receive bs = (.ok none, rest)) :
    bs = [] ∧ rest = [] := by
  unfold receive at h
  by_cases hlen : 4 ≤ bs.length
  · rw [fill_of_le hlen] at h
    rcases hafter : receiveAfterFlags (readWord32 (bs.take 4)) (bs.drop 4) with ⟨e | spawn, s⟩ <;>
      simp [hafter] at h
  · rw [fill_of_lt (Nat.lt_of_not_le hlen)] at h
    rcases bs with _ | ⟨b, bs⟩
    · simpa using h.symm
    · simp at h

/-! ### Writing -/

theorem putAll_eq (bs held : List UInt8) : ByteSink.putAll bs held = (.ok (), held ++ bs) := by
  cases bs with
  | nil => simp [ByteSink.putAll, ByteSink.putWithin]
  | cons b bs =>
    simp [ByteSink.putAll, ByteSink.patience, ByteSink.putWithin, ByteSink.write]

theorem sendFields_eq (expected written : Nat) (fields : List (List UInt8)) (held : List UInt8) :
    sendFields expected fields written held = (.ok (), held ++ fields.flatten) := by
  induction fields generalizing written held with
  | nil => simp [sendFields]
  | cons field fields ih => simp only [sendFields, putAll_eq, ih, List.flatten_cons, List.append_assoc]

theorem send_eq {spawn : Spawn Binary32} (hname : spawn.name.length ≤ maxNameLength)
    (held : List UInt8) : send spawn held = (.ok (), held ++ spawn.stored) := by
  simp only [send, if_neg (Nat.not_lt.mpr hname), sendFields_eq, putAll_eq, stored,
    List.append_assoc]

theorem send_eq_error {σ : Type} [ByteSink σ] {spawn : Spawn Binary32}
    (hname : maxNameLength < spawn.name.length) (sink : σ) :
    send spawn sink = (.error (.nameTooLong spawn.name.length), sink) := by
  simp only [send, if_pos hname]

theorem sendAll_eq {spawns : List (Spawn Binary32)}
    (hnames : ∀ s ∈ spawns, s.name.length ≤ maxNameLength) (held : List UInt8) :
    sendAll spawns held = (.ok spawns.length, held ++ spawns.flatMap stored) := by
  induction spawns generalizing held with
  | nil => simp [sendAll]
  | cons spawn spawns ih =>
    have hspawn := hnames spawn List.mem_cons_self
    have hrest := ih (fun s hs => hnames s (List.mem_cons_of_mem _ hs))
    simp only [sendAll, send_eq hspawn, hrest, List.length_cons, List.flatMap_cons,
      List.append_assoc]

end Spawn

end Placement
