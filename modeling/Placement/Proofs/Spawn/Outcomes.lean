/-
  Placement/Proofs/Spawn/Outcomes.lean
  ====================================
  **What reading a record comes to.**

  Two numbers in the bytes decide how long a record has to be: the flags, whose bit of the
  bound says where the name begins (`nameOffset`), and the field just before the name, which
  says how long it is (`statedNameLength`).  Together with the number of bytes there are, they
  settle what a reader makes of them and how many it takes (`receive_classified`).

  So a record that is cut off anywhere is never taken for a shorter one, nor for the end of
  the data; that also follows from the format alone, since no stored form begins another.
-/
import Placement.Proofs.Spawn.RoundTrip

namespace Placement

namespace Spawn

open ByteSource

/-! ### What the bytes say -/

/-- Whether the flags, the first four bytes, have the bit of the bound. -/
def flagsBounded (bs : List UInt8) : Bool := (LittleEndian.decode (bs.take 4)).testBit 2

/-- Where the name begins. -/
def nameOffset (bs : List UInt8) : Nat := if flagsBounded bs then 66 else 42

/-- The length of the name according to the four bytes before it. -/
def statedNameLength (bs : List UInt8) : Nat :=
  LittleEndian.decode ((bs.drop (nameOffset bs - 4)).take 4)

theorem toNat_readWord32 (bs : List UInt8) :
    (readWord32 bs).toNat = LittleEndian.decode (bs.take 4) := by
  have hlt : LittleEndian.decode (bs.take 4) < 2 ^ 32 := by
    refine Nat.lt_of_lt_of_le (LittleEndian.decode_lt (bs.take 4)) ?_
    have hpow : 256 ^ (bs.take 4).length ≤ 256 ^ 4 :=
      Nat.pow_le_pow_right (by decide) (List.length_take_le 4 bs)
    exact hpow
  rw [readWord32, UInt32.toNat_ofNat_of_lt' hlt]

theorem isSet_bounded_eq_testBit (flags : UInt32) :
    SpawnFlag.bounded.isSet flags = flags.toNat.testBit 2 := by
  have hbit : (flags &&& SpawnFlag.bounded.bit).toNat = (flags.toNat.testBit 2).toNat * 2 ^ 2 :=
    Nat.and_two_pow flags.toNat 2
  rw [Bool.eq_iff_iff, SpawnFlag.isSet, bne_iff_ne, ne_eq, ← UInt32.toNat_inj, hbit]
  cases flags.toNat.testBit 2 <;> decide

theorem isSet_readWord32 (bs : List UInt8) :
    SpawnFlag.bounded.isSet (readWord32 bs) = flagsBounded bs := by
  rw [isSet_bounded_eq_testBit, toNat_readWord32, flagsBounded]

theorem sum_tail_fieldWidths (bs : List UInt8) :
    (fieldWidths (flagsBounded bs)).tail.sum = nameOffset bs - 4 := by
  unfold nameOffset
  cases flagsBounded bs <;> rfl

theorem four_le_nameOffset (bs : List UInt8) : 4 ≤ nameOffset bs := by
  unfold nameOffset
  cases flagsBounded bs <;> decide

theorem fieldCount_flagsBounded (bs : List UInt8) :
    fieldCount (flagsBounded bs) = if flagsBounded bs then 17 else 11 := by
  cases flagsBounded bs <;> rfl

/-- The first of the fields are the flags. -/
theorem piecesWithin_fieldWidths {bounded : Bool} {count : Nat} (hlead : 4 ≤ count) :
    piecesWithin (fieldWidths bounded) count =
      1 + piecesWithin (fieldWidths bounded).tail (count - 4) := by
  have hflags : fieldWidths bounded = 4 :: (fieldWidths bounded).tail := by
    cases bounded <;> rfl
  rw [hflags, piecesWithin_cons, if_pos hlead, Nat.add_comm, List.tail_cons]

theorem readNameLength_block (bs : List UInt8) :
    readNameLength (flagsBounded bs) ((bs.drop 4).take (nameOffset bs - 4)) =
      statedNameLength bs := by
  have hoffset : Part.nameLength.offset (flagsBounded bs) = nameOffset bs - 4 - 4 := by
    unfold nameOffset
    cases flagsBounded bs <;> rfl
  have hskip : 4 + (nameOffset bs - 4 - 4) = nameOffset bs - 4 := by
    unfold nameOffset
    cases flagsBounded bs <;> rfl
  have hwidth : nameOffset bs - 4 - (nameOffset bs - 4 - 4) = 4 := by omega
  rw [readNameLength, toNat_readWord32, statedNameLength, fromPart, hoffset, List.drop_take, hwidth,
    List.drop_drop, hskip, List.take_take, Nat.min_self]

/-! ### From the length to the outcome -/

theorem receiveFields_of_lt {expected read : Nat} {widths : List Nat} {bs : List UInt8}
    (h : bs.length < widths.sum) :
    receiveFields expected widths read bs =
      (.error (.truncated expected (read + piecesWithin widths bs.length)), []) := by
  induction widths generalizing read bs with
  | nil => simp at h
  | cons width widths ih =>
    rw [receiveFields, piecesWithin_cons]
    by_cases hwidth : width ≤ bs.length
    · have hrest : (bs.drop width).length < widths.sum := by
        rw [List.sum_cons] at h
        rw [List.length_drop]
        omega
      rw [fill_of_le hwidth, if_pos hwidth]
      simp only [ih hrest, List.length_drop]
      rw [Nat.add_right_comm, Nat.add_assoc]
    · rw [fill_of_lt (Nat.lt_of_not_le hwidth), if_neg hwidth]
      rfl

theorem receive_of_short_lead {bs : List UInt8} (hpos : 0 < bs.length) (hshort : bs.length < 4) :
    receive bs = (.error (.truncated 11 0), []) := by
  rw [receive, fill_of_lt hshort]
  rcases bs with _ | ⟨b, bs⟩
  · simp at hpos
  · rfl

theorem receive_of_lead {bs : List UInt8} (hlead : 4 ≤ bs.length) :
    receive bs =
      match receiveAfterFlags (readWord32 bs) (bs.drop 4) with
      | (.ok spawn, s) => (.ok (some spawn), s)
      | (.error e, s) => (.error e, s) := by
  have hword : readWord32 (bs.take 4) = readWord32 bs := by
    rw [readWord32, readWord32, List.take_take, Nat.min_self]
  rw [receive, fill_of_le hlead]
  simp only [hword]
  rcases receiveAfterFlags (readWord32 bs) (bs.drop 4) with ⟨e | spawn, s⟩
  · rfl
  · rfl

theorem receive_of_short_fields {bs : List UInt8} (hlead : 4 ≤ bs.length)
    (hshort : bs.length < nameOffset bs) :
    receive bs =
      (.error (.truncated (if flagsBounded bs then 17 else 11)
        (piecesWithin (fieldWidths (flagsBounded bs)) bs.length)), []) := by
  have hfields : (bs.drop 4).length < (fieldWidths (flagsBounded bs)).tail.sum := by
    rw [sum_tail_fieldWidths, List.length_drop]
    omega
  rw [receive_of_lead hlead, receiveAfterFlags, isSet_readWord32, receiveFields_of_lt hfields,
    piecesWithin_fieldWidths hlead, fieldCount_flagsBounded, List.length_drop]

theorem receive_of_fields {bs : List UInt8} (hfields : nameOffset bs ≤ bs.length) :
    receive bs =
      match receiveName (statedNameLength bs) (bs.drop (nameOffset bs)) with
      | (.ok name, s) =>
        (.ok (some (ofFields (readWord32 bs) ((bs.drop 4).take (nameOffset bs - 4)) name)), s)
      | (.error e, s) => (.error e, s) := by
  have hfour := four_le_nameOffset bs
  have hblock : (fieldWidths (flagsBounded bs)).tail.sum ≤ (bs.drop 4).length := by
    rw [sum_tail_fieldWidths, List.length_drop]
    omega
  have hskip : 4 + (nameOffset bs - 4) = nameOffset bs := by omega
  rw [receive_of_lead (Nat.le_trans hfour hfields), receiveAfterFlags, isSet_readWord32,
    receiveFields_of_le hblock, sum_tail_fieldWidths]
  simp only [readNameLength_block, List.drop_drop, hskip]
  rcases receiveName (statedNameLength bs) (bs.drop (nameOffset bs)) with ⟨e | name, s⟩
  · rfl
  · rfl

theorem exists_receive_of_name {bs : List UInt8} (hname : statedNameLength bs ≤ maxNameLength)
    (hlen : nameOffset bs + statedNameLength bs ≤ bs.length) :
    ∃ s, receive bs = (.ok (some s), bs.drop (nameOffset bs + statedNameLength bs)) ∧
      s.name = (bs.drop (nameOffset bs)).take (statedNameLength bs) := by
  have hrest : statedNameLength bs ≤ (bs.drop (nameOffset bs)).length := by
    rw [List.length_drop]
    omega
  refine ⟨ofFields (readWord32 bs) ((bs.drop 4).take (nameOffset bs - 4))
    ((bs.drop (nameOffset bs)).take (statedNameLength bs)), ?_, rfl⟩
  rw [receive_of_fields (Nat.le_of_add_right_le hlen), receiveName,
    if_neg (Nat.not_lt.mpr hname), fill_of_le hrest]
  simp only [List.drop_drop]

/-- What is only the beginning of a stored form is neither a record nor the end of the data. -/
theorem exists_error_of_stored_cut {s : Spawn Binary32} (hs : s.Storable) {front : List UInt8}
    (hne : front ≠ []) (hfront : front <+: s.stored) (hcut : front ≠ s.stored) :
    ∃ e rest, receive front = (.error e, rest) := by
  obtain ⟨missing, hwhole⟩ := hfront
  rcases hreceive : receive front with ⟨e | _ | t, rest⟩
  · exact ⟨e, rest, rfl⟩
  · exact absurd (eq_nil_of_receive_eq_none hreceive).1 hne
  · -- the record in front would be read from the whole as well, and leave nothing behind it
    obtain ⟨htook, ht⟩ := took_of_receive hreceive
    have hfront : front = t.stored ++ rest := htook.eq_append
    have hread : receive s.stored = (.ok (some t), rest ++ missing) := by
      rw [← hwhole, hfront, List.append_assoc]
      exact receive_stored_append ht (rest ++ missing)
    have hread' : receive s.stored = (.ok (some s), []) := by
      simpa using receive_stored_append hs []
    rw [hread, Prod.mk.injEq, List.append_eq_nil_iff] at hread'
    rw [hread'.2.2, List.append_nil] at hwhole
    exact absurd hwhole hcut

/-- **What reading a record comes to, by what the bytes say and how many there are.**  No bytes
    are the end of the data, and less than the flags is a truncation before any field.  Then
    the flags decide how many fields there are to be: too few bytes for them are a truncation
    that counts the fields which are there, whole.  With all fields, the name is too long, or
    cut off, or there is a record, which has the next bytes as its name and the bytes that were
    taken as its stored form.  Only a name that is too long leaves bytes behind it untouched
    along with an error.  A stored form that is cut off is always an error. -/
theorem receive_classified (bs : List UInt8) :
    (bs.length = 0 → receive bs = (.ok none, [])) ∧
    (1 ≤ bs.length → bs.length < 4 → receive bs = (.error (.truncated 11 0), [])) ∧
    (4 ≤ bs.length → bs.length < nameOffset bs →
      receive bs =
        (.error (.truncated (if flagsBounded bs then 17 else 11)
          (piecesWithin (fieldWidths (flagsBounded bs)) bs.length)), [])) ∧
    (nameOffset bs ≤ bs.length → 500 < statedNameLength bs →
      receive bs = (.error (.nameTooLong (statedNameLength bs)), bs.drop (nameOffset bs))) ∧
    (nameOffset bs ≤ bs.length → statedNameLength bs ≤ 500 →
      bs.length < nameOffset bs + statedNameLength bs →
      receive bs =
        (.error (.nameTruncated (statedNameLength bs) (bs.length - nameOffset bs)), [])) ∧
    (statedNameLength bs ≤ 500 → nameOffset bs + statedNameLength bs ≤ bs.length →
      ∃ s : Spawn Binary32,
        receive bs = (.ok (some s), bs.drop (nameOffset bs + statedNameLength bs)) ∧
        s.name = (bs.drop (nameOffset bs)).take (statedNameLength bs) ∧
        send s [] = (.ok (), bs.take (nameOffset bs + statedNameLength bs))) ∧
    ∀ s : Spawn Binary32, s.Constructed → ∀ encoding : List UInt8,
      send s [] = (.ok (), encoding) → ∀ front : List UInt8,
        front ≠ [] → front <+: encoding → front ≠ encoding →
          ∃ e rest, receive front = (.error e, rest) := by
  refine ⟨?_, receive_of_short_lead, receive_of_short_fields, ?_, ?_, ?_, ?_⟩
  · intro hnone
    rw [List.length_eq_zero_iff.mp hnone]
    rfl
  · intro hfields hlong
    have hlong' : maxNameLength < statedNameLength bs := hlong
    rw [receive_of_fields hfields, receiveName, if_pos hlong']
  · intro hfields hname hshort
    have hrest : (bs.drop (nameOffset bs)).length < statedNameLength bs := by
      rw [List.length_drop]
      omega
    have hname' : ¬ maxNameLength < statedNameLength bs := Nat.not_lt.mpr hname
    rw [receive_of_fields hfields, receiveName, if_neg hname', fill_of_lt hrest]
    simp only [List.length_drop]
  · intro hname hlen
    obtain ⟨s, hreceive, hsname⟩ := exists_receive_of_name hname hlen
    obtain ⟨htook, hs⟩ := took_of_receive hreceive
    refine ⟨s, hreceive, hsname, send_nil_eq_ok_iff.mpr ⟨hs.name_le, ?_⟩⟩
    have hwhole : s.stored ++ bs.drop (nameOffset bs + statedNameLength bs) = bs :=
      htook.eq_append.symm
    have hsplit := hwhole.trans
      (List.take_append_drop (nameOffset bs + statedNameLength bs) bs).symm
    exact (List.append_cancel_right hsplit).symm
  · intro s hs encoding hsend front hne hfront hcut
    obtain ⟨hname, rfl⟩ := send_nil_eq_ok_iff.mp hsend
    exact exists_error_of_stored_cut (hs.storable hname) hne hfront hcut

end Spawn

end Placement
