/-
  Placement/Proofs/Spawn/LimitedSinks.lean
  ========================================
  **Writing spawns into a sink that gives out.**

  A tray may have too little room, and faults may strike at any byte.  What is in it in the
  end is the beginning of what was to be written, up to the first position where it refuses,
  and from that position alone follows the error: which record it is in, whether that is in
  one of its fields or in its name, and how many fields lie before it (`writeError`).

  The argument goes up through the layers of writing.  Each of them either gets all its bytes
  in or stops at one of them, and says so with an error that is a function of that byte.
-/
import Placement.Proofs.Bytes.Refusals
import Placement.Proofs.Spawn.RoundTrip

namespace Placement

namespace Spawn

open ByteTray

/-! ### One record -/

/-- The error of writing a spawn that stops at a byte of its stored form: inside a field a sink
    that takes nothing makes a short write, which counts the fields before. -/
def writeError (s : Spawn Binary32) (n : Nat) (e : IoError) : RecordError :=
  if e.kind = .writeZero ∧ n < (if s.bound.isSome then 66 else 42) then
    .shortWrite (if s.bound.isSome then 17 else 11)
      (piecesWithin (fieldWidths s.bound.isSome) n)
  else .transfer e

theorem sendFields_cases (expected written : Nat) (fields : List (List UInt8)) (t : ByteTray) :
    (∃ t', sendFields expected fields written t = (.ok (), t') ∧ t.Admits fields.flatten t') ∨
    ∃ n e t',
      sendFields expected fields written t =
        (.error (if e.kind = .writeZero then
          .shortWrite expected (written + piecesWithin (fields.map List.length) n)
          else .transfer e), t') ∧
      t.Stops fields.flatten n e t' := by
  induction fields generalizing written t with
  | nil => exact .inl ⟨t, rfl, admits_nil t⟩
  | cons field fields ih =>
    rw [List.flatten_cons, List.map_cons]
    rcases putAll_cases field t with ⟨t', hput, hadmits⟩ | ⟨n, e, t', hput, hstop⟩
    · rcases ih (written + 1) t' with ⟨t'', hrest, hadmits'⟩ | ⟨n, e, t'', hrest, hstop⟩
      · refine .inl ⟨t'', ?_, hadmits.append hadmits'⟩
        simp only [sendFields, hput, hrest]
      · have hcount : written + piecesWithin (field.length :: fields.map List.length)
            (field.length + n) = written + 1 + piecesWithin (fields.map List.length) n := by
          rw [piecesWithin_cons, if_pos (Nat.le_add_right _ _), Nat.add_sub_cancel_left]
          omega
        refine .inr ⟨field.length + n, e, t'', ?_, hadmits.stops hstop⟩
        simp only [sendFields, hput, hrest, hcount]
    · have hcount : piecesWithin (field.length :: fields.map List.length) n = 0 := by
        rw [piecesWithin_cons, if_neg (Nat.not_le.mpr hstop.lt)]
      refine .inr ⟨n, e, t', ?_, hstop.append _⟩
      simp only [sendFields, hput, hcount, Nat.add_zero]

theorem sum_fieldWidths (bounded : Bool) :
    (fieldWidths bounded).sum = if bounded then 66 else 42 := by
  cases bounded <;> rfl

theorem fieldCount_eq (bounded : Bool) : fieldCount bounded = if bounded then 17 else 11 := by
  cases bounded <;> rfl

/-- A spawn gets into a tray, or it stops with the error for the byte that was refused. -/
theorem send_cases {s : Spawn Binary32} (hname : s.name.length ≤ maxNameLength) (t : ByteTray) :
    (∃ t', send s t = (.ok (), t') ∧ t.Admits s.stored t') ∨
    ∃ n e t', send s t = (.error (s.writeError n e), t') ∧ t.Stops s.stored n e t' := by
  have hfields : s.fields.flatten.length = if s.bound.isSome then 66 else 42 := by
    rw [length_flatten_fields, sum_fieldWidths]
  rw [send, if_neg (Nat.not_lt.mpr hname), stored, fieldCount_eq]
  rcases sendFields_cases (if s.bound.isSome then 17 else 11) 0 s.fields t with
    ⟨t', hput, hadmits⟩ | ⟨n, e, t', hput, hstop⟩
  · rcases putAll_cases s.name t' with ⟨t'', hput', hadmits'⟩ | ⟨n, e, t'', hput', hstop⟩
    · refine .inl ⟨t'', ?_, hadmits.append hadmits'⟩
      simp only [hput, hput']
    · have hbehind : ¬ s.fields.flatten.length + n < if s.bound.isSome then 66 else 42 := by
        rw [← hfields]
        omega
      refine .inr ⟨s.fields.flatten.length + n, e, t'', ?_, hadmits.stops hstop⟩
      have herror : s.writeError (s.fields.flatten.length + n) e = .transfer e :=
        if_neg fun h => hbehind h.2
      simp only [hput, hput', herror]
  · have hinside : n < if s.bound.isSome then 66 else 42 := by
      rw [← hfields]
      exact hstop.lt
    refine .inr ⟨n, e, t', ?_, hstop.append _⟩
    simp only [hput, writeError, hinside, and_true, length_fields, Nat.zero_add]

/-! ### Many records -/

/-- The spawns before the first one whose name is too long. -/
def untilNameTooLong (spawns : List (Spawn Binary32)) : List (Spawn Binary32) :=
  spawns.takeWhile fun s => decide (s.name.length ≤ maxNameLength)

/-- The error of writing spawns that stops at a byte of their stored forms. -/
def writeErrorAmong : List (Spawn Binary32) → Nat → IoError → RecordError
  | [], _, e => .transfer e
  | s :: spawns, n, e =>
    if n < s.stored.length then s.writeError n e
    else writeErrorAmong spawns (n - s.stored.length) e

/-- What writing spawns comes to if nothing stops it. -/
def writeOutcome (spawns : List (Spawn Binary32)) : Except RecordError Nat :=
  match spawns.find? fun s => decide (maxNameLength < s.name.length) with
  | some s => .error (.nameTooLong s.name.length)
  | none => .ok spawns.length

theorem exists_writeErrorAmong {spawns : List (Spawn Binary32)} {n : Nat}
    (hn : n < (spawns.flatMap stored).length) (e : IoError) :
    ∃ k s i, spawns[k]? = some s ∧ n = ((spawns.take k).flatMap stored).length + i ∧
      i < s.stored.length ∧ writeErrorAmong spawns n e = s.writeError i e := by
  induction spawns generalizing n with
  | nil => simp at hn
  | cons s spawns ih =>
    by_cases hfirst : n < s.stored.length
    · exact ⟨0, s, n, rfl, by simp, hfirst, if_pos hfirst⟩
    · have hrest : n - s.stored.length < (spawns.flatMap stored).length := by
        rw [List.flatMap_cons, List.length_append] at hn
        omega
      obtain ⟨k, s', i, hs', hi, hlt, herror⟩ := ih hrest
      refine ⟨k + 1, s', i, hs', ?_, hlt, ?_⟩
      · rw [List.take_succ_cons, List.flatMap_cons, List.length_append]
        omega
      · rw [writeErrorAmong, if_neg hfirst, herror]

theorem sendAll_cases (spawns : List (Spawn Binary32)) (t : ByteTray) :
    (∃ t', sendAll spawns t = (writeOutcome spawns, t') ∧
      t.Admits ((untilNameTooLong spawns).flatMap stored) t') ∨
    ∃ n e t', sendAll spawns t = (.error (writeErrorAmong (untilNameTooLong spawns) n e), t') ∧
      t.Stops ((untilNameTooLong spawns).flatMap stored) n e t' := by
  induction spawns generalizing t with
  | nil => exact .inl ⟨t, rfl, admits_nil t⟩
  | cons s spawns ih =>
    rw [sendAll]
    rcases Nat.lt_or_ge maxNameLength s.name.length with hlong | hshort
    · have hkept : untilNameTooLong (s :: spawns) = [] := by
        rw [untilNameTooLong, List.takeWhile_cons_of_neg (by simpa using hlong)]
      have hall : writeOutcome (s :: spawns) = .error (.nameTooLong s.name.length) := by
        rw [writeOutcome, List.find?_cons_of_pos (by simpa using hlong)]
      rw [send_eq_error hlong, hkept, hall]
      exact .inl ⟨t, rfl, admits_nil t⟩
    · have hkept : untilNameTooLong (s :: spawns) = s :: untilNameTooLong spawns := by
        rw [untilNameTooLong, List.takeWhile_cons_of_pos (by simpa using hshort)]
        rfl
      rw [hkept, List.flatMap_cons]
      rcases send_cases hshort t with ⟨t', hsend, hadmits⟩ | ⟨n, e, t', hsend, hstop⟩
      · rcases ih t' with ⟨t'', hrest, hadmits'⟩ | ⟨n, e, t'', hrest, hstop⟩
        · refine .inl ⟨t'', ?_, hadmits.append hadmits'⟩
          rw [writeOutcome] at hrest ⊢
          rw [List.find?_cons_of_neg (by simpa using hshort)]
          simp only [hsend, hrest]
          cases spawns.find? fun s => decide (maxNameLength < s.name.length) with
          | none => rfl
          | some s => rfl
        · refine .inr ⟨s.stored.length + n, e, t'', ?_, hadmits.stops hstop⟩
          rw [writeErrorAmong, if_neg (Nat.not_lt.mpr (Nat.le_add_right _ _)),
            Nat.add_sub_cancel_left]
          simp only [hsend, hrest]
      · refine .inr ⟨n, e, t', ?_, hstop.append _⟩
        rw [writeErrorAmong, if_pos hstop.lt]
        simp only [hsend]

/-- What a tray makes of writing spawns depends on nothing but what it holds and where it
    refuses. -/
theorem sendAll_congr (spawns : List (Spawn Binary32)) {t u : ByteTray} (hheld : u.held = t.held)
    (hrefusal : u.refusal? = t.refusal?) :
    (sendAll spawns u).1 = (sendAll spawns t).1 ∧
      (sendAll spawns u).2.held = (sendAll spawns t).2.held := by
  rcases sendAll_cases spawns t with ⟨t', hsend, h⟩ | ⟨n, e, t', hsend, h⟩ <;>
    rcases sendAll_cases spawns u with ⟨u', hsend', h'⟩ | ⟨n', e', u', hsend', h'⟩ <;>
    rw [hsend, hsend']
  · exact ⟨rfl, by rw [h.held_eq, h'.held_eq, hheld]⟩
  · exact absurd h' (h.not_stops hheld hrefusal)
  · exact absurd h (h'.not_stops hheld.symm hrefusal.symm)
  · obtain ⟨rfl, rfl⟩ := h.unique h' hheld hrefusal
    exact ⟨rfl, by rw [h.held_eq, h'.held_eq, hheld]⟩

/-- **A sink that gives out holds the exact beginning, and the report is exact.**  An empty
    tray, however much room it has, however it cuts up what it is offered and whatever faults
    there are, ends up with the first `m` bytes of what the spawns before the first one with
    too long a name are stored as, where `m` is the least of the number of these bytes, the
    room, and the offsets of the fatal faults.  If that is all of them, the result is the
    number of spawns, or the length of the name that is too long.  Otherwise it is the error
    for the record `k` that the byte after belongs to, and for the `i` bytes of it that got in:
    a short write, with the fields that lie before that byte, if nothing was taken inside a
    field, and else the error of the sink, which is that of the first fatal fault there.

    Neither interruptions nor the size of the pieces change anything of this. -/
theorem limited_sink_holds_prefix (spawns : List (Spawn Binary32)) (capacity chunk : Option Nat)
    (faults : List Fault) :
    ∃ (encodings : List (List UInt8)) (m : Nat),
      List.Forall₂ (fun (s : Spawn Binary32) encoding => send s [] = (.ok (), encoding))
        (untilNameTooLong spawns) encodings ∧
      IsLeast {n | n = encodings.flatten.length ∨ capacity = some n ∨ (chunk = some 0 ∧ n = 0) ∨
        ∃ f ∈ faults, f.isFatal ∧ f.offset = n} m ∧
      (sendAll spawns (empty capacity chunk faults)).2.held =
        encodings.flatten.take m ∧
      (m = encodings.flatten.length →
        (sendAll spawns (empty capacity chunk faults)).1 = writeOutcome spawns) ∧
      (m < encodings.flatten.length →
        ∃ k s encoding i e, (untilNameTooLong spawns)[k]? = some s ∧
          encodings[k]? = some encoding ∧ m = (encodings.take k).flatten.length + i ∧
          i < encoding.length ∧
          e = ((Fault.fatalAt? m faults).map Fault.error).getD .sinkFull ∧
          (sendAll spawns (empty capacity chunk faults)).1 =
            .error (if e.kind = .writeZero ∧ i < (if s.bound.isSome then 66 else 42) then
              .shortWrite (if s.bound.isSome then 17 else 11)
                (piecesWithin (fieldWidths s.bound.isSome) i)
              else .transfer e)) ∧
      ∀ (chunk' : Option Nat) (faults' : List Fault), (chunk' = some 0 ↔ chunk = some 0) →
        faults'.filter Fault.isFatal = faults.filter Fault.isFatal →
          (sendAll spawns (empty capacity chunk' faults')).1 =
              (sendAll spawns (empty capacity chunk faults)).1 ∧
            (sendAll spawns (empty capacity chunk' faults')).2.held =
              (sendAll spawns (empty capacity chunk faults)).2.held := by
  have hshort : ∀ s ∈ untilNameTooLong spawns, s.name.length ≤ maxNameLength := by
    intro s hs
    simpa using List.mem_takeWhile_imp (p := fun s : Spawn Binary32 =>
      decide (s.name.length ≤ maxNameLength)) hs
  have hlike (chunk' : Option Nat) (faults' : List Fault) (hchunk : chunk' = some 0 ↔ chunk = some 0)
      (hfaults : faults'.filter Fault.isFatal = faults.filter Fault.isFatal) :=
    sendAll_congr spawns (t := empty capacity chunk faults) (u := empty capacity chunk' faults') rfl
      (refusal?_congr rfl hchunk hfaults)
  refine ⟨(untilNameTooLong spawns).map stored, ?_⟩
  rw [← List.flatMap_def]
  rcases sendAll_cases spawns (empty capacity chunk faults) with ⟨t', hsend, hadmits⟩ |
    ⟨n, e, t', hsend, hstop⟩
  · refine ⟨((untilNameTooLong spawns).flatMap stored).length, forall₂_send_stored hshort,
      hadmits.isLeast rfl, ?_, ?_, ?_, hlike⟩
    · rw [hsend, hadmits.held_eq, held_empty, List.nil_append, List.take_length]
    · intro _
      rw [hsend]
    · intro hlt
      exact absurd hlt (Nat.lt_irrefl _)
  · obtain ⟨k, s, i, hs, hn, hi, herror⟩ := exists_writeErrorAmong hstop.lt e
    refine ⟨n, forall₂_send_stored hshort, hstop.isLeast rfl, ?_, ?_, ?_, hlike⟩
    · rw [hsend, hstop.held_eq, held_empty, List.nil_append]
    · intro hall
      exact absurd hall (Nat.ne_of_lt hstop.lt)
    · intro _
      have hrefused := hstop.refused
      rw [held_empty, List.length_nil, Nat.zero_add] at hrefused
      refine ⟨k, s, s.stored, i, e, hs, by simp [hs], ?_, hi,
        (refusal?_eq_some_iff.mp hrefused).2, ?_⟩
      · rw [← List.map_take, ← List.flatMap_def]
        exact hn
      · rw [hsend, herror]
        rfl

end Spawn

end Placement
