/-
  Placement/Proofs/Spawn/BrokenSources.lean
  =========================================
  **Records out of sources that break.**

  Reading a record from a stream with faults goes by the bytes before the next fault, up to the
  point where a reader of these bytes alone would run out.  Where that is and what the reader
  then says is known from the bytes (`receive_split`), and with it the error that the fault
  leads to (`breakError`).

  So for every call it is settled beforehand whether it meets the fault (`take_cases`).  A fault
  that is met is never swallowed, and one that is not leaves no trace
  (`fault_is_never_swallowed`).
-/
import Placement.Proofs.Bytes.Breaks
import Placement.Proofs.Spawn.Outcomes
import Placement.Proofs.Spawn.Sessions

namespace Placement

open Spawn ByteSource

namespace Spawn

/-! ### What a reader misses -/

/-- The error that comes of a source that breaks within a record, with so many of its bytes read.
    In the fields an early end is a truncation, and counts the fields that are whole; anything
    else is passed on. -/
def breakError (bs : List UInt8) (count : Nat) (e : IoError) : RecordError :=
  if e.kind = .unexpectedEof ∧ count < nameOffset bs then
    if count < 4 then .truncated 11 0
    else .truncated (if flagsBounded bs then 17 else 11)
      (piecesWithin (fieldWidths (flagsBounded bs)) count)
  else .transfer e

theorem breakError_of_short_lead {bs : List UInt8} {count : Nat} (h : count < 4) (e : IoError) :
    breakError bs count e = fieldError 11 0 e := by
  have hfields : count < nameOffset bs := Nat.lt_of_lt_of_le h (four_le_nameOffset bs)
  by_cases hkind : e.kind = .unexpectedEof
  · rw [breakError, if_pos ⟨hkind, hfields⟩, if_pos h, fieldError, if_pos hkind]
  · rw [breakError, if_neg fun hboth => hkind hboth.1, fieldError, if_neg hkind]

theorem breakError_of_short_fields {bs : List UInt8} {count : Nat} (hlead : 4 ≤ count)
    (h : count < nameOffset bs) (e : IoError) :
    breakError bs count e = fieldError (if flagsBounded bs then 17 else 11)
      (piecesWithin (fieldWidths (flagsBounded bs)) count) e := by
  by_cases hkind : e.kind = .unexpectedEof
  · rw [breakError, if_pos ⟨hkind, h⟩, if_neg (Nat.not_lt.mpr hlead), fieldError, if_pos hkind]
  · rw [breakError, if_neg fun hboth => hkind hboth.1, fieldError, if_neg hkind]

theorem breakError_of_fields {bs : List UInt8} {count : Nat} (h : nameOffset bs ≤ count)
    (e : IoError) : breakError bs count e = .transfer e :=
  if_neg fun hboth => Nat.not_lt.mpr h hboth.2

theorem flagsBounded_congr {bs cs : List UInt8} (h : bs.take 4 = cs.take 4) :
    flagsBounded bs = flagsBounded cs := by
  rw [flagsBounded, flagsBounded, h]

theorem nameOffset_congr {bs cs : List UInt8} (h : bs.take 4 = cs.take 4) :
    nameOffset bs = nameOffset cs := by
  rw [nameOffset, nameOffset, flagsBounded_congr h]

/-- The error is known from the bytes that were read. -/
theorem breakError_take (bs : List UInt8) (count : Nat) (e : IoError) :
    breakError (bs.take count) count e = breakError bs count e := by
  rcases Nat.lt_or_ge count 4 with hshort | hlead
  · rw [breakError_of_short_lead hshort, breakError_of_short_lead hshort]
  · have hsame : (bs.take count).take 4 = bs.take 4 := by
      rw [List.take_take, Nat.min_eq_left hlead]
    rw [breakError, breakError, flagsBounded_congr hsame, nameOffset_congr hsame]

theorem receive_of_long_name {bs : List UInt8} (hfields : nameOffset bs ≤ bs.length)
    (hlong : maxNameLength < statedNameLength bs) :
    receive bs = (.error (.nameTooLong (statedNameLength bs)), bs.drop (nameOffset bs)) := by
  rw [receive_of_fields hfields, receiveName, if_pos hlong]

theorem receive_of_short_name {bs : List UInt8} (hfields : nameOffset bs ≤ bs.length)
    (hname : ¬ maxNameLength < statedNameLength bs)
    (hshort : (bs.drop (nameOffset bs)).length < statedNameLength bs) :
    receive bs = (.error (.nameTruncated (statedNameLength bs) (bs.drop (nameOffset bs)).length),
      []) := by
  rw [receive_of_fields hfields, receiveName, if_neg hname, fill_of_lt hshort]

/-- The fields alone say where the name begins and how long it is. -/
theorem receive_fields_append {bs : List UInt8} (hfields : nameOffset bs ≤ bs.length)
    (tail : List UInt8) :
    nameOffset (bs.take (nameOffset bs) ++ tail) = nameOffset bs ∧
      statedNameLength (bs.take (nameOffset bs) ++ tail) = statedNameLength bs := by
  have hlength : (bs.take (nameOffset bs)).length = nameOffset bs := by
    rw [List.length_take, Nat.min_eq_left hfields]
  have hfour := four_le_nameOffset bs
  have hlead : (bs.take (nameOffset bs) ++ tail).take 4 = bs.take 4 := by
    rw [List.take_append_of_le_length (by omega), List.take_take, Nat.min_eq_left hfour]
  have hoffset := nameOffset_congr hlead
  have hwidth : nameOffset bs - (nameOffset bs - 4) = 4 := by omega
  have hlast : ∀ cs : List UInt8, (cs.drop (nameOffset bs - 4)).take 4 =
      (cs.take (nameOffset bs)).drop (nameOffset bs - 4) := by
    intro cs
    rw [List.drop_take, hwidth]
  refine ⟨hoffset, ?_⟩
  rw [statedNameLength, statedNameLength, hoffset, hlast, hlast, List.take_append_of_le_length
    (Nat.le_of_eq hlength.symm), List.take_take, Nat.min_self]

/-- Reading stops behind a record, whatever follows; or else all bytes are taken, and the error
    that comes of a break behind them is known. -/
theorem receive_split (bs : List UInt8) :
    (∃ front left result, bs = front ++ left ∧ recordBroken? result = none ∧
      ∀ tail, receive (front ++ tail) = (result, tail)) ∨
    ∃ result f, receive bs = (result, []) ∧ recordBroken? result = some f ∧
      ∀ e, f e = .error (breakError bs bs.length e) := by
  rcases Nat.lt_or_ge bs.length 4 with hshort | hlead
  · have herror : ∀ e, breakError bs bs.length e = fieldError 11 0 e :=
      breakError_of_short_lead hshort
    rcases Nat.eq_zero_or_pos bs.length with hnil | hpos
    · refine .inr ⟨.ok none, _, ?_, rfl, fun e => congrArg _ (herror e).symm⟩
      rw [List.length_eq_zero_iff.mp hnil]
      rfl
    · exact .inr ⟨_, _, receive_of_short_lead hpos hshort, rfl, fun e => congrArg _ (herror e).symm⟩
  rcases Nat.lt_or_ge bs.length (nameOffset bs) with hshort | hfields
  · have herror := breakError_of_short_fields hlead hshort
    exact .inr ⟨_, _, receive_of_short_fields hlead hshort, rfl, fun e => congrArg _ (herror e).symm⟩
  have herror := breakError_of_fields hfields
  by_cases hlong : maxNameLength < statedNameLength bs
  · refine .inl ⟨bs.take (nameOffset bs), bs.drop (nameOffset bs),
      .error (.nameTooLong (statedNameLength bs)), (List.take_append_drop _ _).symm, rfl, ?_⟩
    intro tail
    obtain ⟨hoffset, hstated⟩ := receive_fields_append hfields tail
    have hlength : (bs.take (nameOffset bs)).length = nameOffset bs := by
      rw [List.length_take, Nat.min_eq_left hfields]
    rw [receive_of_long_name, hstated, hoffset, List.drop_left' hlength]
    · rw [hoffset, List.length_append, hlength]
      exact Nat.le_add_right _ _
    · rw [hstated]
      exact hlong
  rcases Nat.lt_or_ge (bs.drop (nameOffset bs)).length (statedNameLength bs) with hshort | hname
  · exact .inr ⟨_, _, receive_of_short_name hfields hlong hshort, rfl,
      fun e => congrArg _ (herror e).symm⟩
  · rw [List.length_drop] at hname
    obtain ⟨spawn, hreceive, -⟩ := exists_receive_of_name (Nat.le_of_not_lt hlong)
      (by omega : nameOffset bs + statedNameLength bs ≤ bs.length)
    obtain ⟨htook, hspawn⟩ := took_of_receive hreceive
    exact .inl ⟨spawn.stored, _, .ok (some spawn), htook.eq_append, rfl,
      receive_stored_append hspawn⟩

/-- A record that is whole within the front of some bytes is the record that they begin with. -/
theorem receive_of_front {bs bytes view rest : List UInt8} (hbs : bs = view ++ rest)
    (hwhole : recordBroken? (receive view).1 = none) (hview : view = bytes ++ (receive view).2) :
    receive bs = ((receive view).1, (receive view).2 ++ rest) ∧
      bs = bytes ++ ((receive view).2 ++ rest) := by
  rcases receive_split view with ⟨front, left, result, hfront, -, hread⟩ | ⟨result, f, hread, hcut, -⟩
  · have hread' : receive view = (result, left) := by
      rw [hfront]
      exact hread left
    rw [hread'] at hview ⊢
    obtain rfl : bytes = front := List.append_cancel_right (hview.symm.trans hfront)
    have hbs' : bs = bytes ++ (left ++ rest) := by
      rw [hbs, hview, List.append_assoc]
    exact ⟨hbs' ▸ hread (left ++ rest), hbs'⟩
  · rw [hread, hcut] at hwhole
    cases hwhole

/-- A record that is not whole within the front of some bytes takes more of them, or all. -/
theorem lt_of_front_cut {bs bytes left view rest : List UInt8}
    {result : Except RecordError (Option (Spawn Binary32))} (hbs : bs = view ++ rest)
    (hcut : (recordBroken? (receive view).1).isSome) (hread : receive bs = (result, left))
    (hbytes : bs = bytes ++ left) :
    view.length < bytes.length ∨
      ((recordBroken? result).isSome = true ∧ view.length ≤ bytes.length) := by
  rcases receive_split bs with ⟨front, left', result', hfront, hwhole, hall⟩ | ⟨result', f, hall, hf, -⟩
  · have hread' : receive bs = (result', left') := by
      rw [hfront]
      exact hall left'
    obtain ⟨-, rfl⟩ := Prod.mk.inj (hread'.symm.trans hread)
    obtain rfl : bytes = front := List.append_cancel_right (hbytes.symm.trans hfront)
    refine .inl (Nat.lt_of_not_le fun hle => ?_)
    -- within the front the record would be whole
    have hwithin : view = bytes ++ view.drop bytes.length := by
      have hfront : (view ++ rest).take bytes.length = view.take bytes.length :=
        List.take_append_of_le_length hle
      have htake : view.take bytes.length = bytes := by
        rw [← hfront, ← hbs, hbytes, List.take_left]
      exact (List.take_append_drop bytes.length view).symm.trans (by rw [htake])
    rw [hwithin, hall, hwhole] at hcut
    cases hcut
  · obtain ⟨rfl, rfl⟩ := Prod.mk.inj (hall.symm.trans hread)
    rw [List.append_nil] at hbytes
    refine .inr ⟨by rw [hf]; rfl, ?_⟩
    rw [← hbytes, hbs, List.length_append]
    exact Nat.le_add_right _ _

theorem broken_eq_breakError {bs : List UInt8}
    {f : IoError → Except RecordError (Option (Spawn Binary32))}
    (hf : recordBroken? (receive bs).1 = some f) (e : IoError) :
    f e = .error (breakError bs bs.length e) := by
  rcases receive_split bs with ⟨front, left, result, hfront, hwhole, hread⟩ | ⟨result, g, hread, hg, herror⟩
  · rw [hfront, hread, hwhole] at hf
    cases hf
  · rw [hread, hg] at hf
    obtain rfl := Option.some.inj hf
    exact herror e

end Spawn

/-! ### Steps over a stream with faults -/

/-- Whether an answer is for want of bytes. -/
def ReadingAnswer.ranOut : ReadingAnswer → Bool
  | .ended => true
  | .failed (.truncated _ _) => true
  | .failed (.nameTruncated _ _) => true
  | _ => false

/-- A fault was met by a call if it is no longer to come. -/
def ReadingCall.Meets (call : ReadingCall ByteStream) (f : Fault) : Prop :=
  call.after.source.fatal = call.before.source.fatal.erase f

namespace ReadingState

theorem ranOut_ofResult {σ : Type} (step : ReadingStep) (before : ReadingState σ)
    (result : Except RecordError (Option (Spawn Binary32))) (bytes : List UInt8) (source : σ) :
    (ReadingCall.ofResult step before result bytes source).answer.ranOut =
      (recordBroken? result).isSome := by
  rcases result with (_ | _ | _ | _ | _) | _ | spawn <;> rfl

section Steps

variable {σ : Type} [ByteSource σ] {p : Prospect σ} {state : ReadingState σ} {step : ReadingStep}

/-- Whatever the style, a step goes by the reading of the bytes that are to come. -/
theorem take_follows (hs : p.Sound state.source) (hasks : state.Asks step) :
    ∃ bytes outcome, p.Follows recordBroken? state.source (receive (p.view state.source)) outcome ∧
      Took state.source bytes outcome.2 ∧
      state.take step = .ofResult step state outcome.1 bytes outcome.2 := by
  have hfollows := receive_follows hs
  obtain ⟨bytes, htook⟩ := hfollows.exists_took
  cases step with
  | plain => exact ⟨bytes, _, hfollows, htook, take_plain bytes⟩
  | taped =>
    have htaped : p.taped.Follows recordBroken? (Taped.start state.source)
        (receive (p.view state.source)) (receive (Taped.start state.source)) :=
      receive_follows (p := p.taped) (s := Taped.start state.source) hs
    obtain ⟨hfollows, htook⟩ := htaped.of_taped
    exact ⟨_, _, hfollows, htook, take_taped⟩
  | next => exact ⟨bytes, _, hfollows, htook, take_next (hasks.2 rfl) bytes⟩
  | unwrap => exact absurd rfl hasks.1

end Steps

end ReadingState

namespace ByteStream

variable {s : ByteStream} {bytes : List UInt8}
  {plain : Except RecordError (Option (Spawn Binary32)) × List UInt8}
  {outcome : Except RecordError (Option (Spawn Binary32)) × ByteStream}

/-- A reading of a stream takes what a reading of the bytes before the next fault takes; or it
    takes all of them and meets the fault. -/
theorem cases_of_follows (h : s.prospect.Follows recordBroken? s plain outcome)
    (htook : Took s bytes outcome.2) :
    (outcome.1 = plain.1 ∧ s.view = bytes ++ plain.2 ∧ outcome.2.fatal = s.fatal ∧
      ((recordBroken? plain.1).isSome → s.ending = none)) ∨
    ∃ f g, s.next? = some f ∧ s.ending = some f.error ∧ recordBroken? plain.1 = some g ∧
      outcome.1 = g f.error ∧ s.view = bytes ∧ outcome.2.fatal = s.fatal.erase f := by
  obtain ⟨hrest, -⟩ := Took.rest_eq htook
  cases h with
  | @reaches result bs s' hreach hend =>
    obtain ⟨hrest', -⟩ := Took.rest_eq hreach.took
    obtain rfl : bytes = bs := List.append_cancel_right (hrest.symm.trans hrest')
    exact .inl ⟨rfl, hreach.view_eq, hreach.sound.1, hend⟩
  | @breaks result g e s' hresult hbreak =>
    obtain ⟨hrest', -⟩ := Took.rest_eq hbreak.took
    have hall : bytes = s.view := List.append_cancel_right (hrest.symm.trans hrest')
    obtain ⟨f, hf, hfatal⟩ := hbreak.broken
    have hending : s.ending = some e := hbreak.ending_eq
    obtain rfl : e = f.error := by
      rw [ending, hf] at hending
      simp only [ite_eq_iff, reduceCtorEq, and_false, or_false, Option.some.injEq] at hending
      exact hending.2.symm
    exact .inr ⟨f, g, hf, hending, hresult, rfl, hall.symm, hfatal⟩

theorem sound_prospect (s : ByteStream) : s.prospect.Sound s := ⟨rfl, rfl⟩

theorem lt_of_ending_none {f : Fault} (hf : s.next? = some f) (h : s.ending = none) :
    s.offered.length < f.offset - s.position := by
  simp only [ending, hf, ite_eq_right_iff, reduceCtorEq, imp_false, Nat.not_le] at h
  exact h

theorem view_of_ending_none (h : s.ending = none) : s.view = s.offered := by
  rw [view]
  cases hf : s.next? with
  | none => rfl
  | some f => exact List.take_of_length_le (Nat.le_of_lt (lt_of_ending_none hf h))

/-- A stream that breaks has all bytes before the fault to offer. -/
theorem view_of_ending {f : Fault} {e : IoError} (hf : s.next? = some f) (h : s.ending = some e) :
    s.view = s.rest.take (f.offset - s.position) ∧ s.view.length = f.offset - s.position := by
  rw [ending, hf] at h
  simp only [ite_eq_iff, reduceCtorEq, and_false, or_false] at h
  have hle := h.1
  have hview : s.view = s.offered.take (f.offset - s.position) := by
    rw [view, hf]
  refine ⟨?_, by rw [hview, List.length_take, Nat.min_eq_left hle]⟩
  rw [hview]
  by_cases hchunk : s.chunk = some 0
  · rw [offered, if_pos hchunk, List.length_nil] at hle
    rw [Nat.le_zero.mp hle, List.take_zero, List.take_zero]
  · rw [offered, if_neg hchunk]

theorem exists_offered_eq (s : ByteStream) : ∃ rest, s.offered = s.view ++ rest := by
  rw [view]
  cases s.next? with
  | none => exact ⟨[], (List.append_nil _).symm⟩
  | some f => exact ⟨_, (List.take_append_drop _ _).symm⟩

theorem length_view_le {f : Fault} (hf : s.next? = some f) :
    s.view.length ≤ f.offset - s.position := by
  rw [view, hf]
  exact List.length_take_le _ _

theorem fatal_ne_erase {f : Fault} (h : s.next? = some f) : s.fatal ≠ s.fatal.erase f := by
  obtain ⟨hmem, hfatal, -⟩ := Fault.of_next? h
  have hf : f ∈ s.fatal := List.mem_filter.mpr ⟨hmem, hfatal⟩
  intro hsame
  have hlength := congrArg List.length hsame
  rw [List.length_erase_of_mem hf] at hlength
  have hpos := List.length_pos_of_mem hf
  omega

end ByteStream

namespace ReadingState

variable {state : ReadingState ByteStream} {step : ReadingStep}

/-- A step that reads takes what a reading of all bytes takes, or it breaks at the next fault, to
    which a reading of the bytes before it would run out. -/
theorem take_cases (hasks : state.Asks step) :
    (∃ result bytes left source, receive state.source.offered = (result, left) ∧
      state.source.offered = bytes ++ left ∧ Took state.source bytes source ∧
      bytes.length ≤ state.source.view.length ∧
      ((recordBroken? result).isSome → state.source.ending = none) ∧
      source.fatal = state.source.fatal ∧
      state.take step = .ofResult step state result bytes source) ∨
    ∃ f source, state.source.next? = some f ∧ state.source.ending = some f.error ∧
      (recordBroken? (receive state.source.view).1).isSome ∧
      Took state.source state.source.view source ∧ source.fatal = state.source.fatal.erase f ∧
      state.take step = .ofResult step state
        (.error (breakError state.source.rest (f.offset - state.source.position) f.error))
        state.source.view source := by
  obtain ⟨bytes, ⟨result, source⟩, hfollows, htook, htake⟩ :=
    take_follows (ByteStream.sound_prospect state.source) hasks
  have hfollows : state.source.prospect.Follows recordBroken? state.source
      (receive state.source.view) (result, source) := hfollows
  rcases ByteStream.cases_of_follows hfollows htook with ⟨rfl, hview, hfatal, hend⟩ |
    ⟨f, g, hf, hending, hcut, rfl, rfl, hfatal⟩
  · have hlength : bytes.length ≤ state.source.view.length := by
      rw [hview, List.length_append]
      exact Nat.le_add_right _ _
    by_cases hwhole : recordBroken? (receive state.source.view).1 = none
    · obtain ⟨rest, hrest⟩ := ByteStream.exists_offered_eq state.source
      obtain ⟨hread, hbytes⟩ := receive_of_front hrest hwhole hview
      exact .inl ⟨_, bytes, _, source, hread, hbytes, htook, hlength, hend, hfatal, htake⟩
    · -- nothing comes behind the view if a reading runs out of it without an error
      have hall := ByteStream.view_of_ending_none (hend (Option.isSome_iff_ne_none.mpr hwhole))
      rw [← hall]
      exact .inl ⟨_, bytes, _, source, rfl, hview, htook, Nat.le_trans hlength (by rw [hall]), hend,
        hfatal, htake⟩
  · obtain ⟨hbefore, hlength⟩ := ByteStream.view_of_ending hf hending
    have herror : g f.error = .error
        (breakError state.source.rest (f.offset - state.source.position) f.error) := by
      rw [broken_eq_breakError hcut, hlength, hbefore, breakError_take]
    refine .inr ⟨f, source, hf, hending, Option.isSome_iff_exists.mpr ⟨g, hcut⟩, htook, hfatal, ?_⟩
    rw [htake, herror]

/-- The call over the stream without its faults. -/
theorem exists_calm_take (hasks : state.Asks step) :
    ∃ result bytes left, receive state.source.offered = (result, left) ∧
      state.source.offered = bytes ++ left ∧
      (state.map ByteStream.calm).take step = .ofResult step (state.map ByteStream.calm) result bytes
        (state.source.calmPast bytes.length) := by
  have hsource : (state.map ByteStream.calm).source = state.source.calm := source_map _ _
  have hasks' : (state.map ByteStream.calm).Asks step :=
    ⟨hasks.1, fun hnext => (done_map _ state).trans (hasks.2 hnext)⟩
  have hcases := take_cases hasks'
  rw [hsource] at hcases
  rcases hcases with ⟨result, bytes, left, source, hread, hbytes, htook, -, -, -, htake⟩ | ⟨f, -, hf, -⟩
  · obtain ⟨hcalm, hfaults⟩ := ByteStream.calm_of_took htook
    have hnone : source.faults = [] := List.sublist_nil.mp hfaults
    have hafter : source = state.source.calmPast bytes.length := by
      rw [ByteStream.calm, ← hnone] at hcalm
      exact hcalm
    exact ⟨result, bytes, left, hread, hbytes, hafter ▸ htake⟩
  · cases hf

theorem meets_ofResult {result : Except RecordError (Option (Spawn Binary32))} {bytes : List UInt8}
    {source : ByteStream} {f : Fault} :
    (ReadingCall.ofResult step state result bytes source).Meets f ↔
      source.fatal = state.source.fatal.erase f := by
  rw [ReadingCall.Meets, ReadingCall.source_after_ofResult]
  rfl

/-- **A fault is never swallowed.**  For a call that reads, in whatever style, let `calm` be the
    call over the same bytes without faults, and `taken` the number of bytes that go into it.
    The next fault is met exactly if it is among these bytes, or else behind the last of them
    with `calm` running out there.  A call that does not meet it is `calm`; one that does
    answers with an error, and leaves the stream where the fault is. -/
theorem fault_is_never_swallowed (state : ReadingState ByteStream) (step : ReadingStep)
    (hasks : state.Asks step) :
    let stream := state.source
    let call := state.take step
    let calm := (state.map ByteStream.calm).take step
    let taken := calm.after.source.position - stream.position
    (stream.next? = none → call.map ByteStream.calm = calm) ∧
    ∀ f, stream.next? = some f →
      let ahead := f.offset - stream.position
      (call.Meets f ↔ ahead < taken ∨ (calm.answer.ranOut = true ∧ ahead ≤ taken)) ∧
      (¬ call.Meets f → call.map ByteStream.calm = calm) ∧
      (call.Meets f →
        call.answer = .failed (breakError stream.rest ahead f.error) ∧
          call.after.source.position = f.offset ∧
          call.after.source.rest = stream.rest.drop ahead) := by
  intro stream call calm taken
  obtain ⟨result, bytes, left, hread, hbytes, hcalm⟩ := exists_calm_take hasks
  have hcalm : calm = .ofResult step (state.map ByteStream.calm) result bytes
      (stream.calmPast bytes.length) := hcalm
  have htaken : taken = bytes.length := by
    have hposition : calm.after.source.position = stream.position + bytes.length := by
      rw [hcalm, ReadingCall.source_after_ofResult]
      rfl
    exact (congrArg (· - stream.position) hposition).trans (Nat.add_sub_cancel_left _ _)
  clear_value taken calm
  subst hcalm htaken
  rw [ranOut_ofResult]
  rcases take_cases hasks with
    ⟨result', bytes', left', source, hread', hbytes', htook, hlength, hend, hfatal, hcall⟩ |
    ⟨f, source, hf, hending, hcut, htook, hfatal, hcall⟩
  · obtain ⟨rfl, rfl⟩ := Prod.mk.inj (hread'.symm.trans hread)
    obtain rfl : bytes' = bytes := List.append_cancel_right (hbytes'.symm.trans hbytes)
    have hcall : call = .ofResult step state result' bytes' source := hcall
    clear_value call
    subst hcall
    have hsame := ReadingCall.map_ofResult ByteStream.calm step state result' bytes' source
    rw [(ByteStream.calm_of_took htook).1] at hsame
    refine ⟨fun _ => hsame, ?_⟩
    intro f hf ahead
    have hmissed : ¬ (ReadingCall.ofResult step state result' bytes' source).Meets f := by
      rw [meets_ofResult, hfatal]
      exact ByteStream.fatal_ne_erase hf
    refine ⟨iff_of_false hmissed ?_, fun _ => hsame, fun h => absurd h hmissed⟩
    have hbefore : bytes'.length ≤ ahead := Nat.le_trans hlength (ByteStream.length_view_le hf)
    rintro (hlt | ⟨hcut, hle⟩)
    · exact Nat.not_lt.mpr hbefore hlt
    · have hfar : stream.offered.length < ahead := ByteStream.lt_of_ending_none hf (hend hcut)
      have hoffered : stream.offered.length = bytes'.length + left'.length := by
        rw [← List.length_append, ← hbytes]
      omega
  · have hcall : call = .ofResult step state
        (.error (breakError stream.rest (f.offset - stream.position) f.error)) stream.view source :=
      hcall
    clear_value call
    subst hcall
    obtain ⟨hrest, hposition⟩ := Took.rest_eq htook
    obtain ⟨-, hlength⟩ := ByteStream.view_of_ending hf hending
    refine ⟨fun hnone => ?_, ?_⟩
    · have hnone : state.source.next? = none := hnone
      rw [hf] at hnone
      cases hnone
    intro f' hf' ahead
    obtain rfl : f' = f := Option.some.inj (hf'.symm.trans hf)
    have hahead : ahead = state.source.view.length := hlength.symm
    refine ⟨iff_of_true (meets_ofResult.mpr hfatal) ?_,
      fun h => absurd (meets_ofResult.mpr hfatal) h, fun _ => ⟨rfl, ?_, ?_⟩⟩
    · obtain ⟨rest, hoffered⟩ := ByteStream.exists_offered_eq state.source
      rw [hahead]
      exact lt_of_front_cut hoffered hcut hread hbytes
    · rw [ReadingCall.source_after_ofResult, hposition, hlength]
      exact Nat.add_sub_of_le (Fault.of_next? hf).2.2
    · have hdrop : state.source.rest.drop state.source.view.length = source.rest := by
        rw [hrest, List.drop_left]
      rw [ReadingCall.source_after_ofResult, hahead]
      exact hdrop.symm

/-- An error that says the data is over, behind the third field of a record. -/
def earlyEnd : Fault := ⟨10, ⟨.unexpectedEof, "unexpected end of file", none⟩⟩

/-- A record that comes in pieces of three bytes, with an interruption before the early end and
    another fault behind it. -/
def brittleStream : ByteStream where
  rest := oddSpawn.stored
  position := 0
  chunk := some 3
  faults := [⟨12, .noPermission⟩, earlyEnd, ⟨4, .keepsInterrupting⟩]

theorem fault_is_never_swallowed_early_end :
    (bare brittleStream).Asks .taped ∧ brittleStream.next? = some earlyEnd ∧
      ((bare brittleStream).take .taped).Meets earlyEnd ∧
      ((bare brittleStream).take .taped).answer = .failed (.truncated 17 3) := by
  have hasks : (bare brittleStream).Asks .taped := ⟨by decide, by decide⟩
  have hnext : brittleStream.next? = some earlyEnd := by decide +kernel
  obtain ⟨hmeets, -, hmet⟩ := (fault_is_never_swallowed (bare brittleStream) .taped hasks).2 _ hnext
  have hreached : ((bare brittleStream).take .taped).Meets earlyEnd :=
    hmeets.mpr (.inl (by decide +kernel))
  have herror : breakError brittleStream.rest 10 earlyEnd.error = .truncated 17 3 := by
    decide +kernel
  exact ⟨hasks, hnext, hreached, (hmet hreached).1.trans (congrArg _ herror)⟩

end ReadingState

end Placement
