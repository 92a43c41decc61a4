/-
  Placement/Proofs/Spawn/Sessions.lean
  ====================================
  **One source, read in any mixture of ways.**

  A source of records may be read one record at a time, with or without the bytes, and it may
  be put into a cursor and taken out again.  `run` makes a list of such steps and tells what
  came of each.  Two things are shown of it.

  Every step that reads a record goes by one and the same reading of the bytes, so the
  calls over a reliable source are, seen through what the source has yet to hand out, the
  calls over the plain bytes (`delivery_is_invisible`).  And since no step takes more than
  its record, the steps share one sequence of records, which is that of a cursor going
  through all of them (`mixed_steps_share_records`); a cursor that has stopped stays where
  it is.
-/
import Placement.Proofs.Spawn.Pieces
import Placement.Proofs.Spawn.RoundTrip

namespace Placement

open Spawn ByteSource

/-! ### Steps -/

/-- What can be done with a source of records. -/
inductive ReadingStep
  /-- Read a record. -/
  | plain
  /-- Read a record together with its bytes. -/
  | taped
  /-- Ask a cursor for the next record, the source being put into one if it is not. -/
  | next
  /-- Take the source out of its cursor, if it is in one. -/
  | unwrap
  deriving DecidableEq

/-- A source, by itself or in a cursor. -/
inductive ReadingState (σ : Type)
  | bare (source : σ)
  | wrapped (cursor : SpawnCursor σ)

/-- What came of a step. -/
inductive ReadingAnswer
  /-- A record, and its bytes if they were asked for. -/
  | record (spawn : Spawn Binary32) (bytes? : Option (List UInt8))
  /-- No record: the data is over, or the cursor is done. -/
  | ended
  | failed (e : RecordError)
  /-- The step does not read. -/
  | unwrapped

/-- A step with all that can be told about it. -/
structure ReadingCall (σ : Type) where
  step : ReadingStep
  before : ReadingState σ
  answer : ReadingAnswer
  log : List LogLine
  after : ReadingState σ

namespace ReadingStep

def reads (step : ReadingStep) : Bool := decide (step ≠ .unwrap)

end ReadingStep

namespace ReadingAnswer

def ofResult :
    Except RecordError (Option (Spawn Binary32 × Option (List UInt8))) → ReadingAnswer
  | .ok (some (spawn, bytes?)) => .record spawn bytes?
  | .ok none => .ended
  | .error e => .failed e

def ofItem : Option (Except RecordError (Spawn Binary32)) → ReadingAnswer
  | some (.ok spawn) => .record spawn none
  | some (.error e) => .failed e
  | none => .ended

def spawn? : ReadingAnswer → Option (Spawn Binary32)
  | record spawn _ => some spawn
  | _ => none

def error? : ReadingAnswer → Option RecordError
  | failed e => some e
  | _ => none

end ReadingAnswer

namespace ReadingState

variable {σ τ : Type}

def source : ReadingState σ → σ
  | bare source => source
  | wrapped cursor => cursor.source

/-- The cursor a source is in, or would be put into. -/
def cursor : ReadingState σ → SpawnCursor σ
  | bare source => .start source
  | wrapped cursor => cursor

/-- The same state of another source. -/
def map (f : σ → τ) : ReadingState σ → ReadingState τ
  | bare source => bare (f source)
  | wrapped cursor => wrapped ⟨f cursor.source, cursor.done⟩

@[simp] theorem source_map (f : σ → τ) (state : ReadingState σ) :
    (state.map f).source = f state.source := by
  cases state with
  | bare source => rfl
  | wrapped cursor => rfl

@[simp] theorem done_map (f : σ → τ) (state : ReadingState σ) :
    (state.map f).cursor.done = state.cursor.done := by
  cases state with
  | bare source => rfl
  | wrapped cursor => rfl

theorem cursor_eq (state : ReadingState σ) : state.cursor = ⟨state.source, state.cursor.done⟩ := by
  cases state with
  | bare source => rfl
  | wrapped cursor => rfl

/-- The steps that put a question to the source: all that read, but for a cursor that is done. -/
def Asks (state : ReadingState σ) (step : ReadingStep) : Prop :=
  step ≠ .unwrap ∧ (step = .next → state.cursor.done = false)

theorem asks_cases (state : ReadingState σ) (step : ReadingStep) :
    step = .unwrap ∨ (step = .next ∧ state.cursor.done = true) ∨ state.Asks step := by
  by_cases hreads : step = .unwrap
  · exact .inl hreads
  · by_cases hdone : step = .next ∧ state.cursor.done = true
    · exact .inr (.inl hdone)
    · refine .inr (.inr ⟨hreads, ?_⟩)
      intro hnext
      exact Bool.eq_false_iff.mpr fun h => hdone ⟨hnext, h⟩

variable [ByteSource σ]

/-- Make one step. -/
def take (state : ReadingState σ) (step : ReadingStep) : ReadingCall σ :=
  match step with
  | .plain =>
    let t := receiveLogged state.source
    ⟨step, state, .ofResult (t.value.1.map fun spawn? => spawn?.map fun spawn => (spawn, none)),
      t.events, bare t.value.2⟩
  | .taped =>
    let t := receiveTaped state.source
    ⟨step, state, .ofResult (t.value.1.map fun spawn? => spawn?.map fun (spawn, bytes) =>
      (spawn, some bytes)), t.events, bare t.value.2⟩
  | .next =>
    let t := state.cursor.next
    ⟨step, state, .ofItem t.value.1, t.events, wrapped t.value.2⟩
  | .unwrap => ⟨step, state, .unwrapped, [], bare state.source⟩

/-- Make some steps, one after the other. -/
def run : List ReadingStep → ReadingState σ → List (ReadingCall σ)
  | [], _ => []
  | step :: steps, state => state.take step :: run steps (state.take step).after

end ReadingState

namespace ReadingCall

variable {σ τ : Type}

/-- The same call on another source. -/
def map (f : σ → τ) (call : ReadingCall σ) : ReadingCall τ :=
  ⟨call.step, call.before.map f, call.answer, call.log, call.after.map f⟩

/-- The call of a step that reads, by the result of reading and the bytes that went into it.
    Only a cursor remembers whether there was a record. -/
def ofResult (step : ReadingStep) (before : ReadingState σ)
    (result : Except RecordError (Option (Spawn Binary32))) (bytes : List UInt8) (source : σ) :
    ReadingCall σ where
  step
  before
  answer := .ofResult (result.map fun spawn? => spawn?.map fun spawn =>
    (spawn, if step = .taped then some bytes else none))
  log := resultLog result
  after :=
    if step = .next then .wrapped ⟨source, result matches .ok none | .error _⟩ else .bare source

theorem source_after_ofResult (step : ReadingStep) (before : ReadingState σ)
    (result : Except RecordError (Option (Spawn Binary32))) (bytes : List UInt8) (source : σ) :
    (ofResult step before result bytes source).after.source = source := by
  unfold ofResult
  by_cases hstep : step = .next
  · simp only [if_pos hstep, ReadingState.source]
  · simp only [if_neg hstep, ReadingState.source]

theorem done_after_record (step : ReadingStep) (before : ReadingState σ) (spawn : Spawn Binary32)
    (bytes : List UInt8) (source : σ) :
    (ofResult step before (.ok (some spawn)) bytes source).after.cursor.done = false := by
  unfold ofResult
  by_cases hstep : step = .next
  · simp only [if_pos hstep, ReadingState.cursor]
  · simp only [if_neg hstep, ReadingState.cursor, SpawnCursor.start]

theorem map_ofResult (f : σ → τ) (step : ReadingStep) (before : ReadingState σ)
    (result : Except RecordError (Option (Spawn Binary32))) (bytes : List UInt8) (source : σ) :
    (ofResult step before result bytes source).map f =
      ofResult step (before.map f) result bytes (f source) := by
  unfold ofResult map
  by_cases hstep : step = .next
  · simp only [if_pos hstep, ReadingState.map]
  · simp only [if_neg hstep, ReadingState.map]

end ReadingCall

namespace ReadingState

/-! ### One step -/

section Steps

variable {σ : Type} [ByteSource σ] {state : ReadingState σ} {step : ReadingStep}

theorem take_next_of_done (hdone : state.cursor.done = true) :
    state.take .next = ⟨.next, state, .ended, [], .wrapped state.cursor⟩ := by
  simp [take, SpawnCursor.next, hdone, Traced.quiet, ReadingAnswer.ofItem]

theorem take_plain (bytes : List UInt8) :
    state.take .plain =
      .ofResult .plain state (receive state.source).1 bytes (receive state.source).2 := by
  rw [take, receiveLogged_eq]
  rfl

theorem take_taped :
    state.take .taped =
      .ofResult .taped state (receive (Taped.start state.source)).1
        (receive (Taped.start state.source)).2.bytes
        (receive (Taped.start state.source)).2.source := by
  rw [take, receiveTaped, receiveLogged_eq]
  rcases receive (Taped.start state.source) with ⟨e | _ | spawn, after⟩
  · rfl
  · rfl
  · rfl

theorem take_next (hdone : state.cursor.done = false) (bytes : List UInt8) :
    state.take .next =
      .ofResult .next state (receive state.source).1 bytes (receive state.source).2 := by
  have hnext : ¬ (⟨state.source, state.cursor.done⟩ : SpawnCursor σ).done = true := by
    rw [hdone]
    exact Bool.false_ne_true
  rw [take, cursor_eq, SpawnCursor.next, if_neg hnext, receiveLogged_eq]
  rcases receive state.source with ⟨e | _ | spawn, after⟩
  · rfl
  · rfl
  · rfl

theorem exists_ofResult (hasks : state.Asks step) :
    ∃ result bytes source, state.take step = .ofResult step state result bytes source := by
  cases step with
  | plain => exact ⟨_, [], _, take_plain []⟩
  | taped => exact ⟨_, _, _, take_taped⟩
  | next => exact ⟨_, [], _, take_next (hasks.2 rfl) []⟩
  | unwrap => exact absurd rfl hasks.1

theorem reads_take (hasks : state.Asks step) : (state.take step).step.reads = true := by
  obtain ⟨_, _, _, htake⟩ := exists_ofResult hasks
  rw [htake]
  exact decide_eq_true hasks.1

/-- Whatever the style, a step that asks goes by the reading of the plain bytes. -/
theorem take_of_plain (r : Reliable σ) {left : List UInt8}
    {result : Except RecordError (Option (Spawn Binary32))} (hs : r.Sound state.source)
    (hasks : state.Asks step) (hplain : receive (r.rest state.source) = (result, left)) :
    ∃ source bytes, r.Sound source ∧ r.rest source = left ∧ bytes ++ left = r.rest state.source ∧
      state.take step = .ofResult step state result bytes source := by
  obtain ⟨t, ht, hrest, hwhole, htaped⟩ := receive_start_of_plain r hs hplain
  obtain ⟨source, hsource, hleft, hreceive⟩ := receive_of_plain r hs hplain
  cases step with
  | plain =>
    refine ⟨source, t.bytes, hsource, hleft, hwhole, ?_⟩
    rw [take_plain t.bytes, hreceive]
  | taped =>
    refine ⟨t.source, t.bytes, ht, hrest, hwhole, ?_⟩
    rw [take_taped, htaped]
  | next =>
    refine ⟨source, t.bytes, hsource, hleft, hwhole, ?_⟩
    rw [take_next (hasks.2 rfl) t.bytes, hreceive]
  | unwrap => exact absurd rfl hasks.1

/-- A step over a source is, seen through what is left of it, the step over the plain bytes. -/
theorem take_map (r : Reliable σ) (hs : r.Sound state.source) (step : ReadingStep) :
    (state.take step).map r.rest = (state.map r.rest).take step ∧
      r.Sound (state.take step).after.source := by
  rcases asks_cases state step with rfl | ⟨rfl, hdone⟩ | hasks
  · refine ⟨?_, hs⟩
    simp only [take, ReadingCall.map, source_map]
    rfl
  · rw [take_next_of_done hdone, take_next_of_done ((done_map r.rest state).trans hdone)]
    constructor
    · rw [ReadingCall.map, map, cursor_eq state, cursor_eq (state.map r.rest), source_map, done_map]
    · rw [source, cursor_eq state]
      exact hs
  rcases hplain : receive (r.rest state.source) with ⟨result, left⟩
  have hasks' : (state.map r.rest).Asks step :=
    ⟨hasks.1, fun hnext => (done_map r.rest state).trans (hasks.2 hnext)⟩
  have hplain' : receive (state.map r.rest).source = (result, left) := by
    rw [source_map, hplain]
  obtain ⟨after, bytes, hafter, hleft, hwhole, htake⟩ := take_of_plain r hs hasks hplain
  obtain ⟨after', bytes', -, hleft', hwhole', htake'⟩ :=
    take_of_plain contiguous trivial hasks' hplain'
  have hafter' : after' = left := hleft'
  have hbytes : bytes' = bytes := by
    have hsame : bytes' ++ left = bytes ++ left := by
      rw [hwhole, hwhole']
      exact source_map r.rest state
    exact List.append_cancel_right hsame
  rw [htake, htake', ReadingCall.map_ofResult, hleft, hafter', hbytes]
  refine ⟨rfl, ?_⟩
  rw [ReadingCall.source_after_ofResult]
  exact hafter

/-- A step that gives a record takes the stored form of the record, and nothing more. -/
theorem rest_eq_of_record (r : Reliable σ) (hs : r.Sound state.source) {spawn : Spawn Binary32}
    (hspawn : (state.take step).answer.spawn? = some spawn) :
    spawn.Storable ∧ r.rest state.source = spawn.stored ++ r.rest (state.take step).after.source := by
  rcases asks_cases state step with rfl | ⟨rfl, hdone⟩ | hasks
  · cases hspawn
  · rw [take_next_of_done hdone] at hspawn
    cases hspawn
  rcases hplain : receive (r.rest state.source) with ⟨result, left⟩
  obtain ⟨after, bytes, -, hleft, -, htake⟩ := take_of_plain r hs hasks hplain
  rw [htake] at hspawn ⊢
  rw [ReadingCall.source_after_ofResult, hleft]
  rcases result with e | _ | found
  · cases hspawn
  · cases hspawn
  · obtain rfl : found = spawn := Option.some.inj hspawn
    obtain ⟨htook, hgood⟩ := took_of_receive hplain
    exact ⟨hgood, htook.eq_append⟩

theorem log_take (state : ReadingState σ) (step : ReadingStep) :
    (state.take step).log = ((state.take step).answer.error?.map errorLine).toList := by
  rcases asks_cases state step with rfl | ⟨rfl, hdone⟩ | hasks
  · rfl
  · rw [take_next_of_done hdone]
    rfl
  · obtain ⟨result, bytes, source, htake⟩ := exists_ofResult hasks
    rw [htake]
    rcases result with e | _ | spawn
    · rfl
    · rfl
    · rfl

/-- Whatever stops a cursor, the cursor is done. -/
theorem done_of_take_next (hend : (state.take .next).answer.spawn? = none) :
    ∃ cursor : SpawnCursor σ, (state.take .next).after = .wrapped cursor ∧ cursor.done = true := by
  rcases hdone : state.cursor.done with _ | _
  · rw [take_next hdone []] at hend ⊢
    generalize receive state.source = outcome at hend ⊢
    rcases outcome with ⟨e | _ | spawn, source⟩
    · exact ⟨_, rfl, rfl⟩
    · exact ⟨_, rfl, rfl⟩
    · cases hend
  · rw [take_next_of_done hdone]
    exact ⟨_, rfl, hdone⟩

end Steps

/-! ### Runs -/

section Runs

variable {σ : Type} [ByteSource σ]

/-- Each call of a run is a step from some state, and the promise of the source holds there. -/
theorem exists_take_of_mem_run (r : Reliable σ) {steps : List ReadingStep} {state : ReadingState σ}
    (hs : r.Sound state.source) {call : ReadingCall σ} (hcall : call ∈ run steps state) :
    r.Sound call.before.source ∧ call = call.before.take call.step := by
  induction steps generalizing state with
  | nil => cases hcall
  | cons step steps ih =>
    rcases List.mem_cons.mp hcall with rfl | hcall
    · cases step with
      | plain => exact ⟨hs, rfl⟩
      | taped => exact ⟨hs, rfl⟩
      | next => exact ⟨hs, rfl⟩
      | unwrap => exact ⟨hs, rfl⟩
    · exact ih (take_map r hs step).2 hcall

theorem run_map (r : Reliable σ) (steps : List ReadingStep) {state : ReadingState σ}
    (hs : r.Sound state.source) :
    (run steps state).map (ReadingCall.map r.rest) = run steps (state.map r.rest) := by
  induction steps generalizing state with
  | nil => rfl
  | cons step steps ih =>
    obtain ⟨hcall, hsound⟩ := take_map r hs step
    rw [run, run, List.map_cons, ih hsound, hcall]
    exact congrArg (fun after => (state.map r.rest).take step :: run steps after)
      (congrArg ReadingCall.after hcall)

theorem log_of_mem_run {steps : List ReadingStep} {state : ReadingState σ} {call : ReadingCall σ}
    (hcall : call ∈ run steps state) : call.log = (call.answer.error?.map errorLine).toList := by
  induction steps generalizing state with
  | nil => cases hcall
  | cons step steps ih =>
    rcases List.mem_cons.mp hcall with rfl | hcall
    · exact log_take state step
    · exact ih hcall

theorem run_next_of_done {cursor : SpawnCursor σ} (hdone : cursor.done = true) (n : Nat) :
    run (List.replicate n .next) (.wrapped cursor) =
      List.replicate n ⟨.next, .wrapped cursor, .ended, [], .wrapped cursor⟩ := by
  induction n with
  | zero => rfl
  | succ n ih =>
    have htake : (ReadingState.wrapped cursor).take .next =
        ⟨.next, .wrapped cursor, .ended, [], .wrapped cursor⟩ := take_next_of_done hdone
    rw [List.replicate_succ, List.replicate_succ, run, htake]
    exact congrArg _ ih

end Runs

/-! ### Seen through what is left -/

/-- **How a source delivers its bytes is invisible.**  Whatever is done to read records, over
    a source that hands out its bytes in pieces and is interrupted now and then, each step
    answers, logs and leaves behind what it does over the bytes in one piece; and a step that
    gives a record takes the bytes of that record and none behind them. -/
theorem delivery_is_invisible {σ : Type} [ByteSource σ] (r : Reliable σ) (s : σ) (hs : r.Sound s)
    (steps : List ReadingStep) :
    (run steps (.bare s)).map (ReadingCall.map r.rest) = run steps (.bare (r.rest s)) ∧
    ∀ call ∈ run steps (.bare s), ∀ spawn, call.answer.spawn? = some spawn →
      ∃ encoding : List UInt8, send spawn [] = (.ok (), encoding) ∧
        r.rest call.before.source = encoding ++ r.rest call.after.source := by
  have hsound : r.Sound (ReadingState.bare s).source := hs
  refine ⟨run_map r steps hsound, ?_⟩
  intro call hcall spawn hspawn
  obtain ⟨hbefore, htake⟩ := exists_take_of_mem_run r hsound hcall
  rw [htake] at hspawn
  obtain ⟨hgood, hrest⟩ := rest_eq_of_record r hbefore hspawn
  refine ⟨spawn.stored, send_nil_eq_ok_iff.mpr ⟨hgood.name_le, rfl⟩, ?_⟩
  rw [hrest]
  exact congrArg (fun c : ReadingCall σ => spawn.stored ++ r.rest c.after.source) htake.symm

/-- Two records and one byte of another, a byte at a time and with interruptions in the flags and
    in the name of the first record, within the second one and at the end. -/
def haltingStream : ByteStream where
  rest := oddSpawn.stored ++ bareSpawn.stored ++ [7]
  position := 0
  chunk := some 1
  faults := [⟨0, .keepsInterrupting⟩, ⟨3, .keepsInterrupting⟩, ⟨3, .keepsInterrupting⟩,
    ⟨67, .keepsInterrupting⟩, ⟨90, .keepsInterrupting⟩, ⟨111, .keepsInterrupting⟩]

/-- The first record is read with its bytes and the second one from a cursor, which stops at the
    third. -/
theorem delivery_is_invisible_byte_by_byte :
    let bytes := oddSpawn.stored ++ bareSpawn.stored ++ [7]
    haltingStream.IsPatient ∧
    (run [.taped, .next, .next, .next] (.bare haltingStream)).map
        (ReadingCall.map ByteStream.rest) =
      run [.taped, .next, .next, .next] (.bare bytes) ∧
    (run [.taped, .next, .next, .next] (.bare bytes)).map (fun call => call.answer.spawn?) =
      [some oddSpawn, some bareSpawn, none, none] := by
  have hpatient : haltingStream.IsPatient := by decide
  exact ⟨hpatient, (delivery_is_invisible ByteStream.reliable haltingStream hpatient _).1,
    by decide +kernel⟩

/-! ### One sequence of records -/

/-- What a cursor that stops answers, and what it logs. -/
theorem answer_of_stop (step : ReadingStep) (before : ReadingState (List UInt8))
    (stop : Option RecordError) (bytes rest : List UInt8) :
    (ReadingCall.ofResult step before (stop.elim (.ok none) .error) bytes rest).answer =
      stop.elim .ended .failed := by
  cases stop with
  | none => rfl
  | some e => rfl

/-- A step that asks takes a record off the front of the bytes, in its stored form. -/
theorem take_of_stored {state : ReadingState (List UInt8)} {step : ReadingStep}
    {spawn : Spawn Binary32} {bytes : List UInt8} (hspawn : spawn.Storable)
    (hasks : state.Asks step) (hsource : state.source = spawn.stored ++ bytes) :
    state.take step = .ofResult step state (.ok (some spawn)) spawn.stored bytes := by
  have hplain : receive state.source = (.ok (some spawn), bytes) := by
    rw [hsource]
    exact receive_stored_append hspawn bytes
  obtain ⟨after, taken, -, hafter, hwhole, htake⟩ := take_of_plain contiguous trivial hasks hplain
  have hafter : after = bytes := hafter
  have htaken : taken = spawn.stored := List.append_cancel_right (hwhole.trans hsource)
  rw [htake, hafter, htaken]

/-- The records at the front of the bytes are given out one by one to the steps that read, and
    then comes what follows them. -/
theorem answer_of_run {spawns : List (Spawn Binary32)} {remainder rest : List UInt8}
    {stop : Option RecordError} (hspawns : ∀ s ∈ spawns, s.Storable)
    (hstop : receive remainder = (stop.elim (.ok none) .error, rest))
    {state : ReadingState (List UInt8)} (hdone : state.cursor.done = false)
    (hsource : state.source = spawns.flatMap stored ++ remainder) (steps : List ReadingStep)
    {k : Nat} {call : ReadingCall (List UInt8)}
    (hcall : ((run steps state).filter fun call => call.step.reads)[k]? = some call) :
    (∀ spawn, spawns[k]? = some spawn →
      call.answer = .record spawn (if call.step = .taped then some spawn.stored else none) ∧
      call.log = [] ∧ call.after.source = (spawns.drop (k + 1)).flatMap stored ++ remainder) ∧
    (k = spawns.length → call.answer = stop.elim .ended .failed) := by
  induction steps generalizing spawns state k with
  | nil => simp [run] at hcall
  | cons step steps ih =>
    by_cases hunwrap : step = .unwrap
    · -- the source comes out of its cursor as it is, and no call that reads is made
      subst hunwrap
      have hdone' : (ReadingState.bare state.source).cursor.done = false := rfl
      have hsource' : (ReadingState.bare state.source).source =
          spawns.flatMap stored ++ remainder := hsource
      exact ih hspawns hdone' hsource' hcall
    have hasks : state.Asks step := ⟨hunwrap, fun _ => hdone⟩
    rw [run, List.filter_cons, if_pos (reads_take hasks)] at hcall
    rcases spawns with _ | ⟨first, spawns⟩
    · -- nothing is promised of the calls behind the one that stops
      refine ⟨fun spawn hspawn => by simp at hspawn, ?_⟩
      rintro rfl
      have hplain : receive state.source = (stop.elim (.ok none) .error, rest) := by
        rw [hsource]
        exact hstop
      obtain ⟨after, bytes, -, -, -, htake⟩ := take_of_plain contiguous trivial hasks hplain
      rw [List.length_nil, List.getElem?_cons_zero, Option.some.injEq] at hcall
      rw [← hcall, htake, answer_of_stop]
    · have htake := take_of_stored (hspawns first List.mem_cons_self) hasks (by
        rw [hsource, List.flatMap_cons, List.append_assoc])
      rw [htake] at hcall
      rcases k with _ | k
      · rw [List.getElem?_cons_zero, Option.some.injEq] at hcall
        refine ⟨?_, fun hzero => by simp at hzero⟩
        intro spawn hspawn
        obtain rfl : first = spawn := by simpa using hspawn
        rw [← hcall, ReadingCall.source_after_ofResult]
        exact ⟨rfl, rfl, rfl⟩
      · rw [List.getElem?_cons_succ] at hcall
        have hrest := ih (fun s hs => hspawns s (List.mem_cons_of_mem _ hs))
          (ReadingCall.done_after_record step state first _ _)
          (ReadingCall.source_after_ofResult step state _ _ _) hcall
        simpa using hrest

/-- The records a cursor finds in some bytes, with what remains behind them. -/
theorem exists_found (bytes : List UInt8) :
    ∃ remainder rest, bytes =
        (SpawnCursor.ofBytes bytes).value.spawns.flatMap stored ++ remainder ∧
      (∀ s ∈ (SpawnCursor.ofBytes bytes).value.spawns, s.Storable) ∧
      receive remainder =
        ((SpawnCursor.ofBytes bytes).value.stoppedBy.elim (.ok none) .error, rest) := by
  obtain ⟨spawns, remainder, stop, rest, rfl, hgood, hstops, hnone, herror⟩ :=
    SpawnCursor.exists_run bytes
  have hrun : (SpawnCursor.start (spawns.flatMap stored ++ remainder)).RunsTo spawns stop rest :=
    ⟨_, SpawnCursor.yields_of_stored hgood remainder, hstops⟩
  have hcount : spawns.length ≤ (spawns.flatMap stored ++ remainder).length := by
    have := SpawnCursor.length_mul_le spawns
    rw [List.length_append]
    omega
  rw [SpawnCursor.ofBytes_eq hrun hcount]
  cases stop with
  | none =>
    obtain rfl : remainder = [] := hnone.mp rfl
    exact ⟨[], [], rfl, hgood, rfl⟩
  | some e => exact ⟨remainder, rest, rfl, hgood, herror e rfl⟩

theorem drop_flatten_take (pieces : List (List UInt8)) (remainder : List UInt8) (k : Nat) :
    (pieces.flatten ++ remainder).drop ((pieces.take k).map List.length).sum =
      (pieces.drop k).flatten ++ remainder := by
  have hsplit : pieces.flatten ++ remainder =
      (pieces.take k).flatten ++ ((pieces.drop k).flatten ++ remainder) := by
    rw [← List.append_assoc, ← List.flatten_append, List.take_append_drop]
  rw [hsplit, ← List.length_flatten, List.drop_left]

/-- **Ways of reading may be mixed freely.**  Among any steps over some bytes, those that read
    share the records that a cursor alone would find: the one with number `k` gives the
    record with number `k`, together with its stored form if it was to, and leaves the source
    where that record ends; and the first one that finds no record finds what stops the
    cursor.  A cursor that was stopped, over whatever source, stays as it is, its source
    included, and answers only that there is nothing more.  Each error is logged with one line
    by the call that gives it, and nothing else is logged. -/
theorem mixed_steps_share_records (bytes : List UInt8) :
    (∃ encodings : List (List UInt8),
      List.Forall₂ (fun s encoding => send s [] = (.ok (), encoding))
        (SpawnCursor.ofBytes bytes).value.spawns encodings ∧
      ∀ (steps : List ReadingStep) (k : Nat) (call : ReadingCall (List UInt8)),
        ((run steps (.bare bytes)).filter fun call => call.step.reads)[k]? = some call →
        (∀ spawn encoding, (SpawnCursor.ofBytes bytes).value.spawns[k]? = some spawn →
          encodings[k]? = some encoding →
          call.answer = .record spawn (if call.step = .taped then some encoding else none) ∧
          call.log = [] ∧
          call.after.source = bytes.drop ((encodings.take (k + 1)).map List.length).sum) ∧
        (k = (SpawnCursor.ofBytes bytes).value.spawns.length →
          call.answer = (SpawnCursor.ofBytes bytes).value.stoppedBy.elim .ended .failed)) ∧
    (∀ {σ : Type} [ByteSource σ] (state : ReadingState σ),
      (state.take .next).answer.spawn? = none → ∀ n : Nat,
        run (List.replicate n .next) (state.take .next).after =
          List.replicate n
            ⟨.next, (state.take .next).after, .ended, [], (state.take .next).after⟩) ∧
    (∀ {σ : Type} [ByteSource σ] (steps : List ReadingStep) (state : ReadingState σ),
      ∀ call ∈ run steps state, call.log = (call.answer.error?.map errorLine).toList) ∧
    ∀ e, (errorLine e).level = .error := by
  obtain ⟨remainder, rest, hbytes, hgood, hstop⟩ := exists_found bytes
  generalize (SpawnCursor.ofBytes bytes).value = found at hbytes hgood hstop ⊢
  refine ⟨⟨found.spawns.map stored, forall₂_send_stored fun s hs => (hgood s hs).name_le, ?_⟩,
    ?_, ?_, fun e => rfl⟩
  · intro steps k call hcall
    have hsource : (ReadingState.bare bytes).source =
        found.spawns.flatMap stored ++ remainder := hbytes
    obtain ⟨hrecord, hend⟩ := answer_of_run hgood hstop rfl hsource steps hcall
    refine ⟨?_, hend⟩
    intro spawn encoding hspawn hencoding
    obtain ⟨hanswer, hlog, hafter⟩ := hrecord spawn hspawn
    obtain rfl : spawn.stored = encoding := by simpa [hspawn] using hencoding
    refine ⟨hanswer, hlog, ?_⟩
    rw [hafter, List.flatMap_def, List.map_drop, ← drop_flatten_take, ← List.flatMap_def, ← hbytes]
  · intro σ _ state hend n
    obtain ⟨cursor, hafter, hdone⟩ := done_of_take_next hend
    rw [hafter]
    exact run_next_of_done hdone n
  · intro σ _ steps state call hcall
    exact log_of_mem_run hcall

end ReadingState

end Placement
