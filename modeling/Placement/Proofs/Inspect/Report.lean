/-
  Placement/Proofs/Inspect/Report.lean
  ====================================
  **The inspector tells what is in a file.**

  A run of the inspector reads the records of a file one at a time together with their
  bytes, and writes as it goes.  A record comes with its stored form, whatever it is read
  from; so the check of the bytes neither fails nor finds a difference
  (`verify_of_receiveTaped`), and one turn of the loop tells of the record and counts it
  (`tell_of_receiveTaped`).  Over a file that is delivered in whatever pieces, the records
  are those that a cursor finds in the bytes (`tellAll_eq`), and only what stops the run is
  ever logged before the summary.

  What is printed of a record is a function of that record, the arguments and the settings
  (`told`).  Its line about the point is decided without a model, by the same conditions
  as the gate before the mesh of a model that has been placed and loaded
  (`events_areaBelow_of_place`).
-/
import Placement.Inspect.Run
import Placement.Proofs.Spawn.Sessions
import Placement.Query.Surface

namespace Placement

/-! ### Records with their bytes -/

namespace Spawn

open ByteSource

variable {σ : Type} [ByteSource σ]

/-- Reading with a tape gives the result of reading the plain bytes, and the bytes that
    reading them took. -/
theorem receiveTaped_of_plain (r : Reliable σ) {s : σ} {left : List UInt8}
    {result : Except RecordError (Option (Spawn Binary32))} (hs : r.Sound s)
    (hplain : receive (r.rest s) = (result, left)) :
    ∃ s' bytes, r.Sound s' ∧ r.rest s' = left ∧ bytes ++ left = r.rest s ∧
      receiveTaped s = ⟨(result.map fun spawn? => spawn?.map fun spawn => (spawn, bytes), s'),
        resultLog result⟩ := by
  obtain ⟨t, ht, hrest, hwhole, htaped⟩ := receive_start_of_plain r hs hplain
  refine ⟨t.source, t.bytes, ht, hrest, hwhole, ?_⟩
  rw [receiveTaped, receiveLogged_eq, htaped]
  cases result with
  | error e => rfl
  | ok spawn? => rfl

end Spawn

/-! ### Lines -/

namespace Inspect

open Spawn ByteSource

def OutputLine.report? : OutputLine → Option String
  | .report text => some text
  | .log _ _ => none

/-- What a run reports, without its log. -/
def Outcome.reported (o : Outcome) : List String := o.output.filterMap OutputLine.report?

/-- What a run logs, without its report. -/
def Outcome.logged (o : Outcome) : List OutputLine := o.output.filter fun l => l.report?.isNone

/-- Where the ray that was asked about reaches the bound of a spawn, if it does so near
    enough. -/
def reach? (args : Arguments) (settings : QuerySettings Binary32) (s : Spawn Binary32) :
    Option Binary32 := do
  let ray ← args.ray
  let bound ← s.bound
  let t := ray.entryTime bound
  if t ≤ settings.maxRayDistance then some t else none

/-- Whether a spawn that tells areas has the point that was asked about in its bound. -/
def encloses (args : Arguments) (s : Spawn Binary32) : Bool :=
  args.point.any fun point => !s.has .doodad && s.bound.any fun bound => bound.contains point

def reachText (s : Spawn Binary32) (t : Binary32) : String :=
  "  ray reaches spawn " ++ s.id.toNat.repr ++ " at " ++ t.fixedText 3

def insideText (s : Spawn Binary32) : String := "  point inside spawn " ++ s.id.toNat.repr

/-- What is reported of one record. -/
def told (args : Arguments) (settings : QuerySettings Binary32) (s : Spawn Binary32) :
    List String :=
  (if args.quiet then [] else [description s])
    ++ ((reach? args settings s).map (reachText s)).toList
    ++ (if encloses args s then [insideText s] else [])

theorem reach?_eq_some_iff {args : Arguments} {settings : QuerySettings Binary32}
    {s : Spawn Binary32} {t : Binary32} :
    reach? args settings s = some t ↔
      ∃ ray bound, args.ray = some ray ∧ s.bound = some bound ∧ ray.entryTime bound = t ∧
        t ≤ settings.maxRayDistance := by
  simp only [reach?, Option.bind_eq_bind, Option.bind_eq_some_iff, Option.ite_none_right_eq_some,
    Option.some.injEq]
  constructor
  · rintro ⟨ray, hray, bound, hbound, hnear, rfl⟩
    exact ⟨ray, bound, hray, hbound, rfl, hnear⟩
  · rintro ⟨ray, bound, hray, hbound, rfl, hnear⟩
    exact ⟨ray, hray, bound, hbound, hnear, rfl⟩

theorem encloses_iff {args : Arguments} {s : Spawn Binary32} :
    encloses args s = true ↔
      ∃ point bound, args.point = some point ∧ s.bound = some bound ∧ s.has .doodad = false ∧
        bound.contains point = true := by
  unfold encloses
  rcases args.point with _ | point
  · simp
  · rcases s.bound with _ | bound
    · simp
    · simp

/-! ### One record -/

section Record

variable (args : Arguments) (settings : QuerySettings Binary32) (s : Spawn Binary32)

theorem descriptionLines_eq :
    descriptionLines args s =
      (if args.quiet then [] else [description s]).map OutputLine.report := by
  rw [descriptionLines, apply_ite (List.map OutputLine.report)]
  rfl

theorem rayLines_eq :
    rayLines args settings s =
      (((reach? args settings s).map (reachText s)).toList).map OutputLine.report := by
  unfold rayLines reach?
  rcases args.ray with _ | ray
  · rfl
  rcases s.bound with _ | bound
  · rfl
  · simp only [Option.bind_eq_bind, Option.bind_some]
    by_cases hnear : ray.entryTime bound ≤ settings.maxRayDistance
    · rw [if_pos hnear, if_pos hnear]
      rfl
    · rw [if_neg hnear, if_neg hnear]
      rfl

theorem pointLines_eq :
    pointLines args s =
      (if encloses args s then [insideText s] else []).map OutputLine.report := by
  unfold pointLines encloses
  rcases args.point with _ | point
  · rfl
  rcases s.bound with _ | bound
  · simp
  · rw [apply_ite (List.map OutputLine.report)]
    rfl

end Record

section Loop

variable {args : Arguments} {settings : QuerySettings Binary32} {counts : Counts}
  {σ : Type} [ByteSource σ]

/-- The bytes that a record comes with are its stored form, so that writing it again never fails
    and never makes a difference. -/
theorem verify_of_receiveTaped [Modest σ] {source source' : σ} {s : Spawn Binary32}
    {taken : List UInt8} {log : List LogLine}
    (h : receiveTaped source = ⟨(.ok (some (s, taken)), source'), log⟩) :
    verify args (s, taken) counts = .quiet (.ok counts) := by
  have hstored : s.isStoredAs taken = .ok true := (took_of_receiveTaped h).2
  simp only [verify, hstored, ite_self]

/-- One turn of the loop tells of the record that was read, and counts it. -/
theorem tell_of_receiveTaped [Modest σ] {source source' : σ} {s : Spawn Binary32}
    {taken : List UInt8} {log : List LogLine}
    (h : receiveTaped source = ⟨(.ok (some (s, taken)), source'), log⟩) :
    tell args settings (s, taken) counts =
      ⟨.ok (counts.add s), (told args settings s).map OutputLine.report⟩ := by
  rw [tell, verify_of_receiveTaped h, descriptionLines_eq, rayLines_eq, pointLines_eq, told,
    List.map_append, List.map_append, List.append_assoc]
  simp only [bind, Traced.andThen, pure, Traced.quiet, Traced.emitAll, List.nil_append,
    List.append_nil]

/-- The whole loop over a source: each record is told of in its turn and counted, and what stops
    the run is logged and is its error. -/
theorem tellAll_eq [Modest σ] (r : Reliable σ) {spawns : List (Spawn Binary32)}
    {remainder rest : List UInt8} {stop : Option RecordError}
    (hspawns : ∀ s ∈ spawns, s.Storable)
    (hstop : receive remainder = (stop.elim (.ok none) .error, rest)) {s : σ} (hs : r.Sound s)
    (hrest : r.rest s = spawns.flatMap stored ++ remainder) {limit : Nat}
    (hlimit : spawns.length < limit) (counts : Counts) :
    tellAll args settings limit s counts =
      ⟨stop.elim (.ok (spawns.foldl Counts.add counts)) .error,
        (spawns.flatMap (told args settings)).map OutputLine.report ++
          (stop.map fun e => .ofReading (errorLine e)).toList⟩ := by
  -- by the records that are left; the counts are handed on and so are any
  induction spawns generalizing limit s counts with
  | nil =>
    obtain ⟨limit, rfl⟩ := Nat.exists_eq_add_one_of_ne_zero (Nat.ne_of_gt hlimit)
    have hplain : receive (r.rest s) = (stop.elim (.ok none) .error, rest) := by
      rw [hrest]
      exact hstop
    obtain ⟨s', bytes, -, -, -, htaped⟩ := receiveTaped_of_plain r hs hplain
    rw [tellAll, htaped]
    cases stop with
    | none => rfl
    | some e => rfl
  | cons spawn spawns ih =>
    obtain ⟨limit, rfl⟩ := Nat.exists_eq_add_one_of_ne_zero (Nat.ne_zero_of_lt hlimit)
    have hplain : receive (r.rest s) =
        (.ok (some spawn), spawns.flatMap stored ++ remainder) := by
      rw [hrest, List.flatMap_cons, List.append_assoc]
      exact receive_stored_append (hspawns spawn List.mem_cons_self) _
    obtain ⟨s', bytes, hs', hrest', -, htaped⟩ := receiveTaped_of_plain r hs hplain
    have hbehind := ih (fun t ht => hspawns t (List.mem_cons_of_mem _ ht)) hs' hrest'
      (Nat.lt_of_succ_lt_succ hlimit) (counts.add spawn)
    rw [tellAll, htaped]
    simp only [Except.map, Option.map_some, bind, Traced.andThen, Traced.mapEvents,
      tell_of_receiveTaped htaped, hbehind, resultLog, List.map_nil, List.nil_append,
      List.flatMap_cons, List.map_append, List.append_assoc, List.foldl_cons]

end Loop

/-- The loop over a stream by what a cursor finds in its bytes. -/
theorem tellAll_stream_eq (args : Arguments) (settings : QuerySettings Binary32)
    {stream : ByteStream} (hstream : stream.IsPatient) :
    let found := (SpawnCursor.ofBytes stream.rest).value
    (∀ s ∈ found.spawns, s.Storable) ∧
    tellAll args settings (stream.rest.length + 1) stream .zero =
      ⟨found.stoppedBy.elim (.ok (found.spawns.foldl Counts.add .zero)) .error,
        (found.spawns.flatMap (told args settings)).map OutputLine.report ++
          (found.stoppedBy.map fun e => .ofReading (errorLine e)).toList⟩ := by
  obtain ⟨remainder, rest, hbytes, hgood, hstop⟩ := ReadingState.exists_found stream.rest
  generalize (SpawnCursor.ofBytes stream.rest).value = found at hbytes hgood hstop ⊢
  have hcount : found.spawns.length < stream.rest.length + 1 := by
    have hrecords := SpawnCursor.length_mul_le found.spawns
    have hlength := congrArg List.length hbytes
    rw [List.length_append] at hlength
    omega
  exact ⟨hgood, tellAll_eq ByteStream.reliable hgood hstop hstream hbytes hcount .zero⟩

/-! ### The summary -/

/-- The summary of records that have their own bytes. -/
def tally (args : Arguments) (spawns : List (Spawn Binary32)) : List OutputLine :=
  .note .info ("Read " ++ spawns.length.repr ++ " spawns from " ++ args.file
      ++ " (" ++ (spawns.countP fun s => s.has .doodad).repr ++ " doodads, "
      ++ (spawns.countP fun s => s.bound.isNone).repr ++ " without bound)")
    :: if args.verify then
        [.note .info ("Re-encode check: 0 of " ++ spawns.length.repr ++ " records differ")]
      else []

theorem report?_of_mem_tally (args : Arguments) {spawns : List (Spawn Binary32)} :
    ∀ l ∈ tally args spawns, l.report? = none := by
  unfold tally
  cases args.verify with
  | true => simp [OutputLine.note, OutputLine.report?]
  | false => simp [OutputLine.note, OutputLine.report?]

/-- What is counted comes to the numbers of records of each kind. -/
theorem foldl_add_eq (counts : Counts) (spawns : List (Spawn Binary32)) :
    spawns.foldl Counts.add counts =
      { total := counts.total + spawns.length
        doodads := counts.doodads + spawns.countP fun s => s.has .doodad
        unbounded := counts.unbounded + spawns.countP fun s => !s.has .bounded
        mismatched := counts.mismatched } := by
  induction spawns generalizing counts with
  | nil => rfl
  | cons s spawns ih =>
    rw [List.foldl_cons, ih]
    simp only [Counts.add, List.length_cons, List.countP_cons, Counts.mk.injEq, and_true]
    refine ⟨by omega, ?_, ?_⟩
    · cases s.has .doodad with
      | true => simp only [if_true]; omega
      | false => simp
    · cases s.has .bounded with
      | true => simp
      | false => simp only [Bool.false_eq_true, if_false, Bool.not_false, if_true]; omega

theorem summary_stored (args : Arguments) {spawns : List (Spawn Binary32)}
    (hspawns : ∀ s ∈ spawns, s.Storable) :
    summary args (spawns.foldl Counts.add .zero) = tally args spawns := by
  have hunbounded : spawns.countP (fun s => !s.has .bounded) =
      spawns.countP fun s => s.bound.isNone := by
    apply List.countP_congr
    intro s hs
    rw [(hspawns s hs).consistent, Option.not_isSome]
  rw [foldl_add_eq, hunbounded]
  simp only [summary, tally, Counts.zero, Nat.zero_add]
  rfl

/-! ### The point and the mesh -/

/-- A placed model that is loaded asks its mesh about the point for exactly the spawns that
    have it in their bound as far as the inspector can tell. -/
theorem events_areaBelow_of_place {μ γ : Type} [Mesh Binary32 μ γ] {args : Arguments}
    {point : Vec3 Binary32} (hpoint : args.point = some point) {slot : Nat} {s : Spawn Binary32}
    {model : μ} {p : PlacedModel Binary32 μ}
    (hplace : PlacedModel.place slot s (some model) = .ok p) :
    (p.areaBelow point).events =
      if encloses args s then
        [.asked (.findArea model (p.transform.toModel point) p.downInModel)]
      else [] := by
  have ⟨hspawn, hmodel⟩ : p.spawn = s ∧ p.model = some model := by
    obtain ⟨t, -, rfl⟩ := PlacedModel.place_eq_ok_iff.mp hplace
    exact ⟨rfl, rfl⟩
  have hgate : p.pointGate point =
      if encloses args s then .ok (model, p.transform.toModel point) else .error none := by
    simp only [PlacedModel.pointGate, hmodel, hspawn, encloses, hpoint, Option.any_some]
  rw [PlacedModel.areaBelow, PlacedModel.probe, hgate]
  by_cases hinside : encloses args s = true
  · rw [if_pos hinside, if_pos hinside]
    rfl
  · rw [if_neg hinside, if_neg hinside]
    rfl

/-! ### A whole run -/

theorem run_eq_report {arguments : List String} {files : Files} {args : Arguments}
    {settings : QuerySettings Binary32} {stream : ByteStream}
    (hargs : Arguments.read arguments = .ok args)
    (hsettings : readSettings files args.config = .ok settings)
    (hstream : files args.file = .ok stream) :
    run arguments files = report args settings stream := by
  simp only [run, hargs, hsettings, hstream]

/-- The report and the log of a run come apart again. -/
theorem reported_logged_of_output {o : Outcome} {texts : List String} {notes : List OutputLine}
    (houtput : o.output = texts.map OutputLine.report ++ notes)
    (hnotes : ∀ l ∈ notes, l.report? = none) : o.reported = texts ∧ o.logged = notes := by
  have htexts : (texts.map OutputLine.report).filterMap OutputLine.report? = texts := by
    rw [List.filterMap_map]
    exact List.filterMap_some
  have hreport : ∀ l ∈ texts.map OutputLine.report, ¬ l.report?.isNone = true := by
    rintro _ hmem
    obtain ⟨text, -, rfl⟩ := List.mem_map.mp hmem
    exact Bool.false_ne_true
  have hlog : ∀ l ∈ notes, l.report?.isNone = true := by
    intro l hl
    rw [hnotes l hl]
    rfl
  constructor
  · rw [Outcome.reported, houtput, List.filterMap_append, htexts,
      List.filterMap_eq_nil_iff.mpr hnotes, List.append_nil]
  · rw [Outcome.logged, houtput, List.filter_append, List.filter_eq_nil_iff.mpr hreport,
      List.filter_eq_self.mpr hlog, List.nil_append]

section Reports

variable (args : Arguments) (settings : QuerySettings Binary32) {stream : ByteStream}

theorem report_of_end (hstream : stream.IsPatient)
    (hend : (SpawnCursor.ofBytes stream.rest).value.stoppedBy = none) :
    report args settings stream =
      ⟨0, ((SpawnCursor.ofBytes stream.rest).value.spawns.flatMap (told args settings)).map
        OutputLine.report ++ tally args (SpawnCursor.ofBytes stream.rest).value.spawns, ""⟩ := by
  obtain ⟨hgood, htold⟩ := tellAll_stream_eq args settings hstream
  simp only [report, htold, hend, summary_stored args hgood, Option.elim_none, Option.map_none,
    Option.toList_none, List.append_nil]

theorem report_of_error (hstream : stream.IsPatient) {e : RecordError}
    (herror : (SpawnCursor.ofBytes stream.rest).value.stoppedBy = some e) :
    report args settings stream =
      .failure (((SpawnCursor.ofBytes stream.rest).value.spawns.flatMap (told args settings)).map
        OutputLine.report ++ [.ofReading (errorLine e)]) e.dump := by
  obtain ⟨-, htold⟩ := tellAll_stream_eq args settings hstream
  simp only [report, htold, herror, Option.elim_some, Option.map_some, Option.toList_some]

end Reports

/-- **The inspector tells what is in a file.**  For arguments and settings that can be used,
    and a file delivered in whatever pieces, the report is what is told of each record before
    the first end or error, in their order.  A file that is read to its end is summed up, with
    no record that differs from its bytes; otherwise the run fails with the error that stopped
    it, and nothing else is logged.  A ray is told of where it reaches the bound within the
    greatest distance, and a point if it lies in the bound of a spawn that is no doodad: for
    exactly the spawns whose model, once placed and loaded, puts the point to its mesh. -/
theorem report_tells_every_record {arguments : List String} {files : Files} {args : Arguments}
    {settings : QuerySettings Binary32} {stream : ByteStream}
    (hargs : Arguments.read arguments = .ok args)
    (hsettings : readSettings files args.config = .ok settings)
    (hstream : files args.file = .ok stream) (hpatient : stream.IsPatient) :
    let found := (SpawnCursor.ofBytes stream.rest).value
    let outcome := run arguments files
    outcome.reported = found.spawns.flatMap (told args settings) ∧
    (found.stoppedBy = none →
      outcome.exitCode = 0 ∧ outcome.complaint = "" ∧
      outcome.logged = tally args found.spawns) ∧
    (∀ e, found.stoppedBy = some e →
      outcome.exitCode = 1 ∧ outcome.complaint = "Error: " ++ e.dump ∧
      outcome.logged = [.ofReading (errorLine e)]) ∧
    (∀ s t, reach? args settings s = some t ↔
      ∃ ray bound, args.ray = some ray ∧ s.bound = some bound ∧ ray.entryTime bound = t ∧
        t ≤ settings.maxRayDistance) ∧
    (∀ s, encloses args s = true ↔
      ∃ point bound, args.point = some point ∧ s.bound = some bound ∧ s.has .doodad = false ∧
        bound.contains point = true) ∧
    ∀ {μ γ : Type} [Mesh Binary32 μ γ] (slot : Nat) (s : Spawn Binary32) (model : μ)
      (p : PlacedModel Binary32 μ) (point : Vec3 Binary32), args.point = some point →
      PlacedModel.place slot s (some model) = .ok p →
        (p.areaBelow point).events =
          if encloses args s then
            [.asked (.findArea model (p.transform.toModel point) p.downInModel)]
          else [] := by
  intro found outcome
  have houtcome : outcome = report args settings stream := run_eq_report hargs hsettings hstream
  have hparts : outcome.reported = found.spawns.flatMap (told args settings) ∧
      outcome.logged = found.stoppedBy.elim (tally args found.spawns)
        fun e => [.ofReading (errorLine e)] := by
    rcases hstop : found.stoppedBy with _ | e
    · rw [houtcome, report_of_end args settings hpatient hstop]
      exact reported_logged_of_output rfl (report?_of_mem_tally args)
    · rw [houtcome, report_of_error args settings hpatient hstop]
      exact reported_logged_of_output rfl (by simp [OutputLine.ofReading, OutputLine.report?])
  obtain ⟨hreported, hlogged⟩ := hparts
  refine ⟨hreported, ?_, ?_, fun s t => reach?_eq_some_iff, fun s => encloses_iff, ?_⟩
  · intro hend
    rw [hend] at hlogged
    rw [houtcome, report_of_end args settings hpatient hend] at hlogged ⊢
    exact ⟨rfl, rfl, hlogged⟩
  · intro e herror
    rw [herror] at hlogged
    rw [houtcome, report_of_error args settings hpatient herror] at hlogged ⊢
    exact ⟨rfl, rfl, hlogged⟩
  · intro μ γ _ slot s model p point hpoint hplace
    exact events_areaBelow_of_place hpoint hplace

/-- A room that the ray and the point of the run below are about. -/
def roomSpawn : Spawn Binary32 :=
  (unbounded 9 3012 [0x72] ⟨.zero, .zero, .zero⟩ ⟨.zero, .zero, .zero⟩ .one).attachBound
    ⟨⟨.zero, .zero, .zero⟩, ⟨.one, .one, .one⟩⟩

/-- Two records and one byte of another, five bytes at a time and with interruptions. -/
def brokenStream : ByteStream where
  rest := oddSpawn.stored ++ roomSpawn.stored ++ [7]
  position := 0
  chunk := some 5
  faults := [⟨0, .keepsInterrupting⟩, ⟨70, .keepsInterrupting⟩]

def brokenFiles : Files := fun _ => .ok brokenStream

theorem report_tells_two_records :
    let outcome := run ["spawns.bin", "--verify", "-q", "--point", "0.5,0.5,0.5",
      "--ray=0.5,0.5,2,0,0,-1"] brokenFiles
    brokenStream.IsPatient ∧
    (SpawnCursor.ofBytes brokenStream.rest).value.spawns = [oddSpawn, roomSpawn] ∧
    outcome.reported = ["  ray reaches spawn 7 at 1.000", "  ray reaches spawn 9 at 1.000",
      "  point inside spawn 9"] ∧
    outcome.exitCode = 1 ∧ outcome.complaint = "Error: " ++ (RecordError.truncated 11 0).dump ∧
    outcome.logged = [.ofReading (errorLine (.truncated 11 0))] := by
  have hargs : Arguments.read ["spawns.bin", "--verify", "-q", "--point", "0.5,0.5,0.5",
      "--ray=0.5,0.5,2,0,0,-1"] = .ok
        { file := "spawns.bin"
          config := none
          verify := true
          ray := some ⟨⟨.half, .half, .ofInt 2⟩, ⟨.zero, .zero, .ofInt (-1)⟩⟩
          point := some ⟨.half, .half, .half⟩
          quiet := true } := by
    decide +kernel
  have hpatient : brokenStream.IsPatient := by decide
  have hspawns : (SpawnCursor.ofBytes brokenStream.rest).value.spawns = [oddSpawn, roomSpawn] := by
    decide +kernel
  have hstop : (SpawnCursor.ofBytes brokenStream.rest).value.stoppedBy = some (.truncated 11 0) := by
    decide +kernel
  have hsettings : readSettings brokenFiles none = .ok .standard := rfl
  have hstream : brokenFiles "spawns.bin" = .ok brokenStream := rfl
  obtain ⟨hreported, -, herror, -⟩ := report_tells_every_record hargs hsettings hstream hpatient
  obtain ⟨hexit, hcomplaint, hlogged⟩ := herror _ hstop
  refine ⟨hpatient, hspawns, ?_, hexit, hcomplaint, hlogged⟩
  rw [hreported, hspawns]
  decide +kernel

end Inspect

end Placement
