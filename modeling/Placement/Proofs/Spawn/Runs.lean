/-
  Placement/Proofs/Spawn/Runs.lean
  ================================
  **Going through the records of some bytes.**

  `Yields` is the record-by-record part of a run of a cursor, and `RunsTo` a whole run: some
  records, and then the call that stops it, at the end of the data or with an error.  A run
  is described by the calls alone, so no bound on their number comes in; that the bounded
  collection of all records is such a run is `ofBytes_eq`.

  On bytes in memory every run comes to an end (`exists_run`), because each record takes
  at least 42 of them.
-/
import Placement.Proofs.Spawn.Records

namespace Placement

namespace SpawnCursor

open Spawn

section Calls

variable {σ : Type} [ByteSource σ]

/-- Calls that give these records, one each and without a log line, lead from one cursor to
    another. -/
inductive Yields : SpawnCursor σ → List (Spawn Binary32) → SpawnCursor σ → Prop
  | nil (c : SpawnCursor σ) : Yields c [] c
  | cons {c c' c'' : SpawnCursor σ} {spawn : Spawn Binary32} {spawns : List (Spawn Binary32)} :
      c.next = .quiet (some (.ok spawn), c') → Yields c' spawns c'' → Yields c (spawn :: spawns) c''

/-- One more call stops the cursor for good, logging the error if it stops with one. -/
def StopsAt (c : SpawnCursor σ) (stop : Option RecordError) (source : σ) : Prop :=
  c.next = ⟨(stop.map .error, ⟨source, true⟩), (stop.map errorLine).toList⟩

/-- The whole run of a cursor: its records, what stopped it, and the source left behind. -/
def RunsTo (c : SpawnCursor σ) (spawns : List (Spawn Binary32)) (stop : Option RecordError)
    (source : σ) : Prop :=
  ∃ c', Yields c spawns c' ∧ c'.StopsAt stop source

/-- There is one run from a cursor at most. -/
theorem RunsTo.unique {c : SpawnCursor σ} {spawns spawns' : List (Spawn Binary32)}
    {stop stop' : Option RecordError} {source source' : σ} (h : c.RunsTo spawns stop source)
    (h' : c.RunsTo spawns' stop' source') : spawns = spawns' ∧ stop = stop' := by
  obtain ⟨last, hyields, hstops⟩ := h
  obtain ⟨last', hyields', hstops'⟩ := h'
  induction hyields generalizing spawns' with
  | nil c =>
    cases hyields' with
    | nil =>
      have hcalls := congrArg Traced.value (hstops.symm.trans hstops')
      cases stop <;> cases stop' <;> simp_all
    | cons hnext _ =>
      have hcalls := congrArg Traced.value (hstops.symm.trans hnext)
      cases stop <;> simp [Traced.quiet] at hcalls
  | cons hnext _ ih =>
    cases hyields' with
    | nil =>
      have hcalls := congrArg Traced.value (hstops'.symm.trans hnext)
      cases stop' <;> simp [Traced.quiet] at hcalls
    | cons hnext' hyields' =>
      have hcalls := congrArg Traced.value (hnext.symm.trans hnext')
      simp only [Traced.quiet, Prod.mk.injEq, Option.some.injEq, Except.ok.injEq] at hcalls
      obtain ⟨rfl, rfl⟩ := hcalls
      obtain ⟨rfl, rfl⟩ := ih hstops hyields'
      exact ⟨rfl, rfl⟩

theorem next_start_of_receive_some {s s' : σ} {spawn : Spawn Binary32}
    (h : receive s = (.ok (some spawn), s')) :
    (start s).next = .quiet (some (.ok spawn), start s') := by
  simp [next, start, receiveLogged, h, Traced.quiet, bind, Traced.andThen, pure]

theorem stopsAt_of_receive_none {s s' : σ} (h : receive s = (.ok none, s')) :
    (start s).StopsAt none s' := by
  simp [StopsAt, next, start, receiveLogged, h, Traced.quiet, bind, Traced.andThen, pure]

theorem stopsAt_of_receive_error {s s' : σ} {e : RecordError} (h : receive s = (.error e, s')) :
    (start s).StopsAt (some e) s' := by
  simp [StopsAt, next, start, receiveLogged, h, bind, Traced.andThen, pure, Traced.quiet]

theorem collect_eq {c : SpawnCursor σ} {spawns : List (Spawn Binary32)}
    {stop : Option RecordError} {source : σ} {limit : Nat} (h : c.RunsTo spawns stop source)
    (hlimit : spawns.length < limit) :
    collect limit c = ⟨⟨spawns, stop, source⟩, (stop.map errorLine).toList⟩ := by
  obtain ⟨c', hyields, hstops⟩ := h
  induction hyields generalizing limit with
  | nil c =>
    obtain ⟨limit, rfl⟩ := Nat.exists_eq_add_one_of_ne_zero (Nat.ne_of_gt hlimit)
    unfold StopsAt at hstops
    cases stop with
    | none => simp [collect, hstops, bind, Traced.andThen, pure, Traced.quiet]
    | some e => simp [collect, hstops, bind, Traced.andThen, pure, Traced.quiet]
  | cons hnext _ ih =>
    obtain ⟨limit, rfl⟩ := Nat.exists_eq_add_one_of_ne_zero (Nat.ne_zero_of_lt hlimit)
    have hrest := @ih limit (by simpa using hlimit) hstops
    simp [collect, hnext, hrest, bind, Traced.andThen, pure, Traced.quiet]

end Calls

/-! ### Bytes in memory -/

theorem yields_of_stored {spawns : List (Spawn Binary32)}
    (hspawns : ∀ s ∈ spawns, s.Storable) (rest : List UInt8) :
    Yields (start (spawns.flatMap stored ++ rest)) spawns (start rest) := by
  induction spawns with
  | nil => exact .nil _
  | cons spawn spawns ih =>
    have hspawn := hspawns spawn List.mem_cons_self
    rw [List.flatMap_cons, List.append_assoc]
    refine .cons (next_start_of_receive_some (receive_stored_append hspawn _)) ?_
    exact ih fun s hmem => hspawns s (List.mem_cons_of_mem _ hmem)

theorem length_mul_le (spawns : List (Spawn Binary32)) :
    spawns.length * 42 ≤ (spawns.flatMap stored).length := by
  induction spawns with
  | nil => simp
  | cons spawn spawns ih =>
    have hspawn := le_length_stored spawn
    rw [List.length_cons, List.flatMap_cons, List.length_append]
    omega

theorem exists_split (bs : List UInt8) :
    ∃ spawns : List (Spawn Binary32), ∃ remainder, bs = spawns.flatMap stored ++ remainder ∧
      (∀ s ∈ spawns, s.Storable) ∧
      (remainder = [] ∨ ∃ e rest, receive remainder = (.error e, rest)) := by
  induction hn : bs.length using Nat.strongRecOn generalizing bs with
  | ind n ih =>
    rcases hreceive : receive bs with ⟨e | _ | spawn, rest⟩
    · exact ⟨[], bs, rfl, by simp, .inr ⟨e, rest, hreceive⟩⟩
    · exact ⟨[], bs, rfl, by simp, .inl (eq_nil_of_receive_eq_none hreceive).1⟩
    · -- a record takes its stored form off the front, and there is less left to split
      obtain ⟨htook, hgood⟩ := took_of_receive hreceive
      have hbs := htook.eq_append
      have hlen : rest.length < n := by
        have hspawn := le_length_stored spawn
        rw [← hn, hbs, List.length_append]
        omega
      obtain ⟨spawns, remainder, hrest, hall, hend⟩ := ih rest.length hlen rest rfl
      refine ⟨spawn :: spawns, remainder, ?_, ?_, hend⟩
      · rw [hbs, hrest, List.flatMap_cons, List.append_assoc]
      · intro s hs
        rcases List.mem_cons.mp hs with rfl | hs
        · exact hgood
        · exact hall s hs

/-- Every run over some bytes comes to an end: after records in their stored form, either at
    the end of the bytes or with the error for what remains. -/
theorem exists_run (bs : List UInt8) :
    ∃ spawns : List (Spawn Binary32), ∃ remainder stop rest,
      bs = spawns.flatMap stored ++ remainder ∧ (∀ s ∈ spawns, s.Storable) ∧
      (start remainder).StopsAt stop rest ∧ (stop = none ↔ remainder = []) ∧
      ∀ e, stop = some e → receive remainder = (.error e, rest) := by
  obtain ⟨spawns, remainder, hbs, hgood, rfl | ⟨e, rest, herror⟩⟩ := exists_split bs
  · exact ⟨spawns, [], none, [], hbs, hgood, stopsAt_of_receive_none rfl, by simp, by simp⟩
  · refine ⟨spawns, remainder, some e, rest, hbs, hgood, stopsAt_of_receive_error herror, ?_, ?_⟩
    · constructor
      · intro h
        cases h
      · rintro rfl
        cases herror
    · rintro _ ⟨⟩
      exact herror

theorem ofBytes_eq {bs : List UInt8} {spawns : List (Spawn Binary32)} {stop : Option RecordError}
    {rest : List UInt8} (h : (start bs).RunsTo spawns stop rest)
    (hlen : spawns.length ≤ bs.length) :
    ofBytes bs = ⟨⟨spawns, stop, rest⟩, (stop.map errorLine).toList⟩ :=
  collect_eq h (Nat.lt_succ_of_le hlen)

end SpawnCursor

end Placement
