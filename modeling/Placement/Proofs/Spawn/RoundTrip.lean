/-
  Placement/Proofs/Spawn/RoundTrip.lean
  =====================================
  **Stored spawns and the bytes that spell them.**

  Two statements about whole lists.  The first begins with spawns: what was written is read
  back, word for word, and each record ends where it says it ends.  The second begins with
  bytes, malformed ones included: a run over them finds exactly the records whose stored
  forms stand at the front, one after the other, and it ends without an error for exactly
  the bytes that writing can produce.

  Nothing here looks at the meaning of a field.  A word that is no number, a flag bit
  without a name and a name that is no text all go through unchanged, because the layout is
  a matter of words and lengths alone.
-/
import Placement.Proofs.Spawn.Construction
import Placement.Proofs.Spawn.Runs

namespace Placement

namespace Spawn

open ByteSource SpawnCursor

theorem Constructed.storable {s : Spawn Binary32} (hs : s.Constructed)
    (hname : s.name.length ≤ maxNameLength) : s.Storable := ⟨hs.consistent, hname⟩

theorem send_nil_eq_ok_iff {s : Spawn Binary32} {encoding : List UInt8} :
    send s [] = (.ok (), encoding) ↔ s.name.length ≤ maxNameLength ∧ encoding = s.stored := by
  rcases Nat.lt_or_ge maxNameLength s.name.length with hlong | hshort
  · simp [send_eq_error hlong, Nat.not_le.mpr hlong]
  · rw [send_eq hshort, List.nil_append]
    constructor
    · intro h
      exact ⟨hshort, (Prod.mk.inj h).2.symm⟩
    · rintro ⟨-, rfl⟩
      rfl

theorem receiveLogged_stored_append {s : Spawn Binary32} (hs : s.Storable) (tail : List UInt8) :
    receiveLogged (s.stored ++ tail) = .quiet (.ok (some s), tail) := by
  unfold receiveLogged
  rw [receive_stored_append hs tail]

/-- The stored form of a record is not the beginning of that of another. -/
theorem eq_of_stored_prefix {s t : Spawn Binary32} (hs : s.Storable) (ht : t.Storable)
    (h : s.stored <+: t.stored) : t = s := by
  obtain ⟨tail, htail⟩ := h
  have hreads := receive_stored_append hs tail
  have hreadt := receive_stored_append ht []
  rw [List.append_nil, ← htail, hreads] at hreadt
  simpa using (Prod.mk.inj hreadt).1.symm

theorem encode_eq {s : Spawn Binary32} (hname : s.name.length ≤ maxNameLength) :
    s.encode = .ok s.stored := by
  rw [encode, send_eq hname, List.nil_append]

theorem isStoredAs_stored {s : Spawn Binary32} (hname : s.name.length ≤ maxNameLength) :
    s.isStoredAs s.stored = .ok true := by
  simp [isStoredAs, encode_eq hname, Except.map]

/-- Every spawn that has a stored form can come about, by being read from there. -/
theorem Storable.constructed {s : Spawn Binary32} (hs : s.Storable) : s.Constructed :=
  .received (receive_stored_append hs [])

theorem forall₂_send_stored {spawns : List (Spawn Binary32)}
    (hnames : ∀ s ∈ spawns, s.name.length ≤ maxNameLength) :
    List.Forall₂ (fun (s : Spawn Binary32) encoding => send s [] = (.ok (), encoding)) spawns
      (spawns.map stored) := by
  rw [List.forall₂_map_right_iff, List.forall₂_same]
  exact fun s hs => send_nil_eq_ok_iff.mpr ⟨hnames s hs, rfl⟩

theorem receive_of_receiveTaped {σ : Type} [ByteSource σ] {source source' : σ}
    {s : Spawn Binary32} {taken : List UInt8} {log : List LogLine}
    (h : receiveTaped source = ⟨(.ok (some (s, taken)), source'), log⟩) :
    receive (Taped.start source) = (.ok (some s), ⟨source', taken⟩) := by
  rcases hreceive : receive (Taped.start source) with ⟨e | _ | spawn, taped⟩
  · simp [receiveTaped, receiveLogged, hreceive, bind, Traced.andThen, pure, Traced.quiet,
      Except.map] at h
  · simp [receiveTaped, receiveLogged, hreceive, bind, Traced.andThen, pure, Traced.quiet,
      Except.map] at h
  · simp only [receiveTaped, receiveLogged, hreceive, bind, Traced.andThen, pure, Traced.quiet,
      Except.map, Option.map_some, Traced.mk.injEq, Prod.mk.injEq, Except.ok.injEq,
      Option.some.injEq] at h
    obtain ⟨⟨⟨rfl, rfl⟩, rfl⟩, -⟩ := h
    rfl

/-- The bytes that come with a record are the ones that were taken for it, and they are its
    stored form. -/
theorem took_of_receiveTaped {σ : Type} [ByteSource σ] [Modest σ] {source source' : σ}
    {s : Spawn Binary32} {taken : List UInt8} {log : List LogLine}
    (h : receiveTaped source = ⟨(.ok (some (s, taken)), source'), log⟩) :
    Took source taken source' ∧ s.isStoredAs taken = .ok true := by
  obtain ⟨htook, hgood⟩ := took_of_receive (receive_of_receiveTaped h)
  obtain ⟨hsource, htape⟩ := htook.tape_eq
  have htaken : taken = s.stored := htape
  rw [htaken]
  exact ⟨hsource, isStoredAs_stored hgood.name_le⟩

/-- Over bytes that were written, every run ends without an error. -/
theorem stop_eq_none_of_stored {written spawns : List (Spawn Binary32)} {bytes rest : List UInt8}
    {stop : Option RecordError} (hall : ∀ s ∈ written, s.Storable)
    (hbytes : bytes = written.flatMap stored) (hrun : (start bytes).RunsTo spawns stop rest) :
    stop = none := by
  have hyields : Yields (start bytes) written (start []) := by
    simpa [hbytes] using yields_of_stored hall []
  exact (hrun.unique ⟨_, hyields, stopsAt_of_receive_none rfl⟩).2

/-! ### From spawns to bytes and back -/

/-- **Storage is lossless.**  Written spawns are read back as they were, in order and to the
    last byte; each of them alone is read back from before any other bytes, so no stored
    form begins another. -/
theorem lossless_storage (spawns : List (Spawn Binary32))
    (hmade : ∀ s ∈ spawns, s.Constructed)
    (hnames : ∀ s ∈ spawns, s.name.length ≤ maxNameLength) :
    ∃ bytes : List UInt8,
      (∀ held : List UInt8, sendAll spawns held = (.ok spawns.length, held ++ bytes)) ∧
      (start bytes).RunsTo spawns none [] ∧
      ofBytes bytes = .quiet ⟨spawns, none, []⟩ ∧
      ∀ s ∈ spawns, ∃ encoding : List UInt8,
        send s [] = (.ok (), encoding) ∧
        (∀ tail : List UInt8, receiveLogged (encoding ++ tail) = .quiet (.ok (some s), tail)) ∧
        ∀ t : Spawn Binary32, t.Constructed → ∀ encoding' : List UInt8,
          send t [] = (.ok (), encoding') → encoding <+: encoding' → t = s := by
  have hgood : ∀ s ∈ spawns, s.Storable := fun s hs => (hmade s hs).storable (hnames s hs)
  have hyields : Yields (start (spawns.flatMap stored)) spawns (start []) := by
    simpa using yields_of_stored hgood []
  have hend : (start ([] : List UInt8)).StopsAt none [] := stopsAt_of_receive_none rfl
  have hrun : (start (spawns.flatMap stored)).RunsTo spawns none [] := ⟨_, hyields, hend⟩
  have hcount : spawns.length ≤ (spawns.flatMap stored).length := by
    have := length_mul_le spawns
    omega
  refine ⟨spawns.flatMap stored, sendAll_eq hnames, hrun, ofBytes_eq hrun hcount, ?_⟩
  intro s hs
  refine ⟨s.stored, send_nil_eq_ok_iff.mpr ⟨hnames s hs, rfl⟩,
    receiveLogged_stored_append (hgood s hs), ?_⟩
  intro t ht encoding' hsend hprefix
  obtain ⟨hname, rfl⟩ := send_nil_eq_ok_iff.mp hsend
  exact eq_of_stored_prefix (hgood s hs) (ht.storable hname) hprefix

/-- A doodad with flag bits that have no name, a name that is no text, and words that are
    no numbers or a negative zero, one of them in its bound. -/
def oddSpawn : Spawn Binary32 :=
  ((unbounded 7 3012 [0xff, 0xfe] ⟨⟨0x7fc00001⟩, ⟨0x80000000⟩, .one⟩ ⟨.zero, .nan, .posInf⟩
    .half).addFlags 0xfffffff5).attachBound ⟨⟨.zero, .zero, ⟨0xffffffff⟩⟩, ⟨.one, .one, .one⟩⟩

/-- A spawn without a bound and without a name, and with a scale that is no number. -/
def bareSpawn : Spawn Binary32 :=
  unbounded 0 0 [] ⟨.zero, .zero, .zero⟩ ⟨.zero, .zero, .zero⟩ ⟨0xff800001⟩

theorem lossless_storage_odd_values :
    (∀ s ∈ [oddSpawn, bareSpawn], s.Constructed) ∧
    (∀ s ∈ [oddSpawn, bareSpawn], s.name.length ≤ maxNameLength) ∧
    ∃ bytes, sendAll [oddSpawn, bareSpawn] [] = (.ok 2, bytes) ∧
      ofBytes bytes = .quiet ⟨[oddSpawn, bareSpawn], none, []⟩ := by
  have hmade : ∀ s ∈ [oddSpawn, bareSpawn], s.Constructed := by
    intro s hs
    simp only [List.mem_cons, List.not_mem_nil, or_false] at hs
    rcases hs with rfl | rfl
    · exact .attachBound _ (.addFlags _ (.unbounded ..))
    · exact .unbounded ..
  have hnames : ∀ s ∈ [oddSpawn, bareSpawn], s.name.length ≤ maxNameLength := by decide
  obtain ⟨bytes, hsend, -, hread, -⟩ := lossless_storage [oddSpawn, bareSpawn] hmade hnames
  exact ⟨hmade, hnames, bytes, hsend [], hread⟩

/-! ### From bytes to spawns and back -/

/-- **Reading accepts exactly what writing produces.**  A run over any bytes finds records
    whose stored forms, one after the other, are the front of the bytes; it ends without an
    error exactly if nothing remains, which is exactly if some spawns were written there.
    Otherwise it ends with one error, for a remainder that begins with no record.  And
    whenever a record is read from any source together with its bytes, these bytes are all
    that was taken from the source, and the record is stored as just them. -/
theorem run_iff_stored (bytes : List UInt8) :
    (∃ (spawns : List (Spawn Binary32)) (encodings : List (List UInt8))
        (remainder rest : List UInt8) (stop : Option RecordError),
      (start bytes).RunsTo spawns stop rest ∧
      ofBytes bytes = ⟨⟨spawns, stop, rest⟩, (stop.map errorLine).toList⟩ ∧
      spawns.length ≤ bytes.length / 42 ∧
      List.Forall₂ (fun s encoding => send s [] = (.ok (), encoding)) spawns encodings ∧
      bytes = encodings.flatten ++ remainder ∧
      (∀ k, Yields (start bytes) (spawns.take k)
        (start ((encodings.drop k).flatten ++ remainder))) ∧
      (stop = none ↔ remainder = []) ∧
      (stop = none ↔ ∃ written : List (Spawn Binary32),
        (∀ s ∈ written, s.Constructed ∧ s.name.length ≤ maxNameLength) ∧
        sendAll written [] = (.ok written.length, bytes)) ∧
      (∀ e, stop = some e → receive remainder = (.error e, rest) ∧
        (∀ s : Spawn Binary32, s.Constructed → ∀ encoding : List UInt8,
          send s [] = (.ok (), encoding) → ¬ encoding <+: remainder) ∧
        next ⟨rest, true⟩ = .quiet (none, ⟨rest, true⟩))) ∧
    (∀ {σ : Type} [ByteSource σ] [Modest σ] (source source' : σ) (s : Spawn Binary32)
      (taken : List UInt8) (log : List LogLine),
      receiveTaped source = ⟨(.ok (some (s, taken)), source'), log⟩ →
        Took source taken source' ∧ s.isStoredAs taken = .ok true) ∧
    (∀ (stream stream' : ByteStream) (s : Spawn Binary32) (taken : List UInt8) (log : List LogLine),
      receiveTaped stream = ⟨(.ok (some (s, taken)), stream'), log⟩ →
        stream.rest = taken ++ stream'.rest ∧
        stream'.position = stream.position + taken.length) := by
  refine ⟨?_, fun source source' s taken log h => ?_, fun stream stream' s taken log h => ?_⟩
  · obtain ⟨spawns, remainder, stop, rest, rfl, hgood, hstops, hnone, herror⟩ := exists_run bytes
    have hnames : ∀ s ∈ spawns, s.name.length ≤ maxNameLength := fun s hs => (hgood s hs).name_le
    have hrun : (start (spawns.flatMap stored ++ remainder)).RunsTo spawns stop rest :=
      ⟨_, yields_of_stored hgood remainder, hstops⟩
    have hcount : spawns.length * 42 ≤ (spawns.flatMap stored ++ remainder).length := by
      have := length_mul_le spawns
      rw [List.length_append]
      omega
    have hread := ofBytes_eq hrun (by omega)
    refine ⟨spawns, spawns.map stored, remainder, rest, stop, hrun, hread,
      (Nat.le_div_iff_mul_le (by decide)).mpr hcount, ?_, ?_, ?_, hnone, ?_, ?_⟩
    · exact forall₂_send_stored hnames
    · rw [List.flatMap_def]
    · intro k
      have hsplit : spawns.flatMap stored ++ remainder =
          (spawns.take k).flatMap stored ++ ((spawns.drop k).flatMap stored ++ remainder) := by
        rw [← List.append_assoc, ← List.flatMap_append, List.take_append_drop]
      rw [hsplit, ← List.map_drop, ← List.flatMap_def]
      exact yields_of_stored (fun s hs => hgood s (List.mem_of_mem_take hs)) _
    · constructor
      · intro hstop
        have hnil := hnone.mp hstop
        refine ⟨spawns, fun s hs => ⟨(hgood s hs).constructed, hnames s hs⟩, ?_⟩
        rw [sendAll_eq hnames, hnil, List.append_nil, List.nil_append]
      · rintro ⟨written, hwritten, hsend⟩
        have hall : ∀ s ∈ written, s.Storable := fun s hs =>
          (hwritten s hs).1.storable (hwritten s hs).2
        rw [sendAll_eq (fun s hs => (hwritten s hs).2), List.nil_append] at hsend
        exact stop_eq_none_of_stored hall (Prod.mk.inj hsend).2.symm hrun
    · intro e hstop
      have hreceive := herror e hstop
      refine ⟨hreceive, ?_, rfl⟩
      rintro s hs encoding hsend ⟨tail, rfl⟩
      obtain ⟨hname, rfl⟩ := send_nil_eq_ok_iff.mp hsend
      rw [receive_stored_append (hs.storable hname) tail] at hreceive
      cases hreceive
  · exact took_of_receiveTaped h
  · exact (took_of_receiveTaped h).1.rest_eq

end Spawn

end Placement
