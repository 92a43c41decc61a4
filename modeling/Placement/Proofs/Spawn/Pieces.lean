/-
  Placement/Proofs/Spawn/Pieces.lean
  ==================================
  **Records out of bytes that come in pieces.**

  Reading a record is a chain of fills and decisions on what they bring, so over a source it goes
  step by step as it would over the bytes that are to come: the same fields, the same name, the
  same error with the same count, and as much left behind.  Only if a reader of these bytes
  misses some, and an error comes behind them, does it stand in place of what that reader says
  (`broken?`).  Each lemma here takes one link of the chain from the plain bytes to the source
  (`receive_follows`); a reliable source never breaks (`receive_of_plain`).

  The tape of a recording says no more than that: what is on it and what is still to come
  make up what there was to begin with, so the tape, too, is a function of the view
  (`receive_start_of_plain`).
-/
import Placement.Proofs.Bytes.Delivery
import Placement.Proofs.Spawn.Records

namespace Placement

open ByteSource

namespace RecordError

/-- What an error of the source makes of an error for want of bytes.  Only in the fields is the
    kind of it looked at. -/
def broken? : RecordError → Option (IoError → RecordError)
  | .truncated expected whole => some (Spawn.fieldError expected whole)
  | .nameTruncated _ _ => some .transfer
  | _ => none

end RecordError

namespace Spawn

/-! ### Stage by stage -/

section Stages

variable {σ : Type} [ByteSource σ] {p : Prospect σ} {s : σ} {β γ : Type}

def broken? : Except RecordError β → Option (IoError → Except RecordError β)
  | .ok _ => none
  | .error c => c.broken?.map fun f e => .error (f e)

/-- That the data is over is for want of bytes as well. -/
def recordBroken? : Except RecordError (Option (Spawn Binary32)) →
    Option (IoError → Except RecordError (Option (Spawn Binary32)))
  | .ok none => some fun e => .error (fieldError (fieldCount false) 0 e)
  | .ok (some _) => none
  | .error c => broken? (.error c)

theorem broken?_error (c : RecordError) :
    broken? (.error c : Except RecordError β) = c.broken?.map fun f e => .error (f e) := rfl

theorem broken?_map (f : β → γ) (result : Except RecordError β) :
    broken? (result.map f) = (broken? result).map fun g e => (g e).map f := by
  rcases result with c | b
  · simp only [Except.map, broken?, Option.map_map]
    rfl
  · rfl

theorem recordBroken?_some (result : Except RecordError (Spawn Binary32)) :
    recordBroken? (result.map some) = (broken? result).map fun g e => (g e).map some := by
  rcases result with c | b
  · exact broken?_map some (.error c)
  · rfl

theorem receiveFields_of_fill {expected read width : Nat} {widths : List Nat} {s' : σ}
    {field : List UInt8} (h : fill width s = (.complete field, s')) :
    receiveFields expected (width :: widths) read s =
      ((receiveFields expected widths (read + 1) s').1.map (field ++ ·),
        (receiveFields expected widths (read + 1) s').2) := by
  rw [receiveFields, h]
  simp only
  rcases receiveFields expected widths (read + 1) s' with ⟨_ | _, _⟩
  · rfl
  · rfl

theorem receiveFields_follows {expected read : Nat} {widths : List Nat} (hs : p.Sound s) :
    p.Follows broken? s (receiveFields expected widths read (p.view s))
      (receiveFields expected widths read s) := by
  induction widths generalizing read s with
  | nil => exact .reaches (Prospect.reaches_nil hs) fun hcut => by cases hcut
  | cons width widths ih =>
    rcases Prospect.fill_cases hs width with ⟨field, s₁, hplain, hfill, hreach⟩ |
      ⟨got, s₁, hplain, hfill, hreach, hnone⟩ | ⟨got, e, s₁, hplain, hfill, hbreak⟩
    · rw [receiveFields_of_fill hplain, receiveFields_of_fill hfill]
      exact ((ih hreach.sound).map _ (broken?_map _)).after hreach
    · rw [receiveFields, receiveFields, hplain, hfill]
      exact .reaches hreach fun _ => hnone
    · rw [receiveFields, receiveFields, hplain, hfill]
      have hcut : broken? (.error (.truncated expected read) : Except RecordError (List UInt8)) =
          some fun e => .error (fieldError expected read e) := rfl
      exact .breaks hcut hbreak

theorem receiveName_follows (length : Nat) (hs : p.Sound s) :
    p.Follows broken? s (receiveName length (p.view s)) (receiveName length s) := by
  rw [receiveName, receiveName]
  by_cases hlong : maxNameLength < length
  · rw [if_pos hlong, if_pos hlong]
    exact .reaches (Prospect.reaches_nil hs) fun hcut => absurd hcut Bool.false_ne_true
  · rw [if_neg hlong, if_neg hlong]
    rcases Prospect.fill_cases hs length with ⟨field, s₁, hplain, hfill, hreach⟩ |
      ⟨got, s₁, hplain, hfill, hreach, hnone⟩ | ⟨got, e, s₁, hplain, hfill, hbreak⟩
    · rw [hplain, hfill]
      exact .reaches hreach fun hcut => absurd hcut Bool.false_ne_true
    · rw [hplain, hfill]
      exact .reaches hreach fun _ => hnone
    · rw [hplain, hfill]
      have hcut : broken? (.error (.nameTruncated length got.length) :
          Except RecordError (List UInt8)) = some fun e => .error (.transfer e) := rfl
      exact .breaks hcut hbreak

theorem receiveAfterFlags_follows (flags : UInt32) (hs : p.Sound s) :
    p.Follows broken? s (receiveAfterFlags flags (p.view s)) (receiveAfterFlags flags s) := by
  have hfields : p.Follows broken? s
      (receiveFields (fieldCount (SpawnFlag.bounded.isSet flags))
        (fieldWidths (SpawnFlag.bounded.isSet flags)).tail 1 (p.view s))
      (receiveFields (fieldCount (SpawnFlag.bounded.isSet flags))
        (fieldWidths (SpawnFlag.bounded.isSet flags)).tail 1 s) := receiveFields_follows hs
  rw [receiveAfterFlags, receiveAfterFlags]
  generalize receiveFields _ _ _ (p.view s) = plain at hfields ⊢
  generalize receiveFields _ _ _ s = outcome at hfields ⊢
  cases hfields with
  | @reaches result bs s₁ hreach hend =>
    cases result with
    | error c =>
      refine .reaches hreach fun hcut => hend ?_
      rwa [broken?_error, Option.isSome_map] at hcut ⊢
    | ok block =>
      have hname := receiveName_follows (readNameLength (SpawnFlag.bounded.isSet flags) block)
        hreach.sound
      have hspawn := (hname.map _ (broken?_map (ofFields flags block))).after hreach
      simp only
      generalize receiveName _ (p.view s₁) = plain at hspawn ⊢
      generalize receiveName _ s₁ = outcome at hspawn ⊢
      rcases plain with ⟨_ | _, _⟩ <;> rcases outcome with ⟨_ | _, _⟩ <;> exact hspawn
  | @breaks result f e s' hresult hbreak =>
    rcases result with c | block
    · obtain ⟨g, hg, rfl⟩ := Option.map_eq_some_iff.mp hresult
      have hcut : broken? (.error c : Except RecordError (Spawn Binary32)) =
          some fun e => .error (g e) := by
        rw [broken?_error, hg]
        rfl
      exact .breaks hcut hbreak
    · cases hresult

theorem receive_of_fill {s' : σ} {lead : List UInt8} (h : fill 4 s = (.complete lead, s')) :
    receive s = ((receiveAfterFlags (readWord32 lead) s').1.map some,
      (receiveAfterFlags (readWord32 lead) s').2) := by
  rw [receive, h]
  simp only
  rcases receiveAfterFlags (readWord32 lead) s' with ⟨_ | _, _⟩
  · rfl
  · rfl

/-- A record is read from a source as it is read from the bytes that are to come, unless it
    takes more than these. -/
theorem receive_follows (hs : p.Sound s) :
    p.Follows recordBroken? s (receive (p.view s)) (receive s) := by
  rcases Prospect.fill_cases hs 4 with ⟨lead, s₁, hplain, hfill, hreach⟩ |
    ⟨got, s₁, hplain, hfill, hreach, hnone⟩ | ⟨got, e, s₁, hplain, hfill, hbreak⟩
  · rw [receive_of_fill hplain, receive_of_fill hfill]
    have hafter := receiveAfterFlags_follows (readWord32 lead) hreach.sound
    exact (hafter.map _ recordBroken?_some).after hreach
  · rw [receive, receive, hplain, hfill]
    rcases got with _ | ⟨b, got⟩
    · exact .reaches hreach fun _ => hnone
    · exact .reaches hreach fun _ => hnone
  · rw [receive, receive, hplain, hfill]
    -- whether anything came of the flags or not, the error is the same
    have hnothing : recordBroken? (.ok none) =
        some fun e => .error (fieldError (fieldCount false) 0 e) := rfl
    have hshort : recordBroken? (.error (.truncated (fieldCount false) 0)) =
        some fun e => .error (fieldError (fieldCount false) 0 e) := rfl
    rcases got with _ | ⟨b, got⟩
    · exact .breaks hnothing hbreak
    · exact .breaks hshort hbreak

end Stages

section Reliable

variable {σ : Type} [ByteSource σ] (r : Reliable σ) {s : σ} {left : List UInt8}

/-- A record is read from a source as it is read from the bytes the source stands for. -/
theorem receive_of_plain {result : Except RecordError (Option (Spawn Binary32))} (hs : r.Sound s)
    (hplain : receive (r.rest s) = (result, left)) :
    ∃ s', r.Sound s' ∧ r.rest s' = left ∧ receive s = (result, s') := by
  have hfollows : r.prospect.Follows recordBroken? s (receive (r.rest s)) (receive s) :=
    receive_follows hs
  rw [hplain] at hfollows
  exact r.of_follows hfollows

/-! ### The log, and the tape -/

/-- The log of reading one record. -/
def resultLog {β : Type} : Except RecordError β → List LogLine
  | .ok _ => []
  | .error e => [errorLine e]

theorem receiveLogged_eq (s : σ) : receiveLogged s = ⟨receive s, resultLog (receive s).1⟩ := by
  unfold receiveLogged
  rcases receive s with ⟨e | spawn?, s'⟩
  · rfl
  · rfl

/-- What is on the tape with a result, and what was left then, is what there was before. -/
theorem receive_start_of_plain {result : Except RecordError (Option (Spawn Binary32))}
    (hs : r.Sound s) (hplain : receive (r.rest s) = (result, left)) :
    ∃ t : Taped σ, r.Sound t.source ∧ r.rest t.source = left ∧ t.bytes ++ left = r.rest s ∧
      receive (Taped.start s) = (result, t) := by
  obtain ⟨t, ⟨hsound, hwhole⟩, rfl, hreceive⟩ :=
    receive_of_plain (r.taped (r.rest s)) (s := Taped.start s) ⟨hs, rfl⟩ hplain
  exact ⟨t, hsound, rfl, hwhole, hreceive⟩

end Reliable

end Spawn

end Placement
