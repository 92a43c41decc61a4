/-
  Placement/Bytes/Sink.lean
  =========================
  **Where bytes go.**

  A sink takes some of the bytes it is offered, from the front, or fails.  `putAll`
  offers what is left until everything is taken; a sink that takes nothing is full.

  `ByteTray` is a sink in memory with room for so many bytes, which takes them in pieces
  and meets faults on the way.
-/
import Placement.Bytes.Fault

namespace Placement

/-- What one offer to a sink came to. -/
inductive Acceptance
  | taken (count : Nat)
  | failed (e : IoError)

/-- Sinks of bytes. -/
class ByteSink (σ : Type) where
  write : σ → List UInt8 → Acceptance × σ
  /-- How many more offers may be interrupted. -/
  patience : σ → Nat

namespace ByteSink

variable {σ : Type} [ByteSink σ]

/-- Offer some bytes until all are taken, for at most `calls` offers. -/
def putWithin : (calls : Nat) → List UInt8 → σ → Except IoError Unit × σ
  | _, [], s => (.ok (), s)
  | 0, _ :: _, s => (.error .keepsInterrupting, s)
  | calls + 1, b :: bs, s =>
    match write s (b :: bs) with
    | (.taken 0, s) => (.error .sinkFull, s)
    | (.taken n, s) => putWithin calls ((b :: bs).drop n) s
    | (.failed e, s) =>
      if e.kind = .interrupted then putWithin calls (b :: bs) s else (.error e, s)

/-- Offer some bytes until all are taken.  Nothing is offered if there are none. -/
def putAll (bs : List UInt8) (s : σ) : Except IoError Unit × σ :=
  putWithin (bs.length + patience s) bs s

end ByteSink

/-! ### Sinks in memory -/

/-- A list takes all bytes it is offered. -/
instance : ByteSink (List UInt8) where
  write held bs := (.taken bs.length, held ++ bs)
  patience _ := 0

/-- A sink in memory that takes bytes in pieces, as long as it has room, and meets faults. -/
structure ByteTray where
  held : List UInt8
  /-- How much it can hold, if there is a limit. -/
  capacity : Option Nat
  /-- The most that one offer places, if there is a limit. -/
  chunk : Option Nat
  faults : List Fault

namespace ByteTray

/-- An offer meets the fault at the position, if there is one; otherwise bytes are taken
    up to the next fault. -/
def write (s : ByteTray) (bs : List UInt8) : Acceptance × ByteTray :=
  let position := s.held.length
  match Fault.strike? position s.faults with
  | some (e, faults) => (.failed e, { s with faults })
  | none =>
    let room := match s.capacity with
      | some capacity => min bs.length (capacity - position)
      | none => bs.length
    let piece := match s.chunk with
      | some chunk => min room chunk
      | none => room
    let n := Fault.clear position s.faults piece
    (.taken n, { s with held := s.held ++ bs.take n })

end ByteTray

instance : ByteSink ByteTray where
  write := ByteTray.write
  patience s := s.faults.length

end Placement
