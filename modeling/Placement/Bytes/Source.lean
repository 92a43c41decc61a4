/-
  Placement/Bytes/Source.lean
  ===========================
  **Where bytes come from.**

  A source is anything that answers a call for some bytes: with bytes, at most as many
  as were asked for, with none once the data is over, or with an error.  `fill` makes
  as many calls as it takes to get a number of bytes; it tries again after a call that
  was interrupted, and nothing beyond the bytes asked for is ever taken.

  `ByteStream` is a source in memory that hands out its bytes in pieces and meets faults
  on the way.  `Taped` keeps a copy of what passes through another source.
-/
import Placement.Bytes.Fault

namespace Placement

/-- What one call to a source came to. -/
inductive Delivery
  /-- Bytes; none if the data is over. -/
  | bytes (bs : List UInt8)
  | failed (e : IoError)

/-- Sources of bytes. -/
class ByteSource (σ : Type) where
  /-- One call, asking for at most `want` bytes. -/
  read : σ → (want : Nat) → Delivery × σ
  /-- How many more calls may be interrupted. -/
  patience : σ → Nat

/-- What came of asking for a number of bytes. -/
inductive Fill
  | complete (bs : List UInt8)
  /-- The data ended after these. -/
  | ended (bs : List UInt8)
  | failed (e : IoError)

namespace ByteSource

variable {σ : Type} [ByteSource σ]

/-- Call a source until `want` more bytes have joined `got`, for at most `calls` calls. -/
def fillWithin : (calls want : Nat) → (got : List UInt8) → σ → Fill × σ
  | _, 0, got, s => (.complete got, s)
  | 0, _ + 1, _, s => (.failed .keepsInterrupting, s)
  | calls + 1, want + 1, got, s =>
    match read s (want + 1) with
    | (.bytes [], s) => (.ended got, s)
    | (.bytes bs, s) => fillWithin calls (want + 1 - bs.length) (got ++ bs) s
    | (.failed e, s) =>
      if e.kind = .interrupted then fillWithin calls (want + 1) got s else (.failed e, s)

/-- Get `want` bytes.  No call is made once they are complete, so none is made for no
    bytes.  Every call is interrupted or brings a byte nearer to the end, which bounds
    their number. -/
def fill (want : Nat) (s : σ) : Fill × σ := fillWithin (want + patience s) want [] s

end ByteSource

/-! ### Bytes in memory -/

/-- Bytes in memory, handed out from the front as far as they are asked for. -/
instance : ByteSource (List UInt8) where
  read bs want := (.bytes (bs.take want), bs.drop want)
  patience _ := 0

/-- A source in memory that hands out its bytes in pieces and meets faults. -/
structure ByteStream where
  /-- What has not been handed out yet. -/
  rest : List UInt8
  /-- How much has been. -/
  position : Nat
  /-- The most that one call hands out, if there is a limit. -/
  chunk : Option Nat
  faults : List Fault

namespace ByteStream

/-- A call meets the fault at the position, if there is one; otherwise it hands out bytes
    up to the next fault. -/
def read (s : ByteStream) (want : Nat) : Delivery × ByteStream :=
  match Fault.strike? s.position s.faults with
  | some (e, faults) => (.failed e, { s with faults })
  | none =>
    let piece := match s.chunk with
      | some chunk => min want chunk
      | none => want
    let n := Fault.clear s.position s.faults piece
    let bs := s.rest.take n
    (.bytes bs, { s with rest := s.rest.drop n, position := s.position + bs.length })

end ByteStream

instance : ByteSource ByteStream where
  read := ByteStream.read
  patience s := s.faults.length

/-! ### Keeping a copy -/

/-- A source together with a tape of all bytes that came out of it. -/
structure Taped (σ : Type) where
  source : σ
  bytes : List UInt8

namespace Taped

variable {σ : Type}

def start (s : σ) : Taped σ := ⟨s, []⟩

/-- A call to the source; the bytes that come of it go on the tape. -/
def read [ByteSource σ] (t : Taped σ) (want : Nat) : Delivery × Taped σ :=
  match ByteSource.read t.source want with
  | (.bytes bs, s) => (.bytes bs, ⟨s, t.bytes ++ bs⟩)
  | (.failed e, s) => (.failed e, ⟨s, t.bytes⟩)

end Taped

instance {σ : Type} [ByteSource σ] : ByteSource (Taped σ) where
  read := Taped.read
  patience t := ByteSource.patience t.source

end Placement
