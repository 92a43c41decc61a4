/-
  Placement/Text/Utf8.lean
  ========================
  **Reading bytes as UTF-8 text.**

  Names are raw bytes, so a reader of text has to say what it does with bytes that are
  no text.  The decoder here goes through the bytes once and yields, in order, each
  character and each *flaw*.  A flaw is the longest run of bytes that begins some
  character but is not continued to one, or else a single byte that begins none.

  `decodeLossy` shows every flaw as one replacement character; `decode?` refuses a text
  with a flaw.
-/

namespace Placement

namespace Utf8

/-- A character of which some bytes are still owed. -/
structure Partial where
  value : Nat
  /-- How many bytes are owed. -/
  owed : Nat
  low : Nat
  high : Nat

/-- One step of decoding: the characters and flaws it completes, and the character it is in. -/
abbrev Step := List (Option Char) × Option Partial

/-- Take a byte between two characters.  The bounds of the second byte keep out
    spellings that are too long, surrogates and values past the last character. -/
def start (b : Nat) : Step :=
  if b < 0x80 then ([some (Char.ofNat b)], none)
  else if b < 0xC2 then ([none], none)
  else if b < 0xE0 then ([], some ⟨b - 0xC0, 1, 0x80, 0xBF⟩)
  else if b = 0xE0 then ([], some ⟨0, 2, 0xA0, 0xBF⟩)
  else if b = 0xED then ([], some ⟨0xD, 2, 0x80, 0x9F⟩)
  else if b < 0xF0 then ([], some ⟨b - 0xE0, 2, 0x80, 0xBF⟩)
  else if b = 0xF0 then ([], some ⟨0, 3, 0x90, 0xBF⟩)
  else if b < 0xF4 then ([], some ⟨b - 0xF0, 3, 0x80, 0xBF⟩)
  else if b = 0xF4 then ([], some ⟨4, 3, 0x80, 0x8F⟩)
  else ([none], none)

/-- Take a byte inside a character, or start anew with it if it does not continue that one. -/
def step (p : Partial) (b : Nat) : Step :=
  if p.low ≤ b ∧ b ≤ p.high then
    let value := p.value * 64 + b % 64
    if p.owed ≤ 1 then ([some (Char.ofNat value)], none)
    else ([], some ⟨value, p.owed - 1, 0x80, 0xBF⟩)
  else
    let (out, next) := start b
    (none :: out, next)

/-- The characters and flaws of some bytes, from inside or outside a character. -/
def decodeFrom : Option Partial → List UInt8 → List (Option Char)
  | none, [] => []
  | some _, [] => [none]
  | none, b :: bs =>
    let (out, next) := start b.toNat
    out ++ decodeFrom next bs
  | some p, b :: bs =>
    let (out, next) := step p b.toNat
    out ++ decodeFrom next bs

/-- The characters of some bytes, with one replacement character for each flaw. -/
def decodeLossy (bytes : List UInt8) : String :=
  String.ofList ((decodeFrom none bytes).map fun c => c.getD '\uFFFD')

/-- The characters of some bytes, if they are text throughout. -/
def decode? (bytes : List UInt8) : Option String :=
  ((decodeFrom none bytes).mapM id).map String.ofList

end Utf8

end Placement
