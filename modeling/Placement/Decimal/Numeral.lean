/-
  Placement/Decimal/Numeral.lean
  ==============================
  **Decimal numerals and the binary numbers nearest to them.**

  A numeral is a sign, a whole number of digits and a power of ten, so it is exact.
  It becomes a binary number by one rounding, or by two when it passes through the
  64-bit format first; the two ways differ on some numerals near a tie, and each
  reader of text in this library states which of them it takes.

  `Binary32.ofText?` reads the spelling that command lines use.
-/
import Placement.Binary32.Basic

namespace Placement

/-- The number `digits * 10 ^ exponent`, with a sign. -/
structure Decimal where
  negative : Bool
  digits : Nat
  exponent : Int
  deriving DecidableEq

namespace Decimal

def natOfDigits (cs : List Char) : Nat :=
  cs.foldl (fun n c => 10 * n + (c.toNat - '0'.toNat)) 0

/-- The numeral with the given digits before and after the point and the given power of ten. -/
def ofParts (negative : Bool) (whole fraction : List Char) (exponent : Int) : Decimal :=
  ⟨negative, natOfDigits (whole ++ fraction), exponent - fraction.length⟩

/-- No finite number of either format has more decimal places than this, before or
    after the point, before its first digit. -/
def reach : Nat := 400

/-- The pattern nearest to the magnitude of a numeral.  A numeral out of `reach` is
    infinite or zero without any arithmetic. -/
def nearest (f : Format) (d : Decimal) : Nat :=
  let size : Int := d.digits.repr.length + d.exponent
  if d.digits = 0 then 0
  else if (reach : Int) < size then f.infinity
  else if size < -(reach : Int) then 0
  else if 0 ≤ d.exponent then f.nearest (d.digits * Nat.pow 10 d.exponent.toNat * f.one) 1
  else f.nearest (d.digits * f.one) (Nat.pow 10 (-d.exponent).toNat)

def toBinary32 (d : Decimal) : Binary32 := .ofParts d.negative (d.nearest .single)

/-- The 32-bit number nearest to the 64-bit number nearest to a numeral. -/
def toBinary32ViaDouble (d : Decimal) : Binary32 :=
  .ofParts d.negative (Format.double.convert .single (d.nearest .double))

end Decimal

/-! ### Numbers on a command line -/

/-- Why a text is no number. -/
inductive NumeralError
  | empty
  | malformed
  deriving DecidableEq

def NumeralError.message : NumeralError → String
  | .empty => "cannot parse float from empty string"
  | .malformed => "invalid float literal"

namespace Decimal

/-- An optional sign at the front of a text; whether it is a minus, and the rest. -/
def splitSign : List Char → Bool × List Char
  | '-' :: cs => (true, cs)
  | '+' :: cs => (false, cs)
  | cs => (false, cs)

/-- The power of ten at the end of a numeral: nothing, or a letter `e`, an optional sign
    and at least one digit. -/
def exponent? : List Char → Option Int
  | [] => some 0
  | c :: cs =>
    if c = 'e' ∨ c = 'E' then
      let (negative, ds) := splitSign cs
      if ds ≠ [] ∧ ds.all Char.isDigit then
        some (if negative then -(natOfDigits ds : Int) else natOfDigits ds)
      else none
    else none

/-- An unsigned numeral: digits with at most one point among or around them, then the
    power of ten. -/
def unsigned? (negative : Bool) (cs : List Char) : Option Decimal :=
  let whole := cs.takeWhile Char.isDigit
  let afterWhole := cs.dropWhile Char.isDigit
  let (fraction, rest) := match afterWhole with
    | '.' :: ds => (ds.takeWhile Char.isDigit, ds.dropWhile Char.isDigit)
    | ds => ([], ds)
  if whole = [] ∧ fraction = [] then none
  else (exponent? rest).map (ofParts negative whole fraction)

end Decimal

/-- Read a number: a numeral with an optional sign, or one of the words `inf`,
    `infinity` and `nan` in any case.  A numeral is rounded once. -/
def Binary32.ofText? (text : List Char) : Except NumeralError Binary32 :=
  if text = [] then .error .empty
  else
    let (negative, cs) := Decimal.splitSign text
    let word := cs.map Char.toLower
    if word = "inf".toList ∨ word = "infinity".toList then .ok (.ofParts negative infinityPattern)
    else if word = "nan".toList then .ok (.ofParts negative nan.pattern)
    else match Decimal.unsigned? negative cs with
      | some d => .ok d.toBinary32
      | none => .error .malformed

end Placement
