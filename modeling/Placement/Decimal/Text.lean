/-
  Placement/Decimal/Text.lean
  ===========================
  **Decimal text of 32-bit numbers.**

  Two kinds of text are written.  `Binary32.text` gives the fewest digits that read
  back to the same number: the numbers that round to a pattern form an interval, and
  the coarsest decimal grid with a point in that interval supplies the digits.
  `Binary32.fixedText` gives a set number of decimal places of the exact value, a tie
  going to the even last digit.

  What a layout decides (whether a whole number keeps a point, and where powers of ten
  are written) is one record, `FloatLayout`.
-/
import Placement.Binary32.Basic

namespace Placement

namespace Binary32

/-! ### The fewest digits -/

/-- The decimal points of the grid `10 ^ exponent` next to a positive number, kept if
    they read back to it: of two, the nearer, and of two equally near, the larger.
    All quantities count half units times the scale of the grid. -/
def onGrid? (pattern : Nat) (exponent : Int) : Option (Nat × Int) :=
  let units := Format.single.units
  let up := Nat.pow 10 (-exponent).toNat
  let step := 2 * Format.single.one * Nat.pow 10 exponent.toNat
  let value := 2 * units pattern * up
  let low := (units (pattern - 1) + units pattern) * up
  let high := (units pattern + units (pattern + 1)) * up
  let inside (n : Nat) : Bool :=
    if pattern % 2 = 0 then decide (low ≤ n * step ∧ n * step ≤ high)
    else decide (low < n * step ∧ n * step < high)
  let below := value / step
  match inside below, inside (below + 1) with
  | true, true =>
    some (if 2 * (value % step) < step then below else below + 1, exponent)
  | true, false => some (below, exponent)
  | false, true => some (below + 1, exponent)
  | false, false => none

/-- The powers of ten to try, coarsest first.  Every finite number has its point on the
    last of them. -/
def gridExponents : List Int := (List.range 200).map fun (i : Nat) => 39 - (i : Int)

/-- The fewest decimal digits that read back to a positive number, with their power of ten. -/
def shortest (pattern : Nat) : Nat × Int :=
  (gridExponents.findSome? (onGrid? pattern)).getD (0, 0)

/-! ### Layout -/

/-- How the digits of a number are laid out. -/
structure FloatLayout where
  /-- A number without places after the point still gets one. -/
  keepPoint : Bool
  /-- Nonzero magnitudes below the first pattern, or from the second on, are written
      with a power of ten. -/
  positional : Option (Nat × Nat)

/-- Numbers in messages: positional, however long, and bare if whole. -/
def FloatLayout.message : FloatLayout := ⟨false, none⟩

/-- Numbers in dumps of a value: always with a point, and with a power of ten below
    `0.0001` and from `10 ^ 16` on. -/
def FloatLayout.dump : FloatLayout := ⟨true, some (0x38d1b717, 0x5a0e1bca)⟩

def zeros (n : Nat) : String := String.ofList (List.replicate n '0')

/-- The text of a positive number without a power of ten. -/
def positionalText (keepPoint : Bool) (digits : Nat) (exponent : Int) : String :=
  let ds := digits.repr
  let point := ds.length + exponent
  if 0 ≤ exponent then
    ds ++ zeros exponent.toNat ++ (if keepPoint then ".0" else "")
  else if point ≤ 0 then "0." ++ zeros (-point).toNat ++ ds
  else
    String.ofList (ds.toList.take point.toNat) ++ "." ++ String.ofList (ds.toList.drop point.toNat)

/-- The text of a positive number with one digit before the point and a power of ten. -/
def scientificText (digits : Nat) (exponent : Int) : String :=
  let ds := digits.repr.toList
  let power := ds.length - 1 + exponent
  let fraction := match ds.drop 1 with
    | [] => ""
    | rest => "." ++ String.ofList rest
  String.ofList (ds.take 1) ++ fraction ++ "e" ++ power.repr

def text (layout : FloatLayout) (a : Binary32) : String :=
  if a.isNaN then "NaN"
  else
    let sign := if a.negative then "-" else ""
    if a.isInfinite then sign ++ "inf"
    else if a.isZero then sign ++ (if layout.keepPoint then "0.0" else "0")
    else
      let (digits, exponent) := shortest a.pattern
      let scientific := match layout.positional with
        | none => false
        | some (first, past) => decide (a.pattern < first ∨ past ≤ a.pattern)
      sign ++ if scientific then scientificText digits exponent
        else positionalText layout.keepPoint digits exponent

/-! ### A set number of places -/

/-- The text of a number with `places` digits after the point, rounded from the exact
    value; a tie goes to the even last digit.  A negative number keeps its sign even if
    all its digits are zero. -/
def fixedText (places : Nat) (a : Binary32) : String :=
  if a.isNaN then "NaN"
  else
    let sign := if a.negative then "-" else ""
    if a.isInfinite then sign ++ "inf"
    else
      let scale := Nat.pow 10 places
      let n := roundDiv (a.units * scale) Format.single.one
      let whole := (n / scale).repr
      let fraction := (n % scale).repr
      if places = 0 then sign ++ whole
      else sign ++ whole ++ "." ++ zeros (places - fraction.length) ++ fraction

end Binary32

end Placement
