/-
  Placement/Binary32/Angle.lean
  =============================
  **Sine and cosine, rounded to the nearest 32-bit number.**

  Placements are turned by angles in degrees, and queries only ever see the sine
  and cosine of those angles.  Both are computed in fixed point: a whole number
  counts steps of `2 ^ (-precision)`.  An angle is itself such a whole number,
  because the least positive 32-bit number is a multiple of a step.  It is reduced
  by quarter turns to at most an eighth of a turn, and the power series is summed
  until its terms vanish.  One rounding at the end gives the answer.

  The precision leaves hundreds of correct bits behind the fraction of the answer
  even for the largest finite angle, of which the reduction uses up 130.
-/
import Placement.Binary32.Basic

namespace Placement

/-- The cosine and sine of one angle. -/
structure Turn (α : Type) where
  cos : α
  sin : α
  deriving DecidableEq

namespace FixedPoint

/-- Fixed-point numbers count steps of `2 ^ (-precision)`. -/
def precision : Nat := 640

def unit : Nat := Nat.pow 2 precision

/-- The alternating series with first term `term` whose next terms divide by `ratio k`
    for `k = start, start + 1, …`, for at most `fuel` terms. -/
def alternating (ratio : Nat → Nat → Nat) : (fuel start term : Nat) → Int
  | 0, _, _ => 0
  | fuel + 1, k, term =>
    if term = 0 then 0 else (term : Int) - alternating ratio fuel (k + 1) (ratio k term)

/-- The angle whose tangent is `1 / n`, in steps: `1/n - 1/(3 n³) + 1/(5 n⁵) - …`. -/
def arctanInv (n : Nat) : Int :=
  go precision 0 (unit / n)
where
  /-- The series from its `k`-th term on, `power` being `1 / n ^ (2 k + 1)`. -/
  go : (fuel k power : Nat) → Int
    | 0, _, _ => 0
    | fuel + 1, k, power =>
      if power = 0 then 0
      else ((power / (2 * k + 1) : Nat) : Int) - go fuel (k + 1) (power / (n * n))

/-- A quarter turn in steps, by the tangent sum `π/4 = 4 arctan (1/5) - arctan (1/239)`. -/
def quarterTurn : Nat := (2 * (4 * arctanInv 5 - arctanInv 239)).toNat

/-- The sine of `x` steps, for an angle of at most an eighth of a turn. -/
def sin (x : Nat) : Int :=
  alternating (fun k t => t * x / unit * x / unit / ((2 * k + 2) * (2 * k + 3))) precision 0 x

/-- The cosine of `x` steps, for an angle of at most an eighth of a turn. -/
def cos (x : Nat) : Int :=
  alternating (fun k t => t * x / unit * x / unit / ((2 * k + 1) * (2 * k + 2))) precision 0 unit

/-- The cosine and sine of an angle of at most a quarter turn; beyond an eighth they
    are the sine and cosine of what is missing to the quarter. -/
def turnInQuarter (r : Nat) : Turn Int :=
  if 2 * r ≤ quarterTurn then ⟨cos r, sin r⟩
  else ⟨sin (quarterTurn - r), cos (quarterTurn - r)⟩

/-- The cosine and sine of a nonnegative angle of `x` steps. -/
def turn (x : Nat) : Turn Int :=
  let t := turnInQuarter (x % quarterTurn)
  match x / quarterTurn % 4 with
  | 0 => t
  | 1 => ⟨-t.sin, t.cos⟩
  | 2 => ⟨-t.cos, -t.sin⟩
  | _ => ⟨t.sin, -t.cos⟩

end FixedPoint

namespace Binary32

/-- The number nearest to a fixed-point value. -/
def ofSteps (n : Int) : Binary32 :=
  round (decide (n < 0)) (n.natAbs * Format.single.one) FixedPoint.unit

/-- The factor from degrees to radians, itself a 32-bit number. -/
def radiansPerDegree : Binary32 := ⟨0x3c8efa35⟩

/-- The cosine and sine of an angle in radians.  A negative angle has the same cosine
    and the opposite sine, a zero keeps its sign as its own sine, and an angle that is
    not finite has neither. -/
def turnOfRadians (a : Binary32) : Turn Binary32 :=
  if a.isFinite then
    if a.isZero then ⟨one, a⟩
    else
      let t := FixedPoint.turn (a.units * (FixedPoint.unit / Format.single.one))
      ⟨ofSteps t.cos, ofSteps (if a.negative then -t.sin else t.sin)⟩
  else ⟨nan, nan⟩

/-- The cosine and sine of an angle in degrees; the conversion to radians is a rounded
    product. -/
def turnOfDegrees (a : Binary32) : Turn Binary32 := turnOfRadians (a * radiansPerDegree)

end Binary32

end Placement
