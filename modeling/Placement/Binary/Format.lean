/-
  Placement/Binary/Format.lean
  ============================
  **Binary floating formats as grids of magnitudes.**

  Coordinates in spawn files are 32-bit words, and text is read through 64-bit
  words on its way there.  Both are described here by one record: how many
  fraction bits and how many exponent bits a word has.  A *pattern* is a word
  without its sign bit.  Every finite pattern stands for a whole number of
  *units*, the unit being the least positive magnitude of the format, so a
  magnitude is a natural number and exact arithmetic on it is arithmetic of `Nat`.

  `Format.nearest` is the one rounding of the library: it takes an exact
  quotient of naturals, counted in units, to the pattern nearest to it, a tie
  going to the even pattern.  Addition, multiplication, division, reading of
  decimals and the change from one format to another all end in it.
-/

namespace Placement

/-- The quotient of two naturals, rounded to nearest; a tie goes to the even neighbour. -/
def roundDiv (num den : Nat) : Nat :=
  let q := num / den
  let r := num % den
  if 2 * r < den then q else if den < 2 * r then q + 1 else q + q % 2

/-- A binary floating format, by the width of its two stored parts. -/
structure Format where
  fracBits : Nat
  expBits : Nat

namespace Format

def single : Format := ⟨23, 8⟩

def double : Format := ⟨52, 11⟩

/-- The pattern of infinity: the largest exponent with an empty fraction.
    Patterns above it are not numbers. -/
def infinity (f : Format) : Nat := (Nat.pow 2 f.expBits - 1) * Nat.pow 2 f.fracBits

/-- How many units make one. -/
def one (f : Format) : Nat := Nat.pow 2 (Nat.pow 2 (f.expBits - 1) - 2 + f.fracBits)

/-- The magnitude of a finite pattern, counted in units.  A zero exponent has no
    leading bit; any other exponent `e` puts one in front and doubles `e - 1` times. -/
def units (f : Format) (pattern : Nat) : Nat :=
  let e := pattern / Nat.pow 2 f.fracBits
  let m := pattern % Nat.pow 2 f.fracBits
  if e = 0 then m else (Nat.pow 2 f.fracBits + m) * Nat.pow 2 (e - 1)

/-- The pattern nearest to `num / den` units.  The quotient is scaled down by the
    power of two that leaves it `fracBits + 1` bits, rounded there, and the scale is
    added back as an exponent; a carry out of the fraction moves to the next exponent
    by itself.  What lies beyond the largest finite pattern is infinite. -/
def nearest (f : Format) (num den : Nat) : Nat :=
  let k := Nat.log2 (num / den) - f.fracBits
  min (k * Nat.pow 2 f.fracBits + roundDiv num (den * Nat.pow 2 k)) f.infinity

/-- The pattern of format `g` nearest to a pattern of format `f`; infinity stays infinite. -/
def convert (f g : Format) (pattern : Nat) : Nat :=
  if f.infinity ≤ pattern then g.infinity else g.nearest (f.units pattern * g.one) f.one

end Format

end Placement
