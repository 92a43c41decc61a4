/-
  Placement/Binary32/Basic.lean
  =============================
  **32-bit floating numbers, kept as their words.**

  A coordinate is the word that a spawn file stores, sign and payload of a
  not-a-number included, so reading and writing never change it.  The number a
  word stands for is read off the word: its sign bit, and the magnitude of the
  remaining bits in units of the least positive number (`Format.units`).

  Each operation of arithmetic computes the exact result in `Nat` or `Int` and
  rounds it once (`Format.nearest`).  Order is the order of `key`, the signed
  pattern: patterns grow with magnitudes, and both zeros have key zero.
-/
import Placement.Binary.Format

namespace Placement

/-- A 32-bit floating number, by its word. -/
structure Binary32 where
  bits : UInt32
  deriving DecidableEq

namespace Binary32

/-! ### Parts of a word -/

def signBit : Nat := 0x80000000

/-- The word without its sign bit. -/
def pattern (a : Binary32) : Nat := a.bits.toNat % signBit

def negative (a : Binary32) : Bool := decide (signBit ≤ a.bits.toNat)

/-- The word with the given sign and pattern. -/
def ofParts (negative : Bool) (pattern : Nat) : Binary32 :=
  ⟨UInt32.ofNat (if negative then signBit + pattern else pattern)⟩

abbrev infinityPattern : Nat := Format.single.infinity

def isNaN (a : Binary32) : Bool := decide (infinityPattern < a.pattern)

def isInfinite (a : Binary32) : Bool := decide (a.pattern = infinityPattern)

def isFinite (a : Binary32) : Bool := decide (a.pattern < infinityPattern)

def isZero (a : Binary32) : Bool := decide (a.pattern = 0)

/-- The magnitude of a finite number, in units of the least positive number. -/
def units (a : Binary32) : Nat := Format.single.units a.pattern

/-- The value of a finite number, in units of the least positive number. -/
def signedUnits (a : Binary32) : Int := if a.negative then -(a.units : Int) else a.units

/-! ### Constants -/

def zero : Binary32 := ⟨0⟩
def one : Binary32 := ⟨0x3f800000⟩
def half : Binary32 := ⟨0x3f000000⟩
def posInf : Binary32 := ⟨0x7f800000⟩
def negInf : Binary32 := ⟨0xff800000⟩

/-- The answer of an operation that has no value. -/
def nan : Binary32 := ⟨0x7fc00000⟩

/-! ### Order -/

/-- The signed pattern of a number.  It grows with the value and is zero for both zeros. -/
def key (a : Binary32) : Int := if a.negative then -(a.pattern : Int) else a.pattern

/-- Order of values.  What is not a number is not comparable, not even with itself. -/
instance : LE Binary32 := ⟨fun a b => a.isNaN = false ∧ b.isNaN = false ∧ a.key ≤ b.key⟩

instance : LT Binary32 := ⟨fun a b => a.isNaN = false ∧ b.isNaN = false ∧ a.key < b.key⟩

instance (a b : Binary32) : Decidable (a ≤ b) :=
  inferInstanceAs (Decidable (a.isNaN = false ∧ b.isNaN = false ∧ a.key ≤ b.key))

instance (a b : Binary32) : Decidable (a < b) :=
  inferInstanceAs (Decidable (a.isNaN = false ∧ b.isNaN = false ∧ a.key < b.key))

/-! ### Arithmetic -/

/-- The number of the given sign nearest to `num / den` units. -/
def round (negative : Bool) (num den : Nat) : Binary32 :=
  ofParts negative (Format.single.nearest num den)

def neg (a : Binary32) : Binary32 := ofParts (!a.negative) a.pattern

def abs (a : Binary32) : Binary32 := ofParts false a.pattern

/-- The sum, rounded once.  Opposite infinities have no sum; an exact zero is
    negative only if both terms are. -/
def add (a b : Binary32) : Binary32 :=
  if a.isNaN || b.isNaN then nan
  else if a.isInfinite then
    if b.isInfinite && a.negative != b.negative then nan else a
  else if b.isInfinite then b
  else
    let s := a.signedUnits + b.signedUnits
    if s = 0 then ofParts (a.negative && b.negative) 0
    else round (decide (s < 0)) s.natAbs 1

def sub (a b : Binary32) : Binary32 := add a (neg b)

/-- The product, rounded once.  Zero times infinity has no value. -/
def mul (a b : Binary32) : Binary32 :=
  let sign := a.negative != b.negative
  if a.isNaN || b.isNaN then nan
  else if a.isInfinite || b.isInfinite then
    if a.isZero || b.isZero then nan else ofParts sign infinityPattern
  else round sign (a.units * b.units) Format.single.one

/-- The quotient, rounded once.  A number over zero is infinite; zero over zero and
    infinity over infinity have no value. -/
def div (a b : Binary32) : Binary32 :=
  let sign := a.negative != b.negative
  if a.isNaN || b.isNaN then nan
  else if a.isInfinite then
    if b.isInfinite then nan else ofParts sign infinityPattern
  else if b.isInfinite then ofParts sign 0
  else if b.isZero then
    if a.isZero then nan else ofParts sign infinityPattern
  else round sign (a.units * Format.single.one) b.units

instance : Add Binary32 := ⟨add⟩
instance : Sub Binary32 := ⟨sub⟩
instance : Mul Binary32 := ⟨mul⟩
instance : Div Binary32 := ⟨div⟩
instance : Neg Binary32 := ⟨neg⟩

/-- The number nearest to a whole number. -/
def ofInt (n : Int) : Binary32 := round (decide (n < 0)) (n.natAbs * Format.single.one) 1

end Binary32

end Placement
