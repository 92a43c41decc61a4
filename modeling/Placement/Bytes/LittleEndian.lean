/-
  Placement/Bytes/LittleEndian.lean
  =================================
  **Words as bytes, the least significant byte first.**
-/

namespace Placement

namespace LittleEndian

/-- The number spelled by some bytes. -/
def decode : List UInt8 → Nat
  | [] => 0
  | b :: bs => b.toNat + 256 * decode bs

/-- The lowest `count` bytes of a number. -/
def encode : (count : Nat) → Nat → List UInt8
  | 0, _ => []
  | count + 1, n => UInt8.ofNat n :: encode count (n / 256)

@[simp] theorem length_encode (count n : Nat) : (encode count n).length = count := by
  induction count generalizing n with
  | zero => rfl
  | succ count ih => simp [encode, ih]

end LittleEndian

end Placement
