/-
  Placement/Proofs/Bytes/Words.lean
  =================================
  **Words and their bytes determine each other.**

  Spelling a word and reading it back gives the word (`readWord32_word32_append`), and
  spelling what was read gives the bytes (`word32_readWord32`).  The second law is the
  stronger one in use: it says that a reader keeps every bit of a field, whatever the
  field means, so a record read from a file can be written back unchanged.
-/
import Mathlib
import Placement.Spawn.Layout

namespace Placement

namespace LittleEndian

/-! ### Numbers and bytes -/

theorem decode_lt (bs : List UInt8) : decode bs < 256 ^ bs.length := by
  induction bs with
  | nil => simp [decode]
  | cons b bs ih =>
    have hb : b.toNat < 256 := b.toNat_lt
    simp only [decode, List.length_cons, Nat.pow_succ]
    omega

theorem decode_encode (count n : Nat) (h : n < 256 ^ count) : decode (encode count n) = n := by
  induction count generalizing n with
  | zero =>
    have hn : n = 0 := by simpa using h
    subst hn
    rfl
  | succ count ih =>
    have hq : n / 256 < 256 ^ count := by
      rw [Nat.pow_succ] at h
      omega
    simp only [encode, decode, ih (n / 256) hq]
    have hb : (UInt8.ofNat n).toNat = n % 256 := by simp
    omega

theorem encode_decode (bs : List UInt8) : encode bs.length (decode bs) = bs := by
  induction bs with
  | nil => rfl
  | cons b bs ih =>
    have hb : b.toNat < 256 := b.toNat_lt
    have hq : (b.toNat + 256 * decode bs) / 256 = decode bs := by omega
    have hr : UInt8.ofNat (b.toNat + 256 * decode bs) = b := by
      apply UInt8.toNat_inj.mp
      simp
    simp only [List.length_cons, decode, encode, hq, hr, ih]

end LittleEndian

namespace Spawn

/-! ### The words of a record -/

@[simp] theorem length_word32 (w : UInt32) : (word32 w).length = 4 := by simp [word32]

theorem readWord32_encode_append {n : Nat} (hn : n < 256 ^ 4) (rest : List UInt8) :
    readWord32 (LittleEndian.encode 4 n ++ rest) = UInt32.ofNat n := by
  rw [readWord32, List.take_left' (LittleEndian.length_encode 4 n),
    LittleEndian.decode_encode 4 n hn]

theorem readWord32_word32_append (w : UInt32) (rest : List UInt8) :
    readWord32 (word32 w ++ rest) = w := by
  rw [word32, readWord32_encode_append w.toNat_lt, UInt32.ofNat_toNat]

theorem readWord16_encode_append (w : UInt16) (rest : List UInt8) :
    readWord16 (LittleEndian.encode 2 w.toNat ++ rest) = w := by
  rw [readWord16, List.take_left' (LittleEndian.length_encode 2 w.toNat),
    LittleEndian.decode_encode 2 w.toNat w.toNat_lt, UInt16.ofNat_toNat]

theorem readVector_vectorFields_append (v : Vec3 Binary32) (rest : List UInt8) :
    readVector ((vectorFields v).flatten ++ rest) = v := by
  have hnext : ∀ (w : UInt32) (bs : List UInt8), (word32 w ++ bs).drop 4 = bs := fun w bs =>
    List.drop_left' (length_word32 w)
  have hfields : (vectorFields v).flatten ++ rest =
      word32 v.x.bits ++ (word32 v.y.bits ++ (word32 v.z.bits ++ rest)) := by
    simp [vectorFields]
  rw [readVector, hfields, ← List.drop_drop (i := 4) (j := 4), hnext, hnext]
  simp only [readNumber, readWord32_word32_append]

theorem word32_readWord32 (bs : List UInt8) (h : 4 ≤ bs.length) :
    word32 (readWord32 bs) = bs.take 4 := by
  have hlen : (bs.take 4).length = 4 := by simp [h]
  have hlt : LittleEndian.decode (bs.take 4) < 2 ^ 32 := by
    have := LittleEndian.decode_lt (bs.take 4)
    rwa [hlen] at this
  have hback := LittleEndian.encode_decode (bs.take 4)
  rw [hlen] at hback
  rw [word32, readWord32, UInt32.toNat_ofNat_of_lt' hlt, hback]

theorem encode_readWord16 (bs : List UInt8) (h : 2 ≤ bs.length) :
    LittleEndian.encode 2 (readWord16 bs).toNat = bs.take 2 := by
  have hlen : (bs.take 2).length = 2 := by simp [h]
  have hlt : LittleEndian.decode (bs.take 2) < 2 ^ 16 := by
    have := LittleEndian.decode_lt (bs.take 2)
    rwa [hlen] at this
  have hback := LittleEndian.encode_decode (bs.take 2)
  rw [hlen] at hback
  rw [readWord16, UInt16.toNat_ofNat_of_lt' hlt, hback]

end Spawn

end Placement
