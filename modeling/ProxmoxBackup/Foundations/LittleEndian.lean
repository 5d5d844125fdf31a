import Mathlib

/-!
# Little-endian byte strings

The `to_le_bytes` and `from_le_bytes` of fixed-width integers, over `Nat`: `toBytes k n` is the
`k` low bytes of `n`, least significant first, and `ofBytes` reads a byte string back. The round
trip (`ofBytes_toBytes`) keeps `n` modulo `256 ^ k`, so all of `n` when it has `k` bytes.

Digests are `[u8; 32]`, compared byte by byte; `digestLawfulBEq` is the one instance through which
every test of a digest's membership in a list is decided.
-/

namespace LittleEndian

/-- The `k` low bytes of `n`, least significant first. -/
def toBytes : Nat → Nat → List UInt8
  | 0, _ => []
  | k + 1, n => UInt8.ofNat n :: toBytes k (n / 256)

/-- The number whose bytes, least significant first, are `bytes`. -/
def ofBytes : List UInt8 → Nat
  | [] => 0
  | b :: bytes => b.toNat + 256 * ofBytes bytes

@[simp] theorem length_toBytes (k n : Nat) : (toBytes k n).length = k := by
  induction k generalizing n with
  | zero => rfl
  | succ k ih => simp [toBytes, ih]

theorem ofBytes_toBytes (k n : Nat) : ofBytes (toBytes k n) = n % 256 ^ k := by
  induction k generalizing n with
  | zero => simp [toBytes, ofBytes, Nat.mod_one]
  | succ k ih =>
    rw [toBytes, ofBytes, ih, Nat.pow_succ, Nat.mul_comm _ 256, Nat.mod_mul]
    simp

theorem ofBytes_toBytes_of_lt {k n : Nat} (h : n < 256 ^ k) : ofBytes (toBytes k n) = n := by
  rw [ofBytes_toBytes, Nat.mod_eq_of_lt h]

/-- The `k` bytes at an offset of a byte string read back the number written there. -/
theorem ofBytes_take_drop_append (pre post : List UInt8) (k n : Nat) :
    ofBytes (((pre ++ toBytes k n ++ post).drop pre.length).take k) = n % 256 ^ k := by
  rw [List.append_assoc, List.drop_left, List.take_left' (length_toBytes k n), ofBytes_toBytes]

end LittleEndian

instance digestLawfulBEq : LawfulBEq (Vector UInt8 32) := inferInstance
