import Mathlib.Data.Nat.Bitwise

/-!
# Little-endian bytes

A number as `n` bytes, the least significant first, and the number that bytes stand for.
-/

namespace LittleEndian

/-- The low `n` bytes of a number. -/
def toBytes : ℕ → ℕ → List UInt8
  | 0, _ => []
  | n + 1, v => UInt8.ofNat v :: toBytes n (v >>> 8)

/-- The number, byte after byte put in its place. -/
def ofBytes : List UInt8 → ℕ
  | [] => 0
  | b :: bs => b.toNat ||| ofBytes bs <<< 8

@[simp] theorem length_toBytes (n v : ℕ) : (toBytes n v).length = n := by
  induction n generalizing v with
  | zero => rfl
  | succ n ih => rw [toBytes, List.length_cons, ih]

/-- The bytes do not overlap. -/
theorem ofBytes_cons (b : UInt8) (bs : List UInt8) :
    ofBytes (b :: bs) = b.toNat + 256 * ofBytes bs := by
  have hlt : b.toNat < 2 ^ 8 := b.toNat_lt
  rw [ofBytes, Nat.lor_comm, ← Nat.shiftLeft_add_eq_or_of_lt hlt, Nat.shiftLeft_eq]
  omega

/-- **Bytes written and read back** are the number, as far as it fits. -/
theorem ofBytes_toBytes (n v : ℕ) : ofBytes (toBytes n v) = v % 256 ^ n := by
  induction n generalizing v with
  | zero => simp [toBytes, ofBytes, Nat.mod_one]
  | succ n ih =>
      rw [toBytes, ofBytes_cons, ih, UInt8.toNat_ofNat', Nat.shiftRight_eq_div_pow,
        pow_succ' 256 n]
      exact Nat.mod_mul.symm

theorem ofBytes_toBytes_of_lt {n v : ℕ} (h : v < 256 ^ n) : ofBytes (toBytes n v) = v := by
  rw [ofBytes_toBytes, Nat.mod_eq_of_lt h]

end LittleEndian
