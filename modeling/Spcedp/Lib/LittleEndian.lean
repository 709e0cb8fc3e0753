import Mathlib.Tactic.Ring

/-!
# Fixed-width little-endian integers

A natural number written on a given number of bytes, least significant byte
first, and read back. `toBytes k` and `ofBytes` are inverse to each other between
the numbers below `256 ^ k` and the byte strings of length `k`; on larger numbers
`toBytes k` keeps the residue.
-/

set_option autoImplicit false

namespace Lib.LittleEndian

/-- The `k` low bytes of `n`, least significant first. -/
def toBytes : ℕ → ℕ → List UInt8
  | 0, _ => []
  | k + 1, n => UInt8.ofNat n :: toBytes k (n / 256)

/-- The number whose little-endian bytes are given. -/
def ofBytes : List UInt8 → ℕ
  | [] => 0
  | b :: bs => b.toNat + 256 * ofBytes bs

/-- A number of `k` bytes has `k` bytes. -/
@[simp] theorem length_toBytes (k n : ℕ) : (toBytes k n).length = k := by
  induction k generalizing n with
  | zero => rfl
  | succ k ih => simp [toBytes, ih]

/-- No bytes make zero. -/
@[simp] theorem ofBytes_nil : ofBytes [] = 0 := rfl

/-- The first byte is the least. -/
@[simp] theorem ofBytes_cons (b : UInt8) (bs : List UInt8) :
    ofBytes (b :: bs) = b.toNat + 256 * ofBytes bs := rfl

/-- Reading back `k` bytes of `n` gives `n` modulo `256 ^ k`. -/
@[simp] theorem ofBytes_toBytes (k n : ℕ) : ofBytes (toBytes k n) = n % 256 ^ k := by
  induction k generalizing n with
  | zero => simp [toBytes, Nat.mod_one]
  | succ k ih =>
      rw [toBytes, ofBytes_cons, ih, UInt8.toNat_ofNat', pow_succ' 256 k, Nat.mod_mul]

/-- A byte string is the little-endian form of the number it spells. -/
theorem toBytes_ofBytes (bs : List UInt8) : toBytes bs.length (ofBytes bs) = bs := by
  induction bs with
  | nil => rfl
  | cons b bs ih =>
      have hb : b.toNat < 256 := b.toNat_lt_size
      have hdiv : (b.toNat + 256 * ofBytes bs) / 256 = ofBytes bs := by omega
      have hlow : UInt8.ofNat (b.toNat + 256 * ofBytes bs) = b := by
        apply UInt8.toNat_inj.mp
        rw [UInt8.toNat_ofNat']
        omega
      rw [List.length_cons, ofBytes_cons, toBytes, hdiv, ih, hlow]

/-- `k` bytes spell a number below `256 ^ k`. -/
theorem ofBytes_lt (bs : List UInt8) : ofBytes bs < 256 ^ bs.length := by
  induction bs with
  | nil => simp
  | cons b bs ih =>
      have hb : b.toNat < 256 := b.toNat_lt_size
      rw [List.length_cons, ofBytes_cons, pow_succ']
      omega

end Lib.LittleEndian
