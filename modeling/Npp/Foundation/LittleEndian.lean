import Mathlib.Algebra.Group.Nat.Defs
import Mathlib.Data.List.Basic
import Mathlib.Data.Nat.Basic

/-!
# Little-endian numbers

`littleEndian k n` stores a number in `k` bytes, low byte first, and `ofLittleEndian` reads bytes
back.
-/

namespace Npp.Foundation

/-- The low `k` bytes of `n`. -/
def littleEndian : Nat → Nat → List UInt8
  | 0, _ => []
  | k + 1, n => UInt8.ofNat (n % 256) :: littleEndian k (n / 256)

def ofLittleEndian : List UInt8 → Nat
  | [] => 0
  | b :: bs => b.toNat + 256 * ofLittleEndian bs

@[simp] theorem length_littleEndian (k n : Nat) : (littleEndian k n).length = k := by
  induction k generalizing n with
  | zero => rfl
  | succ k ih => simp [littleEndian, ih]

theorem toNat_lowByte (n : Nat) : (UInt8.ofNat (n % 256)).toNat = n % 256 := by
  rw [UInt8.toNat_ofNat']
  omega

/-- A field keeps what fits into it. -/
theorem ofLittleEndian_littleEndian_mod (k n : Nat) :
    ofLittleEndian (littleEndian k n) = n % 256 ^ k := by
  induction k generalizing n with
  | zero =>
      show 0 = n % 1
      omega
  | succ k ih =>
      show (UInt8.ofNat (n % 256)).toNat + 256 * ofLittleEndian (littleEndian k (n / 256)) = _
      rw [ih, toNat_lowByte, Nat.pow_succ', Nat.mod_mul]

/-- What was stored in wide enough a field is read back. -/
theorem ofLittleEndian_littleEndian {k n : Nat} (h : n < 256 ^ k) :
    ofLittleEndian (littleEndian k n) = n := by
  rw [ofLittleEndian_littleEndian_mod, Nat.mod_eq_of_lt h]

/-- The first bytes of a field are the narrower field. -/
theorem take_littleEndian (j k n : Nat) :
    (littleEndian k n).take j = littleEndian (min j k) n := by
  induction k generalizing j n with
  | zero =>
      rw [Nat.min_zero]
      exact List.take_nil
  | succ k ih =>
      cases j with
      | zero => rw [Nat.zero_min, List.take_zero, littleEndian]
      | succ j =>
          rw [Nat.add_min_add_right]
          show UInt8.ofNat (n % 256) :: (littleEndian k (n / 256)).take j = _
          rw [ih]
          rfl

/-- Bytes that were read are stored again. -/
theorem littleEndian_ofLittleEndian (bs : List UInt8) :
    littleEndian bs.length (ofLittleEndian bs) = bs := by
  induction bs with
  | nil => rfl
  | cons b bs ih =>
      have hlt := b.toNat_lt
      have hlow : (b.toNat + 256 * ofLittleEndian bs) % 256 = b.toNat := by omega
      have hhigh : (b.toNat + 256 * ofLittleEndian bs) / 256 = ofLittleEndian bs := by omega
      show UInt8.ofNat ((b.toNat + 256 * ofLittleEndian bs) % 256) ::
        littleEndian bs.length ((b.toNat + 256 * ofLittleEndian bs) / 256) = b :: bs
      rw [hlow, hhigh, ih, UInt8.ofNat_toNat]

/-- Bytes of value zero at the end do not count. -/
theorem ofLittleEndian_append_zeros (bs : List UInt8) (n : Nat) :
    ofLittleEndian (bs ++ List.replicate n 0) = ofLittleEndian bs := by
  induction bs with
  | nil =>
      induction n with
      | zero => rfl
      | succ n ih =>
          show (0 : UInt8).toNat + 256 * ofLittleEndian (List.replicate n 0) = 0
          rw [List.nil_append] at ih
          rw [ih]
          rfl
  | cons b bs ih =>
      show b.toNat + 256 * ofLittleEndian (bs ++ List.replicate n 0) = _
      rw [ih]
      rfl

end Npp.Foundation
