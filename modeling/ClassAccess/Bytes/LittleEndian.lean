/-!
# Little-endian numbers

Digests and caches write numbers with their lowest byte first.

## Main definitions

* `littleEndian` — the number that a byte string writes.
* `littleEndianBytes` — a number in a fixed count of bytes.

## Main results

* `length_littleEndianBytes` — the count of bytes is the one asked for.
* `littleEndian_littleEndianBytes` — a number that fits is read back.
* `littleEndian_lt` — a byte string writes a number that fits.
-/

set_option autoImplicit false

namespace ClassAccess

/-- The number that a byte string writes, lowest byte first. -/
def littleEndian : List UInt8 → Nat
  | [] => 0
  | b :: bs => b.toNat + 256 * littleEndian bs

/-- The lowest `count` bytes of a number, lowest first. -/
def littleEndianBytes : (count n : Nat) → List UInt8
  | 0, _ => []
  | count + 1, n => UInt8.ofNat n :: littleEndianBytes count (n / 256)

/-- The count of bytes is the one asked for. -/
@[simp]
theorem length_littleEndianBytes (count n : Nat) : (littleEndianBytes count n).length = count := by
  induction count generalizing n with
  | zero => rfl
  | succ count ih => simp [littleEndianBytes, ih]

/-- A number that fits is read back. -/
theorem littleEndian_littleEndianBytes {count n : Nat} (h : n < Nat.pow 256 count) :
    littleEndian (littleEndianBytes count n) = n := by
  induction count generalizing n with
  | zero => simp only [Nat.pow] at h; simp only [littleEndianBytes, littleEndian]; omega
  | succ count ih =>
    have hq : n / 256 < Nat.pow 256 count :=
      Nat.div_lt_of_lt_mul (Nat.mul_comm 256 _ ▸ h)
    simp only [littleEndianBytes, littleEndian, ih hq, UInt8.toNat_ofNat']
    omega

/-- A byte string writes a number that fits. -/
theorem littleEndian_lt (bytes : List UInt8) : littleEndian bytes < Nat.pow 256 bytes.length := by
  induction bytes with
  | nil => exact Nat.one_pos
  | cons b bytes ih =>
    have hb := b.toNat_lt
    rw [littleEndian, List.length_cons]
    show _ < Nat.pow 256 bytes.length * 256
    omega

end ClassAccess
