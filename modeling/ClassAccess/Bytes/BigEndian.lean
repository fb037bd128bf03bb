/-!
# Big-endian words

Numbers in a class file are written with their highest byte first.

## Main definitions

* `bigEndian` — the number that a byte string writes.
* `wordBytes` — the two bytes of a word of sixteen bits.
* `overwrite` — a byte string with some of its bytes replaced in place.

## Main results

* `bigEndian_wordBytes` — the bytes of a word write that word.
* `length_overwrite` — replacing bytes in place keeps the length.
* `getElem?_overwrite` — a byte is new inside the replaced stretch and the old one elsewhere.
-/

set_option autoImplicit false

namespace ClassAccess

/-- The number that a byte string writes, highest byte first. -/
def bigEndian (bytes : List UInt8) : Nat :=
  bytes.foldl (fun n b => n * 256 + b.toNat) 0

/-- The two bytes of a word, the high one first. -/
def wordBytes (w : UInt16) : List UInt8 :=
  [UInt8.ofNat (w.toNat / 256), UInt8.ofNat w.toNat]

/-- The bytes of a word write that word. -/
theorem bigEndian_wordBytes (w : UInt16) : bigEndian (wordBytes w) = w.toNat := by
  have := w.toNat_lt
  simp only [bigEndian, wordBytes, List.foldl_cons, List.foldl_nil, UInt8.toNat_ofNat']
  omega

/-- The byte string with the bytes from `start` on replaced by `new`, as far as it reaches. -/
def overwrite : List UInt8 → (start : Nat) → (new : List UInt8) → List UInt8
  | [], _, _ => []
  | b :: bs, start + 1, new => b :: overwrite bs start new
  | b :: bs, 0, [] => b :: bs
  | _ :: bs, 0, n :: new => n :: overwrite bs 0 new

/-- Replacing bytes in place keeps the length. -/
@[simp]
theorem length_overwrite (bytes : List UInt8) (start : Nat) (new : List UInt8) :
    (overwrite bytes start new).length = bytes.length := by
  fun_induction overwrite bytes start new <;> simp_all

/-- A byte is new inside the replaced stretch and the old one elsewhere. -/
theorem getElem?_overwrite (bytes : List UInt8) (start : Nat) (new : List UInt8) (i : Nat)
    (hi : i < bytes.length) :
    (overwrite bytes start new)[i]? =
      if start ≤ i ∧ i < start + new.length then new[i - start]? else bytes[i]? := by
  fun_induction overwrite bytes start new generalizing i with
  | case1 => simp at hi
  | case2 b bs start new ih =>
    cases i with
    | zero => simp
    | succ i =>
      rw [List.getElem?_cons_succ, ih i (by simpa using hi), List.getElem?_cons_succ]
      simp only [Nat.succ_eq_add_one, Nat.add_le_add_iff_right, Nat.add_sub_add_right,
        Nat.add_right_comm start 1, Nat.add_lt_add_iff_right]
  | case3 b bs => simp
  | case4 b bs n new ih =>
    cases i with
    | zero => simp
    | succ i =>
      rw [List.getElem?_cons_succ, ih i (by simpa using hi), List.getElem?_cons_succ]
      simp

end ClassAccess
