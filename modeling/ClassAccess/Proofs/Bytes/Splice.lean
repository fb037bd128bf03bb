import ClassAccess.Bytes.BigEndian
import ClassAccess.ClassFile.Basic

/-!
# Words and overwriting in a longer byte string

What a word of two or four bytes spells, and what overwriting does to a byte string that is known in
parts: the part that starts where the overwriting starts is exchanged, and the parts around it stay.

## Main definitions

* `longBytes` — the four bytes of a word of thirty-two bits.

## Main results

* `wordBytes_ofNat_bigEndian`, `longBytes_ofNat_bigEndian` — two and four bytes are the bytes of the
  word that they write.
* `overwrite_append` — overwriting exchanges one part of a byte string.
* `Span.of_append` — a stretch of a byte string is the part that it was made of.
-/

set_option autoImplicit false

namespace ClassAccess

/-! ## Words -/

/-- A word has two bytes. -/
@[simp]
theorem length_wordBytes (w : UInt16) : (wordBytes w).length = 2 := rfl

/-- Two bytes are the bytes of the word that they write. -/
theorem wordBytes_ofNat_bigEndian {l : List UInt8} (h : l.length = 2) :
    wordBytes (UInt16.ofNat (bigEndian l)) = l := by
  match l, h with
  | [a, b], _ =>
    have ha := a.toNat_lt
    have hb := b.toNat_lt
    have hn : bigEndian [a, b] = a.toNat * 256 + b.toNat := by simp [bigEndian]
    have hlt : a.toNat * 256 + b.toNat < 2 ^ 16 := by omega
    simp only [wordBytes, hn, UInt16.toNat_ofNat_of_lt' hlt, List.cons.injEq, and_true]
    constructor
    · rw [show (a.toNat * 256 + b.toNat) / 256 = a.toNat by omega, UInt8.ofNat_toNat]
    · apply UInt8.toNat_inj.1
      rw [UInt8.toNat_ofNat']
      omega

/-- The bytes of a word determine it. -/
theorem wordBytes_injective {v w : UInt16} (h : wordBytes v = wordBytes w) : v = w := by
  apply UInt16.toNat_inj.1
  rw [← bigEndian_wordBytes v, h, bigEndian_wordBytes]

/-- The four bytes of a word, the highest one first. -/
def longBytes (w : UInt32) : List UInt8 :=
  [UInt8.ofNat (w.toNat / 0x1000000), UInt8.ofNat (w.toNat / 0x10000),
    UInt8.ofNat (w.toNat / 0x100), UInt8.ofNat w.toNat]

/-- A long word has four bytes. -/
@[simp]
theorem length_longBytes (w : UInt32) : (longBytes w).length = 4 := rfl

/-- The bytes of a long word write that word. -/
theorem bigEndian_longBytes (w : UInt32) : bigEndian (longBytes w) = w.toNat := by
  have := w.toNat_lt
  simp only [bigEndian, longBytes, List.foldl_cons, List.foldl_nil, UInt8.toNat_ofNat']
  omega

/-- Four bytes are the bytes of the long word that they write. -/
theorem longBytes_ofNat_bigEndian {l : List UInt8} (h : l.length = 4) :
    longBytes (UInt32.ofNat (bigEndian l)) = l := by
  match l, h with
  | [a, b, c, d], _ =>
    have ha := a.toNat_lt
    have hb := b.toNat_lt
    have hc := c.toNat_lt
    have hd := d.toNat_lt
    have hn : bigEndian [a, b, c, d] =
        ((a.toNat * 256 + b.toNat) * 256 + c.toNat) * 256 + d.toNat := by simp [bigEndian]
    have hlt : ((a.toNat * 256 + b.toNat) * 256 + c.toNat) * 256 + d.toNat < 2 ^ 32 := by omega
    simp only [longBytes, hn, UInt32.toNat_ofNat_of_lt' hlt, List.cons.injEq, and_true]
    refine ⟨?_, ?_, ?_, ?_⟩ <;>
    · apply UInt8.toNat_inj.1
      rw [UInt8.toNat_ofNat']
      omega

/-! ## Overwriting -/

/-- Overwriting starts behind a part of the right length. -/
theorem overwrite_append_left (pre rest new : List UInt8) :
    overwrite (pre ++ rest) pre.length new = pre ++ overwrite rest 0 new := by
  induction pre with
  | nil => rfl
  | cons b pre ih =>
    simp only [List.cons_append, List.length_cons, overwrite]
    rw [ih]

/-- Overwriting at the start exchanges a part of the same length. -/
theorem overwrite_zero_append {old new : List UInt8} (rest : List UInt8)
    (h : new.length = old.length) : overwrite (old ++ rest) 0 new = new ++ rest := by
  induction old generalizing new with
  | nil =>
    rw [List.length_nil, List.length_eq_zero_iff] at h
    subst h
    cases rest <;> rfl
  | cons b old ih =>
    cases new with
    | nil => cases h
    | cons n new =>
      simp only [List.cons_append, overwrite]
      rw [ih (Nat.succ.inj h)]

/-- **Overwriting exchanges one part of a byte string** for another one of the same length. -/
theorem overwrite_append {pre old new : List UInt8} (post : List UInt8) {start : Nat}
    (hs : start = pre.length) (h : new.length = old.length) :
    overwrite (pre ++ (old ++ post)) start new = pre ++ (new ++ post) := by
  rw [hs, overwrite_append_left, overwrite_zero_append post h]

/-! ## Stretches -/

/-- A stretch of a byte string is the part that it was made of. -/
theorem Span.of_append {pre mid : List UInt8} (post : List UInt8) {start length : Nat}
    (hs : start = pre.length) (hl : length = mid.length) :
    Span.of ⟨start, length⟩ (pre ++ (mid ++ post)) = mid := by
  subst hs hl
  simp [Span.of]

/-- The bytes of a stretch, one by one. -/
theorem Span.getElem?_of {span : Span} {bytes : List UInt8} {i : Nat} (h : i < span.length) :
    (span.of bytes)[i]? = bytes[span.start + i]? := by
  rw [Span.of, List.getElem?_take_of_lt h, List.getElem?_drop]

end ClassAccess
