/-!
# UTF-8

A strict reader for UTF-8: no overlong form, no surrogate and nothing above the last code point is
accepted. On bad input it tells how far the text was good and how long the bad sequence is, so that
a caller can say where a file went wrong.

## Main definitions

* `Utf8.encode` — the bytes of a text.
* `Utf8.decode` — the text of a byte string, or its first `Utf8.Defect`.

## Design

The reader is a machine that takes one byte at a time. Between two characters it has no pending
sequence; inside one it remembers how many bytes it saw, how many are missing, the bits so far and
the range that the next byte must lie in. Only the byte after the lead has a range of its own: that
range is what rules out overlong forms, surrogates and code points that are too large.
-/

set_option autoImplicit false

namespace ClassAccess.Utf8

/-- Where a byte string stops being UTF-8. -/
structure Defect where
  /-- How many bytes before the defect form whole characters. -/
  validUpTo : Nat
  /-- How many bytes the bad sequence has; none when the input ends inside a character. -/
  length : Option Nat
deriving DecidableEq, Repr

/-- A character of which some bytes are still to come. -/
structure Pending where
  /-- How many bytes have been read. -/
  seen : Nat
  /-- How many bytes follow the next one. -/
  after : Nat
  /-- The bits read so far. -/
  bits : Nat
  /-- The least byte that may come next. -/
  low : UInt8
  /-- The greatest byte that may come next. -/
  high : UInt8

/-- What a lead byte above the ASCII range announces, if it is one. -/
def Pending.ofLead (b : UInt8) : Option Pending :=
  let bits := b.toNat
  if b < 0xc2 then none
  else if b < 0xe0 then some ⟨1, 0, bits - 0xc0, 0x80, 0xbf⟩
  else if b = 0xe0 then some ⟨1, 1, bits - 0xe0, 0xa0, 0xbf⟩
  else if b = 0xed then some ⟨1, 1, bits - 0xe0, 0x80, 0x9f⟩
  else if b < 0xf0 then some ⟨1, 1, bits - 0xe0, 0x80, 0xbf⟩
  else if b = 0xf0 then some ⟨1, 2, bits - 0xf0, 0x90, 0xbf⟩
  else if b < 0xf4 then some ⟨1, 2, bits - 0xf0, 0x80, 0xbf⟩
  else if b = 0xf4 then some ⟨1, 2, bits - 0xf0, 0x80, 0x8f⟩
  else none

/-- Reads on from byte `start`, at which the character being read begins. -/
def decodeFrom (start : Nat) : Option Pending → List UInt8 → Except Defect (List Char)
  | none, [] => .ok []
  | some _, [] => .error ⟨start, none⟩
  | none, b :: bs =>
    if b < 0x80 then (Char.ofNat b.toNat :: ·) <$> decodeFrom (start + 1) none bs
    else match Pending.ofLead b with
      | none => .error ⟨start, some 1⟩
      | some p => decodeFrom start (some p) bs
  | some p, b :: bs =>
    if p.low ≤ b ∧ b ≤ p.high then
      let bits := p.bits * 64 + (b.toNat - 0x80)
      match p.after with
      | 0 => (Char.ofNat bits :: ·) <$> decodeFrom (start + p.seen + 1) none bs
      | k + 1 => decodeFrom start (some ⟨p.seen + 1, k, bits, 0x80, 0xbf⟩) bs
    else .error ⟨start, some p.seen⟩

/-- The characters of a byte string, or the first place where it is not UTF-8. -/
def decode (bytes : List UInt8) : Except Defect (List Char) :=
  decodeFrom 0 none bytes

/-- The bytes of a text. -/
def encode (cs : List Char) : List UInt8 :=
  cs.flatMap String.utf8EncodeChar

/-- The text of a byte string, if it is UTF-8. -/
def decode? (bytes : List UInt8) : Option String :=
  (decode bytes).toOption.map String.ofList

end ClassAccess.Utf8
