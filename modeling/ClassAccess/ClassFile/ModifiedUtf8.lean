import ClassAccess.Text.Utf8

/-!
# Modified UTF-8

Texts in a class file are written in units of sixteen bits: a unit takes one byte, two or three
bytes, the zero unit takes two, and a character beyond sixteen bits is written as a surrogate pair
of two units.

## Main definitions

* `ModifiedUtf8.units` — the units that a byte string writes.
* `ModifiedUtf8.ofUnits` — the text of a list of units.
* `ModifiedUtf8.decodeUnits` — the two together.
* `ModifiedUtf8.decode` — the same with a shortcut for texts that plain UTF-8 writes alike.
* `ModifiedUtf8.encode` — the bytes of a text.
-/

set_option autoImplicit false

namespace ClassAccess.ModifiedUtf8

/-! ## Reading -/

/-- The six bits of a byte that continues a unit. -/
def continuation? (b : UInt8) : Option Nat :=
  if 0x80 ≤ b ∧ b < 0xc0 then some (b.toNat - 0x80) else none

/-- The units that a byte string writes. The length of a unit is not checked against its value, so
that a small unit may be written with more bytes than it needs. -/
def units : List UInt8 → Option (List Nat)
  | [] => some []
  | b :: rest =>
    if b = 0 then none
    else if b < 0x80 then do return b.toNat :: (← units rest)
    else if b < 0xc0 then none
    else if b < 0xe0 then
      match rest with
      | [] => none
      | c :: rest => do
        let low ← continuation? c
        return ((b.toNat - 0xc0) * 64 + low) :: (← units rest)
    else if b < 0xf0 then
      match rest with
      | c :: d :: rest => do
        let middle ← continuation? c
        let low ← continuation? d
        return ((b.toNat - 0xe0) * 4096 + middle * 64 + low) :: (← units rest)
      | _ => none
    else none

/-- Whether a unit opens a surrogate pair. -/
def isHighSurrogate (u : Nat) : Bool := 0xd800 ≤ u && u < 0xdc00

/-- Whether a unit closes a surrogate pair. -/
def isLowSurrogate (u : Nat) : Bool := 0xdc00 ≤ u && u < 0xe000

/-- The text of a list of units; a surrogate without its partner has none. -/
def ofUnits : List Nat → Option (List Char)
  | [] => some []
  | u :: rest =>
    if isHighSurrogate u then
      match rest with
      | [] => none
      | v :: rest =>
        if isLowSurrogate v then do
          return Char.ofNat (0x10000 + (u - 0xd800) * 0x400 + (v - 0xdc00)) :: (← ofUnits rest)
        else none
    else if isLowSurrogate u then none
    else do return Char.ofNat u :: (← ofUnits rest)

/-- The text of a byte string, read unit by unit. -/
def decodeUnits (bytes : List UInt8) : Option (List Char) := do
  ofUnits (← units bytes)

/-- The text of a byte string. Bytes without a zero that are plain UTF-8 are read as such. -/
def decode (bytes : List UInt8) : Option (List Char) :=
  if bytes.contains 0 then decodeUnits bytes
  else match Utf8.decode bytes with
    | .ok text => some text
    | .error _ => decodeUnits bytes

/-! ## Writing -/

/-- The bytes of a unit. -/
def unitBytes (u : Nat) : List UInt8 :=
  if u ≠ 0 ∧ u < 0x80 then [UInt8.ofNat u]
  else if u < 0x800 then [UInt8.ofNat (0xc0 + u / 64), UInt8.ofNat (0x80 + u % 64)]
  else [UInt8.ofNat (0xe0 + u / 4096), UInt8.ofNat (0x80 + u / 64 % 64),
    UInt8.ofNat (0x80 + u % 64)]

/-- The units of a character: one, or a surrogate pair. -/
def charUnits (c : Char) : List Nat :=
  if c.toNat < 0x10000 then [c.toNat]
  else [0xd800 + (c.toNat - 0x10000) / 0x400, 0xdc00 + (c.toNat - 0x10000) % 0x400]

/-- The bytes of a text. -/
def encode (text : List Char) : List UInt8 :=
  (text.flatMap charUnits).flatMap unitBytes

end ClassAccess.ModifiedUtf8
