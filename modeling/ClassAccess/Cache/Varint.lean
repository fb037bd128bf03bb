import ClassAccess.Bytes.LittleEndian
import ClassAccess.Bytes.Parser
import ClassAccess.Text.Utf8

/-!
# Numbers and texts in a cache

A small number takes one byte. A greater one takes a marker, which says how many bytes follow, and
then its bytes, lowest first. A text is the number of its bytes and the bytes.

## Main definitions

* `Varint.encode` — the bytes of a number.
* `Decoder` — a computation that takes bytes off the front.
* `Decoder.varint` — a number.
* `Decoder.text`, `textBytes` — a text.
* `PayloadError` — why bytes cannot be decoded.

## Design

A number may be written longer than it needs; only what is too wide for its place is refused. The
error tells how wide a number may be.
-/

set_option autoImplicit false

namespace ClassAccess

/-! ## Errors -/

/-- The kinds of number that an error may name. -/
inductive NumberKind
  /-- A number of four bytes. -/
  | word4
  /-- A number of eight bytes. -/
  | word8
  /-- A number of sixteen bytes. -/
  | word16
  /-- The number of elements of a list. -/
  | length
  /-- A marker that stands for no number. -/
  | reserved
deriving DecidableEq, Repr

/-- How an error names a kind of number. -/
def NumberKind.label : NumberKind → String
  | word4 => "U32"
  | word8 => "U64"
  | word16 => "U128"
  | length => "Usize"
  | reserved => "Reserved"

/-- Why bytes cannot be decoded. -/
inductive PayloadError
  /-- This many bytes are missing from a part. -/
  | unexpectedEnd (missing : Nat)
  /-- A number is wider than its place admits. -/
  | invalidNumber (expected found : NumberKind)
  /-- The byte that says whether an optional part is there is neither zero nor one. -/
  | invalidOption (found : UInt8)
  /-- A number that stands for one of `count` cases is not below `count`. -/
  | invalidCase (found count : Nat)
  /-- A text is not UTF-8. -/
  | invalidText (defect : Utf8.Defect)
deriving DecidableEq, Repr

/-- The error in words. -/
def PayloadError.message : PayloadError → String
  | unexpectedEnd missing => s!"UnexpectedEnd \x7b additional: {missing} \x7d"
  | invalidNumber expected found =>
    s!"InvalidIntegerType \x7b expected: {expected.label}, found: {found.label} \x7d"
  | invalidOption found =>
    "UnexpectedVariant \x7b type_name: \"Option<T>\", " ++
      s!"allowed: Range \x7b min: 0, max: 1 \x7d, found: {found} \x7d"
  | invalidCase found count =>
    "OtherString(\"invalid value: integer `" ++ toString found ++
      s!"`, expected variant index 0 <= i < {count}\")"
  | invalidText defect =>
    let length := match defect.length with
      | none => "None"
      | some n => s!"Some({n})"
    "Utf8 \x7b inner: Utf8Error \x7b " ++
      s!"valid_up_to: {defect.validUpTo}, error_len: {length} \x7d \x7d"

/-! ## Writing -/

/-- The bytes of a number: one byte up to 250, or a marker and two, four or eight bytes. -/
def Varint.encode (n : Nat) : List UInt8 :=
  if n ≤ 250 then [UInt8.ofNat n]
  else if n < 0x10000 then 251 :: littleEndianBytes 2 n
  else if n < 0x100000000 then 252 :: littleEndianBytes 4 n
  else 253 :: littleEndianBytes 8 n

/-- The bytes of a text: their number, then the text in UTF-8. -/
def textBytes (text : String) : List UInt8 :=
  let bytes := Utf8.encode text.toList
  Varint.encode bytes.length ++ bytes

/-! ## Reading -/

/-- A computation that takes bytes off the front or fails. -/
abbrev Decoder (α : Type) := Parser (List UInt8) PayloadError α

namespace Decoder

/-- The next `n` bytes. -/
def take (n : Nat) : Decoder (List UInt8) := fun ahead =>
  let body := ahead.take n
  if body.length = n then .ok (body, ahead.drop n)
  else .error (.unexpectedEnd (n - body.length))

/-- `take` reads a byte string of the right length off the front. -/
theorem take_append (body rest : List UInt8) :
    take body.length (body ++ rest) = .ok (body, rest) := by
  simp [take]

/-- The next byte. -/
def byte : Decoder UInt8 := fun ahead =>
  match ahead with
  | [] => .error (.unexpectedEnd 1)
  | b :: rest => .ok (b, rest)

/-- A number of `n` bytes. -/
def fixed (n : Nat) : Decoder Nat := do return littleEndian (← take n)

/-- A number of at most `widest` bytes after its marker, which errors call `kind`. -/
def varint (widest : Nat) (kind : NumberKind) : Decoder Nat := do
  let marker ← byte
  if marker ≤ 250 then return marker.toNat
  else if marker = 251 then fixed 2
  else if marker = 252 then fixed 4
  else if marker = 253 then
    if 8 ≤ widest then fixed 8 else throw (.invalidNumber kind .word8)
  else if marker = 254 then throw (.invalidNumber kind .word16)
  else throw (.invalidNumber kind .reserved)

/-- A number on its own, or the number of bytes of a text. Errors call it a number of four bytes as
long as the longest form of a number could still be read, and one of eight bytes after that. -/
def number : Decoder Nat := do
  let ahead ← get
  varint 8 (if 9 ≤ ahead.length then .word4 else .word8)

/-- The number of elements of a list. -/
def count : Decoder Nat := varint 8 .length

/-- A text. -/
def text : Decoder String := do
  let body ← take (← number)
  match Utf8.decode body with
  | .ok cs => return String.ofList cs
  | .error defect => throw (.invalidText defect)

/-- One of the given cases, by its number. -/
def oneOf {α : Type} (cases : List α) : Decoder α := do
  let index ← varint 4 .word4
  match cases[index]? with
  | some a => return a
  | none => throw (.invalidCase index cases.length)

/-- A part that may be left out. -/
def optional {α : Type} (part : Decoder α) : Decoder (Option α) := do
  let present ← byte
  if present = 0 then return none
  else if present = 1 then return some (← part)
  else throw (.invalidOption present)

end Decoder

end ClassAccess
