import ClassAccess.Bytes.BigEndian
import ClassAccess.Bytes.Parser
import ClassAccess.ClassFile.Error

/-!
# Reading bytes

A reader takes bytes off the front of what lies ahead and counts how many it took, so that every
part of a class file knows its place in the file.

## Main definitions

* `Cursor` — a place in a byte string.
* `Reader` — a computation that moves a cursor or fails.
* `Reader.take` — the next bytes; everything else is built on it.

## Main results

* `Reader.take_append` — `take` reads a byte string of the right length off the front.
* `Reader.take_eq_ok_iff` — and it reads nothing else.
-/

set_option autoImplicit false

namespace ClassAccess

/-- A place in a byte string. -/
structure Cursor where
  /-- How many bytes lie before the place. -/
  offset : Nat
  /-- The bytes from the place on. -/
  ahead : List UInt8
deriving DecidableEq, Repr

/-- A computation that moves a cursor or fails. -/
abbrev Reader (α : Type) := Parser Cursor ClassFileError α

namespace Reader

/-- The next `n` bytes. -/
def take (n : Nat) : Reader (List UInt8) := fun c =>
  let body := c.ahead.take n
  if body.length = n then .ok (body, ⟨c.offset + n, c.ahead.drop n⟩)
  else .error (.unexpectedEof c.offset (n - body.length))

/-- `take` reads a byte string of the right length off the front. -/
theorem take_append (offset : Nat) (body rest : List UInt8) :
    take body.length ⟨offset, body ++ rest⟩ = .ok (body, ⟨offset + body.length, rest⟩) := by
  simp [take]

/-- `take` succeeds exactly on what lies ahead. -/
theorem take_eq_ok_iff {n : Nat} {c d : Cursor} {body : List UInt8} :
    take n c = .ok (body, d) ↔
      body.length = n ∧ c.ahead = body ++ d.ahead ∧ d.offset = c.offset + n := by
  obtain ⟨o, l⟩ := c
  obtain ⟨p, m⟩ := d
  constructor
  · intro h
    simp only [take] at h
    split at h
    · next hlen =>
      simp only [Except.ok.injEq, Prod.mk.injEq, Cursor.mk.injEq] at h
      obtain ⟨rfl, rfl, rfl⟩ := h
      exact ⟨hlen, (List.take_append_drop n l).symm, rfl⟩
    · cases h
  · rintro ⟨rfl, h, rfl⟩
    exact (show l = body ++ m from h) ▸ take_append o body m

/-- Where the cursor is. -/
def offset : Reader Nat := fun c => .ok (c.offset, c)

/-- Passes over the next `n` bytes. -/
def skip (n : Nat) : Reader Unit := discard (take n)

/-- A byte. -/
def u1 : Reader UInt8 := do return UInt8.ofNat (bigEndian (← take 1))

/-- A word of two bytes. -/
def u2 : Reader UInt16 := do return UInt16.ofNat (bigEndian (← take 2))

/-- A word of four bytes. -/
def u4 : Reader UInt32 := do return UInt32.ofNat (bigEndian (← take 4))

/-- What an outcome that does not depend on the cursor says. -/
def ofExcept {α : Type} : Except ClassFileError α → Reader α
  | .ok a => fun c => .ok (a, c)
  | .error e => fun _ => .error e

end Reader

end ClassAccess
