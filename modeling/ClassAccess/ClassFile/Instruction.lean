import ClassAccess.Bytes.BigEndian
import ClassAccess.ClassFile.Error

/-!
# Instructions

The code of a method is a row of instructions without gaps. An instruction is an opcode and its
operands; most opcodes fix the length of the whole, and the switches give it in their operands.

## Main definitions

* `Shape` — how the length of an instruction comes about, by its opcode.
* `Instruction.lengthAt` — the length of the instruction at the start of what lies ahead.
* `Code.walk` — the instructions of a code array, up to the first bad one.
* `Code.count` — how many there are, if all are good.

## Main results

* `Instruction.lengthAt_pos` — no instruction is empty.
* `Instruction.lengthAt_le` — no instruction reaches past the end of the code.

## Design

The walk goes over the code byte by byte and counts down the bytes of the instruction that it is in,
so that it is a plain recursion over the code. The operands of a switch start at a multiple of four,
counted from the start of the code; this is why a length depends on the place as well.
-/

set_option autoImplicit false

namespace ClassAccess

/-! ## Shapes -/

/-- How the length of an instruction comes about. -/
inductive Shape
  /-- The instruction has this many bytes. -/
  | fixed (length : Nat)
  /-- The instruction jumps by an index between two bounds. -/
  | tableSwitch
  /-- The instruction jumps by a number of pairs. -/
  | lookupSwitch
  /-- The instruction widens the operands of the next opcode. -/
  | wide
  /-- No instruction has the opcode. -/
  | undefined
deriving DecidableEq, Repr

namespace Shape

/-- The shapes of all opcodes: each entry holds for the opcodes up to its own that no earlier entry
covers. -/
def bands : List (UInt8 × Shape) :=
  [(0x0f, fixed 1), (0x10, fixed 2), (0x11, fixed 3), (0x12, fixed 2), (0x14, fixed 3),
    (0x19, fixed 2), (0x35, fixed 1), (0x3a, fixed 2), (0x83, fixed 1), (0x84, fixed 3),
    (0x98, fixed 1), (0xa8, fixed 3), (0xa9, fixed 2), (0xaa, tableSwitch), (0xab, lookupSwitch),
    (0xb1, fixed 1), (0xb8, fixed 3), (0xba, fixed 5), (0xbb, fixed 3), (0xbc, fixed 2),
    (0xbd, fixed 3), (0xbf, fixed 1), (0xc1, fixed 3), (0xc3, fixed 1), (0xc4, wide),
    (0xc5, fixed 4), (0xc7, fixed 3), (0xc9, fixed 5), (0xff, undefined)]

/-- The shape of an opcode. -/
def ofOpcode (opcode : UInt8) : Shape :=
  ((bands.find? fun band => opcode ≤ band.1).map (·.2)).getD undefined

/-- The whole length of a wide instruction, by the opcode that it widens. -/
def wideLength? (opcode : UInt8) : Option Nat :=
  if opcode = 0x84 then some 6
  else if (0x15 ≤ opcode ∧ opcode ≤ 0x19) ∨ (0x36 ≤ opcode ∧ opcode ≤ 0x3a) ∨ opcode = 0xa9 then
    some 4
  else none

end Shape

/-! ## Lengths -/

/-- One instruction of a code array. -/
structure Instruction where
  /-- Where the opcode stands in the code. -/
  pc : Nat
  /-- The opcode. -/
  opcode : UInt8
  /-- How many bytes the instruction has, its opcode included. -/
  length : Nat
deriving DecidableEq, Repr

namespace Instruction

/-- The opcode of a call that is bound when it runs. -/
def invokeVirtual : UInt8 := 0xb6

/-- The opcode of a call that is bound to one method beforehand. -/
def invokeSpecial : UInt8 := 0xb7

/-- How many bytes after the opcode at `pc` bring the operands of a switch to a multiple of four. -/
def switchPadding (pc : Nat) : Nat :=
  (4 - (pc + 1) % 4) % 4

/-- The signed number in the four bytes after the first `start` ones. -/
def signedAt? (bytes : List UInt8) (start : Nat) : Option Int :=
  let word := (bytes.drop start).take 4
  if word.length = 4 then some ((bigEndian word : Int).bmod 0x100000000) else none

/-- The length of a switch by the range of its indices; `operands` is what follows the opcode. -/
def tableSwitchLength (pc : Nat) (operands : List UInt8) : Except ClassFileError Nat :=
  let pad := switchPadding pc
  match signedAt? operands (pad + 4), signedAt? operands (pad + 8) with
  | some low, some high =>
    if high < low then .error (.malformedSwitch pc)
    else .ok (1 + pad + 12 + 4 * (high - low + 1).toNat)
  | _, _ => .error (.truncatedInstruction pc)

/-- The length of a switch by the number of its pairs; `operands` is what follows the opcode. -/
def lookupSwitchLength (pc : Nat) (operands : List UInt8) : Except ClassFileError Nat :=
  let pad := switchPadding pc
  match signedAt? operands (pad + 4) with
  | some pairs =>
    if pairs < 0 then .error (.malformedSwitch pc) else .ok (1 + pad + 8 + 8 * pairs.toNat)
  | none => .error (.truncatedInstruction pc)

/-- The length that the instruction at `pc` claims for itself. -/
def claimedLength (pc : Nat) (opcode : UInt8) (operands : List UInt8) : Except ClassFileError Nat :=
  match Shape.ofOpcode opcode with
  | .fixed length => .ok length
  | .tableSwitch => tableSwitchLength pc operands
  | .lookupSwitch => lookupSwitchLength pc operands
  | .wide =>
    match operands with
    | [] => .error (.truncatedInstruction pc)
    | widened :: _ =>
      match Shape.wideLength? widened with
      | some length => .ok length
      | none => .error (.invalidOpcode widened (pc + 1))
  | .undefined => .error (.invalidOpcode opcode pc)

/-- The length of the instruction at `pc`, where `ahead` is the code from there on. -/
def lengthAt (pc : Nat) : (ahead : List UInt8) → Except ClassFileError Nat
  | [] => .error (.truncatedInstruction pc)
  | opcode :: operands => do
    let length ← claimedLength pc opcode operands
    if ((opcode :: operands).take length).length = length then return length
    else throw (.truncatedInstruction pc)

/-- The word right after the opcode, if the instruction has one. -/
def operand? (i : Instruction) (code : List UInt8) : Option UInt16 :=
  if i.length < 3 then none
  else do return UInt16.ofNat (bigEndian [← code[i.pc + 1]?, ← code[i.pc + 2]?])

end Instruction

/-! ## Code arrays -/

namespace Code

/-- The instructions of a code array up to the first bad one, and what is wrong with that. -/
structure Walk where
  /-- The instructions in order. -/
  instructions : List Instruction
  /-- What is wrong where the walk stopped, if it did not reach the end. -/
  fault : Option ClassFileError
deriving DecidableEq, Repr

/-- The walk from `pc` on, where the next `inside` bytes belong to an instruction already seen. -/
def walkFrom (pc inside : Nat) : (ahead : List UInt8) → Walk
  | [] => ⟨[], none⟩
  | b :: rest =>
    match inside with
    | inside + 1 => walkFrom (pc + 1) inside rest
    | 0 =>
      match Instruction.lengthAt pc (b :: rest) with
      | .error e => ⟨[], some e⟩
      | .ok length =>
        let tail := walkFrom (pc + 1) (length - 1) rest
        { tail with instructions := ⟨pc, b, length⟩ :: tail.instructions }

/-- The walk over a whole code array. -/
def walk (code : List UInt8) : Walk :=
  walkFrom 0 0 code

/-- How many instructions a code array has, or what is wrong with the first bad one. -/
def count (code : List UInt8) : Except ClassFileError Nat :=
  let w := walk code
  match w.fault with
  | none => .ok w.instructions.length
  | some e => .error e

end Code

/-! ## Bounds -/

/-- No opcode fixes an empty instruction. -/
theorem Shape.pos_of_ofOpcode {opcode : UInt8} {length : Nat}
    (h : Shape.ofOpcode opcode = .fixed length) : 0 < length := by
  have hall : ∀ band ∈ Shape.bands, band.2 ≠ .fixed 0 := by decide
  unfold Shape.ofOpcode at h
  cases hf : Shape.bands.find? fun band => opcode ≤ band.1 with
  | none => rw [hf] at h; cases h
  | some band =>
    rw [hf] at h
    have hb : band.2 = .fixed length := h
    have hne := hall band (List.mem_of_find?_eq_some hf)
    rw [hb] at hne
    exact Nat.pos_of_ne_zero fun h0 => hne (h0 ▸ rfl)

namespace Instruction

/-- A switch by the range of its indices is measured if the bounds are there and in order. -/
theorem tableSwitchLength_eq_ok_iff {pc length : Nat} {operands : List UInt8} :
    tableSwitchLength pc operands = .ok length ↔
      ∃ low high, signedAt? operands (switchPadding pc + 4) = some low ∧
        signedAt? operands (switchPadding pc + 8) = some high ∧ low ≤ high ∧
        1 + switchPadding pc + 12 + 4 * (high - low + 1).toNat = length := by
  simp only [tableSwitchLength]
  split
  · next low high hlow hhigh =>
    rw [hlow, hhigh]
    split
    · next hlt => simp [Int.not_le.2 hlt]
    · next hle => simp [Int.not_lt.1 hle]
  · next hnone =>
    refine ⟨nofun, ?_⟩
    rintro ⟨low, high, hlow, hhigh, -⟩
    exact absurd hhigh (hnone low high hlow)

/-- A switch by the number of its pairs is measured if that is there and not negative. -/
theorem lookupSwitchLength_eq_ok_iff {pc length : Nat} {operands : List UInt8} :
    lookupSwitchLength pc operands = .ok length ↔
      ∃ pairs, signedAt? operands (switchPadding pc + 4) = some pairs ∧ 0 ≤ pairs ∧
        1 + switchPadding pc + 8 + 8 * pairs.toNat = length := by
  simp only [lookupSwitchLength]
  split
  · next pairs hpairs =>
    rw [hpairs]
    split
    · next hneg => simp [Int.not_le.2 hneg]
    · next hle => simp [Int.not_lt.1 hle]
  · next hnone => simp [hnone]

/-- An instruction claims its opcode at least. -/
theorem claimedLength_pos {pc length : Nat} {opcode : UInt8} {operands : List UInt8}
    (h : claimedLength pc opcode operands = .ok length) : 0 < length := by
  unfold claimedLength at h
  split at h
  · next hs => cases h; exact Shape.pos_of_ofOpcode hs
  · obtain ⟨low, high, -, -, -, rfl⟩ := tableSwitchLength_eq_ok_iff.1 h
    omega
  · obtain ⟨pairs, -, -, rfl⟩ := lookupSwitchLength_eq_ok_iff.1 h
    omega
  · split at h
    · cases h
    · split at h
      · next hw =>
        cases h
        unfold Shape.wideLength? at hw
        split at hw
        · cases hw; decide
        · split at hw
          · cases hw; decide
          · cases hw
      · cases h
  · cases h

/-- A length is what the instruction claims, and fits into the code. -/
theorem lengthAt_cons_eq_ok_iff {pc length : Nat} {opcode : UInt8} {operands : List UInt8} :
    lengthAt pc (opcode :: operands) = .ok length ↔
      claimedLength pc opcode operands = .ok length ∧ length ≤ operands.length + 1 := by
  simp only [lengthAt]
  cases hc : claimedLength pc opcode operands with
  | error e => simp [bind, Except.bind]
  | ok n =>
    simp only [bind, Except.bind, Except.ok.injEq]
    split
    · next hn =>
      simp only [List.length_take, List.length_cons] at hn
      simp only [pure, Except.pure, Except.ok.injEq]
      omega
    · next hn =>
      simp only [List.length_take, List.length_cons] at hn
      simp only [throw, throwThe, MonadExceptOf.throw, reduceCtorEq, false_iff]
      omega

/-- No instruction is empty. -/
theorem lengthAt_pos {pc length : Nat} {ahead : List UInt8}
    (h : lengthAt pc ahead = .ok length) : 0 < length := by
  cases ahead with
  | nil => cases h
  | cons opcode operands => exact claimedLength_pos (lengthAt_cons_eq_ok_iff.1 h).1

/-- No instruction reaches past the end of the code. -/
theorem lengthAt_le {pc length : Nat} {ahead : List UInt8}
    (h : lengthAt pc ahead = .ok length) : length ≤ ahead.length := by
  cases ahead with
  | nil => cases h
  | cons opcode operands => exact (lengthAt_cons_eq_ok_iff.1 h).2

end Instruction

end ClassAccess
