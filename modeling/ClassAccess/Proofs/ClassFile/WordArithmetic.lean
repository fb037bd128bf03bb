import ClassAccess.Proofs.ClassFile.InstructionForms

/-!
# Measuring instructions in machine words

The length of an instruction once more, step by step as a machine works it out: a place is a word of
64 bits without a sign, the bounds of a switch are words with a sign, and bytes are looked up by
their index. A sum or a difference that is no word and an index that is out of range break the work
off. Neither ever happens, because a byte string has fewer bytes than half of all words and what is
added to a place in it is small.

## Main definitions

* `Instruction.Measuring` — work that gives a result, finds a fault in the code or breaks off.
* `Instruction.lengthInWords` — the length of an instruction in machine words.

## Main results

* `Instruction.lengthInWords_eq` — the work never breaks off, and gives the length at the place.
-/

set_option autoImplicit false

namespace ClassAccess

namespace Instruction

/-! ## Checked steps -/

/-- Work that gives a result, finds a fault in the code, or breaks off (`none`). -/
abbrev Measuring := ExceptT ClassFileError Option

/-- The work breaks off. -/
def breakOff {α : Type} : Measuring α := ExceptT.mk none

/-- A sum that has to be a word without a sign. -/
def word (n : Nat) : Measuring Nat := if n < 0x10000000000000000 then pure n else breakOff

/-- A sum or a difference that has to be a word with a sign. -/
def signedWord (n : Int) : Measuring Int :=
  if -0x8000000000000000 ≤ n ∧ n < 0x8000000000000000 then pure n else breakOff

/-- A difference that has to be a word without a sign. -/
def difference (m n : Nat) : Measuring Nat := if n ≤ m then pure (m - n) else breakOff

/-- The byte at an index that has to be in range. -/
def byteAt (bytes : List UInt8) (i : Nat) : Measuring UInt8 :=
  match bytes[i]? with
  | some b => pure b
  | none => breakOff

/-- The greatest word, if a number is greater than that, or the number. -/
def saturated (n : Nat) : Nat := min n 0xffffffffffffffff

/-! ## Measuring -/

/-- How many bytes after the opcode at `pc` align what follows. -/
def paddingInWords (pc : Nat) : Measuring Nat := do
  let next ← word (pc + 1)
  let gap ← difference 4 (next % 4)
  return gap % 4

/-- The signed number at `start`, for the instruction at `pc`. -/
def signedInWords (code : List UInt8) (start pc : Nat) : Measuring Int := do
  let stop ← word (start + 4)
  if stop ≤ code.length then
    let slice := (code.drop start).take 4
    return signed [← byteAt slice 0, ← byteAt slice 1, ← byteAt slice 2, ← byteAt slice 3]
  else throw (.truncatedInstruction pc)

/-- The length of a switch by an index. -/
def tableSwitchInWords (code : List UInt8) (pc : Nat) : Measuring Nat := do
  let pad ← paddingInWords pc
  let base ← word ((← word (pc + 1)) + pad)
  let low ← signedInWords code (← word (base + 4)) pc
  let high ← signedInWords code (← word (base + 8)) pc
  if high < low then throw (.malformedSwitch pc)
  else do
    let entries ← signedWord ((← signedWord (high - low)) + 1)
    let header ← word ((← word (1 + pad)) + 12)
    return saturated (header + saturated (entries.toNat * 4))

/-- The length of a switch by pairs. -/
def lookupSwitchInWords (code : List UInt8) (pc : Nat) : Measuring Nat := do
  let pad ← paddingInWords pc
  let base ← word ((← word (pc + 1)) + pad)
  let pairs ← signedInWords code (← word (base + 4)) pc
  if pairs < 0 then throw (.malformedSwitch pc)
  else do
    let header ← word ((← word (1 + pad)) + 8)
    return saturated (header + saturated (pairs.toNat * 8))

/-- The length of a widened instruction. -/
def wideInWords (code : List UInt8) (pc : Nat) : Measuring Nat := do
  let next ← word (pc + 1)
  match code[next]? with
  | none => throw (.truncatedInstruction pc)
  | some widened =>
    match Shape.wideLength? widened with
    | some length => return length
    | none => throw (.invalidOpcode widened (← word (pc + 1)))

/-- The length that the instruction at `pc` claims for itself. -/
def claimedInWords (code : List UInt8) (pc : Nat) (opcode : UInt8) : Measuring Nat :=
  match Shape.ofOpcode opcode with
  | .fixed length => return length
  | .tableSwitch => tableSwitchInWords code pc
  | .lookupSwitch => lookupSwitchInWords code pc
  | .wide => wideInWords code pc
  | .undefined => throw (.invalidOpcode opcode pc)

/-- The length of the instruction at `pc`. Where it ends is the one sum that may be no word: such an
instruction is cut off like one that ends behind the code. -/
def lengthInWords (code : List UInt8) (pc : Nat) : Measuring Nat :=
  match code[pc]? with
  | none => throw (.truncatedInstruction pc)
  | some opcode => do
    let length ← claimedInWords code pc opcode
    if pc + length < 0x10000000000000000 ∧ pc + length ≤ code.length then return length
    else throw (.truncatedInstruction pc)

/-! ## No step breaks off -/

/-- A number that is a word. -/
theorem word_of_lt {n : Nat} (h : n < 0x10000000000000000) : word n = pure n := if_pos h

/-- A number that is a word with a sign. -/
theorem signedWord_of_bounds {n : Int} (h : -0x8000000000000000 ≤ n ∧ n < 0x8000000000000000) :
    signedWord n = pure n := if_pos h

/-- A number that is not greater than the greatest word. -/
theorem saturated_of_lt {n : Nat} (h : n < 0x10000000000000000) : saturated n = n := by
  rw [saturated]
  omega

/-- Four bytes write a signed number of 32 bits. -/
theorem bounds_of_signedAt? {bytes : List UInt8} {start : Nat} {v : Int}
    (h : signedAt? bytes start = some v) : -0x80000000 ≤ v ∧ v < 0x80000000 := by
  obtain ⟨-, rfl⟩ := signedAt?_eq_some_iff.1 h
  generalize (bytes.drop start).take 4 = word
  have hlow := BitVec.le_two_mul_toInt (x := BitVec.ofNat 32 (bigEndian word))
  have hhigh := BitVec.two_mul_toInt_lt (x := BitVec.ofNat 32 (bigEndian word))
  rw [signed]
  omega

/-- A switch is padded with three bytes at most. -/
theorem switchPadding_lt (pc : Nat) : switchPadding pc < 4 := by
  rw [switchPadding]
  omega

variable {code : List UInt8} {pc : Nat}

/-- The padding of a switch. -/
theorem paddingInWords_eq (hpc : pc < 0x8000000000000000) :
    paddingInWords pc = pure (switchPadding pc) := by
  have hgap : difference 4 ((pc + 1) % 4) = pure (4 - (pc + 1) % 4) := if_pos (by omega)
  rw [paddingInWords, word_of_lt (by omega), pure_bind, hgap, pure_bind]
  rfl

/-- The bytes of a slice of four, looked up one by one. -/
theorem byteAt_slice {slice : List UInt8} (h : slice.length = 4) :
    (do return signed [← byteAt slice 0, ← byteAt slice 1, ← byteAt slice 2, ← byteAt slice 3] :
      Measuring Int) = pure (signed slice) := by
  match slice, h with
  | [_, _, _, _], _ => rfl

/-- A signed number, read `front` bytes behind the opcode. -/
theorem signedInWords_eq {front : Nat} (hstart : pc + 1 + front + 4 < 0x10000000000000000) :
    signedInWords code (pc + 1 + front) pc =
      match signedAt? (code.drop (pc + 1)) front with
      | some v => pure v
      | none => throw (.truncatedInstruction pc) := by
  have hlength : pc + 1 + front + 4 ≤ code.length ↔
      ((code.drop (pc + 1 + front)).take 4).length = 4 := by
    rw [List.length_take, List.length_drop]
    omega
  rw [signedInWords, word_of_lt hstart, pure_bind]
  cases hv : signedAt? (code.drop (pc + 1)) front with
  | some v =>
    rw [signedAt?_eq_some_iff, List.drop_drop] at hv
    obtain ⟨hslice, rfl⟩ := hv
    rw [if_pos (hlength.2 hslice)]
    exact byteAt_slice hslice
  | none =>
    rw [if_neg]
    intro hle
    have hsome := signedAt?_eq_some_iff.2 ⟨List.drop_drop ▸ hlength.1 hle, rfl⟩
    rw [hv] at hsome
    cases hsome

/-- **A switch by an index** is measured without breaking off. -/
theorem tableSwitchInWords_eq (hpc : pc < 0x8000000000000000) :
    tableSwitchInWords code pc =
      ExceptT.mk (some (tableSwitchLength pc (code.drop (pc + 1)))) := by
  have hpad := switchPadding_lt pc
  rw [tableSwitchInWords, paddingInWords_eq hpc, pure_bind, word_of_lt (by omega), pure_bind,
    word_of_lt (by omega), pure_bind, word_of_lt (by omega), pure_bind, Nat.add_assoc,
    signedInWords_eq (by omega)]
  simp only [tableSwitchLength]
  cases hlow : signedAt? (code.drop (pc + 1)) (switchPadding pc + 4) with
  | none => rfl
  | some low =>
    simp only [pure_bind]
    rw [word_of_lt (by omega), pure_bind, Nat.add_assoc, signedInWords_eq (by omega)]
    cases hhigh : signedAt? (code.drop (pc + 1)) (switchPadding pc + 8) with
    | none => rfl
    | some high =>
      simp only [pure_bind]
      have hl := bounds_of_signedAt? hlow
      have hh := bounds_of_signedAt? hhigh
      split_ifs with hlt
      · rfl
      · rw [signedWord_of_bounds (by omega), pure_bind, signedWord_of_bounds (by omega), pure_bind,
          word_of_lt (by omega), pure_bind, word_of_lt (by omega), pure_bind,
          saturated_of_lt (n := (high - low + 1).toNat * 4) (by omega), saturated_of_lt (by omega),
          Nat.mul_comm]
        rfl

/-- **A switch by pairs** is measured without breaking off. -/
theorem lookupSwitchInWords_eq (hpc : pc < 0x8000000000000000) :
    lookupSwitchInWords code pc =
      ExceptT.mk (some (lookupSwitchLength pc (code.drop (pc + 1)))) := by
  have hpad := switchPadding_lt pc
  rw [lookupSwitchInWords, paddingInWords_eq hpc, pure_bind, word_of_lt (by omega), pure_bind,
    word_of_lt (by omega), pure_bind, word_of_lt (by omega), pure_bind, Nat.add_assoc,
    signedInWords_eq (by omega)]
  simp only [lookupSwitchLength]
  cases hpairs : signedAt? (code.drop (pc + 1)) (switchPadding pc + 4) with
  | none => rfl
  | some pairs =>
    simp only [pure_bind]
    have hp := bounds_of_signedAt? hpairs
    split_ifs with hneg
    · rfl
    · rw [word_of_lt (by omega), pure_bind, word_of_lt (by omega), pure_bind,
        saturated_of_lt (n := pairs.toNat * 8) (by omega), saturated_of_lt (by omega), Nat.mul_comm]
      rfl

/-- A widened instruction is measured without breaking off. -/
theorem wideInWords_eq (hpc : pc < 0x8000000000000000) {opcode : UInt8}
    (hshape : Shape.ofOpcode opcode = .wide) :
    wideInWords code pc = ExceptT.mk (some (claimedLength pc opcode (code.drop (pc + 1)))) := by
  have hword := word_of_lt (n := pc + 1) (by omega)
  have hnext : code[pc + 1]? = (code.drop (pc + 1)).head? := List.head?_drop.symm
  simp only [wideInWords, hword, pure_bind, hnext, claimedLength, hshape]
  cases code.drop (pc + 1) with
  | nil => rfl
  | cons widened rest =>
    simp only [List.head?_cons]
    cases Shape.wideLength? widened with
    | some length => rfl
    | none => rfl

/-- What an instruction claims is measured without breaking off. -/
theorem claimedInWords_eq (hpc : pc < 0x8000000000000000) (opcode : UInt8) :
    claimedInWords code pc opcode =
      ExceptT.mk (some (claimedLength pc opcode (code.drop (pc + 1)))) := by
  cases hshape : Shape.ofOpcode opcode with
  | fixed length =>
    simp only [claimedInWords, claimedLength, hshape]
    rfl
  | tableSwitch =>
    simp only [claimedInWords, claimedLength, hshape]
    exact tableSwitchInWords_eq hpc
  | lookupSwitch =>
    simp only [claimedInWords, claimedLength, hshape]
    exact lookupSwitchInWords_eq hpc
  | wide =>
    simp only [claimedInWords, hshape]
    exact wideInWords_eq hpc hshape
  | undefined =>
    simp only [claimedInWords, claimedLength, hshape]
    rfl

/-- **A length in machine words** is the length at the place: in a byte string with fewer than half
as many bytes as there are words, no number leaves its range on the way and no index does. -/
theorem lengthInWords_eq (hcode : code.length < 0x8000000000000000) (pc : Nat) :
    lengthInWords code pc = ExceptT.mk (some (lengthAt pc (code.drop pc))) := by
  rw [lengthInWords]
  cases hopcode : code[pc]? with
  | none =>
    rw [List.drop_eq_nil_of_le (List.getElem?_eq_none_iff.1 hopcode)]
    rfl
  | some opcode =>
    obtain ⟨hpc, hget⟩ := List.getElem?_eq_some_iff.1 hopcode
    have hahead : code.drop pc = opcode :: code.drop (pc + 1) := by
      rw [List.drop_eq_getElem_cons hpc, hget]
    have hlength : (opcode :: code.drop (pc + 1)).length = code.length - pc := by
      rw [← hahead, List.length_drop]
    simp only [claimedInWords_eq (show pc < 0x8000000000000000 by omega), hahead, lengthAt]
    cases claimedLength pc opcode (code.drop (pc + 1)) with
    | error e => rfl
    | ok length =>
      have hfits : (pc + length < 0x10000000000000000 ∧ pc + length ≤ code.length) ↔
          ((opcode :: code.drop (pc + 1)).take length).length = length := by
        rw [List.length_take, hlength]
        omega
      show (if pc + length < 0x10000000000000000 ∧ pc + length ≤ code.length then pure length
        else throw (.truncatedInstruction pc) : Measuring Nat) = ExceptT.mk (some
          (if ((opcode :: code.drop (pc + 1)).take length).length = length then .ok length
            else .error (.truncatedInstruction pc)))
      simp only [hfits]
      split_ifs <;> rfl

end Instruction

end ClassAccess
