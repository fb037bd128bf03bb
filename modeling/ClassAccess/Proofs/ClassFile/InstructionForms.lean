import Mathlib.Data.List.Basic
import ClassAccess.Proofs.ClassFile.Boundaries

/-!
# The forms of instructions

What an instruction is, told by its bytes: an opcode with a fixed number of operand bytes, an opcode
whose operands are widened, or a switch with the table that its operands announce. The length that
is read off the start of a byte string is that of the one instruction in front of it.

## Main definitions

* `Instruction.operandBytes?` — the opcodes by the number of their operand bytes.
* `Instruction.IsAt` — the bytes of an instruction at a place.

## Main results

* `Instruction.shape_eq` — the table of shapes against the table of operand bytes.
* `Instruction.IsAt.lengthAt_append` — an instruction is measured whatever follows it.
* `Instruction.isAt_of_lengthAt` — what is measured is an instruction.
* `Instruction.lengthAt_eq_ok_iff` — the two together.
-/

set_option autoImplicit false

namespace ClassAccess

namespace Instruction

/-! ## Forms -/

/-- How many operand bytes an opcode has, if that number is fixed.

* One byte: `bipush`, `ldc`, the loads and stores of a numbered variable, `ret` and `newarray`.
* Two bytes: `sipush`, `ldc_w`, `ldc2_w`, `iinc`, the branches from `ifeq` to `jsr`, the accesses to
  fields, the calls from `invokevirtual` to `invokestatic`, `new`, `anewarray`, `checkcast`,
  `instanceof`, `ifnull` and `ifnonnull`.
* Three bytes: `multianewarray`.
* Four bytes: `invokeinterface`, `invokedynamic`, `goto_w` and `jsr_w`.
* A number of their own: `tableswitch`, `lookupswitch` and `wide`.
* None: every other opcode up to `jsr_w`. -/
def operandBytes? (opcode : UInt8) : Option Nat :=
  if opcode ∈ [0x10, 0x12, 0x15, 0x16, 0x17, 0x18, 0x19, 0x36, 0x37, 0x38, 0x39, 0x3a, 0xa9,
      0xbc] then
    some 1
  else if opcode ∈ [0x11, 0x13, 0x14, 0x84, 0x99, 0x9a, 0x9b, 0x9c, 0x9d, 0x9e, 0x9f, 0xa0, 0xa1,
      0xa2, 0xa3, 0xa4, 0xa5, 0xa6, 0xa7, 0xa8, 0xb2, 0xb3, 0xb4, 0xb5, 0xb6, 0xb7, 0xb8, 0xbb,
      0xbd, 0xc0, 0xc1, 0xc6, 0xc7] then
    some 2
  else if opcode = 0xc5 then some 3
  else if opcode ∈ [0xb9, 0xba, 0xc8, 0xc9] then some 4
  else if opcode ∈ [0xaa, 0xab, 0xc4] then none
  else if opcode ≤ 0xc9 then some 0
  else none

/-- The opcodes that may be widened, `iinc` apart: the loads and stores of a variable, and `ret`. -/
def widenable : List UInt8 :=
  [0x15, 0x16, 0x17, 0x18, 0x19, 0x36, 0x37, 0x38, 0x39, 0x3a, 0xa9]

/-- The number that four bytes write in two's complement. -/
def signed (word : List UInt8) : Int :=
  (BitVec.ofNat 32 (bigEndian word)).toInt

/-- The bytes after the opcode at `pc` that bring what follows to a multiple of four. -/
def Aligns (pc : Nat) (pad : List UInt8) : Prop :=
  pad.length < 4 ∧ (pc + 1 + pad.length) % 4 = 0

/-- The bytes of an instruction whose opcode stands at `pc`. -/
inductive IsAt (pc : Nat) : List UInt8 → Prop
  /-- An opcode with a fixed number of operand bytes. -/
  | fixed {opcode : UInt8} {operands : List UInt8} :
    operandBytes? opcode = some operands.length → IsAt pc (opcode :: operands)
  /-- A widened opcode with the number of a variable. -/
  | wide {opcode : UInt8} {operands : List UInt8} :
    opcode ∈ widenable → operands.length = 2 → IsAt pc (0xc4 :: opcode :: operands)
  /-- A widened `iinc` with the number of a variable and what is added to it. -/
  | wideIncrement {operands : List UInt8} :
    operands.length = 4 → IsAt pc (0xc4 :: 0x84 :: operands)
  /-- A switch with a target for each index from `low` to `high`. -/
  | tableSwitch {pad target low high table : List UInt8} :
    Aligns pc pad → target.length = 4 → low.length = 4 → high.length = 4 →
    signed low ≤ signed high → (table.length : Int) = 4 * (signed high - signed low + 1) →
    IsAt pc (0xaa :: (pad ++ (target ++ (low ++ (high ++ table)))))
  /-- A switch with pairs of a key and a target, as many as `count` says. -/
  | lookupSwitch {pad target count table : List UInt8} :
    Aligns pc pad → target.length = 4 → count.length = 4 → 0 ≤ signed count →
    (table.length : Int) = 8 * signed count →
    IsAt pc (0xab :: (pad ++ (target ++ (count ++ table))))

/-- An instruction has an opcode. -/
theorem IsAt.exists_cons {pc : Nat} {body : List UInt8} (h : IsAt pc body) :
    ∃ opcode operands, body = opcode :: operands := by
  cases h <;> exact ⟨_, _, rfl⟩

/-! ## Tables -/

/-- What holds of the bytes of all numbers below 256 holds of all bytes. -/
theorem forall_byte {p : UInt8 → Prop} (h : ∀ n < 256, p (UInt8.ofNat n)) (b : UInt8) : p b := by
  have hb := h b.toNat b.toNat_lt
  rwa [UInt8.ofNat_toNat] at hb

/-- **The table of shapes** says the same as the table of operand bytes. -/
theorem shape_eq (opcode : UInt8) :
    Shape.ofOpcode opcode =
      match operandBytes? opcode with
      | some count => .fixed (count + 1)
      | none =>
        if opcode = 0xaa then .tableSwitch
        else if opcode = 0xab then .lookupSwitch
        else if opcode = 0xc4 then .wide
        else .undefined := by
  revert opcode
  exact forall_byte (by decide +kernel)

/-- A shape of fixed length is that of an opcode with one operand byte less. -/
theorem shape_eq_fixed_iff {opcode : UInt8} {n : Nat} :
    Shape.ofOpcode opcode = .fixed (n + 1) ↔ operandBytes? opcode = some n := by
  rw [shape_eq]
  cases operandBytes? opcode with
  | none =>
    simp only [reduceCtorEq, iff_false]
    split_ifs <;> exact nofun
  | some count => simp

/-- The three opcodes with a shape of their own. -/
theorem shape_eq_own_iff (opcode : UInt8) :
    (Shape.ofOpcode opcode = .tableSwitch ↔ opcode = 0xaa) ∧
    (Shape.ofOpcode opcode = .lookupSwitch ↔ opcode = 0xab) ∧
    (Shape.ofOpcode opcode = .wide ↔ opcode = 0xc4) := by
  have hown : ∀ shape, Shape.ofOpcode opcode = shape → (shape = .tableSwitch → opcode = 0xaa) ∧
      (shape = .lookupSwitch → opcode = 0xab) ∧ (shape = .wide → opcode = 0xc4) := by
    rintro _ rfl
    rw [shape_eq]
    cases operandBytes? opcode with
    | none => split_ifs with h1 h2 h3 <;> simp_all
    | some count => simp
  refine ⟨⟨fun h => (hown _ h).1 rfl, ?_⟩, ⟨fun h => (hown _ h).2.1 rfl, ?_⟩,
    ⟨fun h => (hown _ h).2.2 rfl, ?_⟩⟩ <;>
  · rintro rfl
    decide

/-- A widened instruction has its length by the opcode that is widened. -/
theorem wideLength?_eq_some_iff {opcode : UInt8} {n : Nat} :
    Shape.wideLength? opcode = some n ↔ opcode = 0x84 ∧ n = 6 ∨ opcode ∈ widenable ∧ n = 4 := by
  have htable : ∀ opcode, Shape.wideLength? opcode =
      if opcode = 0x84 then some 6 else if opcode ∈ widenable then some 4 else none :=
    forall_byte (by decide +kernel)
  have hiinc : 0x84 ∉ widenable := by decide
  rw [htable]
  split_ifs with h1 h2
  · subst h1
    simp [hiinc, eq_comm]
  · simp [h1, h2, eq_comm]
  · simp [h1, h2]

/-! ## Switches -/

/-- The padding of a switch is the one that aligns what follows. -/
theorem Aligns.switchPadding_eq {pc : Nat} {pad : List UInt8} (h : Aligns pc pad) :
    switchPadding pc = pad.length := by
  obtain ⟨h1, h2⟩ := h
  rw [switchPadding]
  omega

/-- The first bytes after an opcode align what follows if there are as many as the padding. -/
theorem aligns_of_length {pc : Nat} {pad : List UInt8} (h : pad.length = switchPadding pc) :
    Aligns pc pad := by
  rw [switchPadding] at h
  constructor <;> omega

/-- A signed number is read off the four bytes that write it. -/
theorem signedAt?_eq_some_iff {bytes : List UInt8} {start : Nat} {v : Int} :
    signedAt? bytes start = some v ↔
      ((bytes.drop start).take 4).length = 4 ∧ signed ((bytes.drop start).take 4) = v := by
  have htwo : signed ((bytes.drop start).take 4) =
      (bigEndian ((bytes.drop start).take 4) : Int).bmod 0x100000000 := BitVec.toInt_ofNat' _
  rw [signedAt?, ← htwo]
  split_ifs with h
  · simp [h]
  · simp only [h, false_and]

/-- The signed number behind what stands in front of it. -/
theorem signedAt?_append (front rest : List UInt8) {word : List UInt8} {start : Nat}
    (hstart : start = front.length) (hword : word.length = 4) :
    signedAt? (front ++ (word ++ rest)) start = some (signed word) := by
  have hpart : ((front ++ (word ++ rest)).drop start).take 4 = word := by
    rw [hstart, List.drop_left, ← hword, List.take_left]
  rw [signedAt?_eq_some_iff, hpart]
  exact ⟨hword, rfl⟩

/-! ## Measuring -/

/-- A switch by an index is measured by its bounds. -/
theorem tableSwitchLength_append {pc : Nat} {pad target low high table : List UInt8}
    (hpad : Aligns pc pad) (htarget : target.length = 4) (hlow : low.length = 4)
    (hhigh : high.length = 4) (hle : signed low ≤ signed high)
    (htable : (table.length : Int) = 4 * (signed high - signed low + 1)) (rest : List UInt8) :
    tableSwitchLength pc (pad ++ (target ++ (low ++ (high ++ table))) ++ rest) =
      .ok (1 + pad.length + 12 + table.length) := by
  have hl : signedAt? (pad ++ (target ++ (low ++ (high ++ table))) ++ rest) (pad.length + 4) =
      some (signed low) := by
    simpa using signedAt?_append (pad ++ target) (high ++ (table ++ rest)) (by simp [htarget]) hlow
  have hh : signedAt? (pad ++ (target ++ (low ++ (high ++ table))) ++ rest) (pad.length + 8) =
      some (signed high) := by
    simpa using signedAt?_append (pad ++ (target ++ low)) (table ++ rest)
      (by simp [htarget, hlow]) hhigh
  rw [tableSwitchLength_eq_ok_iff, hpad.switchPadding_eq]
  exact ⟨signed low, signed high, hl, hh, hle, by omega⟩

/-- A switch by pairs is measured by their number. -/
theorem lookupSwitchLength_append {pc : Nat} {pad target count table : List UInt8}
    (hpad : Aligns pc pad) (htarget : target.length = 4) (hcount : count.length = 4)
    (hle : 0 ≤ signed count) (htable : (table.length : Int) = 8 * signed count)
    (rest : List UInt8) :
    lookupSwitchLength pc (pad ++ (target ++ (count ++ table)) ++ rest) =
      .ok (1 + pad.length + 8 + table.length) := by
  have hc : signedAt? (pad ++ (target ++ (count ++ table)) ++ rest) (pad.length + 4) =
      some (signed count) := by
    simpa using signedAt?_append (pad ++ target) (table ++ rest) (by simp [htarget]) hcount
  rw [lookupSwitchLength_eq_ok_iff, hpad.switchPadding_eq]
  exact ⟨signed count, hc, hle, by omega⟩

/-- **An instruction is measured whatever follows it.** -/
theorem IsAt.lengthAt_append {pc : Nat} {body : List UInt8} (h : IsAt pc body) (rest : List UInt8) :
    lengthAt pc (body ++ rest) = .ok body.length := by
  obtain ⟨opcode, operands, rfl⟩ := h.exists_cons
  rw [List.cons_append, lengthAt_cons_eq_ok_iff]
  refine ⟨?_, by simp⟩
  obtain ⟨htable, hlookup, hwide⟩ := shape_eq_own_iff opcode
  cases h with
  | fixed hcount =>
    simp only [claimedLength, shape_eq_fixed_iff.2 hcount, List.length_cons]
  | wide hwidened hlength =>
    have hfour := wideLength?_eq_some_iff.2 (.inr ⟨hwidened, rfl⟩)
    simp only [claimedLength, hwide.2 rfl, List.cons_append, hfour, List.length_cons, hlength]
  | wideIncrement hlength =>
    have hsix := wideLength?_eq_some_iff.2 (.inl ⟨rfl, rfl⟩)
    simp only [claimedLength, hwide.2 rfl, List.cons_append, hsix, List.length_cons, hlength]
  | tableSwitch hpad htarget hlow hhigh hle hlength =>
    simp only [claimedLength, htable.2 rfl, List.length_cons, List.length_append, htarget, hlow,
      hhigh, tableSwitchLength_append hpad htarget hlow hhigh hle hlength rest, Except.ok.injEq]
    omega
  | lookupSwitch hpad htarget hcount hle hlength =>
    simp only [claimedLength, hlookup.2 rfl, List.length_cons, List.length_append, htarget, hcount,
      lookupSwitchLength_append hpad htarget hcount hle hlength rest, Except.ok.injEq]
    omega

/-- A stretch that lies in a byte string has its full length. -/
theorem length_stretch {bytes : List UInt8} {start count : Nat} (h : start + count ≤ bytes.length) :
    ((bytes.drop start).take count).length = count := by
  rw [List.length_take, List.length_drop]
  omega

/-- What is measured as a widened instruction is one. -/
theorem isAt_of_wideLength {pc k : Nat} {widened : UInt8} {operands : List UInt8}
    (h : Shape.wideLength? widened = some (k + 2)) (hfits : k ≤ operands.length) :
    IsAt pc (0xc4 :: widened :: operands.take k) := by
  have hlength : (operands.take k).length = k := List.length_take_of_le hfits
  rcases wideLength?_eq_some_iff.1 h with ⟨rfl, hk⟩ | ⟨hwidened, hk⟩
  · exact .wideIncrement (by omega)
  · exact .wide hwidened (by omega)

/-- What is measured as a switch by an index is one. -/
theorem isAt_of_tableSwitchLength {pc k : Nat} {operands : List UInt8}
    (h : tableSwitchLength pc operands = .ok (k + 1)) (hfits : k ≤ operands.length) :
    IsAt pc (0xaa :: operands.take k) := by
  obtain ⟨low, high, hlow, hhigh, hle, hlength⟩ := tableSwitchLength_eq_ok_iff.1 h
  obtain ⟨hfourLow, rfl⟩ := signedAt?_eq_some_iff.1 hlow
  obtain ⟨hfourHigh, rfl⟩ := signedAt?_eq_some_iff.1 hhigh
  generalize hp : switchPadding pc = p at *
  generalize hcount : 4 * (signed ((operands.drop (p + 8)).take 4) -
    signed ((operands.drop (p + 4)).take 4) + 1).toNat = count at hlength
  have hk : k = p + (4 + (4 + (4 + count))) := by omega
  rw [hk, List.take_add, List.take_add, List.take_add, List.take_add, List.drop_drop,
    List.drop_drop, List.drop_drop, show p + 4 + 4 = p + 8 from rfl]
  refine .tableSwitch (aligns_of_length ?_) (length_stretch (by omega)) hfourLow hfourHigh hle ?_
  · rw [hp, List.length_take_of_le (by omega)]
  · rw [length_stretch (by omega)]
    omega

/-- What is measured as a switch by pairs is one. -/
theorem isAt_of_lookupSwitchLength {pc k : Nat} {operands : List UInt8}
    (h : lookupSwitchLength pc operands = .ok (k + 1)) (hfits : k ≤ operands.length) :
    IsAt pc (0xab :: operands.take k) := by
  obtain ⟨pairs, hpairs, hle, hlength⟩ := lookupSwitchLength_eq_ok_iff.1 h
  obtain ⟨hfour, rfl⟩ := signedAt?_eq_some_iff.1 hpairs
  generalize hp : switchPadding pc = p at *
  generalize hcount : 8 * (signed ((operands.drop (p + 4)).take 4)).toNat = count at hlength
  have hk : k = p + (4 + (4 + count)) := by omega
  rw [hk, List.take_add, List.take_add, List.take_add, List.drop_drop, List.drop_drop]
  refine .lookupSwitch (aligns_of_length ?_) (length_stretch (by omega)) hfour hle ?_
  · rw [hp, List.length_take_of_le (by omega)]
  · rw [length_stretch (by omega)]
    omega

/-- **What is measured is an instruction.** -/
theorem isAt_of_lengthAt {pc n : Nat} {ahead : List UInt8} (h : lengthAt pc ahead = .ok n) :
    IsAt pc (ahead.take n) := by
  cases ahead with
  | nil => cases h
  | cons opcode operands =>
    have hpos := lengthAt_pos h
    obtain ⟨hclaimed, hfits⟩ := lengthAt_cons_eq_ok_iff.1 h
    obtain ⟨k, rfl⟩ : ∃ k, n = k + 1 := ⟨n - 1, by omega⟩
    rw [List.take_succ_cons]
    have hfits : k ≤ operands.length := Nat.le_of_succ_le_succ hfits
    unfold claimedLength at hclaimed
    cases hshape : Shape.ofOpcode opcode with
    | fixed length =>
      rw [hshape] at hclaimed
      cases hclaimed
      exact .fixed (by rw [List.length_take_of_le hfits, shape_eq_fixed_iff.1 hshape])
    | tableSwitch =>
      obtain rfl := (shape_eq_own_iff opcode).1.1 hshape
      rw [hshape] at hclaimed
      exact isAt_of_tableSwitchLength hclaimed hfits
    | lookupSwitch =>
      obtain rfl := (shape_eq_own_iff opcode).2.1.1 hshape
      rw [hshape] at hclaimed
      exact isAt_of_lookupSwitchLength hclaimed hfits
    | wide =>
      obtain rfl := (shape_eq_own_iff opcode).2.2.1 hshape
      rw [hshape] at hclaimed
      cases operands with
      | nil => cases hclaimed
      | cons widened operands =>
        cases hwide : Shape.wideLength? widened with
        | none =>
          simp only [hwide, reduceCtorEq] at hclaimed
        | some length =>
          simp only [hwide, Except.ok.injEq] at hclaimed
          obtain ⟨m, rfl⟩ : ∃ m, k = m + 1 := ⟨k - 1, by have := one_lt_wideLength hwide; omega⟩
          rw [List.take_succ_cons]
          exact isAt_of_wideLength (hclaimed ▸ hwide) (Nat.le_of_succ_le_succ hfits)
    | undefined =>
      rw [hshape] at hclaimed
      cases hclaimed

/-- **The length at a place** is that of the one instruction in front of what lies ahead. -/
theorem lengthAt_eq_ok_iff {pc n : Nat} {ahead : List UInt8} :
    lengthAt pc ahead = .ok n ↔
      ∃ body rest, ahead = body ++ rest ∧ IsAt pc body ∧ body.length = n := by
  constructor
  · intro h
    refine ⟨ahead.take n, ahead.drop n, (List.take_append_drop n ahead).symm,
      isAt_of_lengthAt h, ?_⟩
    exact List.length_take_of_le (lengthAt_le h)
  · rintro ⟨body, rest, rfl, hbody, rfl⟩
    exact hbody.lengthAt_append rest

/-- Two instructions at one place, in front of the same bytes, are the same. -/
theorem IsAt.append_inj {pc : Nat} {body body' rest rest' : List UInt8} (h : IsAt pc body)
    (h' : IsAt pc body') (heq : body ++ rest = body' ++ rest') : body = body' ∧ rest = rest' := by
  have hlength := h.lengthAt_append rest
  rw [heq, h'.lengthAt_append rest'] at hlength
  exact List.append_inj heq (Except.ok.inj hlength).symm

/-- How long a switch without pairs is depends on where it stands. -/
example : lengthAt 1 [0xab, 0, 0, 0, 0, 0, 0, 0, 0, 0, 0, 0xb1] = .ok 11 ∧
    lengthAt 3 [0xab, 0, 0, 0, 0, 0, 0, 0, 0, 0, 0, 0xb1] = .ok 9 := by
  decide +kernel

end Instruction

end ClassAccess
