import ClassAccess.ClassFile.Read
import ClassAccess.Proofs.ClassFile.PoolLayout

/-!
# The slots of a constant pool

A constant pool says in front how many slots it has. As many are read, and slot zero and those right
behind wide entries are the ones that hold nothing. There is one exception: a wide entry may stand
in the last slot, and then the slot behind it is one more than was said.

## Main definitions

* `ConstantPool.Behind` — the slots that are read behind another one.
* `ConstantPool.IsAccurate` — a pool has a number of slots, and wide entries do not reach beyond
  them.
* `ConstantPool.Overhangs` — the last one of a number of slots holds a wide entry.

## Main results

* `ConstantPool.behind_of_readSlots` — what is read slot by slot.
* `ConstantPool.Behind.length_eq` — how many slots there are.
* `ConstantPool.accurate_of_read` — pools are accurate, but for a wide entry in the last slot.
* `ConstantPool.long_in_last_slot` — and such an entry is accepted.

## Implementation notes

Whether a slot holds something depends on the slot in front of it. So all inductions are about the
slots behind a given one. For a pool as a whole that is slot zero, which is never read.
-/

set_option autoImplicit false

namespace ClassAccess

/-- No entry says that there is none. -/
theorem RawConstant.meaning?_ne_unusable (raw : RawConstant) : raw.meaning? ≠ some .unusable := by
  cases raw with
  | utf8 encoded => simp [meaning?_utf8_eq_some_iff]
  | other tag contents => simp [meaning?_other_eq_some_iff]
  | classRef _ | nameAndType _ _ | fieldRef _ _ | methodRef _ _ | interfaceMethodRef _ _ =>
    simp [meaning?]

/-- A slot that is read holds something. -/
theorem Constant.ne_unusable_of_read {index : Nat} {c d : Cursor} {k : Constant}
    (h : read index c = .ok (k, d)) : k ≠ .unusable := by
  obtain ⟨raw, hmeaning, -⟩ := exists_raw_of_read h
  intro hk
  exact raw.meaning?_ne_unusable (hk ▸ hmeaning)

namespace ConstantPool

/-! ## Slot by slot -/

/-- Behind a slot with `k`, where `n` slots are still to come, stand the slots `slots`. -/
inductive Behind : (k : Constant) → (n : Nat) → (slots : List Constant) → Prop
  /-- None is to come. -/
  | done {k : Constant} (narrow : k.isWide = false) : Behind k 0 []
  /-- None is to come, but a wide entry takes one more. -/
  | overhang {k : Constant} (wide : k.isWide = true) : Behind k 0 [.unusable]
  /-- The next slot holds nothing exactly if it belongs to a wide entry. -/
  | next {k k' : Constant} {n : Nat} {slots : List Constant}
      (unusable : k' = .unusable ↔ k.isWide = true) (rest : Behind k' n slots) :
      Behind k (n + 1) (k' :: slots)

/-- **What is read slot by slot**, if the slot in front of it holds `k`.

**Proof sketch.** Induction on the number of slots. A slot that belongs to a wide entry is no wide
entry itself, so that the slots behind it are read like those behind any other narrow one. -/
theorem behind_of_readSlots {n index : Nat} {k : Constant} {c d : Cursor} {slots : List Constant}
    (h : readSlots n index k.isWide c = .ok (slots, d)) : Behind k n slots := by
  induction n generalizing index k c d slots with
  | zero =>
    rw [readSlots, Parser.pure_eq_ok_iff] at h
    obtain ⟨rfl, -⟩ := h
    cases hk : k.isWide with
    | false => exact .done hk
    | true => exact .overhang hk
  | succ n ih =>
    cases hk : k.isWide with
    | false =>
      rw [hk, readSlots, Parser.bind_eq_ok_iff] at h
      obtain ⟨k', c₁, hread, h⟩ := h
      rw [Parser.bind_eq_ok_iff] at h
      obtain ⟨rest, c₂, hrest, h⟩ := h
      obtain ⟨rfl, -⟩ := Parser.pure_eq_ok_iff.1 h
      have hne : k' ≠ .unusable := Constant.ne_unusable_of_read hread
      exact .next (by simp [hne, hk]) (ih hrest)
    | true =>
      rw [hk, readSlots, Parser.bind_eq_ok_iff] at h
      obtain ⟨rest, c₁, hrest, h⟩ := h
      obtain ⟨rfl, -⟩ := Parser.pure_eq_ok_iff.1 h
      have hnarrow : Constant.unusable.isWide = false := rfl
      exact .next (by simp [hk]) (ih (hnarrow ▸ hrest))

namespace Behind

variable {k : Constant} {n : Nat} {slots : List Constant}

/-- **How many slots there are**: as many as are to come, and one more if the last of them, or the
one in front of all of them, holds a wide entry. -/
theorem length_eq (h : Behind k n slots) :
    slots.length = n + ((k :: slots)[n]?.any Constant.isWide).toNat := by
  induction h with
  | done narrow => simp [narrow]
  | overhang wide => simp [wide]
  | next _ _ ih =>
    rw [List.length_cons, List.getElem?_cons_succ, ih]
    omega

/-- There is one slot more at most. -/
theorem length_le (h : Behind k n slots) : slots.length ≤ n + 1 := by
  rw [h.length_eq]
  exact Nat.add_le_add_left (Bool.toNat_le _) n

/-- **A slot holds nothing exactly if the one in front of it holds a wide entry**, and behind a wide
entry there always is a slot. -/
theorem getElem?_eq_unusable_iff (h : Behind k n slots) {i : Nat} :
    slots[i]? = some .unusable ↔ ∃ a, (k :: slots)[i]? = some a ∧ a.isWide = true := by
  induction h generalizing i with
  | done narrow => cases i <;> simp [narrow]
  | overhang wide =>
    match i with
    | 0 => simp [wide]
    | 1 => simp [Constant.isWide]
    | i + 2 => simp
  | next unusable _ ih =>
    cases i with
    | zero => simp [unusable]
    | succ i => exact ih

end Behind

/-! ## Whole pools -/

/-- A pool has `n` slots, of which slot zero holds nothing, and each wide entry is followed by a
slot among them that holds nothing. -/
structure IsAccurate (pool : ConstantPool) (n : Nat) : Prop where
  /-- There are `n` slots. -/
  size_eq : pool.size = n
  /-- No other slot can be asked for. -/
  beyond : ∀ i : UInt16, n ≤ i.toNat → pool.get? i = none
  /-- Slot zero holds nothing. -/
  zero : pool.get? 0 = some .unusable
  /-- A wide entry is followed by a slot that holds nothing. -/
  wide : ∀ (i : UInt16) (k : Constant), pool.get? i = some k → k.isWide = true →
    i.toNat + 1 < n ∧ pool.get? (i + 1) = some .unusable

/-- The last one of `n` slots holds a wide entry. -/
def Overhangs (pool : ConstantPool) (n : UInt16) : Prop :=
  ∃ k, pool.get? (n - 1) = some k ∧ k.isWide = true

section Read

variable {o : Nat} {count : UInt16} {bytes : List UInt8} {pool : ConstantPool} {d : Cursor}

/-- Slot zero of a pool that is read holds nothing, and the others stand behind it. -/
theorem exists_behind_of_read (h : read ⟨o, wordBytes count ++ bytes⟩ = .ok (pool, d)) :
    ∃ slots, pool.size = slots.length + 1 ∧
      (∀ i, pool.get? i = (Constant.unusable :: slots)[i.toNat]?) ∧
      Behind .unusable (count.toNat - 1) slots := by
  simp only [read, Parser.bind_eq_ok_iff, Parser.pure_eq_ok_iff] at h
  obtain ⟨found, c₁, hfound, slots, c₂, hslots, rfl, -⟩ := h
  have hmoves : Cursor.Moves ⟨o, wordBytes count ++ bytes⟩ (wordBytes count) ⟨o + 2, bytes⟩ :=
    ⟨rfl, rfl⟩
  rw [Reader.u2_eq_ok_iff.2 hmoves] at hfound
  cases hfound
  have hnarrow : Constant.unusable.isWide = false := rfl
  refine ⟨slots, List.size_toArray, fun i => ?_, behind_of_readSlots (hnarrow ▸ hslots)⟩
  rw [get?, List.getElem?_toArray]

/-- How many slots a pool has that is read. -/
theorem size_of_read (h : read ⟨o, wordBytes count ++ bytes⟩ = .ok (pool, d))
    (hcount : 1 ≤ count.toNat) :
    pool.size = count.toNat + ((pool.get? (count - 1)).any Constant.isWide).toNat := by
  obtain ⟨slots, hsize, hget, hbehind⟩ := exists_behind_of_read h
  have hlast : (count - 1).toNat = count.toNat - 1 := UInt16.toNat_sub_of_le count 1 hcount
  rw [hsize, hget, hlast, hbehind.length_eq]
  omega

/-- A slot of a pool that is read holds nothing exactly if it is slot zero or right behind a wide
entry. -/
theorem get?_eq_unusable_iff (h : read ⟨o, wordBytes count ++ bytes⟩ = .ok (pool, d)) {i : UInt16} :
    pool.get? i = some .unusable ↔ i = 0 ∨ ∃ (j : UInt16) (k : Constant),
      i.toNat = j.toNat + 1 ∧ pool.get? j = some k ∧ k.isWide = true := by
  obtain ⟨slots, -, hget, hbehind⟩ := exists_behind_of_read h
  have hbehind' : ∀ j : Nat, (Constant.unusable :: slots)[j + 1]? = some .unusable ↔
      ∃ k, (Constant.unusable :: slots)[j]? = some k ∧ k.isWide = true :=
    fun j => hbehind.getElem?_eq_unusable_iff
  by_cases hzero : i = 0
  · subst hzero
    simp [hget]
  · have hpos : 1 ≤ i.toNat := by
      rw [Nat.one_le_iff_ne_zero]
      exact fun hnat => hzero (UInt16.toNat_inj.1 hnat)
    have hi : i.toNat = (i - 1).toNat + 1 := by
      have hbefore : (i - 1).toNat = i.toNat - 1 := UInt16.toNat_sub_of_le i 1 hpos
      omega
    simp only [hget, hzero, false_or]
    rw [hi, hbehind']
    constructor
    · rintro ⟨k, hk, hwide⟩
      exact ⟨i - 1, k, rfl, hk, hwide⟩
    · rintro ⟨j, k, hj, hk, hwide⟩
      exact ⟨k, Nat.succ.inj hj ▸ hk, hwide⟩

/-- A pool that is read is accurate for the number of slots that it has. -/
theorem isAccurate_size (h : read ⟨o, wordBytes count ++ bytes⟩ = .ok (pool, d)) :
    pool.IsAccurate pool.size := by
  obtain ⟨slots, hsize, hget, hbehind⟩ := exists_behind_of_read h
  refine ⟨rfl, fun i hi => ?_, ?_, fun i k hk hwide => ?_⟩
  · rw [hget, List.getElem?_eq_none]
    rwa [List.length_cons, ← hsize]
  · rw [hget]
    rfl
  · rw [hget] at hk
    have hnext := hbehind.getElem?_eq_unusable_iff.2 ⟨k, hk, hwide⟩
    obtain ⟨hlt, -⟩ := List.getElem?_eq_some_iff.1 hnext
    -- the place behind the entry can be told by a word as well
    have hword : i.toNat + 1 < 2 ^ 16 := by
      have hlength := hbehind.length_le
      have hcount := count.toNat_lt
      omega
    have hsucc : (i + 1).toNat = i.toNat + 1 := by
      rw [UInt16.toNat_add]
      exact Nat.mod_eq_of_lt hword
    refine ⟨by omega, ?_⟩
    rw [hget, hsucc, List.getElem?_cons_succ, hnext]

/-- **A pool has the slots that it says it has**, unless the last one of these holds a wide entry.
Then there is one slot more. In either case slot zero and the slots right behind wide entries hold
nothing, and all others hold something.

**Proof sketch.** Every slot is read behind another one, and what is behind a wide entry is filled
without reading, also where no slot is left. So the last slot decides how many there are. -/
theorem accurate_of_read (h : read ⟨o, wordBytes count ++ bytes⟩ = .ok (pool, d))
    (hcount : 1 ≤ count.toNat) :
    (pool.IsAccurate count.toNat ↔ ¬pool.Overhangs count) ∧
      (pool.Overhangs count → pool.IsAccurate (count.toNat + 1)) ∧
      ∀ i : UInt16, pool.get? i = some .unusable ↔ i = 0 ∨ ∃ (j : UInt16) (k : Constant),
        i.toNat = j.toNat + 1 ∧ pool.get? j = some k ∧ k.isWide = true := by
  have hsize := size_of_read h hcount
  have haccurate := isAccurate_size h
  have hlast : pool.Overhangs count ↔
      (pool.get? (count - 1)).any Constant.isWide = true := by
    rw [Overhangs, Option.any_eq_true]
  by_cases hover : pool.Overhangs count
  · rw [hlast.1 hover, Bool.toNat_true] at hsize
    rw [hsize] at haccurate
    refine ⟨⟨fun hless => ?_, fun hnot => absurd hover hnot⟩, fun _ => haccurate,
      fun i => get?_eq_unusable_iff h⟩
    have := hless.size_eq
    omega
  · rw [eq_false_of_ne_true (mt hlast.2 hover), Bool.toNat_false, Nat.add_zero] at hsize
    rw [hsize] at haccurate
    exact ⟨⟨fun _ => hover, fun _ => haccurate⟩, fun h => absurd h hover,
      fun i => get?_eq_unusable_iff h⟩

end Read

/-- A pool of five slots: behind a long number and a text, a double number stands in the last
one. -/
theorem accurate_of_read_sample :
    let bytes : List UInt8 := [5, 0, 0, 0, 0, 0, 0, 0, 1, 1, 0, 1, 120, 6, 0, 0, 0, 0, 0, 0, 0, 2]
    let pool : ConstantPool :=
      ⟨#[.unusable, .other 5, .unusable, .utf8 "x", .other 6, .unusable]⟩
    read ⟨0, wordBytes 5 ++ bytes⟩ = .ok (pool, ⟨24, []⟩) ∧ pool.Overhangs 5 ∧
      ¬pool.IsAccurate 5 ∧ pool.IsAccurate 6 := by
  intro bytes pool
  have hread : read ⟨0, wordBytes 5 ++ bytes⟩ = .ok (pool, ⟨24, []⟩) := by decide +kernel
  have hover : pool.Overhangs 5 := ⟨.other 6, by decide, by decide⟩
  obtain ⟨haccurate, hmore, -⟩ := accurate_of_read hread (by decide)
  exact ⟨hread, hover, fun h => haccurate.1 h hover, hmore hover⟩

end ConstantPool

namespace Sample

/-- What follows the number of slots in a class file: a text, a class `A` and a long number, and
then the class without any members. -/
def behindCount : List UInt8 :=
  [1, 0, 1, 65, 7, 0, 1, 5, 0, 0, 0, 0, 0, 0, 0, 0] ++ [0, 33, 0, 2, 0, 0, 0, 0, 0, 0, 0, 0, 0, 0]

/-- A class file with a long number in the last one of its four slots. -/
def fileWithLong : List UInt8 :=
  [0xca, 0xfe, 0xba, 0xbe, 0, 0, 0, 52] ++ (wordBytes 4 ++ behindCount)

/-- The constant pool of that file. -/
def poolWithLong : ConstantPool :=
  ⟨#[.unusable, .utf8 "A", .classRef 1, .other 5, .unusable]⟩

end Sample

/-- **A long number in the last slot is accepted.** The pool has a slot more than it says, to be
asked for like any other, and the class file is read. -/
theorem ConstantPool.long_in_last_slot :
    (∃ d, read ⟨8, wordBytes 4 ++ Sample.behindCount⟩ = .ok (Sample.poolWithLong, d)) ∧
      ¬Sample.poolWithLong.IsAccurate 4 ∧ Sample.poolWithLong.size = 5 ∧
      Sample.poolWithLong.get? 3 = some (.other 5) ∧ Sample.poolWithLong.get? 4 = some .unusable ∧
      (ClassFile.read Sample.fileWithLong).map ClassFile.pool = .ok Sample.poolWithLong := by
  refine ⟨⟨⟨26, Sample.behindCount.drop 16⟩, by decide +kernel⟩, fun h => ?_, by decide, by decide,
    by decide, by decide +kernel⟩
  exact absurd h.size_eq (by decide)

end ClassAccess
