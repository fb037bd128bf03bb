import ClassAccess.ClassFile.ConstantPool
import ClassAccess.Proofs.ClassFile.Exact

/-!
# How a constant pool is written

A constant pool is the number of its slots and then its entries, each a tag and its contents. The
number fixes how many entries there are: a wide entry fills two slots, and the entries go on until
the slots are filled.

## Main definitions

* `RawConstant` — an entry as it is written.
* `Constant.inSlots` — the slots that entries fill.
* `Constant.Fill` — entries fill a number of slots.
* `RawPool` — a pool as it is written.

## Main results

* `Constant.read_exact` — entries are read as they are written.
* `ConstantPool.read_exact` — and so are pools.
-/

set_option autoImplicit false

namespace ClassAccess

/-! ## Entries -/

/-- An entry of a constant pool as it is written. -/
inductive RawConstant
  /-- A text, by its encoded form. -/
  | utf8 (encoded : List UInt8)
  /-- A class, by the slot of its name. -/
  | classRef (name : UInt16)
  /-- A name with a descriptor, by their slots. -/
  | nameAndType (name descriptor : UInt16)
  /-- A field, by the slots of its class and of its name and type. -/
  | fieldRef (owner nameAndType : UInt16)
  /-- A method of a class, by the slots of its class and of its name and type. -/
  | methodRef (owner nameAndType : UInt16)
  /-- A method of an interface, by the slots of the interface and of its name and type. -/
  | interfaceMethodRef (owner nameAndType : UInt16)
  /-- An entry of another kind, by its tag and its contents. -/
  | other (tag : UInt8) (contents : List UInt8)
deriving DecidableEq

namespace RawConstant

/-- The bytes of an entry: its tag and its contents. -/
def bytes : RawConstant → List UInt8
  | utf8 encoded => [1] ++ (wordBytes (UInt16.ofNat encoded.length) ++ encoded)
  | classRef name => [7] ++ wordBytes name
  | fieldRef owner member => [9] ++ (wordBytes owner ++ wordBytes member)
  | methodRef owner member => [10] ++ (wordBytes owner ++ wordBytes member)
  | interfaceMethodRef owner member => [11] ++ (wordBytes owner ++ wordBytes member)
  | nameAndType name descriptor => [12] ++ (wordBytes name ++ wordBytes descriptor)
  | other tag contents => [tag] ++ contents

/-- What an entry says: a text has to be encoded well and to fit its length word, and an entry of
another kind has to have the length of its kind. -/
def meaning? : RawConstant → Option Constant
  | utf8 encoded =>
    if encoded.length < 0x10000 then
      (ModifiedUtf8.decode encoded).map fun text => .utf8 (String.ofList text)
    else none
  | classRef name => some (.classRef name)
  | fieldRef owner member => some (.fieldRef owner member)
  | methodRef owner member => some (.methodRef owner member)
  | interfaceMethodRef owner member => some (.interfaceMethodRef owner member)
  | nameAndType name descriptor => some (.nameAndType name descriptor)
  | other tag contents =>
    if Constant.otherLength? tag = some contents.length then some (.other tag) else none

/-- A text says what it encodes, if it fits its length word. -/
theorem meaning?_utf8_eq_some_iff {encoded : List UInt8} {k : Constant} :
    (utf8 encoded).meaning? = some k ↔ encoded.length < 0x10000 ∧
      ∃ text, ModifiedUtf8.decode encoded = some text ∧ .utf8 (String.ofList text) = k := by
  rw [meaning?]
  split
  · next hlt => simp [hlt]
  · next hlt => simp [hlt]

/-- An entry of another kind says that kind, if it has the length of it. -/
theorem meaning?_other_eq_some_iff {tag : UInt8} {contents : List UInt8} {k : Constant} :
    (other tag contents).meaning? = some k ↔
      Constant.otherLength? tag = some contents.length ∧ .other tag = k := by
  rw [meaning?]
  split
  · next hlength => simp [hlength]
  · next hlength => simp [hlength]

/-- Entries say something in a row if they do so one by one. -/
theorem map_meaning?_eq_iff {raws : List RawConstant} {ks : List Constant} :
    raws.map meaning? = ks.map some ↔
      List.Forall₂ (fun raw k => raw.meaning? = some k) raws ks := by
  rw [← List.forall₂_eq_eq_eq, List.forall₂_map_left_iff, List.forall₂_map_right_iff]

end RawConstant

namespace Reader

/-- Two words in a row, as the contents of a reference. -/
theorem twoWords_eq_ok_iff {α : Type} {make : UInt16 → UInt16 → α} {c d : Cursor} {k : α} :
    (do return make (← u2) (← u2) : Reader α) c = .ok (k, d) ↔
      ∃ v w, k = make v w ∧ c.Moves (wordBytes v ++ wordBytes w) d := by
  simp only [Parser.bind_eq_ok_iff, u2_eq_ok_iff, Parser.pure_eq_ok_iff]
  constructor
  · rintro ⟨v, c₁, h₁, w, c₂, h₂, rfl, rfl⟩
    exact ⟨v, w, rfl, h₁.trans h₂⟩
  · rintro ⟨v, w, rfl, h⟩
    obtain ⟨c₁, h₁, h₂⟩ := h.split
    exact ⟨v, c₁, h₁, w, d, h₂, rfl, rfl⟩

end Reader

namespace Constant

/-- A tag by its number. -/
private theorem tag_eq {tag : UInt8} {n : Nat} (h : tag.toNat = n) : tag = UInt8.ofNat n := by
  rw [← h, UInt8.ofNat_toNat]

/-- A tag that is read as another kind of entry is not the tag of a text or of a reference. -/
theorem toNat_of_otherLength? {tag : UInt8} {n : Nat} (h : otherLength? tag = some n) :
    tag.toNat ≠ 1 ∧ tag.toNat ≠ 7 ∧ tag.toNat ≠ 9 ∧ tag.toNat ≠ 10 ∧ tag.toNat ≠ 11 ∧
      tag.toNat ≠ 12 := by
  have hnone : ∀ k ∈ [1, 7, 9, 10, 11, 12], otherLength? (UInt8.ofNat k) = none := by decide
  have hne : ∀ k : Nat, k ∈ [1, 7, 9, 10, 11, 12] → tag.toNat ≠ k := by
    intro k hk he
    rw [tag_eq he, hnone k hk] at h
    cases h
  exact ⟨hne 1 (by decide), hne 7 (by decide), hne 9 (by decide), hne 10 (by decide),
    hne 11 (by decide), hne 12 (by decide)⟩

/-- What is read is an entry as it is written. -/
theorem exists_raw_of_read {index : Nat} {c d : Cursor} {k : Constant}
    (h : read index c = .ok (k, d)) :
    ∃ raw : RawConstant, raw.meaning? = some k ∧ c.Moves raw.bytes d := by
  rw [read, Parser.bind_eq_ok_iff] at h
  obtain ⟨tag, c₁, htag, h⟩ := h
  rw [Reader.u1_eq_ok_iff] at htag
  -- the tag decides what follows it
  generalize hn : tag.toNat = n at h
  split at h
  · cases tag_eq hn
    simp only [Parser.bind_eq_ok_iff, Reader.u2_eq_ok_iff, Reader.take_eq_ok_iff_moves] at h
    obtain ⟨length, c₂, hlen, encoded, c₃, ⟨hl, hm⟩, h⟩ := h
    cases hdec : ModifiedUtf8.decode encoded with
    | none =>
      rw [hdec] at h
      exact absurd h Parser.throw_ne_ok
    | some text =>
      rw [hdec] at h
      obtain ⟨rfl, rfl⟩ := Parser.pure_eq_ok_iff.1 h
      refine ⟨.utf8 encoded, ?_, htag.trans (Cursor.Moves.trans ?_ hm)⟩
      · exact RawConstant.meaning?_utf8_eq_some_iff.2 ⟨hl ▸ length.toNat_lt, text, hdec, rfl⟩
      · rwa [hl, UInt16.ofNat_toNat]
  · cases tag_eq hn
    simp only [Parser.bind_eq_ok_iff, Reader.u2_eq_ok_iff, Parser.pure_eq_ok_iff] at h
    obtain ⟨name, c₂, hm, rfl, rfl⟩ := h
    exact ⟨.classRef name, rfl, htag.trans hm⟩
  · cases tag_eq hn
    obtain ⟨v, w, rfl, hm⟩ := Reader.twoWords_eq_ok_iff.1 h
    exact ⟨.fieldRef v w, rfl, htag.trans hm⟩
  · cases tag_eq hn
    obtain ⟨v, w, rfl, hm⟩ := Reader.twoWords_eq_ok_iff.1 h
    exact ⟨.methodRef v w, rfl, htag.trans hm⟩
  · cases tag_eq hn
    obtain ⟨v, w, rfl, hm⟩ := Reader.twoWords_eq_ok_iff.1 h
    exact ⟨.interfaceMethodRef v w, rfl, htag.trans hm⟩
  · cases tag_eq hn
    obtain ⟨v, w, rfl, hm⟩ := Reader.twoWords_eq_ok_iff.1 h
    exact ⟨.nameAndType v w, rfl, htag.trans hm⟩
  · cases ho : otherLength? tag with
    | none =>
      rw [ho] at h
      exact absurd h Parser.throw_ne_ok
    | some length =>
      rw [ho] at h
      simp only [Parser.bind_eq_ok_iff, Reader.skip_eq_ok_iff, Parser.pure_eq_ok_iff] at h
      obtain ⟨-, c₂, ⟨contents, rfl, hm⟩, rfl, rfl⟩ := h
      exact ⟨.other tag contents, RawConstant.meaning?_other_eq_some_iff.2 ⟨ho, rfl⟩, htag.trans hm⟩

/-- An entry that says something is read. -/
theorem read_of_raw (index : Nat) {c d : Cursor} {raw : RawConstant} {k : Constant}
    (hk : raw.meaning? = some k) (h : c.Moves raw.bytes d) : read index c = .ok (k, d) := by
  cases raw with
  | utf8 encoded =>
    obtain ⟨hlt, text, hdec, rfl⟩ := RawConstant.meaning?_utf8_eq_some_iff.1 hk
    obtain ⟨c₁, h₁, h₂⟩ := h.split
    obtain ⟨c₂, h₂, h₃⟩ := h₂.split
    rw [read, Parser.bind_eq_ok_iff]
    refine ⟨1, c₁, Reader.u1_eq_ok_iff.2 h₁, ?_⟩
    simp only [UInt8.reduceToNat, Parser.bind_eq_ok_iff, Reader.u2_eq_ok_iff,
      Reader.take_eq_ok_iff_moves]
    refine ⟨_, c₂, h₂, encoded, d, ⟨?_, h₃⟩, ?_⟩
    · rw [UInt16.toNat_ofNat_of_lt' hlt]
    · rw [hdec]
      exact Parser.pure_eq_ok_iff.2 ⟨rfl, rfl⟩
  | other tag contents =>
    obtain ⟨ho, rfl⟩ := RawConstant.meaning?_other_eq_some_iff.1 hk
    obtain ⟨c₁, h₁, h₂⟩ := h.split
    rw [read, Parser.bind_eq_ok_iff]
    refine ⟨tag, c₁, Reader.u1_eq_ok_iff.2 h₁, ?_⟩
    have hne := toNat_of_otherLength? ho
    generalize tag.toNat = n at hne
    split <;> try omega
    rw [ho]
    simp only [Parser.bind_eq_ok_iff, Reader.skip_eq_ok_iff, Parser.pure_eq_ok_iff]
    exact ⟨(), d, ⟨contents, rfl, h₂⟩, trivial, rfl⟩
  | classRef name =>
    cases hk
    obtain ⟨c₁, h₁, h₂⟩ := h.split
    rw [read, Parser.bind_eq_ok_iff]
    refine ⟨7, c₁, Reader.u1_eq_ok_iff.2 h₁, ?_⟩
    simp only [UInt8.reduceToNat, Parser.bind_eq_ok_iff, Reader.u2_eq_ok_iff, Parser.pure_eq_ok_iff]
    exact ⟨name, d, h₂, rfl, rfl⟩
  | fieldRef v w | methodRef v w | interfaceMethodRef v w | nameAndType v w =>
    cases hk
    obtain ⟨c₁, h₁, h₂⟩ := h.split
    rw [read, Parser.bind_eq_ok_iff]
    exact ⟨_, c₁, Reader.u1_eq_ok_iff.2 h₁, Reader.twoWords_eq_ok_iff.2 ⟨v, w, rfl, h₂⟩⟩

/-- **Entries are read as they are written.** -/
theorem read_exact (index : Nat) :
    (read index).Exact RawConstant.bytes fun _ raw k => raw.meaning? = some k := fun _ _ _ =>
  ⟨exists_raw_of_read, fun ⟨_, hk, h⟩ => read_of_raw index hk h⟩

/-! ## Slots -/

/-- The slots that entries fill: a wide entry is followed by a slot that cannot be used. -/
def inSlots (ks : List Constant) : List Constant :=
  ks.flatMap fun k => if k.isWide then [k, .unusable] else [k]

/-- The slots of an entry and of those behind it. -/
theorem inSlots_cons (k : Constant) (ks : List Constant) :
    inSlots (k :: ks) = k :: ((if k.isWide then [.unusable] else []) ++ inSlots ks) := by
  rw [inSlots, List.flatMap_cons]
  split <;> rfl

/-- The entries fill `n` slots, where the last one may reach one slot further. -/
def Fill : (n : Nat) → (ks : List Constant) → Prop
  | 0, [] => True
  | 0, _ :: _ => False
  | _ + 1, [] => False
  | n + 1, k :: ks => Fill (if k.isWide then n - 1 else n) ks

end Constant

/-! ## Pools -/

/-- A constant pool as it is written. -/
structure RawPool where
  /-- The number of slots, slot zero included. -/
  count : UInt16
  /-- The entries. -/
  constants : List RawConstant
deriving DecidableEq

/-- The bytes of a pool: the number of slots, then the entries. -/
def RawPool.bytes (raw : RawPool) : List UInt8 :=
  wordBytes raw.count ++ raw.constants.flatMap RawConstant.bytes

/-- The entries say something, fill the slots and are what the pool holds. -/
def RawPool.Means (raw : RawPool) (pool : ConstantPool) : Prop :=
  ∃ ks : List Constant, raw.constants.map RawConstant.meaning? = ks.map some ∧
    Constant.Fill (raw.count.toNat - 1) ks ∧
    pool.slots = (Constant.unusable :: Constant.inSlots ks).toArray

namespace ConstantPool

/-- **Slots are read as their entries are written**, also behind a wide entry, which takes up the
first of them.

**Proof sketch.** Induction on the number of slots. A slot that is taken is not read. Behind an
entry that is read, one slot is taken if the entry is wide. -/
theorem readSlots_eq_ok_iff (n index : Nat) (taken : Bool) {c d : Cursor} {slots : List Constant} :
    readSlots n index taken c = .ok (slots, d) ↔
      ∃ raws : List RawConstant, ∃ ks, raws.map RawConstant.meaning? = ks.map some ∧
        Constant.Fill (if taken then n - 1 else n) ks ∧
        slots = (if taken then [.unusable] else []) ++ Constant.inSlots ks ∧
        c.Moves (raws.flatMap RawConstant.bytes) d := by
  induction n generalizing index taken c d slots with
  | zero =>
    rw [readSlots, Parser.pure_eq_ok_iff, Nat.zero_sub, ite_self]
    constructor
    · rintro ⟨rfl, rfl⟩
      exact ⟨[], [], rfl, trivial, (List.append_nil _).symm, .refl d⟩
    · rintro ⟨raws, ks, hks, hfill, rfl, hm⟩
      cases ks with
      | cons k ks => exact hfill.elim
      | nil =>
        rw [List.map_nil, List.map_eq_nil_iff] at hks
        subst hks
        exact ⟨List.append_nil _, hm.eq_of_nil⟩
  | succ n ih =>
    cases taken with
    | true =>
      simp only [readSlots, Parser.bind_eq_ok_iff, Parser.pure_eq_ok_iff, ih]
      constructor
      · rintro ⟨_, _, ⟨raws, ks, hks, hfill, rfl, hm⟩, rfl, rfl⟩
        exact ⟨raws, ks, hks, hfill, rfl, hm⟩
      · rintro ⟨raws, ks, hks, hfill, rfl, hm⟩
        exact ⟨_, d, ⟨raws, ks, hks, hfill, rfl, hm⟩, rfl, rfl⟩
    | false =>
      simp only [readSlots, Parser.bind_eq_ok_iff, Parser.pure_eq_ok_iff, ih,
        Constant.read_exact index _ _ _]
      constructor
      · rintro ⟨k, c₁, ⟨raw, hmean, hm₁⟩, _, _, ⟨raws, ks, hks, hfill, rfl, hm₂⟩, rfl, rfl⟩
        refine ⟨raw :: raws, k :: ks, ?_, hfill, (Constant.inSlots_cons k ks).symm, hm₁.trans hm₂⟩
        rw [List.map_cons, List.map_cons, hmean, hks]
      · rintro ⟨raws, ks, hks, hfill, rfl, hm⟩
        cases ks with
        | nil => exact hfill.elim
        | cons k ks =>
          cases raws with
          | nil => cases hks
          | cons raw raws =>
            rw [List.map_cons, List.map_cons, List.cons.injEq] at hks
            rw [List.flatMap_cons] at hm
            obtain ⟨c₁, hm₁, hm₂⟩ := hm.split
            exact ⟨k, c₁, ⟨raw, hks.1, hm₁⟩, _, d, ⟨raws, ks, hks.2, hfill, rfl, hm₂⟩,
              Constant.inSlots_cons k ks, rfl⟩

/-- **Pools are read as they are written.** -/
theorem read_exact : read.Exact RawPool.bytes fun _ raw pool => raw.Means pool := by
  intro c pool d
  simp only [read, Parser.bind_eq_ok_iff, Reader.u2_eq_ok_iff, Parser.pure_eq_ok_iff,
    readSlots_eq_ok_iff, if_neg Bool.false_ne_true, List.nil_append]
  constructor
  · rintro ⟨count, c₁, hm₁, slots, c₂, ⟨raws, ks, hks, hfill, rfl, hm₂⟩, rfl, rfl⟩
    exact ⟨⟨count, raws⟩, ⟨ks, hks, hfill, rfl⟩, hm₁.trans hm₂⟩
  · rintro ⟨⟨count, raws⟩, ⟨ks, hks, hfill, hslots⟩, hm⟩
    obtain ⟨c₁, hm₁, hm₂⟩ := hm.split
    refine ⟨count, c₁, hm₁, _, d, ⟨raws, ks, hks, hfill, rfl, hm₂⟩, ?_, rfl⟩
    cases pool
    exact congrArg ConstantPool.mk hslots

end ConstantPool

end ClassAccess
