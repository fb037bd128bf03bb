import ClassAccess.Proofs.ClassFile.PoolLayout
import ClassAccess.Proofs.ClassFile.References

/-!
# Constant pools, described without a reader

A constant pool is a list of entries under a number of slots. Which slot holds which entry, which
text or class a slot refers to and whether the entries fit the number of slots is said of the
entries as they are written. The pool that is read from them agrees with that in every slot.

## Main definitions

* `RawConstant.WellFormed`, `RawPool.WellFormed` — entries and pools that are as they should be.
* `RawPool.slots` — the slots of a pool, with the entries that they hold.
* `RawPool.IsUtf8`, `RawPool.IsClass` — the text in a slot, and the name of the class in a slot.
* `RawPool.Describes` — a pool holds, slot by slot, what the entries say.

## Main results

* `Constant.fill_iff` — entries fill a number of slots if each starts in one and none is left over.
* `RawPool.wellFormed_iff` — the pools that are well-formed are those that mean something.
* `RawPool.Describes.utf8_eq_ok_iff`, `RawPool.Describes.className_eq_ok_iff` — references into the
  pool lead where the description says.
-/

set_option autoImplicit false

namespace ClassAccess

/-! ## Entries -/

namespace RawConstant

/-- The kinds of entries that do not matter for access: their tags, each with the length of its
contents. These are the numbers, then strings, then what belongs to dynamic calls and to modules. -/
def otherKinds : List (UInt8 × Nat) :=
  [(3, 4), (4, 4), (5, 8), (6, 8), (8, 2), (15, 3), (16, 2), (17, 4), (18, 4), (19, 2), (20, 2)]

/-- Whether the entry takes up two slots: it is a long or a double number. -/
def isWide : RawConstant → Bool
  | other tag _ => tag = 5 || tag = 6
  | _ => false

/-- A text is encoded well and fits its length word, and an entry of another kind has contents of
the right length. -/
def WellFormed : RawConstant → Prop
  | utf8 encoded => encoded.length < 0x10000 ∧ ∃ text, ModifiedUtf8.decode encoded = some text
  | other tag contents => (tag, contents.length) ∈ otherKinds
  | _ => True

/-- The slots of entries in a row: a wide entry is followed by a slot that holds nothing. -/
def inSlots (raws : List RawConstant) : List (Option RawConstant) :=
  raws.flatMap fun raw => if raw.isWide then [some raw, none] else [some raw]

/-- The length of the contents of an entry, by its tag. -/
theorem otherLength?_eq_some_iff {tag : UInt8} {n : Nat} :
    Constant.otherLength? tag = some n ↔ (tag, n) ∈ otherKinds := by
  constructor
  · intro h
    rw [Constant.otherLength?] at h
    split_ifs at h with h₁ h₂ h₃ h₄ <;> cases h
    all_goals simp_all [otherKinds, or_assoc]
  · intro h
    simp only [otherKinds, List.mem_cons, Prod.mk.injEq, List.not_mem_nil, or_false] at h
    rcases h with ⟨rfl, rfl⟩ | ⟨rfl, rfl⟩ | ⟨rfl, rfl⟩ | ⟨rfl, rfl⟩ | ⟨rfl, rfl⟩ | ⟨rfl, rfl⟩ |
      ⟨rfl, rfl⟩ | ⟨rfl, rfl⟩ | ⟨rfl, rfl⟩ | ⟨rfl, rfl⟩ | ⟨rfl, rfl⟩ <;> rfl

/-- The well-formed entries are those that say something. -/
theorem wellFormed_iff {raw : RawConstant} : raw.WellFormed ↔ ∃ k, raw.meaning? = some k := by
  cases raw with
  | utf8 encoded => simp [WellFormed, meaning?_utf8_eq_some_iff]
  | other tag contents =>
    simp [WellFormed, meaning?_other_eq_some_iff, ← otherLength?_eq_some_iff]
  | classRef _ | nameAndType _ _ | fieldRef _ _ | methodRef _ _ | interfaceMethodRef _ _ =>
    exact ⟨fun _ => ⟨_, rfl⟩, fun _ => trivial⟩

/-- Entries that are well-formed say something, each of them. -/
theorem exists_meanings {raws : List RawConstant} (h : ∀ raw ∈ raws, raw.WellFormed) :
    ∃ ks : List Constant, List.Forall₂ (fun raw k => raw.meaning? = some k) raws ks := by
  induction raws with
  | nil => exact ⟨[], .nil⟩
  | cons raw raws ih =>
    obtain ⟨hraw, hraws⟩ := List.forall_mem_cons.1 h
    obtain ⟨k, hk⟩ := wellFormed_iff.1 hraw
    obtain ⟨ks, hks⟩ := ih hraws
    exact ⟨k :: ks, .cons hk hks⟩

/-- What an entry says is wide if it is. -/
theorem isWide_of_meaning? {raw : RawConstant} {k : Constant} (h : raw.meaning? = some k) :
    k.isWide = raw.isWide := by
  cases raw with
  | utf8 encoded =>
    obtain ⟨-, text, -, rfl⟩ := meaning?_utf8_eq_some_iff.1 h
    rfl
  | other tag contents =>
    obtain ⟨-, rfl⟩ := meaning?_other_eq_some_iff.1 h
    rfl
  | classRef _ | nameAndType _ _ | fieldRef _ _ | methodRef _ _ | interfaceMethodRef _ _ =>
    cases h
    rfl

/-- An entry says a text if it is one. -/
theorem meaning?_eq_utf8_iff {raw : RawConstant} {text : String} :
    raw.meaning? = some (.utf8 text) ↔
      ∃ encoded cs, raw = utf8 encoded ∧ encoded.length < 0x10000 ∧
        ModifiedUtf8.decode encoded = some cs ∧ String.ofList cs = text := by
  cases raw with
  | utf8 encoded => simp [meaning?_utf8_eq_some_iff]
  | other tag contents => simp [meaning?_other_eq_some_iff]
  | classRef _ | nameAndType _ _ | fieldRef _ _ | methodRef _ _ | interfaceMethodRef _ _ =>
    simp [meaning?]

/-- An entry says a class if it is one. -/
theorem meaning?_eq_classRef_iff {raw : RawConstant} {u : UInt16} :
    raw.meaning? = some (.classRef u) ↔ raw = classRef u := by
  cases raw with
  | classRef _ => simp [meaning?]
  | utf8 encoded => simp [meaning?_utf8_eq_some_iff]
  | other tag contents => simp [meaning?_other_eq_some_iff]
  | nameAndType _ _ | fieldRef _ _ | methodRef _ _ | interfaceMethodRef _ _ => simp [meaning?]

end RawConstant

/-! ## Slots -/

/-- What a slot holds, by the entry in it. -/
def slotMeaning? : Option RawConstant → Option Constant
  | none => some .unusable
  | some raw => raw.meaning?

/-- Entries fill slots like what they say. -/
theorem Constant.map_inSlots {raws : List RawConstant} {ks : List Constant}
    (hks : List.Forall₂ (fun raw k => raw.meaning? = some k) raws ks) :
    (RawConstant.inSlots raws).map slotMeaning? = (inSlots ks).map some := by
  induction hks with
  | nil => rfl
  | @cons raw k raws ks hk _ ih =>
    simp only [inSlots, RawConstant.inSlots] at ih ⊢
    rw [List.flatMap_cons, List.flatMap_cons, List.map_append, List.map_append, ih,
      RawConstant.isWide_of_meaning? hk]
    cases raw.isWide <;> simp [slotMeaning?, hk]

/-- **Entries fill a number of slots** if each of them starts in one and none is left over.

**Proof sketch.** Induction on the entries. Behind the first one there are one or two slots less. -/
theorem Constant.fill_iff {n : Nat} {raws : List RawConstant} {ks : List Constant}
    (hks : List.Forall₂ (fun raw k => raw.meaning? = some k) raws ks) :
    Fill n ks ↔
      (∀ before raw after, raws = before ++ raw :: after →
        (RawConstant.inSlots before).length < n) ∧ n ≤ (RawConstant.inSlots raws).length := by
  induction hks generalizing n with
  | nil => cases n <;> simp [Fill, RawConstant.inSlots]
  | @cons raw k raws ks hk _ ih =>
    -- how many slots the first entry takes up
    obtain ⟨w, hpos, hwidth, hleft⟩ : ∃ w, 0 < w ∧
        (∀ rs, (RawConstant.inSlots (raw :: rs)).length = w + (RawConstant.inSlots rs).length) ∧
        ∀ n, (if raw.isWide then n - 1 else n) = n + 1 - w := by
      refine ⟨if raw.isWide then 2 else 1, ?_, fun rs => ?_, fun n => ?_⟩
      · split <;> omega
      · rw [RawConstant.inSlots, List.flatMap_cons, List.length_append]
        cases raw.isWide <;> rfl
      · split <;> omega
    cases n with
    | zero =>
      constructor
      · exact False.elim
      · exact fun h => absurd (h.1 [] raw raws rfl) (Nat.not_lt_zero _)
    | succ n =>
      rw [Fill, ih, RawConstant.isWide_of_meaning? hk, hwidth, hleft]
      constructor
      · rintro ⟨hstart, hfilled⟩
        refine ⟨fun before raw' after hsplit => ?_, by omega⟩
        cases before with
        | nil => exact Nat.succ_pos n
        | cons _ before =>
          cases hsplit
          have := hstart before raw' after rfl
          rw [hwidth]
          omega
      · rintro ⟨hstart, hfilled⟩
        refine ⟨fun before raw' after hsplit => ?_, by omega⟩
        have := hstart (raw :: before) raw' after (congrArg (raw :: ·) hsplit)
        rw [hwidth] at this
        omega

/-! ## Pools -/

namespace RawPool

/-- The slots of a pool: slot zero holds nothing, then come those of the entries. -/
def slots (raw : RawPool) : List (Option RawConstant) :=
  none :: RawConstant.inSlots raw.constants

/-- Slot `index` holds the entry `k`. -/
def Holds (raw : RawPool) (index : UInt16) (k : RawConstant) : Prop :=
  raw.slots[index.toNat]? = some (some k)

/-- Slot `index` holds a text. -/
def IsUtf8 (raw : RawPool) (index : UInt16) (text : String) : Prop :=
  ∃ encoded cs, raw.Holds index (.utf8 encoded) ∧ ModifiedUtf8.decode encoded = some cs ∧
    String.ofList cs = text

/-- Slot `index` holds a class, whose name is a text in a slot of its own. -/
def IsClass (raw : RawPool) (index : UInt16) (name : String) : Prop :=
  ∃ u, raw.Holds index (.classRef u) ∧ raw.IsUtf8 u name

/-- The entries are as they should be and fit the number of slots. -/
structure WellFormed (raw : RawPool) : Prop where
  /-- Each entry is as it should be. -/
  constants : ∀ k ∈ raw.constants, k.WellFormed
  /-- Each entry starts in one of the slots. A wide entry may start in the last one. -/
  declared : ∀ before k after, raw.constants = before ++ k :: after →
    1 + (RawConstant.inSlots before).length < raw.count.toNat
  /-- No slot is left over. -/
  filled : raw.count.toNat ≤ raw.slots.length

/-- The pool holds, slot by slot, what the entries say. -/
def Describes (raw : RawPool) (pool : ConstantPool) : Prop :=
  raw.slots.map slotMeaning? = pool.slots.toList.map some

variable {raw : RawPool} {pool : ConstantPool} {index : UInt16}

/-- The entries of a pool that means something say what is in its slots. -/
theorem Means.describes (h : raw.Means pool) : raw.Describes pool := by
  obtain ⟨ks, hks, -, hslots⟩ := h
  rw [Describes, slots, hslots, List.map_cons,
    Constant.map_inSlots (RawConstant.map_meaning?_eq_iff.1 hks)]
  rfl

/-- **The well-formed pools are those that mean something.** -/
theorem wellFormed_iff : raw.WellFormed ↔ ∃ pool, raw.Means pool := by
  have hcount : (RawConstant.inSlots raw.constants).length + 1 = raw.slots.length := rfl
  constructor
  · rintro ⟨hconstants, hdeclared, hfilled⟩
    obtain ⟨ks, hks⟩ := RawConstant.exists_meanings hconstants
    refine ⟨⟨_⟩, ks, RawConstant.map_meaning?_eq_iff.2 hks,
      (Constant.fill_iff hks).2 ⟨fun before k after hsplit => ?_, by omega⟩, rfl⟩
    have := hdeclared before k after hsplit
    omega
  · rintro ⟨pool, ks, hks, hfill, -⟩
    obtain ⟨hstart, hfilled⟩ := (Constant.fill_iff (RawConstant.map_meaning?_eq_iff.1 hks)).1 hfill
    refine ⟨fun k hk => ?_, fun before k after hsplit => ?_, by omega⟩
    · have hmem : k.meaning? ∈ ks.map some := hks ▸ List.mem_map_of_mem hk
      obtain ⟨k', -, hk'⟩ := List.mem_map.1 hmem
      exact RawConstant.wellFormed_iff.2 ⟨k', hk'.symm⟩
    · have := hstart before k after hsplit
      omega

namespace Describes

/-- A slot of the pool holds what the entry in it says, and each entry in a slot says something. -/
theorem slot (h : raw.Describes pool) (index : UInt16) :
    (raw.slots[index.toNat]?).map slotMeaning? = (pool.get? index).map some := by
  have hslot := congrArg (·[index.toNat]?) h
  simpa only [List.getElem?_map, Array.getElem?_toList, ConstantPool.get?] using hslot

/-- What a slot of the pool holds is what its entry says. -/
theorem get?_eq_some_iff (h : raw.Describes pool) {k : Constant} :
    pool.get? index = some k ↔
      ∃ slot, raw.slots[index.toNat]? = some slot ∧ slotMeaning? slot = some k := by
  have hslot := h.slot index
  cases hget : pool.get? index with
  | none =>
    rw [hget, Option.map_none, Option.map_eq_none_iff] at hslot
    simp [hslot]
  | some k' =>
    rw [hget, Option.map_some, Option.map_eq_some_iff] at hslot
    obtain ⟨slot, hslot, hmeaning⟩ := hslot
    simp [hslot, hmeaning]

/-- An entry in a slot says something. -/
theorem meant (h : raw.Describes pool) {k : RawConstant} (hk : raw.Holds index k) :
    k.WellFormed := by
  have hslot := h.slot index
  rw [hk, Option.map_some, eq_comm, Option.map_eq_some_iff] at hslot
  obtain ⟨k', -, hk'⟩ := hslot
  exact RawConstant.wellFormed_iff.2 ⟨k', hk'.symm⟩

/-- **The text in a slot** is the one in the description. -/
theorem utf8_eq_ok_iff (h : raw.Describes pool) {text : String} :
    pool.utf8 index = .ok text ↔ raw.IsUtf8 index text := by
  rw [ConstantPool.utf8_eq_ok_iff, h.get?_eq_some_iff]
  constructor
  · rintro ⟨_ | k, hslot, hmeaning⟩
    · cases hmeaning
    · obtain ⟨encoded, cs, rfl, -, hdecode, htext⟩ := RawConstant.meaning?_eq_utf8_iff.1 hmeaning
      exact ⟨encoded, cs, hslot, hdecode, htext⟩
  · rintro ⟨encoded, cs, hslot, hdecode, htext⟩
    have hlength : encoded.length < 0x10000 := (h.meant hslot).1
    exact ⟨_, hslot, RawConstant.meaning?_eq_utf8_iff.2
      ⟨encoded, cs, rfl, hlength, hdecode, htext⟩⟩

/-- **The name of the class in a slot** is the one in the description. -/
theorem className_eq_ok_iff (h : raw.Describes pool) {name : String} :
    pool.className index = .ok name ↔ raw.IsClass index name := by
  have hclass : ∀ u, pool.get? index = some (.classRef u) ↔ raw.Holds index (.classRef u) := by
    intro u
    rw [h.get?_eq_some_iff]
    constructor
    · rintro ⟨_ | k, hslot, hmeaning⟩
      · cases hmeaning
      · cases RawConstant.meaning?_eq_classRef_iff.1 hmeaning
        exact hslot
    · exact fun hslot => ⟨_, hslot, RawConstant.meaning?_eq_classRef_iff.2 rfl⟩
  rw [ConstantPool.className_eq_ok_iff, IsClass]
  simp only [hclass, ← ConstantPool.utf8_eq_ok_iff, h.utf8_eq_ok_iff]

/-- A slot holds one text at most. -/
theorem isUtf8_unique (h : raw.Describes pool) {text text' : String} (ht : raw.IsUtf8 index text)
    (ht' : raw.IsUtf8 index text') : text = text' := by
  rw [← h.utf8_eq_ok_iff] at ht ht'
  exact Except.ok.inj (ht.symm.trans ht')

end Describes

end RawPool

end ClassAccess
