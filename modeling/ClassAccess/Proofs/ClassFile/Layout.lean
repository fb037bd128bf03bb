import ClassAccess.Proofs.ClassFile.AttributeLayout
import ClassAccess.Proofs.ClassFile.PoolLayout

/-!
# How class files are written

A class file is its parts one after the other, each referring to the constant pool by slots. The
reader accepts exactly the byte strings that are written like that and mean something.

## Main definitions

* `RawMember`, `RawClass` — a field or method and a whole class, as they are written.
* `Field.Meant`, `Method.Meant`, `RawClass.Means` — what they stand for.
* `RawClass.PartsEnd` — where the parts of a class end.
* `Sample.file`, `Sample.parsed` — a small class as it is written, and what it is read as.

## Main results

* `Field.read_exact`, `Method.read_exact` — members are read as they are written.
* `ClassFile.read_eq_ok_iff` — and so are class files.
-/

set_option autoImplicit false

namespace ClassAccess

/-! ## Members -/

/-- A field or a method as it is written. -/
structure RawMember where
  /-- Its flag word. -/
  flags : Flags
  /-- The slot of its name. -/
  name : UInt16
  /-- The slot of its descriptor. -/
  descriptor : UInt16
  /-- Its attributes. -/
  attributes : List RawAttribute
deriving DecidableEq

namespace RawMember

/-- The bytes of a member: its flag word, its slots and its attributes. -/
def bytes (raw : RawMember) : List UInt8 :=
  wordBytes raw.flags ++ (wordBytes raw.name ++ (wordBytes raw.descriptor ++
    counted RawAttribute.bytes raw.attributes))

/-- What stands in front of the attribute of a member that comes behind the attributes `before`. -/
def beforeAttribute (raw : RawMember) (before : List RawAttribute) : List UInt8 :=
  wordBytes raw.flags ++ (wordBytes raw.name ++ (wordBytes raw.descriptor ++
    (wordBytes (UInt16.ofNat raw.attributes.length) ++ before.flatMap RawAttribute.bytes)))

/-- Four words and the attributes `before` are in front of it. -/
theorem length_beforeAttribute (raw : RawMember) (before : List RawAttribute) :
    (raw.beforeAttribute before).length = 8 + (before.flatMap RawAttribute.bytes).length := by
  simp only [beforeAttribute, List.length_append, length_wordBytes]
  omega

/-- An attribute in the middle of a member. -/
theorem bytes_eq_attribute {raw : RawMember} {before after : List RawAttribute} {a : RawAttribute}
    (h : raw.attributes = before ++ a :: after) :
    raw.bytes =
      raw.beforeAttribute before ++ (a.bytes ++ after.flatMap RawAttribute.bytes) := by
  have hall : raw.attributes.flatMap RawAttribute.bytes =
      before.flatMap RawAttribute.bytes ++ (a.bytes ++ after.flatMap RawAttribute.bytes) := by
    rw [h, List.flatMap_append, List.flatMap_cons]
  rw [bytes, counted, hall]
  simp only [beforeAttribute, List.append_assoc]

/-- What the members of a class have in common: their flags, the place of the flags, their name,
their descriptor, which `isDescriptor` has to accept, and their attributes `as`. -/
structure Means (pool : ConstantPool) (isDescriptor : List Char → Bool) (o : Nat) (raw : RawMember)
    (flags : Flags) (flagsOffset : Nat) (name descriptor : String) (as : List FileAttribute) :
    Prop where
  /-- The flag word is what is written. -/
  flags_eq : flags = raw.flags
  /-- It comes first. -/
  flagsOffset_eq : flagsOffset = o
  /-- The name is in its slot. -/
  name_eq : pool.utf8 raw.name = .ok name
  /-- So is the descriptor. -/
  descriptor_eq : pool.utf8 raw.descriptor = .ok descriptor
  /-- The descriptor is one. -/
  isDescriptor_eq : isDescriptor descriptor.toList = true
  /-- The number of attributes fits its word. -/
  few : raw.attributes.length < 0x10000
  /-- The attributes follow. -/
  attributes : Placed RawAttribute.bytes (RawAttribute.Means pool) (o + 8) raw.attributes as

end RawMember

namespace Reader

variable {σ α : Type}

/-- A member of which the parts make up an `α`, where `step` takes account of its attributes. -/
def member (pool : ConstantPool) (kind : MemberKind) (isDescriptor : List Char → Bool)
    (step : σ → FileAttribute → Except ClassFileError σ) (start : σ)
    (make : Flags → Nat → String → String → σ → α) : Reader α := do
  let flagsOffset ← offset
  let flags ← u2
  let name ← ofExcept (pool.utf8 (← u2))
  let descriptor ← ofExcept (pool.utf8 (← u2))
  if !isDescriptor descriptor.toList then throw (.invalidDescriptor kind descriptor)
  let attributes ← u2
  let s ← FileAttribute.fold pool step attributes.toNat start
  return make flags flagsOffset name descriptor s

/-- Members are read as they are written. -/
theorem member_eq_ok_iff {pool : ConstantPool} {kind : MemberKind} {isDescriptor : List Char → Bool}
    {step : σ → FileAttribute → Except ClassFileError σ} {start : σ}
    {make : Flags → Nat → String → String → σ → α} {c d : Cursor} {a : α} :
    member pool kind isDescriptor step start make c = .ok (a, d) ↔
      ∃ raw flags flagsOffset name descriptor as s,
        RawMember.Means pool isDescriptor c.offset raw flags flagsOffset name descriptor as ∧
        as.foldlM step start = .ok s ∧ a = make flags flagsOffset name descriptor s ∧
        c.Moves raw.bytes d := by
  simp only [member, Parser.bind_eq_ok_iff, u2_eq_ok_iff, ofExcept_eq_ok_iff, offset_eq_ok_iff]
  constructor
  · rintro ⟨o, _, ⟨rfl, rfl⟩, flags, c₁, h₁, n, c₂, h₂, name, _, ⟨hname, rfl⟩, t, c₃, h₃,
      descriptor, _, ⟨hdesc, rfl⟩, h⟩
    cases hd : isDescriptor descriptor.toList with
    | false =>
      rw [hd, Bool.not_false, if_pos rfl, Parser.bind_eq_ok_iff] at h
      obtain ⟨u, c₄, ht, -⟩ := h
      exact absurd ht Parser.throw_ne_ok
    | true =>
      rw [hd, Bool.not_true, if_neg Bool.false_ne_true] at h
      simp only [Parser.bind_eq_ok_iff, u2_eq_ok_iff, Parser.pure_eq_ok_iff] at h
      obtain ⟨k, c₄, h₄, s, c₅, h₅, rfl, rfl⟩ := h
      obtain ⟨raws, as, hlt, hp, hfold, h₆⟩ := FileAttribute.exists_counted_iff.1 ⟨k, c₄, h₄, h₅⟩
      rw [h₃.offset, h₂.offset, h₁.offset] at hp
      exact ⟨⟨flags, n, t, raws⟩, flags, _, name, descriptor, as, s,
        ⟨rfl, rfl, hname, hdesc, hd, hlt, hp⟩, hfold, rfl, h₁.trans (h₂.trans (h₃.trans h₆))⟩
  · rintro ⟨⟨flags, n, t, raws⟩, _, _, name, descriptor, as, s,
      ⟨rfl, rfl, hname, hdesc, hd, hlt, hp⟩, hfold, rfl, hm⟩
    obtain ⟨c₁, h₁, hm⟩ := hm.split
    obtain ⟨c₂, h₂, hm⟩ := hm.split
    obtain ⟨c₃, h₃, hm⟩ := hm.split
    have hoffset : c₃.offset + 2 = c.offset + 8 := by
      rw [h₃.offset, h₂.offset, h₁.offset]
      rfl
    obtain ⟨k, c₄, h₄, h₅⟩ :=
      FileAttribute.exists_counted_iff.2 ⟨raws, as, hlt, hoffset ▸ hp, hfold, hm⟩
    refine ⟨_, c, ⟨rfl, rfl⟩, _, c₁, h₁, n, c₂, h₂, name, c₂, ⟨hname, rfl⟩, t, c₃, h₃,
      descriptor, c₃, ⟨hdesc, rfl⟩, ?_⟩
    rw [hd, Bool.not_true, if_neg Bool.false_ne_true]
    simp only [Parser.bind_eq_ok_iff, u2_eq_ok_iff, Parser.pure_eq_ok_iff]
    exact ⟨k, c₄, h₄, s, d, h₅, rfl, rfl⟩

end Reader

/-- Written at offset `o`, `raw` stands for the field `f`. -/
def Field.Meant (pool : ConstantPool) (o : Nat) (raw : RawMember) (f : Field) : Prop :=
  ∃ as, RawMember.Means pool isFieldDescriptor o raw f.flags f.flagsOffset f.name f.descriptor as

/-- Written at offset `o`, `raw` stands for the method `m`. -/
def Method.Meant (pool : ConstantPool) (o : Nat) (raw : RawMember) (m : Method) : Prop :=
  ∃ as, RawMember.Means pool isMethodDescriptor o raw m.flags m.flagsOffset m.name m.descriptor as ∧
    as.foldlM Method.withAttribute none = .ok m.code

/-- What is done with the attributes of a field: nothing. -/
theorem foldlM_ok_unit (as : List FileAttribute) :
    as.foldlM (fun (_ : Unit) _ => (.ok () : Except ClassFileError Unit)) () = .ok () := by
  induction as with
  | nil => rfl
  | cons a as ih => exact ih

/-- **Fields are read as they are written.** -/
theorem Field.read_exact (pool : ConstantPool) :
    (Field.read pool).Exact RawMember.bytes (Field.Meant pool) := by
  intro c f d
  have hread : Field.read pool = Reader.member pool .field isFieldDescriptor (fun _ _ => .ok ()) ()
      fun flags o name descriptor _ => ⟨flags, o, name, descriptor⟩ := rfl
  rw [hread, Reader.member_eq_ok_iff]
  constructor
  · rintro ⟨raw, flags, o, name, descriptor, as, s, hmean, -, rfl, hm⟩
    exact ⟨raw, ⟨as, hmean⟩, hm⟩
  · rintro ⟨raw, ⟨as, hmean⟩, hm⟩
    exact ⟨raw, _, _, _, _, as, (), hmean, foldlM_ok_unit as, rfl, hm⟩

/-- **Methods are read as they are written.** -/
theorem Method.read_exact (pool : ConstantPool) :
    (Method.read pool).Exact RawMember.bytes (Method.Meant pool) := by
  intro c m d
  have hread : Method.read pool = Reader.member pool .method isMethodDescriptor
      Method.withAttribute none Method.mk := rfl
  rw [hread, Reader.member_eq_ok_iff]
  constructor
  · rintro ⟨raw, flags, o, name, descriptor, as, code, hmean, hfold, rfl, hm⟩
    exact ⟨raw, ⟨as, hmean, hfold⟩, hm⟩
  · rintro ⟨raw, ⟨as, hmean, hfold⟩, hm⟩
    exact ⟨raw, _, _, _, _, as, m.code, hmean, hfold, rfl, hm⟩

/-! ## Classes -/

/-- A class as it is written. -/
structure RawClass where
  /-- The lesser part of the version. -/
  minor : UInt16
  /-- The greater part of the version. -/
  major : UInt16
  /-- The constant pool. -/
  pool : RawPool
  /-- The flag word of the class. -/
  flags : Flags
  /-- The slot of the class. -/
  name : UInt16
  /-- The slot of the class that it extends, or zero. -/
  superName : UInt16
  /-- The slots of the interfaces that it implements. -/
  interfaces : List UInt16
  /-- Its fields. -/
  fields : List RawMember
  /-- Its methods. -/
  methods : List RawMember
  /-- Its attributes. -/
  attributes : List RawAttribute
deriving DecidableEq

namespace RawClass

/-- What comes before the flag word of the class. -/
def front (raw : RawClass) : List UInt8 :=
  (longBytes ClassFile.magic ++ (wordBytes raw.minor ++ wordBytes raw.major)) ++ raw.pool.bytes

/-- What stands between the flag word of the class and its fields, their number included. -/
def middle (raw : RawClass) : List UInt8 :=
  wordBytes raw.name ++ (wordBytes raw.superName ++ (counted wordBytes raw.interfaces ++
    wordBytes (UInt16.ofNat raw.fields.length)))

/-- The bytes of a class. -/
def bytes (raw : RawClass) : List UInt8 :=
  raw.front ++ (wordBytes raw.flags ++ (raw.middle ++ (raw.fields.flatMap RawMember.bytes ++
    (counted RawMember.bytes raw.methods ++ counted RawAttribute.bytes raw.attributes))))

/-- Where the fields start. -/
def fieldsOffset (raw : RawClass) : Nat :=
  raw.front.length + 2 + raw.middle.length

/-- Where the methods start. -/
def methodsOffset (raw : RawClass) : Nat :=
  raw.fieldsOffset + (raw.fields.flatMap RawMember.bytes).length + 2

/-- Where the attributes start. -/
def attributesOffset (raw : RawClass) : Nat :=
  raw.methodsOffset + (raw.methods.flatMap RawMember.bytes).length + 2

/-- What stands in front of the fields. -/
def beforeFields (raw : RawClass) : List UInt8 :=
  raw.front ++ (wordBytes raw.flags ++ raw.middle)

/-- What stands in front of the methods. -/
def beforeMethods (raw : RawClass) : List UInt8 :=
  raw.beforeFields ++ (raw.fields.flatMap RawMember.bytes ++
    wordBytes (UInt16.ofNat raw.methods.length))

/-- What stands in front of the attributes. -/
def beforeAttributes (raw : RawClass) : List UInt8 :=
  raw.beforeMethods ++ (raw.methods.flatMap RawMember.bytes ++
    wordBytes (UInt16.ofNat raw.attributes.length))

/-- The fields start behind what stands in front of them. -/
theorem length_beforeFields (raw : RawClass) : raw.beforeFields.length = raw.fieldsOffset := by
  simp only [beforeFields, List.length_append, length_wordBytes, fieldsOffset]
  omega

/-- The methods start behind what stands in front of them. -/
theorem length_beforeMethods (raw : RawClass) : raw.beforeMethods.length = raw.methodsOffset := by
  simp only [beforeMethods, List.length_append, length_wordBytes, methodsOffset,
    length_beforeFields]
  omega

/-- The attributes start behind what stands in front of them. -/
theorem length_beforeAttributes (raw : RawClass) :
    raw.beforeAttributes.length = raw.attributesOffset := by
  simp only [beforeAttributes, List.length_append, length_wordBytes, attributesOffset,
    length_beforeMethods]
  omega

/-- The fields in the middle of a class. -/
theorem bytes_eq_fields (raw : RawClass) :
    raw.bytes = raw.beforeFields ++ (raw.fields.flatMap RawMember.bytes ++
      (counted RawMember.bytes raw.methods ++ counted RawAttribute.bytes raw.attributes)) := by
  simp only [bytes, beforeFields, List.append_assoc]

/-- The methods in the middle of a class. -/
theorem bytes_eq_methods (raw : RawClass) :
    raw.bytes = raw.beforeMethods ++ (raw.methods.flatMap RawMember.bytes ++
      counted RawAttribute.bytes raw.attributes) := by
  rw [bytes_eq_fields, beforeMethods, counted]
  simp only [List.append_assoc]

/-- The attributes at the end of a class. -/
theorem bytes_eq_attributes (raw : RawClass) :
    raw.bytes = raw.beforeAttributes ++ (raw.attributes.flatMap RawAttribute.bytes ++ []) := by
  rw [bytes_eq_methods, beforeAttributes, counted]
  simp only [List.append_assoc, List.append_nil]

/-- The parts of a class one after the other, each list behind its length. -/
theorem bytes_eq_counted (raw : RawClass) :
    raw.bytes = raw.front ++
      ((wordBytes raw.flags ++ (wordBytes raw.name ++ wordBytes raw.superName)) ++
        (counted wordBytes raw.interfaces ++ (counted RawMember.bytes raw.fields ++
          (counted RawMember.bytes raw.methods ++
            counted RawAttribute.bytes raw.attributes)))) := by
  simp only [bytes, middle, counted, List.append_assoc]

/-- The class is written from the start of a file on: version and pool end at `p`, the words behind
them at `w`, the interfaces at `i`, the fields at `f`, the methods at `m` and the attributes at
`d`. -/
structure PartsEnd (raw : RawClass) (ahead : List UInt8) (p w i f m d : Cursor) : Prop where
  /-- Version and pool come first. -/
  front : Cursor.Moves ⟨0, ahead⟩ raw.front p
  /-- The flag word and the slots of two classes follow. -/
  words : p.Moves (wordBytes raw.flags ++ (wordBytes raw.name ++ wordBytes raw.superName)) w
  /-- Then come the interfaces, -/
  interfaces : w.Moves (counted wordBytes raw.interfaces) i
  /-- the fields, -/
  fields : i.Moves (counted RawMember.bytes raw.fields) f
  /-- the methods -/
  methods : f.Moves (counted RawMember.bytes raw.methods) m
  /-- and the attributes. -/
  attributes : m.Moves (counted RawAttribute.bytes raw.attributes) d

section PartsEnd

variable {raw : RawClass} {ahead : List UInt8} {p w i f m d : Cursor}

/-- A cursor that moves over a class passes the ends of its parts. -/
theorem moves_iff :
    Cursor.Moves ⟨0, ahead⟩ raw.bytes d ↔ ∃ p w i f m, raw.PartsEnd ahead p w i f m d := by
  rw [bytes_eq_counted]
  constructor
  · intro h
    obtain ⟨p, front, h⟩ := h.split
    obtain ⟨w, words, h⟩ := h.split
    obtain ⟨i, interfaces, h⟩ := h.split
    obtain ⟨f, fields, h⟩ := h.split
    obtain ⟨m, methods, attributes⟩ := h.split
    exact ⟨p, w, i, f, m, front, words, interfaces, fields, methods, attributes⟩
  · rintro ⟨p, w, i, f, m, front, words, interfaces, fields, methods, attributes⟩
    exact front.trans (words.trans (interfaces.trans (fields.trans (methods.trans attributes))))

namespace PartsEnd

variable (h : raw.PartsEnd ahead p w i f m d)
include h

/-- Where version and pool end. -/
theorem offset_front : p.offset = raw.front.length := by
  rw [h.front.offset, Nat.zero_add]

/-- Behind their number, the interfaces start right behind the words. -/
theorem offset_interfaces : w.offset + 2 = raw.front.length + 8 := by
  rw [h.words.offset, h.offset_front]
  rfl

/-- The fields start behind their number. -/
theorem offset_fields : i.offset + 2 = raw.fieldsOffset := by
  have hwords := h.offset_interfaces
  rw [h.interfaces.offset, fieldsOffset, middle]
  simp only [List.length_append, length_wordBytes]
  omega

/-- So do the methods. -/
theorem offset_methods : f.offset + 2 = raw.methodsOffset := by
  rw [h.fields.offset, length_counted, methodsOffset, ← h.offset_fields]
  omega

/-- So do the attributes. -/
theorem offset_attributes : m.offset + 2 = raw.attributesOffset := by
  rw [h.methods.offset, length_counted, attributesOffset, ← h.offset_methods]
  omega

end PartsEnd

end PartsEnd

/-- `raw` stands for the class `c`, whatever file that says it is from. -/
structure Means (raw : RawClass) (c : ClassFile) : Prop where
  /-- The lesser part of the version is what is written. -/
  minor : c.minor = raw.minor
  /-- So is the greater part. -/
  major : c.major = raw.major
  /-- The version is not older than the format. -/
  recent : ¬raw.major < ClassFile.oldestMajor
  /-- The pool is what is written. -/
  pool : raw.pool.Means c.pool
  /-- The flag word is what is written. -/
  flags : c.flags = raw.flags
  /-- It stands behind version and pool. -/
  offset : c.flagsOffset = raw.front.length
  /-- The name of the class is in its slot. -/
  name : c.pool.className raw.name = .ok c.name
  /-- So is the name of the class that it extends, if there is one. -/
  superName : FileAttribute.optionally c.pool.className raw.superName = .ok c.superName
  /-- So are the names of the interfaces. -/
  interfaces : Placed wordBytes (fun _ index name => c.pool.className index = .ok name)
    (raw.front.length + 8) raw.interfaces c.interfaces
  /-- The number of interfaces fits its word. -/
  fewInterfaces : raw.interfaces.length < 0x10000
  /-- The fields follow. -/
  fields : Placed RawMember.bytes (Field.Meant c.pool) raw.fieldsOffset raw.fields c.fields
  /-- Their number fits its word. -/
  fewFields : raw.fields.length < 0x10000
  /-- The methods follow. -/
  methods : Placed RawMember.bytes (Method.Meant c.pool) raw.methodsOffset raw.methods c.methods
  /-- Their number fits its word. -/
  fewMethods : raw.methods.length < 0x10000
  /-- The attributes come last, and the inner classes are among them. -/
  attributes : ∃ as, Placed RawAttribute.bytes (RawAttribute.Means c.pool) raw.attributesOffset
    raw.attributes as ∧ as.foldlM (ClassFile.withAttribute c.pool) [] = .ok c.innerClasses
  /-- Their number fits its word. -/
  fewAttributes : raw.attributes.length < 0x10000

end RawClass

namespace ClassFile

/-- The version is read as it is written behind the magic word, unless it is too old. -/
theorem readVersion_eq_ok_iff {c d : Cursor} {minor major : UInt16} :
    readVersion c = .ok ((minor, major), d) ↔
      ¬major < oldestMajor ∧
        c.Moves (longBytes magic ++ (wordBytes minor ++ wordBytes major)) d := by
  simp only [readVersion, Parser.bind_eq_ok_iff, Reader.u4_eq_ok_iff]
  constructor
  · rintro ⟨found, c₁, h₁, h⟩
    by_cases hf : found = magic
    · subst hf
      rw [if_neg (by simp)] at h
      simp only [Parser.bind_eq_ok_iff, Reader.u2_eq_ok_iff] at h
      obtain ⟨v, c₂, h₂, w, c₃, h₃, h⟩ := h
      by_cases hw : w < oldestMajor
      · rw [if_pos hw, Parser.bind_eq_ok_iff] at h
        obtain ⟨u, c₄, ht, -⟩ := h
        exact absurd ht Parser.throw_ne_ok
      · rw [if_neg hw, Parser.pure_eq_ok_iff] at h
        obtain ⟨heq, rfl⟩ := h
        cases heq
        exact ⟨hw, h₁.trans (h₂.trans h₃)⟩
    · rw [if_pos hf, Parser.bind_eq_ok_iff] at h
      obtain ⟨u, c₂, ht, -⟩ := h
      exact absurd ht Parser.throw_ne_ok
  · rintro ⟨hw, hm⟩
    obtain ⟨c₁, h₁, hm⟩ := hm.split
    obtain ⟨c₂, h₂, h₃⟩ := hm.split
    refine ⟨magic, c₁, h₁, ?_⟩
    rw [if_neg (by simp)]
    simp only [Parser.bind_eq_ok_iff, Reader.u2_eq_ok_iff]
    refine ⟨minor, c₂, h₂, major, d, h₃, ?_⟩
    rw [if_neg hw]
    exact Parser.pure_eq_ok_iff.2 ⟨rfl, rfl⟩

/-- The name of an interface is read as the slot that it is in. -/
theorem interface_exact (pool : ConstantPool) :
    Reader.Exact (do Reader.ofExcept (pool.className (← Reader.u2))) wordBytes
      fun _ index name => pool.className index = .ok name := by
  intro c name d
  simp only [Parser.bind_eq_ok_iff, Reader.u2_eq_ok_iff, Reader.ofExcept_eq_ok_iff]
  constructor
  · rintro ⟨index, _, h, hname, rfl⟩
    exact ⟨index, hname, h⟩
  · rintro ⟨index, hname, h⟩
    exact ⟨index, d, h, hname, rfl⟩

/-- A class is read as it is written, from the start of a file on. -/
theorem readClass_eq_ok_iff {file ahead : List UInt8} {c : ClassFile} {d : Cursor} :
    readClass file ⟨0, ahead⟩ = .ok (c, d) ↔
      ∃ raw : RawClass, raw.Means c ∧ c.bytes = file ∧ Cursor.Moves ⟨0, ahead⟩ raw.bytes d := by
  simp only [readClass, Parser.bind_eq_ok_iff, Reader.u2_eq_ok_iff, Reader.ofExcept_eq_ok_iff,
    Reader.offset_eq_ok_iff, Parser.pure_eq_ok_iff, ConstantPool.read_exact _ _ _]
  constructor
  · intro h
    obtain ⟨⟨minor, major⟩, c₁, hv, pool, c₂, ⟨rawPool, hpool, h₂⟩, o, _, ⟨rfl, rfl⟩, h⟩ := h
    obtain ⟨flags, c₃, h₃, n, c₄, h₄, name, _, ⟨hname, rfl⟩, h⟩ := h
    obtain ⟨s, c₅, h₅, superName, _, ⟨hsuper, rfl⟩, h⟩ := h
    obtain ⟨ni, _, hni, interfaces, c₆, hi, nf, _, hnf, fields, c₇, hf, h⟩ := h
    obtain ⟨nm, _, hnm, methods, c₈, hm, na, _, hna, inner, c₉, ha, rfl, rfl⟩ := h
    obtain ⟨hrecent, h₁⟩ := readVersion_eq_ok_iff.1 hv
    obtain ⟨rawInterfaces, hltI, hinterfaces, h₆⟩ :=
      (Reader.exists_counted_iff (interface_exact pool)).1 ⟨ni, _, hni, hi⟩
    obtain ⟨rawFields, hltF, hfields, h₇⟩ :=
      (Reader.exists_counted_iff (Field.read_exact pool)).1 ⟨nf, _, hnf, hf⟩
    obtain ⟨rawMethods, hltM, hmethods, h₈⟩ :=
      (Reader.exists_counted_iff (Method.read_exact pool)).1 ⟨nm, _, hnm, hm⟩
    obtain ⟨rawAttributes, as, hltA, has, hfold, h₉⟩ :=
      FileAttribute.exists_counted_iff.1 ⟨na, _, hna, ha⟩
    let raw : RawClass :=
      ⟨minor, major, rawPool, flags, n, s, rawInterfaces, rawFields, rawMethods, rawAttributes⟩
    have hends : raw.PartsEnd ahead _ _ c₆ c₇ c₈ d :=
      ⟨h₁.trans h₂, h₃.trans (h₄.trans h₅), h₆, h₇, h₈, h₉⟩
    refine ⟨raw, ?_, rfl, RawClass.moves_iff.2 ⟨_, _, _, _, _, hends⟩⟩
    exact ⟨rfl, rfl, hrecent, hpool, rfl, hends.offset_front, hname, hsuper,
      hends.offset_interfaces ▸ hinterfaces, hltI, hends.offset_fields ▸ hfields, hltF,
      hends.offset_methods ▸ hmethods, hltM, ⟨as, hends.offset_attributes ▸ has, hfold⟩, hltA⟩
  · rintro ⟨raw, hmean, hfile, hm⟩
    obtain ⟨c₂, c₅, c₆, c₇, c₈, hends⟩ := RawClass.moves_iff.1 hm
    obtain ⟨c₁, h₁, h₂⟩ := hends.front.split
    obtain ⟨c₃, h₃, hm⟩ := hends.words.split
    obtain ⟨c₄, h₄, h₅⟩ := hm.split
    obtain ⟨as, has, hfold⟩ := hmean.attributes
    obtain ⟨ni, ci, hni, hi⟩ := (Reader.exists_counted_iff (interface_exact c.pool)).2
      ⟨raw.interfaces, hmean.fewInterfaces, hends.offset_interfaces ▸ hmean.interfaces,
        hends.interfaces⟩
    obtain ⟨nf, cf, hnf, hf⟩ := (Reader.exists_counted_iff (Field.read_exact c.pool)).2
      ⟨raw.fields, hmean.fewFields, hends.offset_fields ▸ hmean.fields, hends.fields⟩
    obtain ⟨nm, cm, hnm, hm⟩ := (Reader.exists_counted_iff (Method.read_exact c.pool)).2
      ⟨raw.methods, hmean.fewMethods, hends.offset_methods ▸ hmean.methods, hends.methods⟩
    obtain ⟨na, ca, hna, ha⟩ := FileAttribute.exists_counted_iff.2
      ⟨raw.attributes, as, hmean.fewAttributes, hends.offset_attributes ▸ has, hfold,
        hends.attributes⟩
    refine ⟨(raw.minor, raw.major), c₁, readVersion_eq_ok_iff.2 ⟨hmean.recent, h₁⟩, c.pool, c₂,
      ⟨raw.pool, hmean.pool, h₂⟩, _, c₂, ⟨rfl, rfl⟩, raw.flags, c₃, h₃, raw.name, c₄, h₄,
      c.name, c₄, ⟨hmean.name, rfl⟩, raw.superName, c₅, h₅, c.superName, c₅,
      ⟨hmean.superName, rfl⟩, ni, ci, hni, c.interfaces, c₆, hi, nf, cf, hnf, c.fields, c₇, hf,
      nm, cm, hnm, c.methods, c₈, hm, na, ca, hna, c.innerClasses, d, ha, ?_, rfl⟩
    rw [hends.offset_front, ← hmean.offset, ← hmean.minor, ← hmean.major, ← hmean.flags, ← hfile]

/-- **Class files are read as they are written.** -/
theorem read_eq_ok_iff {file : List UInt8} {c : ClassFile} :
    read file = .ok c ↔ ∃ raw : RawClass, raw.Means c ∧ c.bytes = file ∧ raw.bytes = file := by
  constructor
  · intro h
    rw [read] at h
    split at h
    · cases h
    · next c' o hread =>
      cases h
      obtain ⟨raw, hmean, hfile, hm⟩ := readClass_eq_ok_iff.1 hread
      refine ⟨raw, hmean, hfile, ?_⟩
      have ha := hm.ahead
      rw [List.append_nil] at ha
      exact ha.symm
    · cases h
  · rintro ⟨raw, hmean, hfile, hraw⟩
    have hread : readClass file ⟨0, file⟩ = .ok (c, ⟨0 + file.length, []⟩) := by
      refine readClass_eq_ok_iff.2 ⟨raw, hmean, hfile, ?_, ?_⟩
      · rw [List.append_nil, hraw]
      · rw [hraw]
    rw [read, hread]

end ClassFile

/-! ## A small class -/

namespace Sample

/-- A class `A` with a public field `m`, a private method `m` that calls itself and a protected
entry for itself among its inner classes. -/
def file : List UInt8 :=
  [0xca, 0xfe, 0xba, 0xbe, 0, 0, 0, 52] ++
  -- slot 6 refers to the method
  [0, 10, 1, 0, 1, 65, 7, 0, 1, 1, 0, 1, 109, 1, 0, 3, 40, 41, 86, 12, 0, 3, 0, 4, 10, 0, 2, 0, 5,
    1, 0, 4, 67, 111, 100, 101, 1, 0, 1, 73,
    1, 0, 12, 73, 110, 110, 101, 114, 67, 108, 97, 115, 115, 101, 115] ++
  [0, 0, 0, 2, 0, 0, 0, 0] ++
  [0, 1, 0, 1, 0, 3, 0, 8, 0, 0] ++
  [0, 1, 0, 2, 0, 3, 0, 4, 0, 1,
    0, 7, 0, 0, 0, 16, 0, 1, 0, 1, 0, 0, 0, 4, 0xb7, 0, 6, 0xb1, 0, 0, 0, 0] ++
  [0, 1, 0, 9, 0, 0, 0, 10, 0, 1, 0, 2, 0, 0, 0, 0, 0, 4]

/-- What the file is read as. -/
def parsed : ClassFile where
  bytes := file
  minor := 0
  major := 52
  pool := ⟨#[.unusable, .utf8 "A", .classRef 1, .utf8 "m", .utf8 "()V", .nameAndType 3 4,
    .methodRef 2 5, .utf8 "Code", .utf8 "I", .utf8 "InnerClasses"]⟩
  flags := 0
  flagsOffset := 63
  name := "A"
  superName := none
  interfaces := []
  fields := [⟨1, 73, "m", "I"⟩]
  methods := [⟨2, 83, "m", "()V", some ⟨105, 4⟩⟩]
  innerClasses := [⟨4, 129, "A", none, none⟩]

/-- The file is a class file. -/
theorem read_file : ClassFile.read file = .ok parsed := by decide +kernel

end Sample

end ClassAccess
