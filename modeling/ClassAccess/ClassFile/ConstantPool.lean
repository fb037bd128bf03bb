import ClassAccess.ClassFile.Cursor
import ClassAccess.ClassFile.ModifiedUtf8

/-!
# The constant pool

A class file keeps its names, types and references in a table and refers to them by slot. Slot zero
is never used, and an entry for a long or double number takes up its own slot and the one after it.

## Main definitions

* `Constant` — what a slot holds, as far as it matters for access.
* `ConstantPool.read` — the table at the start of what lies ahead.
* `ConstantPool.utf8`, `ConstantPool.className`, `ConstantPool.methodRef` — what a slot refers to.

## Design

The slots are read one by one. Whether a slot is read at all depends only on the entry before it:
the slot after a wide entry is filled without reading. A wide entry in the last declared slot
therefore still takes up the slot after it.
-/

set_option autoImplicit false

namespace ClassAccess

/-- What a slot of the constant pool holds. -/
inductive Constant
  /-- A text. -/
  | utf8 (text : String)
  /-- A class, by the slot of its name. -/
  | classRef (name : UInt16)
  /-- A name with a descriptor, by their slots. -/
  | nameAndType (name descriptor : UInt16)
  /-- A field, by the slots of its class and of its name and type. -/
  | fieldRef (owner nameAndType : UInt16)
  /-- A method of a class, by the slots of its class and of its name and type. -/
  | methodRef (owner nameAndType : UInt16)
  /-- A method of an interface, by the slots of the interface and of its name and type. -/
  | interfaceMethodRef (owner nameAndType : UInt16)
  /-- An entry of another kind, by its tag. -/
  | other (tag : UInt8)
  /-- No entry: slot zero, or the slot after a wide entry. -/
  | unusable
deriving DecidableEq, Repr, Inhabited

namespace Constant

/-- Whether the entry takes up two slots: it is a long or a double number. -/
def isWide : Constant → Bool
  | other tag => tag = 5 || tag = 6
  | _ => false

/-- How many bytes the contents of an entry have whose kind does not matter for access. -/
def otherLength? (tag : UInt8) : Option Nat :=
  if tag = 8 || tag = 16 || tag = 19 || tag = 20 then some 2
  else if tag = 15 then some 3
  else if tag = 3 || tag = 4 || tag = 17 || tag = 18 then some 4
  else if tag = 5 || tag = 6 then some 8
  else none

/-- The entry for slot `index`. -/
def read (index : Nat) : Reader Constant := do
  let tag ← Reader.u1
  match tag.toNat with
  | 1 =>
    let length ← Reader.u2
    let raw ← Reader.take length.toNat
    match ModifiedUtf8.decode raw with
    | some text => return .utf8 (String.ofList text)
    | none => throw (.invalidUtf8 index)
  | 7 => return .classRef (← Reader.u2)
  | 9 => return .fieldRef (← Reader.u2) (← Reader.u2)
  | 10 => return .methodRef (← Reader.u2) (← Reader.u2)
  | 11 => return .interfaceMethodRef (← Reader.u2) (← Reader.u2)
  | 12 => return .nameAndType (← Reader.u2) (← Reader.u2)
  | _ =>
    match otherLength? tag with
    | some length =>
      Reader.skip length
      return .other tag
    | none => throw (.invalidConstantTag tag index)

end Constant

/-- A method as a reference names it. -/
structure MethodRef where
  /-- The binary name of the class or interface. -/
  owner : String
  /-- The name of the method. -/
  name : String
  /-- The descriptor of the method. -/
  descriptor : String
  /-- Whether the reference is to a method of an interface. -/
  isInterface : Bool
deriving DecidableEq, Repr

/-- The constant pool of a class file. -/
structure ConstantPool where
  /-- The slots in order, from slot zero on. -/
  slots : Array Constant
deriving DecidableEq, Repr, Inhabited

namespace ConstantPool

/-! ## Reading -/

/-- The next `n` slots, of which the first has number `index`. With `taken` that one belongs to the
wide entry before it; a wide entry in the last slot takes up one slot more. -/
def readSlots : (n index : Nat) → (taken : Bool) → Reader (List Constant)
  | 0, _, taken => return if taken then [.unusable] else []
  | n + 1, index, true => do
    let rest ← readSlots n (index + 1) false
    return .unusable :: rest
  | n + 1, index, false => do
    let c ← Constant.read index
    let rest ← readSlots n (index + 1) c.isWide
    return c :: rest

/-- The constant pool, after the number of its slots. -/
def read : Reader ConstantPool := do
  let count ← Reader.u2
  let rest ← readSlots (count.toNat - 1) 1 false
  return ⟨(Constant.unusable :: rest).toArray⟩

/-! ## Looking up -/

/-- How many slots there are. -/
def size (pool : ConstantPool) : Nat := pool.slots.size

/-- Whether no slot beside slot zero is there. -/
def isEmpty (pool : ConstantPool) : Bool := pool.size ≤ 1

/-- What a slot holds. -/
def get? (pool : ConstantPool) (index : UInt16) : Option Constant :=
  pool.slots[index.toNat]?

/-- The text in a slot. -/
def utf8 (pool : ConstantPool) (index : UInt16) : Except ClassFileError String :=
  match pool.get? index with
  | some (.utf8 text) => .ok text
  | _ => .error (.badConstantIndex index .utf8)

/-- The binary name of the class in a slot. -/
def className (pool : ConstantPool) (index : UInt16) : Except ClassFileError String :=
  match pool.get? index with
  | some (.classRef name) => pool.utf8 name
  | _ => .error (.badConstantIndex index .classRef)

/-- The slots of the class and of the name and type that a method reference leads to, and whether it
is to a method of an interface. -/
def methodParts (pool : ConstantPool) (index : UInt16) :
    Except ClassFileError (UInt16 × UInt16 × Bool) :=
  match pool.get? index with
  | some (.methodRef owner nameAndType) => .ok (owner, nameAndType, false)
  | some (.interfaceMethodRef owner nameAndType) => .ok (owner, nameAndType, true)
  | _ => .error (.badConstantIndex index .methodRef)

/-- The slots of a name and of a descriptor that a name-and-type entry leads to. -/
def nameAndTypeParts (pool : ConstantPool) (index : UInt16) :
    Except ClassFileError (UInt16 × UInt16) :=
  match pool.get? index with
  | some (.nameAndType name descriptor) => .ok (name, descriptor)
  | _ => .error (.badConstantIndex index .nameAndType)

/-- The method that a slot refers to. -/
def methodRef (pool : ConstantPool) (index : UInt16) : Except ClassFileError MethodRef := do
  let (owner, nameAndType, isInterface) ← pool.methodParts index
  let (name, descriptor) ← pool.nameAndTypeParts nameAndType
  return ⟨← pool.className owner, ← pool.utf8 name, ← pool.utf8 descriptor, isInterface⟩

end ConstantPool

end ClassAccess
