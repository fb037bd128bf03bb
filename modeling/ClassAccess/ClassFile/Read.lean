import ClassAccess.ClassFile.Basic
import ClassAccess.ClassFile.Descriptor
import ClassAccess.ClassFile.Instruction

/-!
# Reading class files

The whole structure of a file is walked and checked: every reference that is followed leads to an
entry of its kind, every descriptor is one, the code of every method divides into instructions, the
attributes that are looked into are filled exactly, and nothing follows the class.

## Main definitions

* `FileAttribute.read` — an attribute, by its name and its bytes.
* `FileAttribute.codeSpan`, `FileAttribute.innerClasses` — the contents of the two attributes that
  are looked into.
* `ClassFile.read` — a whole file.

## Design

An attribute is looked into as soon as it has been read, so that of two defects the earlier one in
the file is reported. Where an attribute occurs twice the later one counts.
-/

set_option autoImplicit false

namespace ClassAccess

/-! ## Attributes -/

/-- A named part of a class, a field or a method. -/
structure FileAttribute where
  /-- Its name. -/
  name : String
  /-- Where its contents start in the file. -/
  offset : Nat
  /-- Its contents. -/
  body : List UInt8

namespace FileAttribute

/-- The attribute at the start of what lies ahead. -/
def read (pool : ConstantPool) : Reader FileAttribute := do
  let name ← Reader.ofExcept (pool.utf8 (← Reader.u2))
  let length ← Reader.u4
  let offset ← Reader.offset
  let body ← Reader.take length.toNat
  return ⟨name, offset, body⟩

/-- The next `n` attributes, each taken account of right after it was read. -/
def fold {σ : Type} (pool : ConstantPool) (step : σ → FileAttribute → Except ClassFileError σ) :
    (n : Nat) → σ → Reader σ
  | 0, s => pure s
  | n + 1, s => do
    let a ← read pool
    fold pool step n (← Reader.ofExcept (step s a))

/-- The contents as something to read, in their place in the file. -/
def contents (a : FileAttribute) : Cursor := ⟨a.offset, a.body⟩

/-- The contents span `actual` bytes, not what was declared. -/
def spans (a : FileAttribute) (name : KnownAttribute) (actual : Nat) : ClassFileError :=
  .attributeLength name a.body.length actual

/-! ### Code -/

/-- The code in the contents of a code attribute. What stands around it is passed over: the sizes of
the frame in front of it, then the table of handlers and further attributes. -/
def readCode : Reader Span := do
  Reader.skip 4
  let length ← Reader.u4
  let start ← Reader.offset
  let code ← Reader.take length.toNat
  let _ ← Reader.ofExcept (Code.count code)
  let handlers ← Reader.u2
  Reader.skip (8 * handlers.toNat)
  let attributes ← Reader.u2
  let _ ← Parser.many (do Reader.skip 2; Reader.skip (← Reader.u4).toNat) attributes.toNat
  return ⟨start, length.toNat⟩

/-- Where the code of a code attribute stands. Contents that are too short for what they hold are
one byte longer than declared, as far as can be told. -/
def codeSpan (a : FileAttribute) : Except ClassFileError Span :=
  match readCode a.contents with
  | .ok (span, c) =>
    if c.ahead.isEmpty then .ok span else .error (a.spans .code (c.offset - a.offset))
  | .error (.unexpectedEof ..) => .error (a.spans .code (a.body.length + 1))
  | .error e => .error e

/-! ### Inner classes -/

/-- What `resolve` finds in a slot, where slot zero stands for nothing. -/
def optionally (resolve : UInt16 → Except ClassFileError String) (index : UInt16) :
    Except ClassFileError (Option String) :=
  if index = 0 then .ok none else some <$> resolve index

/-- One inner class. -/
def readInnerClass (pool : ConstantPool) : Reader InnerClass := do
  let name ← Reader.ofExcept (pool.className (← Reader.u2))
  let outer ← Reader.ofExcept (optionally pool.className (← Reader.u2))
  let simpleName ← Reader.ofExcept (optionally pool.utf8 (← Reader.u2))
  let flagsOffset ← Reader.offset
  let flags ← Reader.u2
  return ⟨flags, flagsOffset, name, outer, simpleName⟩

/-- The inner classes in an attribute that holds nothing but their number and eight bytes for
each. -/
def innerClasses (pool : ConstantPool) (a : FileAttribute) :
    Except ClassFileError (List InnerClass) :=
  match Reader.u2 a.contents with
  | .error _ => .error (a.spans .innerClasses 0)
  | .ok (count, c) =>
    let expected := 2 + 8 * count.toNat
    if a.body.length = expected then
      Prod.fst <$> Parser.many (readInnerClass pool) count.toNat c
    else .error (a.spans .innerClasses expected)

end FileAttribute

/-! ## Members -/

/-- The field at the start of what lies ahead. -/
def Field.read (pool : ConstantPool) : Reader Field := do
  let flagsOffset ← Reader.offset
  let flags ← Reader.u2
  let name ← Reader.ofExcept (pool.utf8 (← Reader.u2))
  let descriptor ← Reader.ofExcept (pool.utf8 (← Reader.u2))
  if !isFieldDescriptor descriptor.toList then throw (.invalidDescriptor .field descriptor)
  let attributes ← Reader.u2
  FileAttribute.fold pool (fun _ _ => .ok ()) attributes.toNat ()
  return ⟨flags, flagsOffset, name, descriptor⟩

/-- The code of a method that has, after others, the attribute `a`. -/
def Method.withAttribute (code : Option Span) (a : FileAttribute) :
    Except ClassFileError (Option Span) :=
  if a.name = KnownAttribute.code.label then some <$> a.codeSpan else .ok code

/-- The method at the start of what lies ahead. -/
def Method.read (pool : ConstantPool) : Reader Method := do
  let flagsOffset ← Reader.offset
  let flags ← Reader.u2
  let name ← Reader.ofExcept (pool.utf8 (← Reader.u2))
  let descriptor ← Reader.ofExcept (pool.utf8 (← Reader.u2))
  if !isMethodDescriptor descriptor.toList then throw (.invalidDescriptor .method descriptor)
  let attributes ← Reader.u2
  let code ← FileAttribute.fold pool Method.withAttribute attributes.toNat none
  return ⟨flags, flagsOffset, name, descriptor, code⟩

/-! ## Whole files -/

namespace ClassFile

/-- The word at the start of every class file. -/
def magic : UInt32 := 0xcafebabe

/-- The oldest version. -/
def oldestMajor : UInt16 := 45

/-- The inner classes of a class that has, after others, the attribute `a`. -/
def withAttribute (pool : ConstantPool) (inner : List InnerClass) (a : FileAttribute) :
    Except ClassFileError (List InnerClass) :=
  if a.name = KnownAttribute.innerClasses.label then a.innerClasses pool else .ok inner

/-- The version, which follows the magic word. -/
def readVersion : Reader (UInt16 × UInt16) := do
  let found ← Reader.u4
  if found ≠ magic then throw (.badMagic found)
  let minor ← Reader.u2
  let major ← Reader.u2
  if major < oldestMajor then throw (.unsupportedVersion major minor)
  return (minor, major)

/-- The class at the start of what lies ahead, of a file with these bytes. -/
def readClass (bytes : List UInt8) : Reader ClassFile := do
  let (minor, major) ← readVersion
  let pool ← ConstantPool.read
  let flagsOffset ← Reader.offset
  let flags ← Reader.u2
  let name ← Reader.ofExcept (pool.className (← Reader.u2))
  let superName ← Reader.ofExcept (FileAttribute.optionally pool.className (← Reader.u2))
  let interfaceCount ← Reader.u2
  let interfaces ← Parser.many
    (do Reader.ofExcept (pool.className (← Reader.u2))) interfaceCount.toNat
  let fieldCount ← Reader.u2
  let fields ← Parser.many (Field.read pool) fieldCount.toNat
  let methodCount ← Reader.u2
  let methods ← Parser.many (Method.read pool) methodCount.toNat
  let attributes ← Reader.u2
  let innerClasses ← FileAttribute.fold pool (withAttribute pool) attributes.toNat []
  return { bytes, minor, major, pool, flags, flagsOffset, name, superName, interfaces, fields,
           methods, innerClasses }

/-- The class in a file that holds nothing else. -/
def read (bytes : List UInt8) : Except ClassFileError ClassFile :=
  match readClass bytes ⟨0, bytes⟩ with
  | .error e => .error e
  | .ok (c, ⟨_, []⟩) => .ok c
  | .ok (_, ⟨_, rest⟩) => .error (.trailingBytes rest.length)

end ClassFile

end ClassAccess
