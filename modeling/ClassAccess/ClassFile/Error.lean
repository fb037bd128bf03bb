import ClassAccess.Text.Hex

/-!
# Errors in class files

Why a byte string is no class file, or why a part of one cannot be used.
-/

set_option autoImplicit false

namespace ClassAccess

/-- The kinds of pool entry that a reference may have to lead to. -/
inductive ConstantKind
  /-- A text. -/
  | utf8
  /-- A class. -/
  | classRef
  /-- A method of a class or of an interface. -/
  | methodRef
  /-- A name with a descriptor. -/
  | nameAndType
deriving DecidableEq, Repr

/-- How an error names a kind of pool entry. -/
def ConstantKind.label : ConstantKind → String
  | utf8 => "Utf8"
  | classRef => "Class"
  | methodRef => "Methodref or InterfaceMethodref"
  | nameAndType => "NameAndType"

/-- The kinds of member that have a descriptor. -/
inductive MemberKind
  /-- A field. -/
  | field
  /-- A method. -/
  | method
deriving DecidableEq, Repr

/-- How an error names a kind of member. -/
def MemberKind.label : MemberKind → String
  | field => "field"
  | method => "method"

/-- The attributes whose contents are read. -/
inductive KnownAttribute
  /-- The instructions of a method. -/
  | code
  /-- The inner classes that a class mentions. -/
  | innerClasses
deriving DecidableEq, Repr

/-- The name of an attribute in a class file. -/
def KnownAttribute.label : KnownAttribute → String
  | code => "Code"
  | innerClasses => "InnerClasses"

/-- A defect of a class file. -/
inductive ClassFileError
  /-- The file starts with this word. -/
  | badMagic (found : UInt32)
  /-- The version is older than the format. -/
  | unsupportedVersion (major minor : UInt16)
  /-- A part that starts at `offset` needs this many bytes more than there are. -/
  | unexpectedEof (offset needed : Nat)
  /-- A pool entry has a tag that no kind of entry has. -/
  | invalidConstantTag (tag : UInt8) (index : Nat)
  /-- A reference does not lead to an entry of the kind that is needed. -/
  | badConstantIndex (index : UInt16) (expected : ConstantKind)
  /-- A text entry cannot be decoded. -/
  | invalidUtf8 (index : Nat)
  /-- A member has a descriptor that is none. -/
  | invalidDescriptor (kind : MemberKind) (descriptor : String)
  /-- The contents of an attribute do not fill it exactly. -/
  | attributeLength (name : KnownAttribute) (declared actual : Nat)
  /-- No instruction has this opcode. -/
  | invalidOpcode (opcode : UInt8) (pc : Nat)
  /-- The bounds of a switch are out of order, or its count is negative. -/
  | malformedSwitch (pc : Nat)
  /-- An instruction is longer than the rest of the code. -/
  | truncatedInstruction (pc : Nat)
  /-- The class ends before its file does. -/
  | trailingBytes (count : Nat)
deriving DecidableEq, Repr

/-- The error in words. -/
def ClassFileError.message : ClassFileError → String
  | badMagic found => s!"invalid magic number {Text.hex 8 found.toNat}"
  | unsupportedVersion major minor => s!"unsupported class file version {major}.{minor}"
  | unexpectedEof offset needed =>
    s!"unexpected end of class file at offset {offset}: {needed} more bytes needed"
  | invalidConstantTag tag index => s!"invalid constant pool tag {tag} at index {index}"
  | badConstantIndex index expected =>
    s!"constant pool index {index} is not a {expected.label} entry"
  | invalidUtf8 index => s!"constant pool entry {index} is not valid modified UTF-8"
  | invalidDescriptor kind descriptor => s!"invalid {kind.label} descriptor '{descriptor}'"
  | attributeLength name declared actual =>
    s!"{name.label} attribute declares {declared} bytes but its contents span {actual}"
  | invalidOpcode opcode pc => s!"invalid opcode {Text.hex 2 opcode.toNat} at code offset {pc}"
  | malformedSwitch pc => s!"malformed switch table at code offset {pc}"
  | truncatedInstruction pc =>
    s!"instruction at code offset {pc} runs past the end of the code array"
  | trailingBytes count => s!"{count} trailing bytes after the class attributes"

end ClassAccess
