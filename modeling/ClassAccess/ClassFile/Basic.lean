import ClassAccess.Access.Flags
import ClassAccess.ClassFile.ConstantPool

/-!
# Class files

The parts of a class file that matter for access: the class itself, its fields, its methods and the
inner classes that it mentions, each with its flag word and the place of that word in the file.

## Main definitions

* `ClassFile` — a class with the bytes that it was read from.
* `Field`, `Method`, `InnerClass` — the elements that have flag words beside the class.
* `ClassFile.code?` — the code of a method.
-/

set_option autoImplicit false

namespace ClassAccess

/-- A stretch of a byte string. -/
structure Span where
  /-- Where it starts. -/
  start : Nat
  /-- How many bytes it has. -/
  length : Nat
deriving DecidableEq, Repr

/-- The bytes of a stretch. -/
def Span.of (span : Span) (bytes : List UInt8) : List UInt8 :=
  (bytes.drop span.start).take span.length

/-- A field of a class. -/
structure Field where
  /-- Its flag word. -/
  flags : Flags
  /-- Where the flag word stands in the file. -/
  flagsOffset : Nat
  /-- Its name. -/
  name : String
  /-- Its type. -/
  descriptor : String
deriving DecidableEq, Repr

/-- A method of a class. -/
structure Method where
  /-- Its flag word. -/
  flags : Flags
  /-- Where the flag word stands in the file. -/
  flagsOffset : Nat
  /-- Its name. -/
  name : String
  /-- Its type. -/
  descriptor : String
  /-- Where its code stands in the file, if it has any. -/
  code : Option Span
deriving DecidableEq, Repr

namespace Method

/-- The name and the descriptor, as rules name the method. -/
def signature (m : Method) : String := m.name ++ m.descriptor

/-- The name of the methods that initialise an object. -/
def constructorName : String := "<init>"

/-- The name of the method that initialises a class. -/
def initializerName : String := "<clinit>"

end Method

/-- An inner class that a class mentions. -/
structure InnerClass where
  /-- Its flag word. -/
  flags : Flags
  /-- Where the flag word stands in the file. -/
  flagsOffset : Nat
  /-- The binary name of the class. -/
  name : String
  /-- The binary name of the class it is a member of, if it is one. -/
  outer : Option String
  /-- The name it has in its source text, if it has one. -/
  simpleName : Option String
deriving DecidableEq, Repr

/-- A class with the bytes that it was read from. -/
structure ClassFile where
  /-- The whole file. -/
  bytes : List UInt8
  /-- The lesser part of the version. -/
  minor : UInt16
  /-- The greater part of the version. -/
  major : UInt16
  /-- The constant pool. -/
  pool : ConstantPool
  /-- The flag word of the class. -/
  flags : Flags
  /-- Where the flag word stands in the file. -/
  flagsOffset : Nat
  /-- The binary name of the class. -/
  name : String
  /-- The binary name of the class it extends; only the root of all classes has none. -/
  superName : Option String
  /-- The binary names of the interfaces it implements. -/
  interfaces : List String
  /-- Its fields in order. -/
  fields : List Field
  /-- Its methods in order. -/
  methods : List Method
  /-- The inner classes it mentions, in order. -/
  innerClasses : List InnerClass
deriving DecidableEq, Repr

/-- The code of a method. -/
def ClassFile.code? (c : ClassFile) (m : Method) : Option (List UInt8) :=
  m.code.map fun span => span.of c.bytes

end ClassAccess
