import ClassAccess.ClassFile.Basic

/-!
# Visiting a class

A visitor is asked for a new flag word for the class, for each field, each method and each inner
class, in the order of the file, and may rewrite the code of a method in place. The answers are
written into a copy of the file; nothing else changes.

## Main definitions

* `Visitor` — the four answers, in any monad.
* `ClassFile.accept` — the file with the answers of a visitor.
* `Visitor.identity` — the visitor that changes nothing.
-/

set_option autoImplicit false

namespace ClassAccess

/-- What to do with each element of a class. -/
structure Visitor (m : Type → Type) where
  /-- The flag word of the class. -/
  visitClass : ClassFile → m Flags
  /-- The flag word of a field. -/
  visitField : ClassFile → Field → m Flags
  /-- The flag word of a method and its code, which keeps its length. -/
  visitMethod : ClassFile → Method → Option (List UInt8) → m (Flags × Option (List UInt8))
  /-- The flag word of an inner class. -/
  visitInnerClass : ClassFile → InnerClass → m Flags

namespace ClassFile

variable {m : Type → Type} [Monad m]

/-- The file with a flag word written at an offset. -/
def putFlags (out : List UInt8) (offset : Nat) (flags : Flags) : List UInt8 :=
  overwrite out offset (wordBytes flags)

/-- The file with the code of a method rewritten. -/
def putCode (out : List UInt8) : Option Span → Option (List UInt8) → List UInt8
  | some span, some code => overwrite out span.start code
  | _, _ => out

/-- The file after a visit to one field. -/
def acceptField (c : ClassFile) (v : Visitor m) (out : List UInt8) (f : Field) :
    m (List UInt8) := do
  return putFlags out f.flagsOffset (← v.visitField c f)

/-- The file after a visit to one method, whose code is handed over as it is by then. -/
def acceptMethod (c : ClassFile) (v : Visitor m) (out : List UInt8) (f : Method) :
    m (List UInt8) := do
  let (flags, code) ← v.visitMethod c f (f.code.map fun span => span.of out)
  return putFlags (putCode out f.code code) f.flagsOffset flags

/-- The file after a visit to one inner class. -/
def acceptInnerClass (c : ClassFile) (v : Visitor m) (out : List UInt8) (i : InnerClass) :
    m (List UInt8) := do
  return putFlags out i.flagsOffset (← v.visitInnerClass c i)

/-- The file after visits to all elements: the class, its fields, its methods and its inner
classes. -/
def accept (c : ClassFile) (v : Visitor m) : m (List UInt8) := do
  let out := putFlags c.bytes c.flagsOffset (← v.visitClass c)
  let out ← c.fields.foldlM (c.acceptField v) out
  let out ← c.methods.foldlM (c.acceptMethod v) out
  c.innerClasses.foldlM (c.acceptInnerClass v) out

end ClassFile

/-- The visitor that changes nothing. -/
def Visitor.identity {m : Type → Type} [Monad m] : Visitor m where
  visitClass c := pure c.flags
  visitField _ f := pure f.flags
  visitMethod _ f code := pure (f.flags, code)
  visitInnerClass _ i := pure i.flags

end ClassAccess
