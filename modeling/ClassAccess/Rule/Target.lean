import ClassAccess.Text.Comment

/-!
# Targets

What a rule applies to: a class, a field of a class or a method of a class. Class names are kept
with dots between their parts, whichever separator they were written with, and a method is named by
its name directly followed by its descriptor, its *signature*.

## Main definitions

* `Target` — a class, a field or a method.
* `Target.forClass`, `Target.forField`, `Target.forMethod` — targets in normal form.
* `Target.isWildcard` — whether the target stands for every field or every method of its class.
* `Target.text` — the target in rule text.
-/

set_option autoImplicit false

namespace ClassAccess

/-- The kinds of target. -/
inductive TargetKind
  /-- A class as a whole. -/
  | classLevel
  /-- A field. -/
  | field
  /-- A method. -/
  | method
deriving DecidableEq, Repr, Inhabited

/-- The word for a kind. -/
def TargetKind.word : TargetKind → String
  | classLevel => "class"
  | field => "field"
  | method => "method"

/-- What a rule applies to. -/
inductive Target
  /-- A class as a whole. -/
  | classLevel (className : String)
  /-- The field `name`. -/
  | field (className name : String)
  /-- The method whose name and descriptor are `signature`. -/
  | method (className signature : String)
deriving DecidableEq, Repr, Inhabited

/-- A class name with dots between its parts. -/
def dotted (className : String) : String :=
  String.ofList (className.toList.map fun c => if c = '/' then '.' else c)

namespace Target

/-- The field name that stands for every field of a class. -/
def anyField : String := "*"

/-- The signature that stands for every method of a class. -/
def anyMethod : String := "*()"

/-! ## Targets in normal form -/

/-- The class `className`. -/
def forClass (className : String) : Target :=
  .classLevel (dotted className)

/-- The field `name` of `className`. -/
def forField (className name : String) : Target :=
  .field (dotted className) name

/-- The method `signature` of `className`. A signature whose name is a star stands for every
method, whatever its descriptor. -/
def forMethod (className signature : String) : Target :=
  .method (dotted className)
    (if ['*', '('].isPrefixOf signature.toList then anyMethod else signature)

/-! ## Parts -/

/-- The kind of the target. -/
def kind : Target → TargetKind
  | classLevel _ => .classLevel
  | field _ _ => .field
  | method _ _ => .method

/-- The class that the target is, or belongs to. -/
def className : Target → String
  | classLevel c => c
  | field c _ => c
  | method c _ => c

/-- The name of the field or the signature of the method. -/
def member? : Target → Option String
  | classLevel _ => none
  | field _ name => some name
  | method _ signature => some signature

/-- Whether the target stands for every field or every method of its class. -/
def isWildcard : Target → Bool
  | classLevel _ => false
  | field _ name => name = anyField
  | method _ signature => signature = anyMethod

/-- Whether the target is a class as a whole. -/
def isClassLevel (t : Target) : Bool := t.kind = .classLevel

/-! ## Text -/

/-- A name with its hashes escaped. -/
def nameText (name : String) : String :=
  String.ofList (Text.escapeHash name.toList)

/-- The target in rule text. -/
def text (t : Target) : String :=
  match t.member? with
  | none => nameText t.className
  | some member => nameText t.className ++ " " ++ nameText member

end Target

end ClassAccess
