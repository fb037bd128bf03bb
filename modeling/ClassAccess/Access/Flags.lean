/-!
# Access-flag words

Every class, field, method and inner-class entry of a class file carries a word of sixteen flags.
Three of its bits say who may reach the element and one says that it is final; what the others mean
depends on the kind of element.

## Main definitions

* `Flags` — a flag word.
* `FlagTable` — the flags that are defined for one kind of element, with their names.
-/

set_option autoImplicit false

namespace ClassAccess

/-- A word of sixteen access flags. -/
abbrev Flags := UInt16

namespace Flags

/-- The element is reachable from everywhere. -/
def publicBit : Flags := 0x0001

/-- The element is reachable from its own class only. -/
def privateBit : Flags := 0x0002

/-- The element is reachable from its package and from subclasses. -/
def protectedBit : Flags := 0x0004

/-- The element may not be overridden, extended or assigned. -/
def finalBit : Flags := 0x0010

/-- The three bits that say who may reach an element. -/
def visibilityMask : Flags := publicBit ||| privateBit ||| protectedBit

/-- Whether the word has some bit of `mask`. -/
def meets (flags mask : Flags) : Bool := flags &&& mask != 0

end Flags

/-! ## Flags by kind of element -/

/-- The named flags of one kind of element, lowest bit first. -/
abbrev FlagTable := List (String × Flags)

namespace FlagTable

/-- The flags of a class. -/
def ofClass : FlagTable :=
  [("PUBLIC", 0x0001), ("FINAL", 0x0010), ("SUPER", 0x0020), ("INTERFACE", 0x0200),
    ("ABSTRACT", 0x0400), ("SYNTHETIC", 0x1000), ("ANNOTATION", 0x2000), ("ENUM", 0x4000),
    ("MODULE", 0x8000)]

/-- The flags of a field. -/
def ofField : FlagTable :=
  [("PUBLIC", 0x0001), ("PRIVATE", 0x0002), ("PROTECTED", 0x0004), ("STATIC", 0x0008),
    ("FINAL", 0x0010), ("VOLATILE", 0x0040), ("TRANSIENT", 0x0080), ("SYNTHETIC", 0x1000),
    ("ENUM", 0x4000)]

/-- The flags of a method. -/
def ofMethod : FlagTable :=
  [("PUBLIC", 0x0001), ("PRIVATE", 0x0002), ("PROTECTED", 0x0004), ("STATIC", 0x0008),
    ("FINAL", 0x0010), ("SYNCHRONIZED", 0x0020), ("BRIDGE", 0x0040), ("VARARGS", 0x0080),
    ("NATIVE", 0x0100), ("ABSTRACT", 0x0400), ("STRICT", 0x0800), ("SYNTHETIC", 0x1000)]

/-- The flags of an inner-class entry. -/
def ofInnerClass : FlagTable :=
  [("PUBLIC", 0x0001), ("PRIVATE", 0x0002), ("PROTECTED", 0x0004), ("STATIC", 0x0008),
    ("FINAL", 0x0010), ("INTERFACE", 0x0200), ("ABSTRACT", 0x0400), ("SYNTHETIC", 0x1000),
    ("ANNOTATION", 0x2000), ("ENUM", 0x4000)]

/-- The names of the flags that are set, lowest bit first. -/
def names (table : FlagTable) (flags : Flags) : List String :=
  (table.filter fun entry => flags.meets entry.2).map (·.1)

/-- The bits of the word that the table does not name. -/
def unnamed (table : FlagTable) (flags : Flags) : Flags :=
  table.foldl (fun rest entry => rest &&& ~~~entry.2) flags

end FlagTable

end ClassAccess
