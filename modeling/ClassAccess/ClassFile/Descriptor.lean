/-!
# Type descriptors

The types of fields and methods are written as short texts. A field type is a letter for a base
type, or a class name between `L` and a semicolon, after one bracket for each array dimension; a
method type is the field types of its parameters in parentheses and a field type, or `V`, for the
result.

## Main definitions

* `FieldType`, `MethodType` — the types, with their texts.
* `FieldType.read?`, `MethodType.read?` — a type from the start of a text, and what follows it.
* `isFieldDescriptor`, `isMethodDescriptor` — whether a text is a descriptor.

## Main results

* `FieldType.length_of_read?` — a field type takes up at least one character.
-/

set_option autoImplicit false

namespace ClassAccess

/-- The base types. -/
inductive BaseType
  | byte | char | double | float | int | long | short | boolean
deriving DecidableEq, Repr

namespace BaseType

/-- All base types. -/
def all : List BaseType := [byte, char, double, float, int, long, short, boolean]

/-- The letter of a base type. -/
def letter : BaseType → Char
  | byte => 'B'
  | char => 'C'
  | double => 'D'
  | float => 'F'
  | int => 'I'
  | long => 'J'
  | short => 'S'
  | boolean => 'Z'

/-- The base type of a letter. -/
def ofLetter? (c : Char) : Option BaseType :=
  all.find? fun b => b.letter = c

end BaseType

/-- What an array type is an array of. -/
inductive ElementType
  /-- A base type. -/
  | base (type : BaseType)
  /-- A class, by its name. -/
  | object (name : List Char)
deriving DecidableEq, Repr

/-- The type of a field: an element type under any number of array dimensions. -/
structure FieldType where
  /-- How many array dimensions the type has. -/
  dimensions : Nat
  /-- What the innermost array holds. -/
  element : ElementType
deriving DecidableEq, Repr

/-- The type of a method. -/
structure MethodType where
  /-- The types of the parameters. -/
  parameters : List FieldType
  /-- The type of the result, none for a method without one. -/
  result : Option FieldType
deriving DecidableEq, Repr

/-! ## Element types -/

namespace ElementType

/-- The text of an element type. -/
def text : ElementType → List Char
  | base type => [type.letter]
  | object name => 'L' :: name ++ [';']

/-- A character that may stand in a class name. -/
def isNameChar (c : Char) : Bool :=
  c ≠ ';' && c ≠ '.' && c ≠ '['

/-- The element type at the start of a text, and what follows it. -/
def read? : List Char → Option (ElementType × List Char)
  | [] => none
  | 'L' :: cs =>
    match cs.takeWhile isNameChar, cs.dropWhile isNameChar with
    | c :: name, ';' :: rest => some (.object (c :: name), rest)
    | _, _ => none
  | c :: cs => (BaseType.ofLetter? c).map fun b => (.base b, cs)

/-- An element type takes up at least one character. -/
theorem length_of_read? {cs rest : List Char} {t : ElementType}
    (h : read? cs = some (t, rest)) : rest.length < cs.length := by
  unfold read? at h
  split at h
  · simp at h
  · next cs =>
    split at h
    · next c name rest' _ hrest =>
      simp only [Option.some.injEq, Prod.mk.injEq] at h
      have hle := (List.dropWhile_suffix isNameChar (l := cs)).length_le
      rw [hrest, h.2, List.length_cons] at hle
      simp only [List.length_cons]
      omega
    · simp at h
  · simp only [Option.map_eq_some_iff, Prod.mk.injEq] at h
    obtain ⟨_, _, _, rfl⟩ := h
    simp

end ElementType

/-! ## Field types -/

namespace FieldType

/-- The greatest number of array dimensions. -/
def maxDimensions : Nat := 255

/-- The text of a field type. -/
def text (t : FieldType) : List Char :=
  List.replicate t.dimensions '[' ++ t.element.text

/-- The field type at the start of a text, and what follows it. -/
def read? (cs : List Char) : Option (FieldType × List Char) :=
  let dimensions := (cs.takeWhile (· = '[')).length
  if dimensions ≤ maxDimensions then
    (ElementType.read? (cs.dropWhile (· = '['))).map fun p => (⟨dimensions, p.1⟩, p.2)
  else none

/-- A field type takes up at least one character. -/
theorem length_of_read? {cs rest : List Char} {t : FieldType}
    (h : read? cs = some (t, rest)) : rest.length < cs.length := by
  simp only [read?] at h
  split at h
  · simp only [Option.map_eq_some_iff, Prod.mk.injEq] at h
    obtain ⟨⟨e, r⟩, he, -, rfl⟩ := h
    have h₁ := ElementType.length_of_read? he
    have h₂ := (List.dropWhile_suffix (· = '[') (l := cs)).length_le
    exact Nat.lt_of_lt_of_le h₁ h₂
  · simp at h

/-- The field types at the start of a text, up to where no further one starts. -/
def readMany (cs : List Char) : List FieldType × List Char :=
  match _h : read? cs with
  | none => ([], cs)
  | some (t, rest) =>
    let (ts, last) := readMany rest
    (t :: ts, last)
termination_by cs.length
decreasing_by exact length_of_read? _h

end FieldType

/-! ## Method types -/

namespace MethodType

/-- The text of a method type. -/
def text (t : MethodType) : List Char :=
  '(' :: t.parameters.flatMap FieldType.text ++ ')' ::
    (match t.result with
    | none => ['V']
    | some result => result.text)

/-- The result type at the start of a text, and what follows it. -/
def readResult? : List Char → Option (Option FieldType × List Char)
  | 'V' :: rest => some (none, rest)
  | cs => (FieldType.read? cs).map fun p => (some p.1, p.2)

/-- The method type at the start of a text, and what follows it. -/
def read? : List Char → Option (MethodType × List Char)
  | '(' :: cs =>
    match FieldType.readMany cs with
    | (parameters, ')' :: rest) => (readResult? rest).map fun p => (⟨parameters, p.1⟩, p.2)
    | _ => none
  | _ => none

end MethodType

/-! ## Descriptors -/

/-- Whether something was read off a text and nothing follows it. -/
def isAllRead {α : Type} : Option (α × List Char) → Bool
  | some (_, []) => true
  | _ => false

/-- Whether a text is the descriptor of a field. -/
def isFieldDescriptor (text : List Char) : Bool := isAllRead (FieldType.read? text)

/-- Whether a text is the descriptor of a method. -/
def isMethodDescriptor (text : List Char) : Bool := isAllRead (MethodType.read? text)

end ClassAccess
