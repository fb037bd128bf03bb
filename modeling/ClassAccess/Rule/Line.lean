import ClassAccess.Rule.Basic
import ClassAccess.Rule.ParseError
import ClassAccess.Text.Blank
import ClassAccess.Text.Lines

/-!
# Rule lines

Rule text has one rule to a line: an access word, a class name and, for a member, its name or
signature. The access word is the word for a level, directly followed by any number of edits. Blank
lines and comments hold no rule.

## Main definitions

* `Line.words` — the words of a line.
* `Line.readAccess` — the access word.
* `Line.readRule` — a line without comment.
* `Rule.parseLine` — a raw line.
* `Rule.parseText` — a whole text, up to its first bad line.

## Design

A word runs up to the next blank of any kind, but only separators may stand between two words.
`words` therefore stops early at a blank that is no separator, and the caller reports the place.
-/

set_option autoImplicit false

namespace ClassAccess

namespace Line

/-! ## Words -/

/-- A character that may stand in a word. -/
def isWordChar (c : Char) : Bool := !Text.isBlank c

/-- The part of a line after its first word and the separators behind it. -/
def afterWord (cs : List Char) : List Char :=
  (cs.dropWhile isWordChar).dropWhile Text.isSeparator

/-- Dropping from the front makes no list longer. -/
theorem length_dropWhile_le {α : Type} (p : α → Bool) (l : List α) :
    (l.dropWhile p).length ≤ l.length :=
  (List.dropWhile_suffix p).length_le

/-- Past a word the line is shorter. -/
theorem length_afterWord_lt {c : Char} (cs : List Char) (h : isWordChar c = true) :
    (afterWord (c :: cs)).length < (c :: cs).length := by
  have h₁ := length_dropWhile_le Text.isSeparator (cs.dropWhile isWordChar)
  have h₂ := length_dropWhile_le isWordChar cs
  simp only [afterWord, List.dropWhile_cons, h, if_true, List.length_cons]
  omega

/-- The words at the start of a line, and the rest where no further word starts. -/
def words : List Char → List (List Char) × List Char
  | [] => ([], [])
  | c :: cs =>
    if _h : isWordChar c = true then
      let (ws, rest) := words (afterWord (c :: cs))
      ((c :: cs.takeWhile isWordChar) :: ws, rest)
    else ([], c :: cs)
termination_by cs => cs.length
decreasing_by exact length_afterWord_lt cs _h

/-! ## The access word -/

/-- The edits of an access word as they are written: a character for the sign, then the letters and
digits up to the next character that is neither. -/
def editGroups : List Char → List (Char × List Char)
  | [] => []
  | c :: cs => (c, cs.takeWhile Char.isAlphanum) :: editGroups (cs.dropWhile Char.isAlphanum)
termination_by cs => cs.length
decreasing_by
  have := length_dropWhile_le Char.isAlphanum cs
  simp only [List.length_cons]
  omega

/-- One edit of an access word; its sign is looked at before its modifier. -/
def readEdit (group : Char × List Char) : Except ParseFault Edit :=
  match EditAction.ofSign? group.1 with
  | none => .error (.invalidAction group.1)
  | some action =>
    match Modifier.ofSymbol? (String.ofList group.2) with
    | none => .error (.invalidModifier (String.ofList group.2))
    | some modifier => .ok ⟨modifier, action⟩

/-- The edits of an access word, up to the first bad one. -/
def readEdits : List (Char × List Char) → Except ParseFault (List Edit)
  | [] => .ok []
  | group :: groups => do
    let e ← readEdit group
    let es ← readEdits groups
    return e :: es

/-- The access word: the letters at its start name the level, and the rest are edits. -/
def readAccess (word : List Char) : Except ParseFault (Level × List Edit) :=
  let levelWord := String.ofList (word.takeWhile Char.isAlpha)
  match Level.ofWord? levelWord with
  | none => .error (.invalidLevel levelWord)
  | some level => do
    let es ← readEdits (editGroups (word.dropWhile Char.isAlpha))
    return (level, es)

/-! ## The target -/

/-- The target of a line. A member with an opening parenthesis is a method and needs a closing one
behind it; any other member is a field. -/
def readTarget (className : String) : Option (List Char) → Except ParseFault Target
  | none => .ok (Target.forClass className)
  | some member =>
    match member.dropWhile (· ≠ '(') with
    | [] => .ok (Target.forField className (String.ofList member))
    | descriptor =>
      if descriptor.contains ')' then .ok (Target.forMethod className (String.ofList member))
      else .error (.malformedDescriptor (String.ofList member))

/-! ## Whole lines -/

/-- The rule of a line that has no comment, no blanks at its ends and at least one word. -/
def readRule (line : List Char) : Except ParseFault Rule :=
  match words line with
  | (_, stray :: rest) =>
    .error (.strayBlank (String.ofList (line.take (line.length - (stray :: rest).length))) stray)
  | ([access, className], []) => do
    let (level, es) ← readAccess access
    let target ← readTarget (String.ofList className) none
    return Rule.ofEdits target level es
  | ([access, className, member], []) => do
    let (level, es) ← readAccess access
    let target ← readTarget (String.ofList className) (some member)
    return Rule.ofEdits target level es
  | (ws, []) => .error (.wordCount ws.length)

/-- What is left of a raw line without its comment and the blanks at its ends. -/
def content (raw : String) : List Char :=
  Text.trim (Text.stripComment raw.toList)

end Line

namespace Rule

/-- The rule on line `number`, or none on a line that is blank or all comment. -/
def parseLine (number : Nat) (raw : String) : Except ParseError (Option Rule) :=
  if raw.toList.head? = some '#' then .ok none
  else
    match Line.content raw with
    | [] => .ok none
    | line =>
      match Line.readRule line with
      | .ok rule => .ok (some rule)
      | .error fault => .error ⟨number, String.ofList line, fault⟩

/-- The rules of lines numbered from `first` on, up to the first bad line. -/
def parseLines : (first : Nat) → List String → Except ParseError (List Rule)
  | _, [] => .ok []
  | first, raw :: rest => do
    let rule ← parseLine first raw
    let rules ← parseLines (first + 1) rest
    return rule.toList ++ rules

/-- The rules of a text in order, or its first bad line. -/
def parseText (text : String) : Except ParseError (List Rule) :=
  parseLines 1 (Text.lines text)

end Rule

end ClassAccess
