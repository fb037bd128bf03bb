import ClassAccess.Cache.Varint
import ClassAccess.RuleSet.Basic

/-!
# The payload of a cache

What a cache holds: how many rules and classes there are, the digest of the text that the rules came
from, and the rules.

## Main definitions

* `StoredRule`, `Payload` — what is stored.
* `Payload.encode`, `Payload.read` — the bytes, and back.
* `StoredRule.ofRule` — a rule as it is stored.
-/

set_option autoImplicit false

namespace ClassAccess

/-- A rule as it is stored. -/
structure StoredRule where
  /-- The kind of its target. -/
  kind : TargetKind
  /-- The class of its target. -/
  className : String
  /-- The member of its target, if there is one. -/
  member : Option String
  /-- The level. -/
  level : Level
  /-- The edits in order. -/
  edits : List Edit
deriving DecidableEq

/-- What a cache holds. -/
structure Payload where
  /-- How many rules there are. -/
  ruleCount : Nat
  /-- How many classes the rules are about. -/
  classCount : Nat
  /-- The digest of the text that the rules came from, if there was one. -/
  sourceDigest : Option (List UInt8)
  /-- The rules in load order. -/
  rules : List StoredRule
deriving DecidableEq

/-! ## Order of cases -/

/-- The kinds of target by their numbers. -/
def TargetKind.numbered : List TargetKind := [.classLevel, .field, .method]

/-- The actions of an edit by their numbers. -/
def EditAction.numbered : List EditAction := [.set, .clear]

/-! ## Writing -/

/-- The bytes of one of the given cases: its number. -/
def caseBytes {α : Type} [DecidableEq α] (cases : List α) (a : α) : List UInt8 :=
  Varint.encode (cases.findIdx fun b => decide (b = a))

/-- The bytes of a part that may be left out: a zero, or a one and the part. -/
def optionBytes {α : Type} (part : α → List UInt8) : Option α → List UInt8
  | none => [0]
  | some a => 1 :: part a

/-- The bytes of a list: the number of its elements, then the elements. -/
def listBytes {α : Type} (part : α → List UInt8) (l : List α) : List UInt8 :=
  Varint.encode l.length ++ l.flatMap part

/-- The bytes of an edit. -/
def Edit.encode (e : Edit) : List UInt8 :=
  caseBytes Modifier.all e.modifier ++ caseBytes EditAction.numbered e.action

namespace StoredRule

/-- A rule as it is stored. -/
def ofRule (r : Rule) : StoredRule :=
  ⟨r.target.kind, r.target.className, r.target.member?, r.level, r.edits.toList⟩

/-- The bytes of a rule. -/
def encode (r : StoredRule) : List UInt8 :=
  caseBytes TargetKind.numbered r.kind ++ textBytes r.className ++ optionBytes textBytes r.member ++
    caseBytes Level.all r.level ++ listBytes Edit.encode r.edits

end StoredRule

namespace Payload

/-- The bytes of a payload. -/
def encode (p : Payload) : List UInt8 :=
  Varint.encode p.ruleCount ++ Varint.encode p.classCount ++ optionBytes id p.sourceDigest ++
    listBytes StoredRule.encode p.rules

end Payload

/-! ## Reading -/

/-- How many bytes a digest has. -/
def digestLength : Nat := 32

/-- An edit. -/
def Edit.read : Decoder Edit := do
  let modifier ← Decoder.oneOf Modifier.all
  let action ← Decoder.oneOf EditAction.numbered
  return ⟨modifier, action⟩

/-- A rule. -/
def StoredRule.read : Decoder StoredRule := do
  let kind ← Decoder.oneOf TargetKind.numbered
  let className ← Decoder.text
  let member ← Decoder.optional Decoder.text
  let level ← Decoder.oneOf Level.all
  let edits ← Parser.many Edit.read (← Decoder.count)
  return ⟨kind, className, member, level, edits⟩

/-- A payload. A digest is read byte by byte, so that no more than one byte of it is ever
missing. -/
def Payload.read : Decoder Payload := do
  let ruleCount ← Decoder.number
  let classCount ← Decoder.number
  let sourceDigest ← Decoder.optional (Parser.many Decoder.byte digestLength)
  let rules ← Parser.many StoredRule.read (← Decoder.count)
  return ⟨ruleCount, classCount, sourceDigest, rules⟩

end ClassAccess
