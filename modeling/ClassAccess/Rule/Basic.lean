import ClassAccess.Access.Edit
import ClassAccess.Access.Level
import ClassAccess.Rule.Target

/-!
# Rules

A rule asks that its target get at least a level of access and that some of its flags be edited. Two
rules for one target merge into one, and a rule for one member may be layered over the rule for all
members of its class.

## Main definitions

* `Rule` — a target, a level and edits.
* `Rule.merge` — the wider level, and the edits of the second rule over those of the first.
* `Rule.layer` — a rule for one member merged into a wildcard rule.
* `Rule.text` — the rule in rule text.
-/

set_option autoImplicit false

namespace ClassAccess

/-- A request to widen the access of a target and to edit its flags. -/
structure Rule where
  /-- What the rule applies to. -/
  target : Target
  /-- The level asked for. -/
  level : Level
  /-- The flags to edit. -/
  edits : Edits
deriving DecidableEq, Inhabited

/-- Two rules that do not fit together, by their targets. -/
structure MergeError where
  /-- The target of the first rule. -/
  left : Target
  /-- The target of the second rule. -/
  right : Target
deriving DecidableEq, Repr

/-- The text of the error. -/
def MergeError.message (e : MergeError) : String :=
  s!"cannot merge {e.left.kind.word} rule for '{e.left.text}' with " ++
    s!"{e.right.kind.word} rule for '{e.right.text}'"

namespace Rule

/-- The rule whose edits are a list in which the later of two edits of a modifier stays. -/
def ofEdits (target : Target) (level : Level) (edits : List Edit) : Rule :=
  ⟨target, level, Edits.ofList edits⟩

/-- The rule with one more edit. -/
def withEdit (r : Rule) (e : Edit) : Rule :=
  { r with edits := r.edits.put e }

/-- Whether two rules have the same target. -/
def isMergeableWith (a b : Rule) : Bool := a.target = b.target

/-- One rule for the target of both: the wider level, and the edits of `b` over those of `a`. -/
def merge (a b : Rule) : Except MergeError Rule :=
  if a.isMergeableWith b then
    .ok ⟨a.target, max a.level b.level, a.edits.putAll b.edits.toList⟩
  else .error ⟨a.target, b.target⟩

/-- The rule for one member that results when `specific` is put over `wildcard`, which has to stand
for all members of that kind of the same class. -/
def layer (wildcard specific : Rule) : Except MergeError Rule :=
  if wildcard.target.isWildcard && wildcard.target.kind = specific.target.kind &&
      wildcard.target.className = specific.target.className then
    { wildcard with target := specific.target }.merge specific
  else .error ⟨wildcard.target, specific.target⟩

/-- The rule in rule text. -/
def text (r : Rule) : String :=
  r.level.word ++ r.edits.text ++ " " ++ r.target.text

end Rule

end ClassAccess
