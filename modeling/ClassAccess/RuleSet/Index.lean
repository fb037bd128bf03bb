import ClassAccess.RuleSet.Basic

/-!
# The rules about one class

Before a class is worked on, the rules about it are sorted by what they apply to. A rule for one
member is put over the rule for all members of its kind when both are there.

## Main definitions

* `RuleIndex` — the rules about one class.
* `RuleIndex.ofSet` — those of a rule set.
* `RuleIndex.fieldRule?`, `RuleIndex.methodRule?` — what applies to a member.
* `RuleIndex.classRule?` — what applies to the class as a whole.
-/

set_option autoImplicit false

namespace ClassAccess

open Std (TreeMap)

/-- The rules about one class, by what they apply to. -/
structure RuleIndex where
  /-- The rule set that the rules are from. -/
  ruleSet : RuleSet
  /-- The name of the class, with dots. -/
  className : String
  /-- The rule for the class as a whole. -/
  classRule? : Option Rule
  /-- The last rule for each field. -/
  fields : TreeMap String Rule
  /-- The last rule for each method. -/
  methods : TreeMap String Rule

namespace RuleIndex

/-- The last rule of a list for each field that some rule is about. -/
def lastByField (rules : List Rule) : TreeMap String Rule :=
  rules.foldl
    (fun found rule =>
      match rule.target with
      | .field _ name => found.insert name rule
      | _ => found)
    ∅

/-- The last rule of a list for each method that some rule is about. -/
def lastByMethod (rules : List Rule) : TreeMap String Rule :=
  rules.foldl
    (fun found rule =>
      match rule.target with
      | .method _ signature => found.insert signature rule
      | _ => found)
    ∅

/-- The rules of a set about one class. -/
def ofSet (s : RuleSet) (className : String) : RuleIndex where
  ruleSet := s
  className := dotted className
  classRule? := s.classRule? (dotted className)
  fields := lastByField (s.rulesForClass (dotted className))
  methods := lastByMethod (s.rulesForClass (dotted className))

/-- Whether no rule is about the class. -/
def isEmpty (index : RuleIndex) : Bool :=
  index.classRule?.isNone && index.fields.isEmpty && index.methods.isEmpty

/-- What applies to a member for which there may be a rule for all members and one of its own. -/
def layered : (wildcard exact : Option Rule) → Except MergeError (Option Rule)
  | some wildcard, some exact => some <$> wildcard.layer exact
  | some only, none => .ok (some only)
  | none, some only => .ok (some only)
  | none, none => .ok none

/-- The rule that applies to a field. -/
def fieldRule? (index : RuleIndex) (name : String) : Except MergeError (Option Rule) :=
  layered index.fields[Target.anyField]? index.fields[name]?

/-- The rule that applies to a method. -/
def methodRule? (index : RuleIndex) (name descriptor : String) :
    Except MergeError (Option Rule) :=
  layered index.methods[Target.anyMethod]? index.methods[name ++ descriptor]?

/-- The rule that applies to an inner class. It is a class of its own, so that it is looked for in
the whole rule set. -/
def innerClassRule? (index : RuleIndex) (className : String) : Option Rule :=
  index.ruleSet.classRule? className

end RuleIndex

end ClassAccess
