import ClassAccess.ClassFile.Descriptor
import ClassAccess.Rule.Basic

/-!
# Warnings about rules

No list of rules is refused, but some rules cannot have any effect: a second rule for a class as a
whole, a rule for a member that a later rule is about as well, and a rule for a method that no
method can be named like.

## Main definitions

* `Warning` — the three kinds.
* `Warning.ofRules` — the warnings about a list of rules.
-/

set_option autoImplicit false

namespace ClassAccess

/-- A rule without effect. -/
inductive Warning
  /-- `kept` is an earlier rule for the same class as a whole. -/
  | duplicateClassRule (kept ignored : Rule)
  /-- A later rule is about the same member. -/
  | duplicateMemberRule (ignored : Rule)
  /-- No method has this name and descriptor. -/
  | unmatchableMethod (rule : Rule)
deriving DecidableEq

namespace Warning

/-- The rules for classes as a whole that come after the first one for their class, each with that
first one; `firsts` are the first ones seen before. -/
def duplicateClassRules (firsts : List Rule) : List Rule → List Warning
  | [] => []
  | rule :: rest =>
    if rule.target.isClassLevel then
      match firsts.find? fun first => first.target = rule.target with
      | some first => duplicateClassRule first rule :: duplicateClassRules firsts rest
      | none => duplicateClassRules (firsts ++ [rule]) rest
    else duplicateClassRules firsts rest

/-- The rules for members that a later rule is about as well, last one first. -/
def shadowedRules : List Rule → List Rule
  | [] => []
  | rule :: rest =>
    shadowedRules rest ++
      if !rule.target.isClassLevel && rest.any fun later => later.target = rule.target then [rule]
      else []

/-- Whether a text is a name that is not empty, followed by the descriptor of a method that starts
at its first parenthesis. -/
def isSignature (signature : List Char) : Bool :=
  !(signature.takeWhile (· ≠ '(')).isEmpty && isMethodDescriptor (signature.dropWhile (· ≠ '('))

/-- Whether a rule is for one method and no method can be named like that. -/
def isUnmatchable (rule : Rule) : Bool :=
  match rule.target with
  | .method _ signature => !rule.target.isWildcard && !isSignature signature.toList
  | _ => false

/-- The warnings about a list of rules: for classes as a whole, then for members, then for methods
that cannot be found. -/
def ofRules (rules : List Rule) : List Warning :=
  duplicateClassRules [] rules ++ (shadowedRules rules).map duplicateMemberRule ++
    (rules.filter isUnmatchable).map unmatchableMethod

end Warning

end ClassAccess
