import ClassAccess.RuleSet.Warning
import ClassAccess.Widening.Report

/-!
# Events

What a user of the library may want to follow while it works: the lines that are read, the warnings
about rules, and what is done to a class. An event has a severity, a message and named fields.

## Main definitions

* `Event` — the kinds of event.
* `Event.severity`, `Event.message`, `Event.fields` — how an event is shown.
-/

set_option autoImplicit false

namespace ClassAccess

/-- How much an event matters. -/
inductive Severity
  /-- A single step. -/
  | trace
  /-- A decision. -/
  | debug
  /-- Something that may be wrong. -/
  | warn
deriving DecidableEq, Repr

/-- How a severity is shown. -/
def Severity.label : Severity → String
  | trace => "TRACE"
  | debug => "DEBUG"
  | warn => "WARN"

/-- Something that happened. -/
inductive Event
  /-- A line that is neither blank nor all comment is about to be read. -/
  | readingLine (line : Nat) (text : String)
  /-- The line is a rule for this target. -/
  | readRule (line : Nat) (target : Target)
  /-- A rule has no effect. -/
  | warned (warning : Warning)
  /-- A request to narrow access was refused. -/
  | denied (className : String) (denial : Denial)
  /-- A flag word changed. -/
  | changed (className : String) (change : FlagChange)
  /-- A call of a method to itself was rewritten. -/
  | rewroteCall (className name descriptor : String) (pc : Nat)
  /-- This many calls of a method to itself were rewritten because of a rule. -/
  | openedMethod (className : String) (rule : Rule) (calls : Nat)
deriving DecidableEq

namespace Event

/-- How much the event matters. -/
def severity : Event → Severity
  | readingLine .. | readRule .. => .trace
  | warned _ => .warn
  | denied .. | changed .. | rewroteCall .. | openedMethod .. => .debug

/-- The event in words. -/
def message : Event → String
  | readingLine .. => "parsing access transform line"
  | readRule .. => "parsed access transform"
  | warned (.duplicateClassRule ..) => "duplicate class access transform, keeping the first"
  | warned (.duplicateMemberRule _) =>
    "duplicate member access transform, a later rule takes precedence"
  | warned (.unmatchableMethod _) =>
    "method access transform has no valid JVM descriptor and will never match"
  | denied .. => "denied access downgrade"
  | changed .. => "applied access transform"
  | rewroteCall .. => "rewrote invokespecial self-call to invokevirtual"
  | openedMethod .. => "made private method overridable, patched self-calls"

/-- The named parts of the event, as text. -/
def fields : Event → List (String × String)
  | readingLine line text => [("line", toString line), ("text", text)]
  | readRule line target =>
    [("line", toString line), ("kind", target.kind.word), ("transform", target.text)]
  | warned (.duplicateClassRule kept ignored) =>
    [("class", ignored.target.className), ("kept", kept.text), ("ignored", ignored.text)]
  | warned (.duplicateMemberRule ignored) =>
    [("transform", ignored.target.text), ("ignored", ignored.text)]
  | warned (.unmatchableMethod rule) => [("transform", rule.target.text)]
  | denied className denial =>
    [("class", className), ("element", denial.element.text),
      ("current", denial.downgrade.current.word), ("requested", denial.downgrade.requested.word)]
  | changed className change =>
    [("class", className), ("element", change.element.text),
      ("old_flags", Text.hex 4 change.before.toNat), ("new_flags", Text.hex 4 change.after.toNat)]
  | rewroteCall className name descriptor pc =>
    [("owner", className), ("method", name), ("descriptor", descriptor), ("pc", toString pc)]
  | openedMethod className rule calls =>
    [("class", className), ("rule", rule.text), ("calls", toString calls)]

end Event

end ClassAccess
