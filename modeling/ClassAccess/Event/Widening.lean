import ClassAccess.Event.Basic
import ClassAccess.Widening.Pass

/-!
# Events while a class is worked on

The notes that are taken about a class, told one by one. What was noted before an error is told as
well.

## Main definitions

* `Event.ofOutcome` — the events that one note stands for.
* `Event.ofWidening` — the events of applying a rule set to a file.
-/

set_option autoImplicit false

namespace ClassAccess.Event

/-- The events that a note about the class `className` stands for: a refusal before a change, and
single calls before their number. -/
def ofOutcome (className : String) : Outcome → List Event
  | .rewrote name descriptor rule calls =>
    calls.map (fun call => rewroteCall className name descriptor call.pc) ++
      if calls.isEmpty then [] else [openedMethod className rule calls.length]
  | outcome =>
    (outcome.denial?.map (denied className)).toList ++
      (outcome.change?.map (changed className)).toList

/-- The events of applying a rule set to a file. -/
def ofWidening (s : RuleSet) (bytes : List UInt8) : List Event :=
  match ClassFile.read bytes with
  | .error _ => []
  | .ok c => (s.pass c).2.flatMap (ofOutcome c.name)

end ClassAccess.Event
