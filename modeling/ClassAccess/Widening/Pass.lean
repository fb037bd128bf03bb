import ClassAccess.ClassFile.Read
import ClassAccess.ClassFile.Visitor
import ClassAccess.RuleSet.Index
import ClassAccess.Widening.Report
import ClassAccess.Widening.SelfCall

/-!
# Widening the access of a class

The rules of a set are applied to one class: the policy decides about each of its flag words, and
the calls of a method to itself are rewritten when it stops being private.

## Main definitions

* `Widening.visitor` — the rules about a class as a visitor of it.
* `RuleSet.fullPass` — a visit to every element.
* `RuleSet.pass` — the same, skipped where no rule applies.
* `RuleSet.widen` — a file read, worked on and reported about.

## Design

The notes are kept as state beside the errors, so that what was done before an error is known. The
method that initialises a class is never touched; of a constructor only the visibility is, since it
can be neither final nor overridden.
-/

set_option autoImplicit false

namespace ClassAccess

/-- Work on a class that may fail and that takes notes. -/
abbrev Pass := ExceptT WideningError (StateM (List Outcome))

namespace Widening

/-- Takes a note. -/
def note (outcome : Outcome) : Pass Unit :=
  modify (· ++ [outcome])

/-- Notes what the policy decided about a flag word and gives the new word. -/
def settle (element : Element) (before : Flags) (result : Override) : Pass Flags := do
  note (.decided element before result)
  return result.flags

/-- What rules say about an element of the class `c`, or why they do not fit together. -/
def ruleFor (c : ClassFile) : Except MergeError (Option Rule) → Pass (Option Rule)
  | .ok rule => pure rule
  | .error e => throw ⟨some c.name, .merge e⟩

/-- Rewrites the calls of a method of `c` to itself and notes them. -/
def rewriteSelfCalls (c : ClassFile) (m : Method) (rule : Rule) (code : List UInt8) :
    Pass (List UInt8) :=
  match SelfCall.sites c.pool c.name m.name m.descriptor code with
  | .error e => throw ⟨some c.name, .classFile e⟩
  | .ok pcs => do
    let start := (m.code.map Span.start).getD 0
    note (.rewrote m.name m.descriptor rule (pcs.map fun pc => ⟨m.signature, pc, start + pc⟩))
    return SelfCall.rewrite pcs code

/-- Whether a method that was private is no longer. -/
def isOpened (before after : Flags) : Bool :=
  before.meets Flags.privateBit && !after.meets Flags.privateBit

/-- What becomes of a method that the rule `rule` applies to. -/
def widenMethod (c : ClassFile) (m : Method) (rule : Rule) (code : Option (List UInt8)) :
    Pass (Flags × Option (List UInt8)) := do
  if m.name = Method.constructorName then
    let flags ← settle (.method m.signature) m.flags (overrideLevel m.flags rule.level)
    return (flags, code)
  else
    let flags ← settle (.method m.signature) m.flags (overrideAccess m.flags (some rule))
    if isOpened m.flags flags then
      match code with
      | none => return (flags, none)
      | some bytes => return (flags, some (← rewriteSelfCalls c m rule bytes))
    else return (flags, code)

/-- The rules about a class as a visitor of it. -/
def visitor (index : RuleIndex) : Visitor Pass where
  visitClass c :=
    settle .classItself c.flags (overrideAccess c.flags index.classRule?)
  visitField c f := do
    let rule ← ruleFor c (index.fieldRule? f.name)
    settle (.field f.name) f.flags (overrideAccess f.flags rule)
  visitMethod c m code := do
    if m.name = Method.initializerName then return (m.flags, code)
    else
      match ← ruleFor c (index.methodRule? m.name m.descriptor) with
      | none => return (m.flags, code)
      | some rule => widenMethod c m rule code
  visitInnerClass _ i :=
    settle (.innerClass i.name) i.flags (overrideAccess i.flags (index.innerClassRule? i.name))

end Widening

namespace RuleSet

/-- The file of a class after a visit to every element, or an error, and the notes. -/
def fullPass (s : RuleSet) (c : ClassFile) : Except WideningError (List UInt8) × List Outcome :=
  (c.accept (Widening.visitor (RuleIndex.ofSet s c.name))).run.run []

/-- Whether no rule applies to the class or to an inner class that it mentions. -/
def appliesNowhere (s : RuleSet) (c : ClassFile) : Bool :=
  (RuleIndex.ofSet s c.name).isEmpty &&
    !c.innerClasses.any fun i => (s.classRule? i.name).isSome

/-- The file of a class after all rules were applied, or an error, and the notes. -/
def pass (s : RuleSet) (c : ClassFile) : Except WideningError (List UInt8) × List Outcome :=
  if s.appliesNowhere c then (.ok c.bytes, []) else s.fullPass c

/-- A class file after all rules of the set were applied to it. -/
def widen (s : RuleSet) (bytes : List UInt8) : Except WideningError Report :=
  match ClassFile.read bytes with
  | .error e => .error ⟨none, .classFile e⟩
  | .ok c =>
    match s.pass c with
    | (.error e, _) => .error e
    | (.ok out, outcomes) => .ok ⟨c.name, out, outcomes⟩

end RuleSet

end ClassAccess
