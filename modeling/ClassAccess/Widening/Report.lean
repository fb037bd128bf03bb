import ClassAccess.ClassFile.Error
import ClassAccess.Rule.Policy
import ClassAccess.Text.Hex

/-!
# What was done to a class

While a class is worked on, each decision about a flag word and each rewriting of calls is noted.
The notes say what changed, what was refused and which calls were rewritten.

## Main definitions

* `Element` — what a flag word belongs to.
* `Outcome` — one note.
* `Report` — the new file with the notes.
* `Report.changes`, `Report.denied`, `Report.calls` — what the notes say.
* `WideningError` — why a class cannot be worked on.
-/

set_option autoImplicit false

namespace ClassAccess

/-! ## Elements -/

/-- What a flag word belongs to. -/
inductive Element
  /-- The class itself. -/
  | classItself
  /-- A field, by its name. -/
  | field (name : String)
  /-- A method, by its name and descriptor. -/
  | method (signature : String)
  /-- An inner class, by its binary name. -/
  | innerClass (name : String)
deriving DecidableEq, Repr

namespace Element

/-- The word for the kind of element. -/
def kindWord : Element → String
  | classItself => "class"
  | field _ => "field"
  | method _ => "method"
  | innerClass _ => "inner class"

/-- What tells the element from others of its kind. -/
def name? : Element → Option String
  | classItself => none
  | field name => some name
  | method signature => some signature
  | innerClass name => some name

/-- The element in words. -/
def text (e : Element) : String :=
  match e.name? with
  | none => e.kindWord
  | some name => e.kindWord ++ " " ++ name

end Element

/-! ## Notes -/

/-- A call that was rewritten. -/
structure RewrittenCall where
  /-- The name and descriptor of the method that makes the call. -/
  method : String
  /-- Where the call stands in the code of the method. -/
  pc : Nat
  /-- Where the call stands in the file. -/
  offset : Nat
deriving DecidableEq, Repr

/-- One note about the work on a class. -/
inductive Outcome
  /-- The policy decided about the flag word of an element, which was `before` till then. -/
  | decided (element : Element) (before : Flags) (result : Override)
  /-- The calls of a method to itself were rewritten because of a rule. -/
  | rewrote (name descriptor : String) (rule : Rule) (calls : List RewrittenCall)
deriving DecidableEq

/-- A flag word that changed. -/
structure FlagChange where
  /-- What the word belongs to. -/
  element : Element
  /-- The word as it was. -/
  before : Flags
  /-- The word as it is. -/
  after : Flags
deriving DecidableEq, Repr

/-- A request to narrow access that was refused. -/
structure Denial where
  /-- What the request was about. -/
  element : Element
  /-- What there is and what was asked for. -/
  downgrade : Downgrade
deriving DecidableEq, Repr

namespace Outcome

/-- The change that the note tells of. -/
def change? : Outcome → Option FlagChange
  | decided element before result =>
    if result.flags = before then none else some ⟨element, before, result.flags⟩
  | rewrote .. => none

/-- The refusal that the note tells of. -/
def denial? : Outcome → Option Denial
  | decided element _ result => result.denied.map fun downgrade => ⟨element, downgrade⟩
  | rewrote .. => none

/-- The rewritten calls that the note tells of. -/
def rewrittenCalls : Outcome → List RewrittenCall
  | decided .. => []
  | rewrote _ _ _ calls => calls

end Outcome

/-! ## Reports -/

/-- A class file after the work on it, with all notes. -/
structure Report where
  /-- The binary name of the class. -/
  className : String
  /-- The new file. -/
  bytes : List UInt8
  /-- The notes in order. -/
  outcomes : List Outcome
deriving DecidableEq

namespace Report

/-- The flag words that changed, in the order of the file. -/
def changes (r : Report) : List FlagChange :=
  r.outcomes.filterMap Outcome.change?

/-- The refusals, in the order of the file. -/
def denied (r : Report) : List Denial :=
  r.outcomes.filterMap Outcome.denial?

/-- The rewritten calls, in the order of the file. -/
def calls (r : Report) : List RewrittenCall :=
  r.outcomes.flatMap Outcome.rewrittenCalls

/-- Whether no flag word changed and no call was rewritten. -/
def isUnchanged (r : Report) : Bool :=
  r.changes.isEmpty && r.calls.isEmpty

/-- A change in words. -/
def changeText (c : FlagChange) : String :=
  s!"{c.element.text} {Text.hex 4 c.before.toNat} -> {Text.hex 4 c.after.toNat}"

/-- A refusal in words. -/
def denialText (d : Denial) : String :=
  s!"{d.element.text} {d.downgrade.current.word} -> {d.downgrade.requested.word}"

/-- The report in words: the changes, then the refusals and the number of rewritten calls where
there are any. -/
def text (r : Report) : String :=
  let changed := ", ".intercalate (r.changes.map changeText)
  let refused := ", ".intercalate (r.denied.map denialText)
  s!"{r.className}: changed: [{changed}]" ++
    (if r.denied.isEmpty then "" else s!", denied: [{refused}]") ++
    (if r.calls.isEmpty then "" else s!", rewritten calls: {r.calls.length}")

end Report

/-! ## Errors -/

/-- What stopped the work on a class. -/
inductive WideningFault
  /-- The file is no class file, or a call in it leads nowhere. -/
  | classFile (error : ClassFileError)
  /-- Two rules do not fit together. -/
  | merge (error : MergeError)
deriving DecidableEq, Repr

/-- Why a class cannot be worked on. -/
structure WideningError where
  /-- The binary name of the class, once the file is known to be a class. -/
  className : Option String
  /-- What stopped the work. -/
  fault : WideningFault
deriving DecidableEq, Repr

/-- The fault in words. -/
def WideningFault.message : WideningFault → String
  | classFile error => s!"malformed class file: {error.message}"
  | merge error => error.message

/-- The error in words. -/
def WideningError.message (e : WideningError) : String :=
  match e.className with
  | some name => s!"cannot transform class {name}: {e.fault.message}"
  | none => s!"cannot transform class: {e.fault.message}"

end ClassAccess
