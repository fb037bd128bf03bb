import ClassAccess.Proofs.ClassFile.Regions
import ClassAccess.Proofs.Rule.Sequence
import ClassAccess.Proofs.RuleSet.Answers
import ClassAccess.Widening.Pass

/-!
# What a rule set decides about a class

What becomes of the elements of a class, read off the plain list of rules: no index is built, no
file is written and no notes are taken.

## Main definitions

* `Request.about` — what the rules of a list ask for an element of a class.
* `verdict` — what becomes of the flag word of the element.
* `openedSites` — the calls of a method to itself that are rewritten.
* `ClassFile.answersFor` — the flag words of a whole class and the code that goes with them.
* `RuleSet.answers` — those for the verdicts of a rule set.
* `TellOf` — notes that tell of given changes, refusals and rewritten calls.

## Main results

* `openedSites_cases` — the calls that are rewritten, if there are any.
* `TellOf.decided` — a decision tells of the change and the refusal of its element.
* `overrideAccess_eq_verdict` — the policy decides what the verdict is.
-/

set_option autoImplicit false

namespace ClassAccess

/-! ## Verdicts -/

namespace Part

/-- How a report names the element. -/
def element : Part → Element
  | whole _ => .classItself
  | field f => .field f.name
  | method m => .method m.signature
  | innerClass i => .innerClass i.name

/-- Whether the element is a constructor. -/
def isConstructor : Part → Bool
  | method m => m.name = Method.constructorName
  | _ => false

end Part

/-- What the rules of a list ask for an element of the class `c`. Nothing is asked for the method
that initialises the class. -/
def Request.about (rules : List Rule) (c : ClassFile) : Part → Option Request
  | .whole d => forClass rules d.name
  | .field f => forField rules c.name f.name
  | .method m =>
    if m.name = Method.initializerName then none else forMethod rules c.name m.name m.descriptor
  | .innerClass i => forClass rules i.name

/-- What becomes of the flag word of an element of the class `c` under the rules of a list: the
ruling on what they ask for it. Of a constructor, only the visibility changes. -/
def verdict (rules : List Rule) (c : ClassFile) (p : Part) : Override :=
  Request.ruling p.isConstructor (Request.about rules c p) p.flags

/-- The change of the flag word of an element, if it changes. -/
def flagChange? (rules : List Rule) (c : ClassFile) (p : Part) : Option FlagChange :=
  if (verdict rules c p).flags = p.flags then none
  else some ⟨p.element, p.flags, (verdict rules c p).flags⟩

/-- The refusal of what is asked for an element, if it is refused. -/
def denial? (rules : List Rule) (c : ClassFile) (p : Part) : Option Denial :=
  (verdict rules c p).denied.map fun downgrade => ⟨p.element, downgrade⟩

/-- An element that nothing is asked for is left alone. -/
theorem verdict_of_unasked {rules : List Rule} {c : ClassFile} {p : Part}
    (h : Request.about rules c p = none) : verdict rules c p = ⟨p.flags, none⟩ := by
  rw [verdict, h]
  rfl

/-- The policy decides what the verdict is, unless the element is a constructor. -/
theorem overrideAccess_eq_verdict {rules : List Rule} {c : ClassFile} {p : Part} {r? : Option Rule}
    (h : r?.map Rule.request = Request.about rules c p) (hp : p.isConstructor = false) :
    overrideAccess p.flags r? = verdict rules c p := by
  rw [verdict, ← h, hp]
  cases r? with
  | none => rfl
  | some r => exact overrideAccess_eq_grant p.flags r

/-! ## Calls -/

/-- Whether a method is opened when its flag word becomes `after`: it was private and is no longer,
and it initialises neither the class nor an object. -/
def Method.isOpenedBy (m : Method) (after : Flags) : Bool :=
  m.name != constructorName && m.name != initializerName && Widening.isOpened m.flags after

/-- A method is not opened if its flag word stays. -/
theorem Method.isOpenedBy_flags (m : Method) : m.isOpenedBy m.flags = false := by
  rw [isOpenedBy, Widening.isOpened, Bool.and_not_self, Bool.and_false]

/-- Where the code of a method of the class `c` calls the method itself, if the method is opened
when its flag word becomes `after`. -/
def openedSites (c : ClassFile) (m : Method) (after : Flags) : Except ClassFileError (List Nat) :=
  match c.code? m with
  | none => .ok []
  | some code =>
    if m.isOpenedBy after then SelfCall.sites c.pool c.name m.name m.descriptor code else .ok []

section Sites

variable {c : ClassFile} {m : Method} {after : Flags}

/-- No call is rewritten in a method without code. -/
theorem openedSites_of_none (hcode : c.code? m = none) : openedSites c m after = .ok [] := by
  rw [openedSites, hcode]

/-- No call is rewritten in a method that is not opened. -/
theorem openedSites_of_not (h : m.isOpenedBy after = false) : openedSites c m after = .ok [] := by
  rw [openedSites]
  split
  · rfl
  · rw [h, if_neg Bool.false_ne_true]

/-- In a method that is opened, the calls in its code are rewritten. -/
theorem openedSites_of_opened (h : m.isOpenedBy after = true) {code : List UInt8}
    (hcode : c.code? m = some code) :
    openedSites c m after = SelfCall.sites c.pool c.name m.name m.descriptor code := by
  rw [openedSites, hcode]
  exact if_pos h

/-- **The sites of a method** are those of its code if it is opened. There are none if it is not
opened or has no code. -/
theorem openedSites_cases (c : ClassFile) (m : Method) (after : Flags) :
    (m.isOpenedBy after = true ∧ ∃ code, c.code? m = some code ∧
      openedSites c m after = SelfCall.sites c.pool c.name m.name m.descriptor code) ∨
      (m.isOpenedBy after = true → c.code? m = none) ∧ openedSites c m after = .ok [] := by
  cases hopened : m.isOpenedBy after with
  | false => exact .inr ⟨nofun, openedSites_of_not hopened⟩
  | true =>
    cases hcode : c.code? m with
    | none => exact .inr ⟨fun _ => rfl, openedSites_of_none hcode⟩
    | some code => exact .inl ⟨rfl, code, rfl, openedSites_of_opened hopened hcode⟩

end Sites

/-- How a report names the calls of a method at the places `pcs` of its code. -/
def Method.callsAt (m : Method) (pcs : List Nat) : List RewrittenCall :=
  pcs.map fun pc => ⟨m.signature, pc, (m.code.map Span.start).getD 0 + pc⟩

/-- The calls of a method of the class `c` that are rewritten under the rules of a list. -/
def callsOf (rules : List Rule) (c : ClassFile) (m : Method) : List RewrittenCall :=
  match openedSites c m (verdict rules c (.method m)).flags with
  | .ok pcs => m.callsAt pcs
  | .error _ => []

/-! ## Answers -/

/-- The new flag word `after` of a method of the class `c` and its new code, or a call in its code
that leads nowhere. -/
def ClassFile.answerFor (c : ClassFile) (m : Method) (after : Flags) :
    Except WideningError (Flags × Option (List UInt8)) :=
  match openedSites c m after with
  | .ok pcs => .ok (after, (c.code? m).map (SelfCall.rewrite pcs))
  | .error e => .error ⟨some c.name, .classFile e⟩

/-- There is an answer about a method if its sites can be told: they are rewritten. -/
theorem ClassFile.answerFor_eq_ok_iff {c : ClassFile} {m : Method} {after : Flags}
    {answer : Flags × Option (List UInt8)} :
    c.answerFor m after = .ok answer ↔ ∃ pcs, openedSites c m after = .ok pcs ∧
      answer = (after, (c.code? m).map (SelfCall.rewrite pcs)) := by
  rw [answerFor]
  cases openedSites c m after with
  | ok pcs => simp [eq_comm]
  | error e => simp

/-- There is none if they cannot be told. -/
theorem ClassFile.answerFor_eq_error_iff {c : ClassFile} {m : Method} {after : Flags}
    {err : WideningError} :
    c.answerFor m after = .error err ↔ ∃ e, openedSites c m after = .error e ∧
      err = ⟨some c.name, .classFile e⟩ := by
  rw [answerFor]
  cases openedSites c m after with
  | ok pcs => simp
  | error e => simp [eq_comm]

/-- The new flag words and the new code of the class `c` if the flag word of each element becomes
what `word` says. -/
def ClassFile.answersFor (c : ClassFile) (word : Part → Flags) :
    Except WideningError ClassFile.Answers := do
  let methods ← c.methods.mapM fun m => c.answerFor m (word (.method m))
  return ⟨word (.whole c), c.fields.map fun f => word (.field f), methods,
    c.innerClasses.map fun i => word (.innerClass i)⟩

/-- The new flag word of a method under the rules of a list and its new code. -/
def methodAnswer (rules : List Rule) (c : ClassFile) (m : Method) :
    Except WideningError (Flags × Option (List UInt8)) :=
  c.answerFor m (verdict rules c (.method m)).flags

/-- The new flag words of the class `c` under a rule set and its new code. -/
def RuleSet.answers (s : RuleSet) (c : ClassFile) : Except WideningError ClassFile.Answers :=
  c.answersFor fun p => (verdict s.rules.toList c p).flags

/-! ## Notes -/

/-- Notes that tell of `changes`, `denied` and `calls`. -/
structure TellOf (notes : List Outcome) (changes : List FlagChange) (denied : List Denial)
    (calls : List RewrittenCall) : Prop where
  /-- The changes that the notes tell of. -/
  changes_eq : notes.filterMap Outcome.change? = changes
  /-- The refusals that they tell of. -/
  denied_eq : notes.filterMap Outcome.denial? = denied
  /-- The rewritten calls that they tell of. -/
  calls_eq : notes.flatMap Outcome.rewrittenCalls = calls

namespace TellOf

variable {notes notes' : List Outcome} {changes changes' : List FlagChange}
  {denied denied' : List Denial} {calls calls' : List RewrittenCall}

/-- No notes tell of nothing. -/
theorem nil : TellOf [] [] [] [] := ⟨rfl, rfl, rfl⟩

/-- What notes tell of adds up. -/
theorem append (h : TellOf notes changes denied calls)
    (h' : TellOf notes' changes' denied' calls') :
    TellOf (notes ++ notes') (changes ++ changes') (denied ++ denied') (calls ++ calls') := by
  obtain ⟨rfl, rfl, rfl⟩ := h
  obtain ⟨rfl, rfl, rfl⟩ := h'
  exact ⟨List.filterMap_append, List.filterMap_append, List.flatMap_append⟩

/-- What the notes on the members of a list tell of. -/
theorem flatMap {α : Type} {as : List α} {n : α → List Outcome} {change? : α → Option FlagChange}
    {denial? : α → Option Denial} {calls : α → List RewrittenCall}
    (h : ∀ a ∈ as, TellOf (n a) (change? a).toList (denial? a).toList (calls a)) :
    TellOf (as.flatMap n) (as.filterMap change?) (as.filterMap denial?) (as.flatMap calls) := by
  induction as with
  | nil => exact nil
  | cons a as ih =>
    obtain ⟨ha, has⟩ := List.forall_mem_cons.1 h
    have happend := ha.append (ih has)
    rw [List.flatMap_cons, List.flatMap_cons]
    cases hc : change? a <;> cases hd : denial? a <;>
      simpa only [hc, hd, List.filterMap_cons, Option.toList_none, Option.toList_some,
        List.nil_append, List.singleton_append] using happend

/-- A decision tells of the change and the refusal of the element that it is about. -/
theorem decided (rules : List Rule) (c : ClassFile) (p : Part) :
    TellOf [.decided p.element p.flags (verdict rules c p)] (flagChange? rules c p).toList
      (denial? rules c p).toList [] := by
  refine ⟨?_, ?_, rfl⟩
  · rw [List.filterMap_cons, Outcome.change?, flagChange?]
    by_cases h : (verdict rules c p).flags = p.flags
    · rw [if_pos h]
      rfl
    · rw [if_neg h]
      rfl
  · rw [List.filterMap_cons, Outcome.denial?, denial?]
    cases (verdict rules c p).denied <;> rfl

/-- Where nothing is asked for there is nothing to tell of. -/
theorem unasked {rules : List Rule} {c : ClassFile} {p : Part}
    (h : Request.about rules c p = none) :
    TellOf [] (flagChange? rules c p).toList (denial? rules c p).toList [] := by
  rw [flagChange?, denial?, verdict_of_unasked h, if_pos rfl]
  exact nil

end TellOf

end ClassAccess
