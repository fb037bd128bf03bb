import ClassAccess.Event.Widening
import ClassAccess.Proofs.Widening.FlagWords

/-!
# Passing over a class

A class that no rule applies to is passed over: its elements are not visited and its file is given
back. A visit to every element would have given the same file and would have found nothing to tell
of, so it cannot be seen whether a class was passed over.

## Main definitions

* `RuleSet.widenThroughout` — a rule set applied to a file with a visit to every element.

## Main results

* `RuleSet.fullPass_of_appliesNowhere` — a visit where no rule applies.
* `RuleSet.pass_cases` — a class is visited, or a visit would have found nothing.
* `RuleSet.widen_as_throughout` — what is reported is the same in both cases.
-/

set_option autoImplicit false

namespace ClassAccess

/-- Notes that tell of nothing stand for no event. -/
theorem TellOf.events_eq_nil {notes : List Outcome} (h : TellOf notes [] [] [])
    (className : String) : notes.flatMap (Event.ofOutcome className) = [] := by
  obtain ⟨hchanges, hdenied, hcalls⟩ := h
  rw [List.filterMap_eq_nil_iff] at hchanges hdenied
  rw [List.flatMap_eq_nil_iff] at hcalls ⊢
  intro note hnote
  cases note with
  | decided element before result =>
    have hchange := hchanges _ hnote
    have hdenial := hdenied _ hnote
    simp only [Event.ofOutcome, hchange, hdenial, Option.map_none, Option.toList_none,
      List.append_nil]
  | rewrote name descriptor rule calls =>
    have hnone : calls = [] := hcalls _ hnote
    subst hnone
    rfl

namespace RuleSet

variable (s : RuleSet) {file : List UInt8} {c : ClassFile}

/-- A class file after a visit to every element, whether or not some rule applies. -/
def widenThroughout (bytes : List UInt8) : Except WideningError Report :=
  match ClassFile.read bytes with
  | .error e => .error ⟨none, .classFile e⟩
  | .ok c =>
    match s.fullPass c with
    | (.error e, _) => .error e
    | (.ok out, outcomes) => .ok ⟨c.name, out, outcomes⟩

/-- **A visit where no rule applies** succeeds, gives the file back and finds nothing to tell of. -/
theorem fullPass_of_appliesNowhere (h : ClassFile.read file = .ok c)
    (happlies : s.appliesNowhere c = true) :
    ∃ notes, s.fullPass c = (.ok file, notes) ∧ TellOf notes [] [] [] := by
  obtain ⟨a, ha, hfile, hchanges, hdenied, hcalls⟩ := exists_answers_of_appliesNowhere h happlies
  obtain ⟨notes, hgives, htell⟩ := exists_gives_accept (s := s) h
  rw [ha] at hgives
  rw [hchanges, hdenied, hcalls] at htell
  refine ⟨notes, ?_, htell⟩
  have hpass : s.fullPass c = (.ok (c.rewritten a), notes) := hgives []
  rw [hpass, hfile]

/-- **A class is visited, or a visit would have found nothing.** -/
theorem pass_cases (h : ClassFile.read file = .ok c) :
    s.pass c = s.fullPass c ∨
      s.pass c = (.ok file, []) ∧ ∃ notes, s.fullPass c = (.ok file, notes) ∧
        TellOf notes [] [] [] := by
  cases happlies : s.appliesNowhere c with
  | true =>
    refine .inr ⟨?_, s.fullPass_of_appliesNowhere h happlies⟩
    rw [pass, happlies, if_pos rfl, ClassFile.bytes_of_read h]
  | false =>
    left
    rw [pass, happlies, if_neg Bool.false_ne_true]

/-- **It cannot be seen whether a class was passed over.** Where its index is empty and there is no
rule for an inner class that it mentions, a visit to every element succeeds as well, gives the file
back, and finds no change, no refusal and no call to rewrite. So applying a rule set to a file says
the same, or fails in the same way, as if every element had been visited, and tells of the same
events.

**Proof sketch.** An empty index has no rule for the class and none for any member, so that together
with the inner classes nothing is asked for any element. The answers of a visit are then what is
there already, and what notes there are record that nothing changed. -/
theorem widen_as_throughout (file : List UInt8) :
    (∀ c, ClassFile.read file = .ok c → (RuleIndex.ofSet s c.name).isEmpty = true →
      (∀ i ∈ c.innerClasses, s.classRule? i.name = none) →
        ∃ notes, s.fullPass c = (.ok file, notes) ∧ notes.filterMap Outcome.change? = [] ∧
          notes.filterMap Outcome.denial? = [] ∧ notes.flatMap Outcome.rewrittenCalls = []) ∧
      (s.widen file).map Report.contents = (s.widenThroughout file).map Report.contents ∧
      ∀ c, ClassFile.read file = .ok c →
        (s.pass c).2.flatMap (Event.ofOutcome c.name) =
          (s.fullPass c).2.flatMap (Event.ofOutcome c.name) := by
  refine ⟨fun c h hindex hinner => ?_, ?_, fun c h => ?_⟩
  · obtain ⟨notes, hpass, hchanges, hdenied, hcalls⟩ :=
      s.fullPass_of_appliesNowhere h (appliesNowhere_iff.2 ⟨hindex, hinner⟩)
    exact ⟨notes, hpass, hchanges, hdenied, hcalls⟩
  · rw [widen, widenThroughout]
    cases h : ClassFile.read file with
    | error e => rfl
    | ok c =>
      obtain hvisited | ⟨hpassed, notes, hpass, hchanges, hdenied, hcalls⟩ := s.pass_cases h
      · cases hfull : s.fullPass c with
        | mk result notes =>
          rw [hfull] at hvisited
          cases result <;> simp only [hvisited, hfull]
      · simp only [hpassed, hpass]
        show Except.ok (Report.contents ⟨c.name, file, []⟩) =
          Except.ok (Report.contents ⟨c.name, file, notes⟩)
        simp only [Report.contents, Report.changes, Report.denied, Report.calls, hchanges, hdenied,
          hcalls, List.filterMap_nil, List.flatMap_nil]
  · obtain hvisited | ⟨hpassed, notes, hpass, htell⟩ := s.pass_cases h
    · rw [hvisited]
    · rw [hpassed, hpass, htell.events_eq_nil]
      rfl

/-- The small class, with a rule about another one. -/
theorem widen_as_throughout_sample :
    let s := ofRules [⟨.classLevel "B", .everywhere, .none⟩]
    ClassFile.read Sample.file = .ok Sample.parsed ∧
      (RuleIndex.ofSet s Sample.parsed.name).isEmpty = true ∧
      (∀ i ∈ Sample.parsed.innerClasses, s.classRule? i.name = none) ∧
      (∃ notes, s.fullPass Sample.parsed = (.ok Sample.file, notes) ∧
        notes.filterMap Outcome.change? = [] ∧ notes.filterMap Outcome.denial? = [] ∧
        notes.flatMap Outcome.rewrittenCalls = []) ∧
      (s.widen Sample.file).map Report.contents =
        (s.widenThroughout Sample.file).map Report.contents := by
  intro s
  have hindex : (RuleIndex.ofSet s Sample.parsed.name).isEmpty = true := by decide +kernel
  have hinner : ∀ i ∈ Sample.parsed.innerClasses, s.classRule? i.name = none := by decide +kernel
  obtain ⟨hpass, hsame, -⟩ := widen_as_throughout s Sample.file
  exact ⟨Sample.read_file, hindex, hinner, hpass _ Sample.read_file hindex hinner, hsame⟩

end RuleSet

end ClassAccess
