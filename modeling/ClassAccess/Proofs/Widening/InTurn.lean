import ClassAccess.Proofs.Widening.FlagWords

/-!
# Applying rule sets in turn

However many rule sets are applied to a file one after the other, no element ever gets narrower:
each application raises levels or keeps them, and so does the whole run.

## Main definitions

* `RuleSet.widenInTurn` — the reports of rule sets that are applied in turn.
* `ClassFile.WidenedTo` — a class and a later one whose flag words are at least as wide.
* `ClassFile.RaisedBy` — a class and a later one that has the levels asked for where it changed.

## Main results

* `ClassFile.WidenedTo.trans` — widening adds up.
* `RuleSet.widenedTo_of_widen` — one application widens.
* `RuleSet.pairwise_widenedTo_of_widenInTurn` — a whole run widens.
-/

set_option autoImplicit false

namespace ClassAccess

/-! ## Classes -/

/-- What holds between the first two and between the last two of three lists relates the outer
ones. -/
theorem forall₂_comp {α β γ : Type} {p : α → β → Prop} {q : β → γ → Prop} {r : α → γ → Prop}
    (hr : ∀ {a b c}, p a b → q b c → r a c) {as : List α} {bs : List β} {cs : List γ}
    (h : List.Forall₂ p as bs) (h' : List.Forall₂ q bs cs) : List.Forall₂ r as cs := by
  induction h generalizing cs with
  | nil =>
    cases h'
    exact .nil
  | cons head _ ih =>
    cases h' with
    | cons head' tail' => exact .cons (hr head head') (ih tail')

namespace ClassFile

/-- The class `d` has the elements of the class `c` in the same places, and each flag word is at
least as wide as before and the same but for visibility and the final flag. -/
def WidenedTo (c d : ClassFile) : Prop :=
  List.Forall₂ (fun p p' => p.Matches p' ∧ p.flags.Widened p'.flags) c.parts d.parts

/-- Where the visibility of an element of `c` is another one in `d`, it is the one that the rules of
a list ask for. -/
def RaisedBy (rules : List Rule) (c d : ClassFile) : Prop :=
  List.Forall₂ (fun p p' => p'.flags.visible ≠ p.flags.visible →
    ∃ q, Request.about rules c p = some q ∧ p'.flags.visible = q.level.flag) c.parts d.parts

/-- Widening adds up. -/
theorem WidenedTo.trans {b c d : ClassFile} (h : b.WidenedTo c) (h' : c.WidenedTo d) :
    b.WidenedTo d :=
  forall₂_comp (fun hpq hqr => ⟨hpq.1.trans hqr.1, hpq.2.trans hqr.2⟩) h h'

end ClassFile

/-! ## Runs -/

namespace Sample

/-- What is reported when the rules are applied once more: the field is still refused. -/
def again : Report where
  className := "A"
  bytes := report.bytes
  outcomes :=
    [.decided .classItself 1 ⟨1, none⟩, .decided (.field "m") 1 ⟨1, some ⟨.everywhere, .ownClass⟩⟩,
      .decided (.method "m()V") 0x11 ⟨0x11, none⟩, .decided (.innerClass "A") 1 ⟨1, none⟩]

/-- The rules can be applied to the file that they gave. -/
theorem widen_report : rules.widen report.bytes = .ok again := by decide +kernel

end Sample

namespace RuleSet

/-- The reports of rule sets that are applied in turn: the first one to `file`, and each other one
to the file that the one before it gave. -/
def widenInTurn : List RuleSet → (file : List UInt8) → Except WideningError (List Report)
  | [], _ => .ok []
  | s :: sets, file => do
    let r ← s.widen file
    let reports ← widenInTurn sets r.bytes
    return r :: reports

variable {file : List UInt8}

/-- Where rule sets can be applied in turn, the first one can, and the others to what it gives. -/
theorem widenInTurn_cons_eq_ok_iff {s : RuleSet} {sets : List RuleSet} {reports : List Report} :
    widenInTurn (s :: sets) file = .ok reports ↔
      ∃ r rest, s.widen file = .ok r ∧ widenInTurn sets r.bytes = .ok rest ∧
        reports = r :: rest := by
  rw [widenInTurn]
  constructor
  · intro h
    obtain ⟨r, hr, h⟩ := bind_eq_ok_iff.1 h
    obtain ⟨rest, hrest, h⟩ := bind_eq_ok_iff.1 h
    cases h
    exact ⟨r, rest, hr, hrest, rfl⟩
  · rintro ⟨r, rest, hr, hrest, rfl⟩
    exact bind_eq_ok_iff.2 ⟨r, hr, bind_eq_ok_iff.2 ⟨rest, hrest, rfl⟩⟩

/-- **Applying a rule set widens a class**, and where visibility changes it is the one asked for. -/
theorem widenedTo_of_widen {s : RuleSet} {r : Report} (h : s.widen file = .ok r) :
    ∃ c d, ClassFile.read file = .ok c ∧ ClassFile.read r.bytes = .ok d ∧ c.WidenedTo d ∧
      c.RaisedBy s.rules.toList d := by
  obtain ⟨c, a, hread, ha, -, hread'⟩ := read_of_widen h
  have hmatches := matches_updated ha
  refine ⟨c, c.updated a, hread, hread', ?_, ?_⟩
  · refine hmatches.imp fun p p' hp => ⟨hp.1, ?_⟩
    rw [hp.2]
    exact Request.widened_ruling _ _ _
  · refine hmatches.imp fun p p' hp => ?_
    rw [hp.2]
    exact Request.ruling_visible_of_ne _ _ _

/-- **No element ever gets narrower**, however many rule sets are applied in turn.

**Proof sketch.** Induction on the rule sets. Each file that results is a class file, to which the
next one is applied; one application widens, and widening adds up. -/
theorem pairwise_widenedTo_of_widenInTurn {sets : List RuleSet} {reports : List Report}
    {c : ClassFile} (hread : ClassFile.read file = .ok c)
    (h : widenInTurn sets file = .ok reports) :
    ∃ classes : List ClassFile,
      List.Forall₂ (fun (r : Report) d => ClassFile.read r.bytes = .ok d) reports classes ∧
        (c :: classes).Pairwise ClassFile.WidenedTo ∧
        List.Forall₂ (fun (s : RuleSet) (step : ClassFile × ClassFile) =>
          step.1.RaisedBy s.rules.toList step.2) sets ((c :: classes).zip classes) := by
  induction sets generalizing file reports c with
  | nil =>
    cases h
    exact ⟨[], .nil, List.pairwise_singleton .., .nil⟩
  | cons s sets ih =>
    obtain ⟨r, rest, hr, hrest, rfl⟩ := widenInTurn_cons_eq_ok_iff.1 h
    obtain ⟨c', d, hread', hd, hwidened, hraised⟩ := widenedTo_of_widen hr
    rw [hread, Except.ok.injEq] at hread'
    subst hread'
    obtain ⟨classes, hclasses, hpairwise, hsteps⟩ := ih hd hrest
    refine ⟨d :: classes, .cons hd hclasses, List.pairwise_cons.2 ⟨?_, hpairwise⟩,
      .cons hraised hsteps⟩
    intro e he
    rcases List.mem_cons.1 he with rfl | he
    · exact hwidened
    · exact hwidened.trans ((List.pairwise_cons.1 hpairwise).1 e he)

/-- The small class and the rules about it, applied twice. -/
theorem pairwise_widenedTo_sample :
    ∃ c, ClassFile.read Sample.file = .ok c ∧
      widenInTurn [Sample.rules, Sample.rules] Sample.file = .ok [Sample.report, Sample.again] ∧
        ∃ classes : List ClassFile,
          List.Forall₂ (fun (r : Report) d => ClassFile.read r.bytes = .ok d)
            [Sample.report, Sample.again] classes ∧
          (c :: classes).Pairwise ClassFile.WidenedTo ∧
          List.Forall₂ (fun (s : RuleSet) (step : ClassFile × ClassFile) =>
            step.1.RaisedBy s.rules.toList step.2) [Sample.rules, Sample.rules]
              ((c :: classes).zip classes) := by
  obtain ⟨c, -, hread, -⟩ := exists_answers_of_widen Sample.widen_file
  have hturn : widenInTurn [Sample.rules, Sample.rules] Sample.file =
      .ok [Sample.report, Sample.again] :=
    widenInTurn_cons_eq_ok_iff.2 ⟨_, _, Sample.widen_file,
      widenInTurn_cons_eq_ok_iff.2 ⟨_, _, Sample.widen_report, rfl, rfl⟩, rfl⟩
  exact ⟨c, hread, hturn, pairwise_widenedTo_of_widenInTurn hread hturn⟩

end RuleSet

end ClassAccess
