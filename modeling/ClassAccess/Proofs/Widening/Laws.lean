import ClassAccess.Proofs.Widening.Frame
import ClassAccess.Proofs.Widening.OnePass

/-!
# Laws of applying rule sets

A rule set that is applied twice does nothing the second time; rule sets can be applied in any order
as long as they do not disagree about edits; and a rule set does what its rules for all members do,
followed by its other rules. All of this holds because rule sets in turn are one pass: it is enough
to compare what they ask for.

## Main definitions

* `RuleSet.edits` — the edits that the rules of a set make.

## Main results

* `RuleSet.widen_again` — applying a rule set twice.
* `RuleSet.fileInTurn?_perm`, `RuleSet.fileInTurn?_comm` — the order of rule sets.
* `RuleSet.fileInTurn?_layers` — the layers of a rule set.
-/

set_option autoImplicit false

namespace ClassAccess

/-! ## Twice -/

section Again

variable {s : RuleSet} {file : List UInt8} {c : ClassFile} {a : ClassFile.Answers}

/-- What is left out of one list is left out of another one where the members correspond. -/
theorem filterMap_congr_forall₂ {α β γ : Type} {f : α → Option γ} {g : β → Option γ} {as : List α}
    {bs : List β} (h : List.Forall₂ (fun a b => g b = f a) as bs) :
    bs.filterMap g = as.filterMap f := by
  induction h with
  | nil => rfl
  | cons head _ ih => rw [List.filterMap_cons, List.filterMap_cons, head, ih]

/-- **What is refused once is refused again** when the same rules are applied to the class with the
answers. -/
theorem filterMap_denial?_updated (h : ClassFile.read file = .ok c) (ha : s.answers c = .ok a) :
    (c.updated a).parts.filterMap (denial? s.rules.toList (c.updated a)) =
      c.parts.filterMap (denial? s.rules.toList c) := by
  apply filterMap_congr_forall₂
  refine List.Forall₂.mp (fun p p' houtline hmatches => ?_)
    (ClassFile.parts_outline_updated (fills_of_answersFor h ha)) (matches_updated ha)
  have habout : Request.about s.rules.toList (c.updated a) p' = Request.about s.rules.toList c p :=
    about_of_outline _ rfl houtline
  have hdenied : (verdict s.rules.toList (c.updated a) p').denied =
      (verdict s.rules.toList c p).denied := by
    rw [verdict, habout, isConstructor_of_outline houtline, hmatches.2]
    exact Request.denied_ruling_ruling _ _ _
  rw [denial?, denial?, hdenied, hmatches.1.element]

end Again

namespace RuleSet

variable {file : List UInt8}

/-- **A rule set that is applied twice does nothing the second time**: the file stays, no change and
no call is reported, and what was refused is refused again.

**Proof sketch.** To ask twice is to ask once, so that the second application succeeds and gives the
same file. A file that stays is one without changes and calls. A refusal depends on the level asked
for and on that of the flag word, and a refused word was not changed. -/
theorem widen_again {s : RuleSet} {r : Report} (h : s.widen file = .ok r) :
    ∃ r', s.widen r.bytes = .ok r' ∧ r'.bytes = r.bytes ∧ r'.changes = [] ∧ r'.calls = [] ∧
      r'.denied = r.denied := by
  have htwice : fileInTurn? [s, s] file = fileInTurn? [s] file := by
    refine fileInTurn?_congr fun c p => ?_
    show Request.both (Request.about s.rules.toList c p)
      (Request.both (Request.about s.rules.toList c p) none) = Request.both _ none
    rw [Request.both_none_right, Request.both_self]
  have hagain : (s.widen r.bytes).toOption.map Report.bytes = some r.bytes := by
    rw [fileInTurn?_cons, fileInTurn?_singleton, h] at htwice
    rw [← fileInTurn?_singleton]
    exact htwice
  obtain ⟨c, a, hread, ha, htells, hread'⟩ := read_of_widen h
  cases hr' : s.widen r.bytes with
  | error e =>
    rw [hr'] at hagain
    cases hagain
  | ok r' =>
    rw [hr'] at hagain
    have hbytes : r'.bytes = r.bytes := Option.some.inj hagain
    obtain ⟨c', a', hread'', ha', htells'⟩ := exists_answers_of_widen hr'
    rw [hread', Except.ok.injEq] at hread''
    subst hread''
    have hunchanged := (htells'.isUnchanged_iff hread' ha').2 hbytes
    rw [Report.isUnchanged, Bool.and_eq_true, List.isEmpty_iff, List.isEmpty_iff] at hunchanged
    refine ⟨r', rfl, hbytes, hunchanged.1, hunchanged.2, ?_⟩
    rw [htells'.denied, htells.denied]
    exact filterMap_denial?_updated hread ha

/-- The rules about the small class, applied twice. -/
theorem widen_again_sample :
    Sample.rules.widen Sample.file = .ok Sample.report ∧
      ∃ r', Sample.rules.widen Sample.report.bytes = .ok r' ∧ r'.bytes = Sample.report.bytes ∧
        r'.changes = [] ∧ r'.calls = [] ∧ r'.denied = Sample.report.denied :=
  ⟨Sample.widen_file, widen_again Sample.widen_file⟩

end RuleSet

/-! ## In any order -/

/-- A rule whose edits all have the same action does nothing else to the final flag. -/
theorem Rule.final_of_forall {r : Rule} {action : EditAction}
    (h : ∀ e ∈ r.edits.toList, e.action = action) :
    r.request.final = none ∨ r.request.final = some action := by
  have hfinal : r.request.final =
      (r.edits.toList.find? fun e => e.modifier = .final).map Edit.action := rfl
  rw [hfinal]
  cases hfind : r.edits.toList.find? fun e => e.modifier = .final with
  | none => exact .inl rfl
  | some e =>
    right
    rw [Option.map_some, h e (List.mem_of_find?_eq_some hfind)]

/-- What rules whose edits all have the same action ask for does nothing else to the final flag. -/
theorem editsOnlyBy_about {rules : List Rule} {action : EditAction}
    (h : ∀ r ∈ rules, ∀ e ∈ r.edits.toList, e.action = action) (c : ClassFile) (p : Part) :
    Request.EditsOnlyBy action (Request.about rules c p) := by
  have hrule : ∀ r? : Option Rule, (∀ r, r? = some r → r ∈ rules) →
      Request.EditsOnlyBy action (r?.map Rule.request) := by
    rintro r? hr? q hq
    obtain ⟨r, hr, rfl⟩ := Option.map_eq_some_iff.1 hq
    exact Rule.final_of_forall (h r (hr? r hr))
  have hclass : ∀ n, Request.EditsOnlyBy action (Request.forClass rules n) :=
    fun n => hrule _ fun _ => mem_of_firstFor
  have hmember : ∀ w e, Request.EditsOnlyBy action (Request.forMember rules w e) :=
    fun w e => (hrule _ fun _ => mem_of_lastFor).both (hrule _ fun _ => mem_of_lastFor)
  cases p with
  | whole d => exact hclass d.name
  | field f => exact hmember _ _
  | method m =>
    rw [Request.about]
    split
    · intro q hq
      cases hq
    · exact hmember _ _
  | innerClass i => exact hclass i.name

namespace RuleSet

variable {s t : RuleSet} {sets sets' : List RuleSet} {file : List UInt8}

/-- The edits that the rules of a set make. -/
def edits (s : RuleSet) : List Edit :=
  s.rules.toList.flatMap fun r => r.edits.toList

/-- **Rule sets can be applied in any order** if all their edits have the same action. -/
theorem fileInTurn?_perm (action : EditAction) (hperm : (s :: sets).Perm (t :: sets'))
    (hedits : ∀ u ∈ s :: sets, ∀ e ∈ u.edits, e.action = action) :
    fileInTurn? (s :: sets) file = fileInTurn? (t :: sets') file := by
  refine fileInTurn?_congr fun c p => ?_
  have honly : ∀ u ∈ s :: sets, Request.EditsOnlyBy action (Request.about u.rules.toList c p) := by
    intro u hu
    refine editsOnlyBy_about (fun r hr e he => hedits u hu e ?_) c p
    exact List.mem_flatMap.2 ⟨r, hr, he⟩
  exact hperm.foldr_eq' (fun u hu v hv q? =>
    Request.both_left_comm (honly v hv) (honly u hu) q?) none

/-- **Two rule sets can be applied in either order** unless one of their rules sets the final flag
and another one clears it: either both orders succeed or none does, and the files are the same. -/
theorem fileInTurn?_comm
    (h : ¬(⟨.final, .set⟩ ∈ s.edits ++ t.edits ∧ ⟨.final, .clear⟩ ∈ s.edits ++ t.edits)) :
    fileInTurn? [s, t] file = fileInTurn? [t, s] file := by
  obtain ⟨action, haction⟩ : ∃ action, ∀ e ∈ s.edits ++ t.edits, e.action = action := by
    by_cases hset : ⟨.final, .set⟩ ∈ s.edits ++ t.edits
    · refine ⟨.set, ?_⟩
      rintro ⟨_ | _, _ | _⟩ he
      · rfl
      · exact absurd ⟨hset, he⟩ h
    · refine ⟨.clear, ?_⟩
      rintro ⟨_ | _, _ | _⟩ he
      · exact absurd he hset
      · rfl
  refine fileInTurn?_perm action (.swap t s []) fun u hu e he => haction e (List.mem_append.2 ?_)
  rcases List.mem_cons.1 hu with rfl | hu
  · exact .inl he
  · rw [List.mem_singleton] at hu
    exact .inr (hu ▸ he)

end RuleSet

namespace Sample

/-- More rules about the small class: they make its field final and open its method less widely. -/
def moreRules : RuleSet :=
  .ofRules [.ofEdits (.field "A" "m") .ownPackage [⟨.final, .set⟩],
    ⟨.method "A" "*()", .ownPackage, .none⟩]

end Sample

namespace RuleSet

/-- Two rule sets about the small class, applied in either order. -/
theorem fileInTurn?_comm_sample :
    ¬(⟨.final, .set⟩ ∈ Sample.rules.edits ++ Sample.moreRules.edits ∧
        ⟨.final, .clear⟩ ∈ Sample.rules.edits ++ Sample.moreRules.edits) ∧
      fileInTurn? [Sample.rules, Sample.moreRules] Sample.file =
        fileInTurn? [Sample.moreRules, Sample.rules] Sample.file ∧
      fileInTurn? [Sample.rules, Sample.moreRules] Sample.file =
        some (patched Sample.widened [⟨74, [0x11]⟩]) := by
  have hedits : ¬(⟨.final, .set⟩ ∈ Sample.rules.edits ++ Sample.moreRules.edits ∧
      ⟨.final, .clear⟩ ∈ Sample.rules.edits ++ Sample.moreRules.edits) := by
    decide
  exact ⟨hedits, fileInTurn?_comm hedits, by decide +kernel⟩

end RuleSet

/-! ## In layers -/

/-- What rules for all members of a kind ask for, followed by what the other rules do, is what all
the rules ask for together. -/
theorem both_about_filter (rules : List Rule) (c : ClassFile) (p : Part) :
    Request.both (Request.about (rules.filter fun r => r.target.isWildcard) c p)
        (Request.about (rules.filter fun r => !r.target.isWildcard) c p) =
      Request.about rules c p := by
  have hclass : ∀ n, Request.both
      (Request.forClass (rules.filter fun r => r.target.isWildcard) n)
      (Request.forClass (rules.filter fun r => !r.target.isWildcard) n) =
        Request.forClass rules n := by
    intro n
    have hnot : (Target.classLevel (dotted n)).isWildcard = false := rfl
    simp only [Request.forClass, firstFor_filter rules Target.isWildcard,
      firstFor_filter rules fun t => !t.isWildcard, hnot]
    exact Request.both_none_left _
  have hmember : ∀ w e : Target, w.isWildcard = true → Request.both
      (Request.forMember (rules.filter fun r => r.target.isWildcard) w e)
      (Request.forMember (rules.filter fun r => !r.target.isWildcard) w e) =
        Request.forMember rules w e := by
    intro w e hw
    simp only [Request.forMember, lastFor_filter rules Target.isWildcard,
      lastFor_filter rules fun t => !t.isWildcard, hw]
    -- the rule for the member itself may be one for all members
    cases e.isWildcard <;> simp
  cases p with
  | whole d => exact hclass d.name
  | field f => exact hmember _ _ (by simp [Target.isWildcard])
  | method m =>
    rw [Request.about, Request.about, Request.about]
    split
    · rfl
    · exact hmember _ _ (by simp [Target.isWildcard])
  | innerClass i => exact hclass i.name

namespace RuleSet

/-- **A rule set does what its rules for all members of a kind do, followed by its other rules**: it
can be applied if these can be, one after the other, and it gives the same file. -/
theorem fileInTurn?_layers (rules : List Rule) (file : List UInt8) :
    fileInTurn? [ofRules (rules.filter fun r => r.target.isWildcard),
        ofRules (rules.filter fun r => !r.target.isWildcard)] file =
      ((ofRules rules).widen file).toOption.map Report.bytes := by
  rw [← fileInTurn?_singleton]
  refine fileInTurn?_congr fun c p => ?_
  show Request.both (Request.about (rules.filter _) c p)
    (Request.both (Request.about (rules.filter _) c p) none) =
      Request.both (Request.about rules c p) none
  rw [Request.both_none_right, Request.both_none_right, both_about_filter]

end RuleSet

end ClassAccess
