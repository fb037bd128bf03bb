import ClassAccess.Proofs.Widening.SelfCalls

/-!
# What becomes of every flag word

Applying a rule set gives a class file again, with the same elements in the same places, and each of
its flag words is the verdict of the plain list of rules. The report lists the words that changed
and the requests that were refused.

## Main definitions

* `Part.Matches` — an element of a class and the same element of another one.
* `Sample.rules` — some rules about a small class.

## Main results

* `RuleSet.read_of_widen` — the new file reads as the class with the answers.
* `fields_updated`, `methods_updated`, `innerClasses_updated` — the elements of that class.
* `matches_updated` — its elements are those of the old one with the flag words of the verdicts.
* `RuleSet.flags_of_widen` — what becomes of every flag word, and what is reported about it.
-/

set_option autoImplicit false

namespace ClassAccess

/-! ## Elements that match -/

/-- An element of a class has its counterpart `p'` in another class under the same name and in the
same place. -/
structure Part.Matches (p p' : Part) : Prop where
  /-- Both have the same name. -/
  element : p'.element = p.element
  /-- Their flag words stand in the same place. -/
  offset : p'.offset = p.offset

/-- The counterpart of a counterpart is one. -/
theorem Part.Matches.trans {p q r : Part} (h : p.Matches q) (h' : q.Matches r) : p.Matches r :=
  ⟨h'.element.trans h.element, h'.offset.trans h.offset⟩

section Matches

variable {s : RuleSet} {c : ClassFile} {a : ClassFile.Answers}

/-- What is made of each member of a list and something beside it, where that is known. -/
theorem zipWith_eq_map {α β γ : Type} {f : α → β → γ} {g : α → γ} {as : List α} {bs : List β}
    (h : List.Forall₂ (fun a b => f a b = g a) as bs) : List.zipWith f as bs = as.map g := by
  induction h with
  | nil => rfl
  | cons head _ ih => rw [List.zipWith_cons_cons, head, ih, List.map_cons]

/-- The flag word of the class with the answers. -/
theorem flags_updated (ha : s.answers c = .ok a) :
    (c.updated a).flags = (verdict s.rules.toList c (.whole c)).flags := by
  obtain ⟨methods, -, rfl⟩ := RuleSet.answers_eq_ok_iff.1 ha
  rfl

/-- The fields of the class with the answers. -/
theorem fields_updated (ha : s.answers c = .ok a) :
    (c.updated a).fields =
      c.fields.map fun f => f.withFlags (verdict s.rules.toList c (.field f)).flags := by
  obtain ⟨methods, -, rfl⟩ := RuleSet.answers_eq_ok_iff.1 ha
  exact List.zipWith_map_right.trans List.zipWith_self

/-- The methods of the class with the answers. -/
theorem methods_updated (ha : s.answers c = .ok a) :
    (c.updated a).methods =
      c.methods.map fun m => m.withFlags (verdict s.rules.toList c (.method m)).flags := by
  obtain ⟨methods, hmethods, rfl⟩ := RuleSet.answers_eq_ok_iff.1 ha
  apply zipWith_eq_map
  refine forall₂_of_mapM hmethods fun m _ answer hanswer => ?_
  obtain ⟨pcs, -, rfl⟩ := ClassFile.answerFor_eq_ok_iff.1 hanswer
  rfl

/-- The inner classes that the class with the answers mentions. -/
theorem innerClasses_updated (ha : s.answers c = .ok a) :
    (c.updated a).innerClasses =
      c.innerClasses.map fun i => i.withFlags (verdict s.rules.toList c (.innerClass i)).flags := by
  obtain ⟨methods, -, rfl⟩ := RuleSet.answers_eq_ok_iff.1 ha
  exact List.zipWith_map_right.trans List.zipWith_self

/-- The elements of the class with the answers are those of the class, and their flag words are the
verdicts. -/
theorem matches_updated (ha : s.answers c = .ok a) :
    List.Forall₂ (fun p p' => p.Matches p' ∧ p'.flags = (verdict s.rules.toList c p).flags)
      c.parts (c.updated a).parts := by
  rw [ClassFile.parts, ClassFile.parts, fields_updated ha, methods_updated ha,
    innerClasses_updated ha, List.map_map, List.map_map, List.map_map]
  refine .cons ⟨⟨rfl, rfl⟩, flags_updated ha⟩ (List.rel_append ?_ (List.rel_append ?_ ?_))
  all_goals
    rw [List.forall₂_map_left_iff, List.forall₂_map_right_iff, List.forall₂_same]
    exact fun _ _ => ⟨⟨rfl, rfl⟩, rfl⟩

end Matches

/-! ## A small class -/

namespace Sample

/-- Rules that open the class and its method, make the method final, and would narrow the field. -/
def rules : RuleSet :=
  .ofRules [⟨.classLevel "A", .everywhere, .none⟩, ⟨.field "A" "*", .ownClass, .none⟩,
    ⟨.method "A" "*()", .subclasses, .none⟩,
    .ofEdits (.method "A" "m()V") .everywhere [⟨.final, .set⟩]]

/-- The file after these rules: three bytes of flag words and an opcode are new. -/
def widened : List UInt8 :=
  patched file [⟨64, [1]⟩, ⟨84, [0x11]⟩, ⟨105, [0xb6]⟩, ⟨130, [1]⟩]

/-- What is reported about the file and these rules. -/
def report : Report where
  className := "A"
  bytes := widened
  outcomes :=
    [.decided .classItself 0 ⟨1, none⟩, .decided (.field "m") 1 ⟨1, some ⟨.everywhere, .ownClass⟩⟩,
      .decided (.method "m()V") 2 ⟨0x11, none⟩,
      .rewrote "m" "()V" (.ofEdits (.method "A" "m()V") .everywhere [⟨.final, .set⟩])
        [⟨"m()V", 0, 105⟩],
      .decided (.innerClass "A") 4 ⟨1, none⟩]

/-- The rules can be applied to the file. -/
theorem widen_file : rules.widen file = .ok report := by decide +kernel

end Sample

/-! ## Flag words -/

namespace RuleSet

variable {s : RuleSet} {file : List UInt8} {r : Report}

/-- **Where applying a rule set succeeds, a class file results**: it reads as the class with the
answers. -/
theorem read_of_widen (h : s.widen file = .ok r) :
    ∃ c a, ClassFile.read file = .ok c ∧ s.answers c = .ok a ∧ r.Tells s.rules.toList c a ∧
      ClassFile.read r.bytes = .ok (c.updated a) := by
  obtain ⟨c, a, hread, ha, htells⟩ := exists_answers_of_widen h
  refine ⟨c, a, hread, ha, htells, ?_⟩
  rw [htells.bytes]
  exact ClassFile.read_rewritten hread (fits_of_answersFor hread ha)

/-- **Every flag word of the new file is the verdict of the plain list of rules**, and the report
lists the words that changed and the requests that were refused, in the order of the file.

**Proof sketch.** The new file reads as the class with the answers, whose elements match those of
the old one; and since all places lie apart, each of them has its answer in the end. -/
theorem flags_of_widen (h : s.widen file = .ok r) :
    ∃ c c', ClassFile.read file = .ok c ∧ ClassFile.read r.bytes = .ok c' ∧
      List.Forall₂ (fun p p' => p.Matches p' ∧ p'.flags = (verdict s.rules.toList c p).flags)
        c.parts c'.parts ∧
      (∀ p ∈ c.parts,
        (Span.word p.offset).of r.bytes = wordBytes (verdict s.rules.toList c p).flags) ∧
      r.changes = c.parts.filterMap (flagChange? s.rules.toList c) ∧
      r.denied = c.parts.filterMap (denial? s.rules.toList c) := by
  obtain ⟨c, a, hread, ha, htells, hread'⟩ := read_of_widen h
  refine ⟨c, c.updated a, hread, hread', matches_updated ha, fun p hp => ?_, htells.changes,
    htells.denied⟩
  rw [htells.bytes]
  exact word_of_rewritten hread ha hp

/-- The flag words of the small class. -/
theorem flags_of_widen_sample :
    Sample.rules.widen Sample.file = .ok Sample.report ∧
      ∃ c c', ClassFile.read Sample.file = .ok c ∧ ClassFile.read Sample.report.bytes = .ok c' ∧
        List.Forall₂
          (fun p p' => p.Matches p' ∧ p'.flags = (verdict Sample.rules.rules.toList c p).flags)
          c.parts c'.parts ∧
        (∀ p ∈ c.parts, (Span.word p.offset).of Sample.report.bytes =
          wordBytes (verdict Sample.rules.rules.toList c p).flags) ∧
        Sample.report.changes = c.parts.filterMap (flagChange? Sample.rules.rules.toList c) ∧
        Sample.report.denied = c.parts.filterMap (denial? Sample.rules.rules.toList c) :=
  ⟨Sample.widen_file, flags_of_widen Sample.widen_file⟩

end RuleSet

end ClassAccess
