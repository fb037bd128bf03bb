import ClassAccess.Proofs.RuleSet.Duplicates
import ClassAccess.Proofs.RuleSet.Unmatchable
import ClassAccess.Proofs.Widening.Files
import ClassAccess.Proofs.Widening.Relevance

/-!
# What the rules that are warned about do

Rules that are warned about are meant to have no effect. For duplicates this is so: without them the
same rule counts for each target, and so every class is widened as before. A rule that no plain name
makes can still be found for a method with a parenthesis in its name, since all that is asked of a
method's name is that it is a text. It has no effect on classes whose methods have plain names.

## Main results

* `RuleSet.widen_without_duplicates` — the warnings about duplicates, and the rules without them.
* `RuleSet.widen_without_unmatchable` — the warnings about methods that cannot be found, and the
  rules without them.
* `RuleSet.unmatchable_is_found` — a rule that is warned about and opens a method.
-/

set_option autoImplicit false

namespace ClassAccess

/-- The signature of a method of a class with a plain name is made of that name and a descriptor. -/
theorem ClassFile.exists_of_isPlainName {file : List UInt8} {c : ClassFile}
    (hread : ClassFile.read file = .ok c) {m : Method} (hm : m ∈ c.methods)
    (hname : IsPlainName m.name.toList) :
    ∃ name descriptor, IsPlainName name ∧ isMethodDescriptor descriptor = true ∧
      m.signature.toList = name ++ descriptor :=
  ⟨m.name.toList, m.descriptor.toList, hname, ClassFile.isMethodDescriptor_of_mem hread hm,
    String.toList_append⟩

namespace RuleSet

/-! ## Duplicates -/

/-- **The warnings about duplicates name exactly the rules that are overruled**: those for classes
as a whole in order, then those for members from the last one to the first. Without them no warning
about duplicates is left, the same rules are found for every class, and every file is widened as
before.

**Proof sketch.** For each target, the rule that counts is the only one that is left. So the same
rule counts, and whatever is looked up or widened depends on the rules that count only. -/
theorem widen_without_duplicates (rules : List Rule) :
    (Warning.ofRules rules).filterMap Warning.ignored? =
        ((overruled rules).filter fun r => r.target.isClassLevel) ++
          ((overruled rules).filter fun r => !r.target.isClassLevel).reverse ∧
      (Warning.ofRules (effective rules)).filterMap Warning.ignored? = [] ∧
      (∀ className,
        let index := RuleIndex.ofSet (ofRules rules) className
        let index' := RuleIndex.ofSet (ofRules (effective rules)) className
        index'.classRule? = index.classRule? ∧
          (∀ name, index'.fieldRule? name = index.fieldRule? name) ∧
          (∀ name descriptor,
            index'.methodRule? name descriptor = index.methodRule? name descriptor) ∧
          ∀ other, index'.innerClassRule? other = index.innerClassRule? other) ∧
      ∀ file, (ofRules (effective rules)).widen file = (ofRules rules).widen file := by
  have hcounts := decisive_effective rules
  refine ⟨filterMap_ignored?_ofRules rules, ?_, ?_, widen_ofRules_congr_of_decisive hcounts⟩
  · rw [filterMap_ignored?_ofRules, overruled_effective]
    rfl
  · intro className index index'
    have hclass : ∀ n, (ofRules (effective rules)).classRule? n = (ofRules rules).classRule? n := by
      intro n
      rw [classRule?_eq, classRule?_eq]
      exact hcounts (.classLevel (dotted n))
    have hfield : ∀ name : String, index'.fields[name]? = index.fields[name]? := by
      intro name
      rw [RuleIndex.getElem?_fields, RuleIndex.getElem?_fields]
      exact hcounts (.field (dotted className) name)
    have hmethod :
        ∀ signature : String, index'.methods[signature]? = index.methods[signature]? := by
      intro signature
      rw [RuleIndex.getElem?_methods, RuleIndex.getElem?_methods]
      exact hcounts (.method (dotted className) signature)
    refine ⟨hclass _, fun name => ?_, fun name descriptor => ?_, fun other => hclass other⟩
    · rw [RuleIndex.fieldRule?, RuleIndex.fieldRule?, hfield, hfield]
    · rw [RuleIndex.methodRule?, RuleIndex.methodRule?, hmethod, hmethod]

/-! ## Methods that cannot be found -/

/-- The rules of a list that are not warned about as rules for methods that cannot be found. -/
def matchable (rules : List Rule) : List Rule :=
  rules.filter fun r => !Warning.isUnmatchable r

/-- For a target whose rules are not warned about, all rules are left. -/
theorem sameFor_matchable {t : Target}
    (h : ∀ r : Rule, r.target = t → Warning.isUnmatchable r = false) (rules : List Rule) :
    SameFor t (matchable rules) rules := by
  rw [SameFor, matchable, List.filter_filter]
  apply List.filter_congr
  intro r _
  by_cases hr : r.target = t
  · simp [hr, h r hr]
  · simp [hr]

/-- A class whose methods have plain names is asked the same by the rules that are not warned
about. -/
theorem about_matchable {file : List UInt8} {c : ClassFile} (hread : ClassFile.read file = .ok c)
    (hplain : ∀ m ∈ c.methods, IsPlainName m.name.toList) (rules : List Rule) {p : Part}
    (hp : p ∈ c.parts) : Request.about (matchable rules) c p = Request.about rules c p := by
  have hclass : ∀ n, Request.forClass (matchable rules) n = Request.forClass rules n := by
    intro n
    have hsame : SameFor (.classLevel (dotted n)) (matchable rules) rules :=
      sameFor_matchable (fun r hr => by rw [Warning.isUnmatchable, hr]) rules
    rw [Request.forClass, Request.forClass, hsame.firstFor_eq]
  simp only [ClassFile.parts, List.mem_cons, List.mem_append, List.mem_map] at hp
  rcases hp with rfl | ⟨f, -, rfl⟩ | ⟨m, hm, rfl⟩ | ⟨i, -, rfl⟩
  · exact hclass c.name
  · have hsame : ∀ name, SameFor (.field (dotted c.name) name) (matchable rules) rules :=
      fun _ => sameFor_matchable (fun r hr => by rw [Warning.isUnmatchable, hr]) rules
    rw [Request.about, Request.about, Request.forField, Request.forField, Request.forMember,
      Request.forMember, (hsame _).lastFor_eq, (hsame _).lastFor_eq]
  · have hall : SameFor (.method (dotted c.name) Target.anyMethod) (matchable rules) rules :=
      sameFor_matchable (fun r hr => Warning.isUnmatchable_eq_false hr (.inl rfl)) rules
    have hone :
        SameFor (.method (dotted c.name) (m.name ++ m.descriptor)) (matchable rules) rules :=
      sameFor_matchable (fun r hr => Warning.isUnmatchable_eq_false hr
        (.inr (ClassFile.exists_of_isPlainName hread hm (hplain m hm)))) rules
    rw [Request.about, Request.about, Request.forMethod, Request.forMethod, Request.forMember,
      Request.forMember, hall.lastFor_eq, hone.lastFor_eq]
  · exact hclass i.name

/-- **Rules that cannot be found if names are plain.** The warnings name the rules for single
methods that no plain name makes, whatever descriptor follows it. Such a rule is found only for a
method whose name is not plain, so that without these rules a class with plain method names is
widened as before.

**Proof sketch.** The signature of a method is its name followed by its descriptor. If the name is
plain, no warned rule is for that signature, hence what is asked for the method does not change. -/
theorem widen_without_unmatchable (rules : List Rule) (file : List UInt8) :
    let warned := (Warning.ofRules rules).filterMap Warning.unmatchable?
    (∀ r, r ∈ warned ↔ r ∈ rules ∧ ∃ className signature, r.target = .method className signature ∧
        signature ≠ Target.anyMethod ∧ ∀ name descriptor, IsPlainName name →
          isMethodDescriptor descriptor = true → signature.toList ≠ name ++ descriptor) ∧
      (∀ c, ClassFile.read file = .ok c → ∀ m ∈ c.methods, ∀ r ∈ warned,
        (RuleIndex.ofSet (ofRules rules) c.name).methods[m.signature]? = some r →
          ¬IsPlainName m.name.toList) ∧
      ((∀ c, ClassFile.read file = .ok c → ∀ m ∈ c.methods, IsPlainName m.name.toList) →
        ((ofRules (rules.filter (· ∉ warned))).widen file).map Report.contents =
          ((ofRules rules).widen file).map Report.contents) := by
  intro warned
  have hwarned : warned = rules.filter Warning.isUnmatchable :=
    Warning.filterMap_unmatchable?_ofRules rules
  refine ⟨fun r => ?_, fun c hread m hm r hr hfound hname => ?_, fun hplain => ?_⟩
  · rw [hwarned, List.mem_filter, Warning.isUnmatchable_iff]
  · rw [RuleIndex.getElem?_methods] at hfound
    have hmatchable := Warning.isUnmatchable_eq_false (target_of_lastFor hfound)
      (.inr (ClassFile.exists_of_isPlainName hread hm hname))
    rw [hwarned, List.mem_filter, hmatchable] at hr
    exact Bool.false_ne_true hr.2
  · have hrest : rules.filter (· ∉ warned) = matchable rules := by
      rw [matchable, hwarned]
      apply List.filter_congr
      intro r hr
      simp [List.mem_filter, hr]
    rw [hrest]
    cases hread : ClassFile.read file with
    | error e => rw [widen, widen, hread]
    | ok c => exact contents_congr hread fun p hp => about_matchable hread (hplain c hread) rules hp

end RuleSet

namespace Sample

/-- A class `A` with a private method `a(b` that has neither parameters nor a result. -/
def fileWithParenthesis : List UInt8 :=
  [0xca, 0xfe, 0xba, 0xbe, 0, 0, 0, 52] ++
  [0, 5, 1, 0, 1, 65, 7, 0, 1, 1, 0, 3, 97, 40, 98, 1, 0, 3, 40, 41, 86] ++
  [0, 33, 0, 2, 0, 0, 0, 0, 0, 0] ++
  [0, 1, 0, 2, 0, 3, 0, 4, 0, 0] ++
  [0, 0]

/-- What the file is read as. -/
def parsedWithParenthesis : ClassFile where
  bytes := fileWithParenthesis
  minor := 0
  major := 52
  pool := ⟨#[.unusable, .utf8 "A", .classRef 1, .utf8 "a(b", .utf8 "()V"]⟩
  flags := 33
  flagsOffset := 29
  name := "A"
  superName := none
  interfaces := []
  fields := []
  methods := [⟨2, 41, "a(b", "()V", none⟩]
  innerClasses := []

/-- The file is a class file. -/
theorem read_fileWithParenthesis :
    ClassFile.read fileWithParenthesis = .ok parsedWithParenthesis := by decide +kernel

/-- A rule for that method. -/
def ruleWithParenthesis : Rule :=
  ⟨.method "A" "a(b()V", .everywhere, Edits.none⟩

end Sample

namespace RuleSet

/-- A rule without a descriptor has no effect on the small class, and the name of the method for
which a rule with two parentheses is found is not plain. -/
theorem widen_without_unmatchable_samples :
    let unfinished : Rule := ⟨.method "A" "m", .everywhere, Edits.none⟩
    let whole : Rule := ⟨.classLevel "A", .everywhere, Edits.none⟩
    ((ofRules [whole]).widen Sample.file).map Report.contents =
        ((ofRules [unfinished, whole]).widen Sample.file).map Report.contents ∧
      ¬IsPlainName "a(b".toList := by
  intro unfinished whole
  obtain ⟨-, -, hsame⟩ := widen_without_unmatchable [unfinished, whole] Sample.file
  obtain ⟨-, hfound, -⟩ :=
    widen_without_unmatchable [Sample.ruleWithParenthesis] Sample.fileWithParenthesis
  constructor
  · refine hsame fun c hread m hm => ?_
    rw [Sample.read_file] at hread
    cases hread
    rw [List.mem_singleton.1 hm]
    decide
  · refine hfound _ Sample.read_fileWithParenthesis _ (List.mem_singleton_self _)
      Sample.ruleWithParenthesis (by decide +kernel) ?_
    decide +kernel

/-- **A rule that is warned about opens a method.** It is found for the method `a(b` of a small
class, and the class is another one without it. -/
theorem unmatchable_is_found :
    Warning.unmatchableMethod Sample.ruleWithParenthesis ∈
        Warning.ofRules [Sample.ruleWithParenthesis] ∧
      ClassFile.read Sample.fileWithParenthesis = .ok Sample.parsedWithParenthesis ∧
      (∃ m ∈ Sample.parsedWithParenthesis.methods,
        (RuleIndex.ofSet (ofRules [Sample.ruleWithParenthesis])
          Sample.parsedWithParenthesis.name).methods[m.signature]? =
            some Sample.ruleWithParenthesis) ∧
      ((ofRules [Sample.ruleWithParenthesis]).widen
          Sample.fileWithParenthesis).map Report.contents ≠
        ((ofRules []).widen Sample.fileWithParenthesis).map Report.contents := by
  refine ⟨by decide +kernel, Sample.read_fileWithParenthesis,
    ⟨_, List.mem_singleton_self _, ?_⟩, ?_⟩
  · decide +kernel
  · decide +kernel

end RuleSet

end ClassAccess
