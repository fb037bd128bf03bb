import ClassAccess.Proofs.ClassFile.Regions
import ClassAccess.Proofs.ClassFile.Signatures
import ClassAccess.Proofs.RuleSet.Lookup
import ClassAccess.Widening.Pass

/-!
# Methods that one rule is for

A rule for a single method is found by the signature of the method. Different methods may have the
same signature, and then one rule is for all of them. This takes a parenthesis in the name of a
class that the descriptor of one method mentions, and another one in the name of the other method.

## Main definitions

* `Method.CutBy` — two methods whose names and descriptors cut one signature in different places.

## Main results

* `RuleSet.methods_of_signature` — which methods share a signature, and so the rule for it.
* `RuleSet.one_rule_for_two_methods` — a class where they do.
-/

set_option autoImplicit false

namespace ClassAccess

/-- The name and the descriptor of `m'` cut the signature of `m` later than those of `m` do. -/
def Method.CutBy (m m' : Method) : Prop :=
  CutLater m.name.toList m.descriptor.toList m'.name.toList m'.descriptor.toList

/-- The characters of a signature are those of the name and of the descriptor. -/
theorem Method.toList_signature (m : Method) :
    m.signature.toList = m.name.toList ++ m.descriptor.toList :=
  String.toList_append

namespace RuleSet

section Shared

variable {file file' : List UInt8} {c c' : ClassFile} {m m' : Method}

/-- Methods of class files have the same signature if name and descriptor are the same, or if one of
them cuts the signature of the other. -/
theorem signature_eq_iff (hread : ClassFile.read file = .ok c)
    (hread' : ClassFile.read file' = .ok c') (hm : m ∈ c.methods) (hm' : m' ∈ c'.methods) :
    m.signature = m'.signature ↔
      (m.name = m'.name ∧ m.descriptor = m'.descriptor) ∨ m.CutBy m' ∨ m'.CutBy m := by
  rw [← String.toList_inj, m.toList_signature, m'.toList_signature,
    append_eq_append_iff_cut (ClassFile.isMethodDescriptor_of_mem hread hm)
      (ClassFile.isMethodDescriptor_of_mem hread' hm'), String.toList_inj, String.toList_inj]
  rfl

/-- A rule that is found for a single method is for its signature. -/
theorem target_of_getElem?_methods {s : RuleSet} {className signature : String} {r : Rule}
    (h : (RuleIndex.ofSet s className).methods[signature]? = some r) :
    r.target = .method (dotted className) signature := by
  rw [RuleIndex.getElem?_methods] at h
  exact target_of_lastFor h

/-- **Which methods share a signature, and so the rule for it.** Besides methods of the same name
and descriptor these are only such of which one cuts the signature of the other at a parenthesis in
the name of a class. Only those can have one rule for a single method in common, and methods with no
parenthesis in their names never do unless name and descriptor are the same. -/
theorem methods_of_signature (hread : ClassFile.read file = .ok c)
    (hread' : ClassFile.read file' = .ok c') (hm : m ∈ c.methods) (hm' : m' ∈ c'.methods) :
    (m.signature = m'.signature ↔
      (m.name = m'.name ∧ m.descriptor = m'.descriptor) ∨ m.CutBy m' ∨ m'.CutBy m) ∧
      (∀ (s s' : RuleSet) (r : Rule), (RuleIndex.ofSet s c.name).methods[m.signature]? = some r →
        (RuleIndex.ofSet s' c'.name).methods[m'.signature]? = some r →
          (m.name = m'.name ∧ m.descriptor = m'.descriptor) ∨ m.CutBy m' ∨ m'.CutBy m) ∧
      ('(' ∉ m.name.toList → '(' ∉ m'.name.toList → m.signature = m'.signature →
        m.name = m'.name ∧ m.descriptor = m'.descriptor) := by
  have hshared := signature_eq_iff hread hread' hm hm'
  refine ⟨hshared, fun s s' r h h' => ?_, fun hplain hplain' h => ?_⟩
  · have htarget := (target_of_getElem?_methods h).symm.trans (target_of_getElem?_methods h')
    rw [Target.method.injEq] at htarget
    exact hshared.1 htarget.2
  · rcases hshared.1 h with hsame | hcut | hcut
    · exact hsame
    · exact absurd hcut.parenthesis_mem hplain'
    · exact absurd hcut.parenthesis_mem hplain

end Shared

end RuleSet

/-! ## A class with two such methods -/

namespace Sample

/-- A class `A` with a private method `m` that has the class `(La` as its parameter, and a private
method `m(L` that has the class `a` as its parameter. -/
def fileOfTwo : List UInt8 :=
  [0xca, 0xfe, 0xba, 0xbe, 0, 0, 0, 52] ++
  [0, 7, 1, 0, 1, 65, 7, 0, 1, 1, 0, 1, 109, 1, 0, 8, 40, 76, 40, 76, 97, 59, 41, 86,
    1, 0, 3, 109, 40, 76, 1, 0, 6, 40, 76, 97, 59, 41, 86] ++
  [0, 33, 0, 2, 0, 0, 0, 0, 0, 0] ++
  [0, 2, 0, 2, 0, 3, 0, 4, 0, 0, 0, 2, 0, 5, 0, 6, 0, 0] ++
  [0, 0]

/-- The method `m`. -/
def shorterName : Method := ⟨2, 59, "m", "(L(La;)V", none⟩

/-- The method `m(L`. -/
def longerName : Method := ⟨2, 67, "m(L", "(La;)V", none⟩

/-- What the file is read as. -/
def parsedOfTwo : ClassFile where
  bytes := fileOfTwo
  minor := 0
  major := 52
  pool := ⟨#[.unusable, .utf8 "A", .classRef 1, .utf8 "m", .utf8 "(L(La;)V", .utf8 "m(L",
    .utf8 "(La;)V"]⟩
  flags := 33
  flagsOffset := 47
  name := "A"
  superName := none
  interfaces := []
  fields := []
  methods := [shorterName, longerName]
  innerClasses := []

/-- The file is a class file. -/
theorem read_fileOfTwo : ClassFile.read fileOfTwo = .ok parsedOfTwo := by decide +kernel

/-- A rule for the signature of both methods. -/
def ruleForTwo : Rule :=
  ⟨.method "A" "m(L(La;)V", .everywhere, Edits.none⟩

end Sample

namespace RuleSet

/-- The methods of the class share a signature, so one of them cuts that of the other, and one of
their names has a parenthesis in it. -/
theorem methods_of_signature_sample :
    ClassFile.read Sample.fileOfTwo = .ok Sample.parsedOfTwo ∧
      Sample.shorterName ∈ Sample.parsedOfTwo.methods ∧
      Sample.longerName ∈ Sample.parsedOfTwo.methods ∧
      (Sample.shorterName.CutBy Sample.longerName ∨ Sample.longerName.CutBy Sample.shorterName) ∧
      ¬('(' ∉ Sample.shorterName.name.toList ∧ '(' ∉ Sample.longerName.name.toList) := by
  have hm : Sample.shorterName ∈ Sample.parsedOfTwo.methods := List.mem_cons_self
  have hm' : Sample.longerName ∈ Sample.parsedOfTwo.methods :=
    List.mem_cons_of_mem _ (List.mem_singleton_self _)
  have hname : Sample.shorterName.name ≠ Sample.longerName.name := by decide
  have hsignature : Sample.shorterName.signature = Sample.longerName.signature := by decide
  obtain ⟨hshared, -, hplain⟩ :=
    methods_of_signature Sample.read_fileOfTwo Sample.read_fileOfTwo hm hm'
  refine ⟨Sample.read_fileOfTwo, hm, hm', ?_, fun h => hname (hplain h.1 h.2 hsignature).1⟩
  rcases hshared.1 hsignature with hsame | hcut
  · exact absurd hsame.1 hname
  · exact hcut

/-- **One rule opens two methods** of different names and descriptors. -/
theorem one_rule_for_two_methods :
    ClassFile.read Sample.fileOfTwo = .ok Sample.parsedOfTwo ∧
      Sample.parsedOfTwo.methods = [Sample.shorterName, Sample.longerName] ∧
      isMethodDescriptor Sample.shorterName.descriptor.toList = true ∧
      isMethodDescriptor Sample.longerName.descriptor.toList = true ∧
      Sample.shorterName.signature = Sample.longerName.signature ∧
      Sample.shorterName.name ≠ Sample.longerName.name ∧
      Sample.shorterName.descriptor ≠ Sample.longerName.descriptor ∧
      (∀ m ∈ Sample.parsedOfTwo.methods,
        (RuleIndex.ofSet (ofRules [Sample.ruleForTwo]) "A").methods[m.signature]? =
          some Sample.ruleForTwo) ∧
      ((ofRules [Sample.ruleForTwo]).widen Sample.fileOfTwo).map Report.changes =
        .ok [⟨.method "m(L(La;)V", 2, 1⟩, ⟨.method "m(L(La;)V", 2, 1⟩] := by
  refine ⟨Sample.read_fileOfTwo, rfl, by decide +kernel, by decide +kernel, by decide, by decide,
    by decide, by decide +kernel, by decide +kernel⟩

end RuleSet

end ClassAccess
