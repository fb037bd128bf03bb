import ClassAccess.Proofs.ClassFile.DescriptorGrammar
import ClassAccess.Proofs.Text.Trim
import ClassAccess.RuleSet.Warning

/-!
# Rules that no plain name makes

A rule for a method is found by the name of the method, directly followed by its descriptor. The
warnings about rules that cannot be found cut the text of a rule at its first parenthesis. So they
tell of the rules that no name without a parenthesis makes, whatever descriptor follows it.

## Main definitions

* `Warning.unmatchable?` — the rule that a warning says is never found.
* `IsPlainName` — names that are cut off at the first parenthesis.

## Main results

* `Warning.filterMap_unmatchable?_ofRules` — the rules that are warned about.
* `Warning.isUnmatchable_iff` — what is the matter with them.
-/

set_option autoImplicit false

namespace ClassAccess

/-- The rule that a warning says is never found. -/
def Warning.unmatchable? : Warning → Option Rule
  | unmatchableMethod rule => some rule
  | _ => none

/-- A name that is not empty and has no parenthesis at which a descriptor could start. -/
structure IsPlainName (name : List Char) : Prop where
  /-- There is something in the name. -/
  nonempty : name ≠ []
  /-- There is no parenthesis in it. -/
  noParenthesis : '(' ∉ name

instance (name : List Char) : Decidable (IsPlainName name) :=
  decidable_of_iff (name ≠ [] ∧ '(' ∉ name) ⟨fun h => ⟨h.1, h.2⟩, fun h => ⟨h.1, h.2⟩⟩

/-- The descriptor of a method starts with a parenthesis. -/
theorem exists_of_isMethodDescriptor {descriptor : List Char}
    (h : isMethodDescriptor descriptor = true) : ∃ rest, descriptor = '(' :: rest := by
  obtain ⟨t, -, rfl⟩ := isMethodDescriptor_iff.1 h
  exact ⟨_, t.text_eq⟩

namespace Warning

open Text (IsSpan isSpan_iff isSpan_of_notMem)

/-- A text is cut into a name and a descriptor at its first parenthesis, if it is made of them. -/
theorem isSignature_iff {signature : List Char} :
    isSignature signature = true ↔ ∃ name descriptor, IsPlainName name ∧
      isMethodDescriptor descriptor = true ∧ signature = name ++ descriptor := by
  rw [isSignature, Bool.and_eq_true, Bool.not_eq_true', List.isEmpty_eq_false_iff]
  constructor
  · intro h
    obtain ⟨hname, hdescriptor⟩ := h
    refine ⟨_, _, ⟨hname, ?_⟩, hdescriptor, List.takeWhile_append_dropWhile.symm⟩
    intro hmem
    simpa using List.mem_takeWhile_imp hmem
  · intro h
    obtain ⟨name, descriptor, hname, hdescriptor, rfl⟩ := h
    obtain ⟨rest, rfl⟩ := exists_of_isMethodDescriptor hdescriptor
    have hspan : IsSpan (· ≠ '(') (name ++ '(' :: rest) name ('(' :: rest) :=
      isSpan_of_notMem hname.noParenthesis
    obtain ⟨htake, hdrop⟩ := isSpan_iff.1 hspan
    rw [htake, hdrop]
    exact ⟨hname.nonempty, hdescriptor⟩

/-- **The rules that are warned about** are those for single methods that no plain name makes,
whatever descriptor follows it. -/
theorem isUnmatchable_iff {r : Rule} :
    isUnmatchable r = true ↔ ∃ className signature, r.target = .method className signature ∧
      signature ≠ Target.anyMethod ∧
        ∀ name descriptor, IsPlainName name → isMethodDescriptor descriptor = true →
          signature.toList ≠ name ++ descriptor := by
  obtain ⟨target, level, edits⟩ := r
  cases target with
  | classLevel c => simp [isUnmatchable]
  | field c name => simp [isUnmatchable]
  | method c signature =>
    have hsignature : isSignature signature.toList = false ↔ ∀ name descriptor, IsPlainName name →
        isMethodDescriptor descriptor = true → signature.toList ≠ name ++ descriptor := by
      rw [← Bool.not_eq_true, isSignature_iff]
      simp only [not_exists, not_and, Ne]
    have hunmatchable : isUnmatchable ⟨.method c signature, level, edits⟩ = true ↔
        signature ≠ Target.anyMethod ∧ isSignature signature.toList = false := by
      simp [isUnmatchable, Target.isWildcard]
    rw [hunmatchable, hsignature]
    constructor
    · intro h
      exact ⟨c, signature, rfl, h⟩
    · intro h
      obtain ⟨className, text, htarget, h⟩ := h
      cases htarget
      exact h

/-- A rule for all methods, or for a method with a plain name and a descriptor, is not warned
about. -/
theorem isUnmatchable_eq_false {r : Rule} {className signature : String}
    (hr : r.target = .method className signature)
    (h : signature = Target.anyMethod ∨ ∃ name descriptor, IsPlainName name ∧
      isMethodDescriptor descriptor = true ∧ signature.toList = name ++ descriptor) :
    isUnmatchable r = false := by
  rw [← Bool.not_eq_true, isUnmatchable_iff]
  intro hwarned
  obtain ⟨className', signature', hr', hne, hnone⟩ := hwarned
  rw [hr] at hr'
  cases hr'
  rcases h with h | h
  · exact hne h
  · obtain ⟨name, descriptor, hname, hdescriptor, hsignature⟩ := h
    exact hnone name descriptor hname hdescriptor hsignature

/-- Warnings about duplicate rules for classes are of one kind. -/
theorem exists_of_mem_duplicateClassRules {firsts rules : List Rule} {w : Warning}
    (h : w ∈ duplicateClassRules firsts rules) :
    ∃ kept ignored, w = duplicateClassRule kept ignored := by
  induction rules generalizing firsts with
  | nil => cases h
  | cons r rules ih =>
    rw [duplicateClassRules] at h
    split at h
    · split at h
      · rcases List.mem_cons.1 h with rfl | h
        · exact ⟨_, _, rfl⟩
        · exact ih h
      · exact ih h
    · exact ih h

/-- **Each rule that cannot be found is warned about**, and no other rule is in that way. -/
theorem filterMap_unmatchable?_ofRules (rules : List Rule) :
    (ofRules rules).filterMap unmatchable? = rules.filter isUnmatchable := by
  have hclass : (duplicateClassRules [] rules).filterMap unmatchable? = [] := by
    rw [List.filterMap_eq_nil_iff]
    intro w hw
    obtain ⟨kept, ignored, rfl⟩ := exists_of_mem_duplicateClassRules hw
    rfl
  have hmember : ((shadowedRules rules).map duplicateMemberRule).filterMap unmatchable? = [] := by
    rw [List.filterMap_map, List.filterMap_eq_nil_iff]
    intro r _
    rfl
  have hmethod : ((rules.filter isUnmatchable).map unmatchableMethod).filterMap unmatchable? =
      rules.filter isUnmatchable := by
    rw [List.filterMap_map]
    exact List.filterMap_some
  rw [ofRules, List.filterMap_append, List.filterMap_append, hclass, hmember, hmethod]
  rfl

end Warning

end ClassAccess
