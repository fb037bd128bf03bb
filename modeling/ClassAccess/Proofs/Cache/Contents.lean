import ClassAccess.Cache.Blob
import ClassAccess.Proofs.Outcome
import ClassAccess.Proofs.Rule.CanonicalText
import ClassAccess.Proofs.RuleSet.Classes

/-!
# Payloads that are rule sets

A payload makes a rule set if its numbers are right and each rule in it is the one that its own text
reads as. Otherwise it is refused for the first thing that is wrong with it.

## Main definitions

* `StoredRule.Consistent`, `StoredRule.rebuilt` — whether a stored rule has the parts of a rule, and
  the rule that they make up.
* `StoredRule.Valid`, `StoredRule.Fault` — whether this rule is taken, and why not.
* `Payload.classNames` — the classes that the rules of a payload are about.

## Main results

* `Cache.rulesOf_eq_ok_iff`, `Cache.rulesOf_eq_error` — the rules of a payload.
* `Cache.ruleSetOf_eq_ok_iff`, `Cache.ruleSetOf_eq_error` — the rule set of a payload.
-/

set_option autoImplicit false

namespace ClassAccess

/-! ## Stored rules -/

namespace StoredRule

/-- There is a member exactly if the kind is not that of classes. -/
def Consistent (r : StoredRule) : Prop := r.member.isSome = true ↔ r.kind ≠ .classLevel

instance (r : StoredRule) : Decidable r.Consistent := inferInstanceAs (Decidable (_ ↔ _))

/-- The target that is made of the parts that are stored. -/
def target (r : StoredRule) : Target :=
  match r.kind with
  | .classLevel => .forClass r.className
  | .field => .forField r.className (r.member.getD "")
  | .method => .forMethod r.className (r.member.getD "")

/-- The rule that is made of the parts that are stored. -/
def rebuilt (r : StoredRule) : Rule := Rule.ofEdits r.target r.level r.edits

/-- A stored rule is taken if its parts fit together and make up a rule that its own text reads
as. -/
structure Valid (r : StoredRule) : Prop where
  /-- Its parts fit together. -/
  consistent : r.Consistent
  /-- The rule that they make up is read back from its text. -/
  readsBack : Rule.parseLine 1 r.rebuilt.text = .ok (some r.rebuilt)

/-- Why a stored rule is not taken. -/
inductive Fault (r : StoredRule) : CacheFault → Prop
  /-- Its parts do not fit together. -/
  | inconsistent : ¬ r.Consistent → Fault r (.inconsistentMember r.kind r.className r.member)
  /-- The text of the rule reads as another rule or as none. -/
  | changed {reread : Option Rule} : r.Consistent → Rule.parseLine 1 r.rebuilt.text = .ok reread →
    reread ≠ some r.rebuilt → Fault r (.changedByText r.rebuilt.text)
  /-- The text of the rule cannot be read. -/
  | unreadable {e : ParseError} : r.Consistent → Rule.parseLine 1 r.rebuilt.text = .error e →
    Fault r (.unreadable e)

end StoredRule

namespace Cache

/-- Parts that fit together make a target, and others are refused. -/
theorem targetOf_eq (r : StoredRule) :
    targetOf r = if r.Consistent then .ok r.target
      else .error (.inconsistentMember r.kind r.className r.member) := by
  obtain ⟨kind, className, member, level, edits⟩ := r
  cases kind with
  | classLevel =>
    cases member with
    | none => exact (if_pos (by simp [StoredRule.Consistent])).symm
    | some _ => exact (if_neg (by simp [StoredRule.Consistent])).symm
  | field | method =>
    cases member with
    | none => exact (if_neg (by simp [StoredRule.Consistent])).symm
    | some _ => exact (if_pos (by simp [StoredRule.Consistent])).symm

/-- A rule is taken if it is read back from its text. -/
theorem validated_eq_ok_iff {rule taken : Rule} :
    validated rule = .ok taken ↔ Rule.parseLine 1 rule.text = .ok (some rule) ∧ taken = rule := by
  rw [validated]
  constructor
  · intro h
    split at h
    · next reread hparse =>
      split_ifs at h with hreread
      cases h
      exact ⟨hreread ▸ hparse, rfl⟩
    all_goals cases h
  · rintro ⟨hparse, rfl⟩
    rw [hparse]
    exact if_pos rfl

/-- A rule is refused if its text reads as something else, or cannot be read. -/
theorem fault_of_validated {r : StoredRule} {fault : CacheFault}
    (h : validated r.rebuilt = .error fault) (hconsistent : r.Consistent) : r.Fault fault := by
  rw [validated] at h
  split at h
  · next reread hparse =>
    split_ifs at h with hreread
    cases h
    exact .changed hconsistent hparse fun he => hreread (Option.some.inj he)
  · next hparse =>
    cases h
    exact .changed hconsistent hparse nofun
  · next e hparse =>
    cases h
    exact .unreadable hconsistent hparse

/-- **A stored rule is taken** exactly if it is valid. -/
theorem ruleOf_eq_ok_iff {r : StoredRule} {rule : Rule} :
    ruleOf r = .ok rule ↔ r.Valid ∧ r.rebuilt = rule := by
  rw [ruleOf]
  by_cases h : r.Consistent
  · rw [targetOf_eq, if_pos h]
    refine validated_eq_ok_iff.trans ⟨?_, ?_⟩
    · rintro ⟨hparse, rfl⟩
      exact ⟨⟨h, hparse⟩, rfl⟩
    · rintro ⟨hvalid, rfl⟩
      exact ⟨hvalid.readsBack, rfl⟩
  · rw [targetOf_eq, if_neg h]
    exact ⟨nofun, fun hvalid => absurd hvalid.1.consistent h⟩

/-- **A stored rule that is not taken** has a fault. -/
theorem fault_of_ruleOf {r : StoredRule} {fault : CacheFault} (h : ruleOf r = .error fault) :
    ¬ r.Valid ∧ r.Fault fault := by
  refine ⟨fun hvalid => ?_, ?_⟩
  · rw [ruleOf_eq_ok_iff.2 ⟨hvalid, rfl⟩] at h
    cases h
  · rw [ruleOf] at h
    by_cases hconsistent : r.Consistent
    · rw [targetOf_eq, if_pos hconsistent] at h
      exact fault_of_validated h hconsistent
    · rw [targetOf_eq, if_neg hconsistent] at h
      cases h
      exact .inconsistent hconsistent

/-! ## Payloads -/

/-- The rules are looked at one by one. -/
theorem rulesOf_eq_mapM (l : List StoredRule) : rulesOf l = l.mapM ruleOf := by
  induction l with
  | nil => rfl
  | cons r l ih =>
    rw [rulesOf, ih, List.mapM_cons]

/-- **The rules of a payload** are taken exactly if each of them is valid. -/
theorem rulesOf_eq_ok_iff {l : List StoredRule} {rules : List Rule} :
    rulesOf l = .ok rules ↔ (∀ r ∈ l, r.Valid) ∧ l.map StoredRule.rebuilt = rules := by
  simp only [rulesOf_eq_mapM, mapM_eq_ok_iff, ruleOf_eq_ok_iff, List.forall₂_and_left]
  rw [← List.forall₂_map_left_iff (R := Eq), List.forall₂_eq_eq_eq]

/-- **Rules that are not taken** are refused for the first one that has a fault. -/
theorem rulesOf_eq_error {l : List StoredRule} {fault : CacheFault} (h : rulesOf l = .error fault) :
    ∃ before r after, l = before ++ r :: after ∧ (∀ b ∈ before, b.Valid) ∧ ¬ r.Valid ∧
      r.Fault fault := by
  rw [rulesOf_eq_mapM, mapM_eq_error_iff] at h
  obtain ⟨before, r, after, rfl, hbefore, hr⟩ := h
  refine ⟨before, r, after, rfl, fun b hb => ?_, fault_of_ruleOf hr⟩
  obtain ⟨rule, hrule⟩ := hbefore b hb
  exact (ruleOf_eq_ok_iff.1 hrule).1

end Cache

/-- The classes that the rules of a payload are about, each once. -/
def Payload.classNames (p : Payload) : List String :=
  (p.rules.map fun r => r.rebuilt.target.className).dedup

/-- The rule set that is made of a payload. -/
def Payload.ruleSet (p : Payload) : RuleSet := RuleSet.ofRules (p.rules.map StoredRule.rebuilt)

/-- It groups its rules by their classes. -/
theorem Payload.size_byClass_ruleSet (p : Payload) :
    p.ruleSet.byClass.size = p.classNames.length := by
  rw [RuleSet.size_byClass, classNames, ruleSet, RuleSet.ofRules, List.toList_toArray, List.map_map]
  rfl

namespace Cache

variable {p : Payload}

/-- A wrong number of rules is refused before any rule is looked at. -/
theorem ruleSetOf_of_ruleCount (h : p.ruleCount ≠ p.rules.length) :
    ruleSetOf p = .error (.ruleCount p.ruleCount p.rules.length) := by
  rw [ruleSetOf, if_pos h]
  rfl

/-- A rule with a fault is refused before the classes are counted. -/
theorem ruleSetOf_of_fault {fault : CacheFault} (hcount : p.ruleCount = p.rules.length)
    (h : rulesOf p.rules = .error fault) : ruleSetOf p = .error fault := by
  rw [ruleSetOf, if_neg (not_not_intro hcount), h]
  rfl

/-- Where the rules are valid, it remains to count the classes. -/
theorem ruleSetOf_of_valid (hcount : p.ruleCount = p.rules.length) (h : ∀ r ∈ p.rules, r.Valid) :
    ruleSetOf p = if p.classNames.length = p.classCount then .ok p.ruleSet
      else .error (.classCount p.classCount p.classNames.length) := by
  rw [ruleSetOf, if_neg (not_not_intro hcount), rulesOf_eq_ok_iff.2 ⟨h, rfl⟩,
    ← p.size_byClass_ruleSet]
  show (if p.ruleSet.byClass.size ≠ p.classCount then _ else _) = _
  by_cases hclasses : p.ruleSet.byClass.size = p.classCount
  · rw [if_neg (not_not_intro hclasses), if_pos hclasses]
    rfl
  · rw [if_pos hclasses, if_neg hclasses]
    rfl

/-- **A payload makes a rule set** exactly if its numbers are right and its rules are valid. -/
theorem ruleSetOf_eq_ok_iff {s : RuleSet} :
    ruleSetOf p = .ok s ↔ p.ruleCount = p.rules.length ∧ (∀ r ∈ p.rules, r.Valid) ∧
      p.classCount = p.classNames.length ∧ p.ruleSet = s := by
  constructor
  · intro h
    by_cases hcount : p.ruleCount = p.rules.length
    · cases hrules : rulesOf p.rules with
      | error fault => rw [ruleSetOf_of_fault hcount hrules] at h; cases h
      | ok rules =>
        have hvalid := (rulesOf_eq_ok_iff.1 hrules).1
        rw [ruleSetOf_of_valid hcount hvalid] at h
        split_ifs at h with hclasses
        exact ⟨hcount, hvalid, hclasses.symm, Except.ok.inj h⟩
    · rw [ruleSetOf_of_ruleCount hcount] at h
      cases h
  · rintro ⟨hcount, hvalid, hclasses, rfl⟩
    rw [ruleSetOf_of_valid hcount hvalid, if_pos hclasses.symm]

/-- **A payload that makes no rule set** is refused for its number of rules, else for the first rule
that is not valid, else for its number of classes. -/
theorem ruleSetOf_eq_error {fault : CacheFault} (h : ruleSetOf p = .error fault) :
    p.ruleCount ≠ p.rules.length ∧ fault = .ruleCount p.ruleCount p.rules.length ∨
      p.ruleCount = p.rules.length ∧ (∃ before r after, p.rules = before ++ r :: after ∧
        (∀ b ∈ before, b.Valid) ∧ ¬ r.Valid ∧ r.Fault fault) ∨
      p.ruleCount = p.rules.length ∧ (∀ r ∈ p.rules, r.Valid) ∧ p.classCount ≠ p.classNames.length ∧
        fault = .classCount p.classCount p.classNames.length := by
  by_cases hcount : p.ruleCount = p.rules.length
  · cases hrules : rulesOf p.rules with
    | error fault' =>
      rw [ruleSetOf_of_fault hcount hrules] at h
      cases h
      exact .inr (.inl ⟨hcount, rulesOf_eq_error hrules⟩)
    | ok rules =>
      have hvalid := (rulesOf_eq_ok_iff.1 hrules).1
      rw [ruleSetOf_of_valid hcount hvalid] at h
      split_ifs at h with hclasses
      cases h
      exact .inr (.inr ⟨hcount, hvalid, Ne.symm hclasses, rfl⟩)
  · rw [ruleSetOf_of_ruleCount hcount] at h
    cases h
    exact .inl ⟨hcount, rfl⟩

end Cache

end ClassAccess
